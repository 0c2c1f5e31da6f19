import Mathlib.Data.List.Induction
import DistWalk.Scanning

/-!
# The options that describe storage devices

Each `--storage` writes the entry of `storage_worker_infos` at the number of devices so
far, and moves this number on by the count of the entry. Where the options start and how
many devices they describe follows from what they give alone; the parser computes that,
as long as it stays inside the table.
-/

namespace StorageOptions

open Scanning

universe u v w

/-! ## The last value that a list gives -/

section Last

variable {α : Type u} {β : Type v} (gives : α → Option β)

def lastGiven (l : List α) : Option β := l.reverse.findSome? gives

theorem lastGiven_append (a b : List α) : lastGiven gives (a ++ b) = (lastGiven gives b).or (lastGiven gives a) := by
  rw [lastGiven, List.reverse_append, List.findSome?_append]
  rfl

theorem lastGiven_cons (x : α) (l : List α) : lastGiven gives (x :: l) = (lastGiven gives l).or (gives x) := by
  rw [← List.singleton_append, lastGiven_append]
  simp [lastGiven]

theorem lastGiven_mem {l : List α} {b : β} (given : lastGiven gives l = some b) : ∃ x ∈ l, gives x = some b := by
  obtain ⟨x, member, value⟩ := List.exists_of_findSome?_eq_some given
  exact ⟨x, List.mem_reverse.mp member, value⟩

/-- A fold keeps in one place the last value that came for it. -/
theorem foldl_lastGiven {σ : Type w} (place : σ → β) {update : σ → α → σ}
    (updated : ∀ s x, place (update s x) = (gives x).getD (place s)) (l : List α) (s : σ) :
    place (l.foldl update s) = (lastGiven gives l).getD (place s) := by
  induction l generalizing s with
  | nil => rfl
  | cons x l ih =>
    rw [List.foldl_cons, ih, updated, lastGiven_cons]
    cases lastGiven gives l <;> rfl

end Last

/-! ## One option -/

def maxStorageDevices : Int := 16
def maxStoragePathStr : Nat := 100

def intMin : Int := -2 ^ 31
def intMax : Int := 2 ^ 31 - 1

/-- `strtol`: a number that a long does not hold is cut off at its bounds. -/
def atol (s : List Char) : Int := max (-2 ^ 63) (min (2 ^ 63 - 1) (((scanInt s).map (·.1)).getD 0))

/-- The int that is left of the long. -/
def atoi (s : List Char) : Int := (BitVec.ofInt 32 (atol s)).toInt

inductive Field
  | file (path : List Char)
  | size (bytes : BitVec 64)
  | count (n : Int)
  | sync (msec : Int)
  | odirect
  | waitSpin
  deriving DecidableEq

def storageField (tok : List Char) : Field :=
  if "file=".toList.isPrefixOf tok then .file (tok.drop 5)
  else if "size=".toList.isPrefixOf tok then .size (BitVec.ofInt 64 (atol (tok.drop 5)))
  else if "count=".toList.isPrefixOf tok then .count (atoi (tok.drop 6))
  else if "sync=".toList.isPrefixOf tok then .sync (atoi (tok.drop 5))
  else if "odirect".toList.isPrefixOf tok then .odirect
  else if "wait-spin".toList.isPrefixOf tok then .waitSpin
  else .file tok

/-- The tokens that `strsep` returns as long as something is left, the first of which
begins with `tok`. -/
def storageToks (tok : List Char) : List Char → List (List Char)
  | [] => [tok]
  | [c] => if c = ',' then [tok] else [tok ++ [c]]
  | c :: c' :: rest => if c = ',' then tok :: storageToks [] (c' :: rest) else storageToks (tok ++ [c]) (c' :: rest)

def storageFields (arg : List Char) : List Field := (storageToks [] arg).map storageField

/-- What the options and the defaults of an entry set. -/
structure StorageWorkerInfo where
  periodicSyncMsec : Int
  useWaitSpin : Int
  count : Int
  storagePath : List Char
  useOdirect : Int
  maxStorageSize : BitVec 64
  deriving DecidableEq

def StorageWorkerInfo.init : StorageWorkerInfo := ⟨-1, -1, 1, [], -1, -1⟩

/-- `strncpy` copies at most `MAX_STORAGE_PATH_STR` characters, and a path of so many is
not terminated. -/
def setField (info : StorageWorkerInfo) : Field → StorageWorkerInfo
  | .file path => { info with storagePath := path.take maxStoragePathStr }
  | .size bytes => { info with maxStorageSize := bytes }
  | .count n => { info with count := n }
  | .sync msec => { info with periodicSyncMsec := msec }
  | .odirect => { info with useOdirect := 1 }
  | .waitSpin => { info with useWaitSpin := 1 }

def givesCount : Field → Option Int
  | .count n => some n
  | _ => none

def givesPath : Field → Option (List Char)
  | .file path => some (path.take maxStoragePathStr)
  | _ => none

/-- The settings that have a global default, as numbers. -/
inductive Setting
  | sync
  | spin
  | odirect
  | size

def StorageWorkerInfo.value (info : StorageWorkerInfo) : Setting → Int
  | .sync => info.periodicSyncMsec
  | .spin => info.useWaitSpin
  | .odirect => info.useOdirect
  | .size => info.maxStorageSize.toInt

def gives : Setting → Field → Option Int
  | .sync, .sync msec => some msec
  | .spin, .waitSpin => some 1
  | .odirect, .odirect => some 1
  | .size, .size bytes => some bytes.toInt
  | _, _ => none

theorem setField_value (s : Setting) (info : StorageWorkerInfo) (f : Field) :
    (setField info f).value s = (gives s f).getD (info.value s) := by
  cases s <;> cases f <;> rfl

theorem setField_count (info : StorageWorkerInfo) (f : Field) :
    (setField info f).count = (givesCount f).getD info.count := by
  cases f <;> rfl

theorem setField_path (info : StorageWorkerInfo) (f : Field) :
    (setField info f).storagePath = (givesPath f).getD info.storagePath := by
  cases f <;> rfl

/-- An entry that nothing was set of has no setting. -/
theorem init_value (s : Setting) : StorageWorkerInfo.init.value s = -1 := by
  cases s <;> rfl

/-! ## The parser -/

/-- How the setup stops short: by `exit()`, or where what the code does is undefined. -/
inductive Stop
  | exited
  | undefined
  deriving DecidableEq

abbrev Table := Int → StorageWorkerInfo

structure Setup where
  infos : Table
  storageDevices : Int

def readField (storageDevices : Int) (info : StorageWorkerInfo) (f : Field) : Except Stop StorageWorkerInfo :=
  match givesCount f with
  | some n =>
    if intMax < storageDevices + n then .error .undefined
    else if maxStorageDevices < storageDevices + n then .error .exited
    else .ok (setField info f)
  | none => .ok (setField info f)

/-- The handler of STORAGE_OPT_ARG. Before the table there is nothing to write to. -/
def storageOption (st : Setup) (arg : List Char) : Except Stop Setup :=
  if maxStorageDevices ≤ st.storageDevices then .error .exited
  else if st.storageDevices < 0 then .error .undefined
  else do
    let info ← (storageFields arg).foldlM (readField st.storageDevices) (st.infos st.storageDevices)
    return ⟨Function.update st.infos st.storageDevices info, st.storageDevices + info.count⟩

def parseOptions (args : List (List Char)) : Except Stop Setup := args.foldlM storageOption ⟨fun _ => .init, 0⟩

/-! ## Where the options start -/

/-- An option, the first of its devices and how many it describes. -/
structure Group where
  start : Int
  count : Int
  fields : List Field
  deriving DecidableEq

/-- The device ids in the range of an option. -/
def Group.contains (g : Group) (d : Int) : Bool := decide (g.start ≤ d ∧ d < g.start + g.count)

/-- What the options give that start at a position. -/
def fieldsAt (gs : List Group) (pos : Int) : List Field := (gs.filter (·.start = pos)).flatMap (·.fields)

/-- An option without a count takes over the one that is there. -/
def countAt (gs : List Group) (pos : Int) (fs : List Field) : Int :=
  (lastGiven givesCount (fieldsAt gs pos ++ fs)).getD 1

def addGroup (p : List Group × Int) (fs : List Field) : List Group × Int :=
  (p.1 ++ [⟨p.2, countAt p.1 p.2 fs, fs⟩], p.2 + countAt p.1 p.2 fs)

def placeGroups (opts : List (List Field)) : List Group × Int := opts.foldl addGroup ([], 0)

theorem fieldsAt_append (a b : List Group) (pos : Int) : fieldsAt (a ++ b) pos = fieldsAt a pos ++ fieldsAt b pos := by
  rw [fieldsAt, List.filter_append, List.flatMap_append]
  rfl

theorem fieldsAt_here {g : Group} {pos : Int} (here : g.start = pos) : fieldsAt [g] pos = g.fields := by
  simp [fieldsAt, here]

theorem fieldsAt_none {gs : List Group} {pos : Int} (elsewhere : ∀ g ∈ gs, g.start ≠ pos) : fieldsAt gs pos = [] := by
  rw [fieldsAt, List.filter_eq_nil_iff.mpr fun g member => by simpa using elsewhere g member]
  rfl

/-- The entry that the options leave at a position. -/
def entryOf (gs : List Group) (pos : Int) : StorageWorkerInfo := (fieldsAt gs pos).foldl setField .init

theorem foldl_entryOf_count (gs : List Group) (pos : Int) (fs : List Field) :
    (fs.foldl setField (entryOf gs pos)).count = countAt gs pos fs := by
  rw [entryOf, ← List.foldl_append]
  exact foldl_lastGiven givesCount (fun info : StorageWorkerInfo => info.count) setField_count _ _

theorem entryOf_addGroup (p : List Group × Int) (fs : List Field) (pos : Int) :
    entryOf (addGroup p fs).1 pos = if pos = p.2 then fs.foldl setField (entryOf p.1 pos) else entryOf p.1 pos := by
  have whole : entryOf (addGroup p fs).1 pos =
      (fieldsAt p.1 pos ++ fieldsAt [⟨p.2, countAt p.1 p.2 fs, fs⟩] pos).foldl setField .init := by
    rw [← fieldsAt_append]
    rfl
  rw [whole]
  split
  · rename_i here
    rw [fieldsAt_here here.symm, List.foldl_append]
    rfl
  · rename_i elsewhere
    have nothing : fieldsAt [⟨p.2, countAt p.1 p.2 fs, fs⟩] pos = [] :=
      fieldsAt_none fun g member => List.mem_singleton.mp member ▸ Ne.symm elsewhere
    rw [nothing, List.append_nil]
    rfl

theorem entryOf_path (gs : List Group) (pos : Int) :
    (entryOf gs pos).storagePath = (lastGiven givesPath (fieldsAt gs pos)).getD [] :=
  foldl_lastGiven givesPath (fun info : StorageWorkerInfo => info.storagePath) setField_path _ _

theorem entryOf_value (s : Setting) (gs : List Group) (pos : Int) :
    (entryOf gs pos).value s = (lastGiven (gives s) (fieldsAt gs pos)).getD (-1) := by
  rw [← init_value s]
  exact foldl_lastGiven (gives s) (fun info : StorageWorkerInfo => info.value s) (setField_value s) _ _

/-! ## The parser computes the places -/

/-- Where a field fails, its count is too large. -/
theorem readField_cases (storageDevices : Int) (info : StorageWorkerInfo) (f : Field) :
    (readField storageDevices info f = .ok (setField info f) ∧
      ∀ n, givesCount f = some n → storageDevices + n ≤ maxStorageDevices) ∨
    readField storageDevices info f = .error .exited ∨
    readField storageDevices info f = .error .undefined ∧ ∃ n, givesCount f = some n ∧ intMax < storageDevices + n := by
  rw [readField]
  cases given : givesCount f with
  | none => exact Or.inl ⟨rfl, fun n none_ => by cases none_⟩
  | some n =>
    simp only
    split
    · rename_i large
      exact Or.inr (Or.inr ⟨rfl, n, rfl, large⟩)
    · split
      · exact Or.inr (Or.inl rfl)
      · rename_i fits
        refine Or.inl ⟨rfl, fun m same => ?_⟩
        cases same
        exact not_lt.mp fits

theorem readFields_cases (storageDevices : Int) (info : StorageWorkerInfo) (fs : List Field) :
    (fs.foldlM (readField storageDevices) info = .ok (fs.foldl setField info) ∧
      ∀ f ∈ fs, ∀ n, givesCount f = some n → storageDevices + n ≤ maxStorageDevices) ∨
    fs.foldlM (readField storageDevices) info = .error .exited ∨
    fs.foldlM (readField storageDevices) info = .error .undefined ∧
      ∃ f ∈ fs, ∃ n, givesCount f = some n ∧ intMax < storageDevices + n := by
  induction fs generalizing info with
  | nil => exact Or.inl ⟨rfl, fun f member => by cases member⟩
  | cons f fs ih =>
    rw [List.foldlM_cons]
    rcases readField_cases storageDevices info f with ⟨same, fits⟩ | same | ⟨same, large⟩
    · rw [same]
      rcases ih (setField info f) with ⟨rest, fit⟩ | rest | ⟨rest, f', member, large⟩
      · exact Or.inl ⟨rest, List.forall_mem_cons.mpr ⟨fits, fit⟩⟩
      · exact Or.inr (Or.inl rest)
      · exact Or.inr (Or.inr ⟨rest, f', List.mem_cons_of_mem f member, large⟩)
    · exact Or.inr (Or.inl (by rw [same]; rfl))
    · exact Or.inr (Or.inr ⟨by rw [same]; rfl, f, List.mem_cons_self, large⟩)

/-- The table and the number of devices are those of the places, which lie in the table. -/
structure Parsed (p : List Group × Int) (st : Setup) : Prop where
  infos : ∀ i, st.infos i = entryOf p.1 i
  devices : st.storageDevices = p.2
  room : p.2 ≤ maxStorageDevices
  starts : ∀ g ∈ p.1, 0 ≤ g.start
  ends : ∀ g ∈ p.1, g.start + g.count ≤ maxStorageDevices
  fit : ∀ g ∈ p.1, ∀ f ∈ g.fields, ∀ n, givesCount f = some n → g.start + n ≤ maxStorageDevices

/-- What the options ask of the ints that count devices. -/
structure InInts (gs : List Group) : Prop where
  starts : ∀ g ∈ gs, 0 ≤ g.start
  counts : ∀ g ∈ gs, ∀ f ∈ g.fields, ∀ n, givesCount f = some n → g.start + n ≤ intMax

/-- A new option ends in the table, whether it gives its count or finds it. -/
theorem Parsed.countAt_fit {p : List Group × Int} {st : Setup} (parsed : Parsed p st) {pos : Int} {fs : List Field}
    (inside : pos < maxStorageDevices) (fits : ∀ f ∈ fs, ∀ n, givesCount f = some n → pos + n ≤ maxStorageDevices) :
    pos + countAt p.1 pos fs ≤ maxStorageDevices := by
  rw [countAt]
  cases given : lastGiven givesCount (fieldsAt p.1 pos ++ fs) with
  | none =>
    rw [Option.getD_none]
    exact Int.add_one_le_of_lt inside
  | some n =>
    obtain ⟨f, member, gives_⟩ := lastGiven_mem givesCount given
    rw [Option.getD_some]
    rcases List.mem_append.mp member with before | own
    · obtain ⟨g, listed, field⟩ := List.mem_flatMap.mp before
      obtain ⟨there, here⟩ := List.mem_filter.mp listed
      have here : g.start = pos := of_decide_eq_true here
      rw [← here]
      exact parsed.fit g there f field n gives_
    · exact fits f own n gives_

/-- The option after the ones that were parsed. -/
theorem storageOption_cases {p : List Group × Int} {st : Setup} (parsed : Parsed p st) (arg : List Char) :
    (∃ st', storageOption st arg = .ok st' ∧ Parsed (addGroup p (storageFields arg)) st') ∨
    storageOption st arg = .error .exited ∨
    storageOption st arg = .error .undefined ∧ ¬ InInts (addGroup p (storageFields arg)).1 := by
  have added : (⟨p.2, countAt p.1 p.2 (storageFields arg), storageFields arg⟩ : Group) ∈
      (addGroup p (storageFields arg)).1 := List.mem_append_right _ (List.mem_singleton_self _)
  rw [storageOption, parsed.devices, parsed.infos]
  split
  · exact Or.inr (Or.inl rfl)
  · rename_i inside
    split
    · rename_i negative
      exact Or.inr (Or.inr ⟨rfl, fun ints => absurd (ints.starts _ added) (not_le.mpr negative)⟩)
    · rename_i nonneg
      rcases readFields_cases p.2 (entryOf p.1 p.2) (storageFields arg) with ⟨same, fits⟩ | same |
        ⟨same, f, member, n, given, large⟩
      · rw [same]
        have fit := parsed.countAt_fit (not_le.mp inside) fits
        refine Or.inl ⟨_, rfl, ?_, ?_, fit, ?_, ?_, ?_⟩
        · intro i
          rw [entryOf_addGroup]
          split
          · rename_i here
            subst here
            exact Function.update_self ..
          · rename_i elsewhere
            exact (Function.update_of_ne elsewhere ..).trans (parsed.infos i)
        · exact congrArg (p.2 + ·) (foldl_entryOf_count ..)
        · intro g member
          rcases List.mem_append.mp member with old | new
          · exact parsed.starts g old
          · rw [List.mem_singleton.mp new]
            exact not_lt.mp nonneg
        · intro g member
          rcases List.mem_append.mp member with old | new
          · exact parsed.ends g old
          · rw [List.mem_singleton.mp new]
            exact fit
        · intro g member
          rcases List.mem_append.mp member with old | new
          · exact parsed.fit g old
          · rw [List.mem_singleton.mp new]
            exact fits
      · exact Or.inr (Or.inl (by rw [same]; rfl))
      · refine Or.inr (Or.inr ⟨by rw [same]; rfl, fun ints => ?_⟩)
        exact absurd (ints.counts _ added f member n given) (not_le.mpr large)

theorem mem_placed {g : Group} (opts : List (List Field)) (p : List Group × Int) (placed : g ∈ p.1) :
    g ∈ (opts.foldl addGroup p).1 := by
  induction opts generalizing p with
  | nil => exact placed
  | cons fs opts ih => exact ih (addGroup p fs) (List.mem_append_left _ placed)

theorem InInts.subset {gs gs' : List Group} (ints : InInts gs) (listed : ∀ g ∈ gs', g ∈ gs) : InInts gs' :=
  ⟨fun g member => ints.starts g (listed g member), fun g member => ints.counts g (listed g member)⟩

/-- Options that the parser accepts are placed as it places them, if they ask no more of
its ints than they hold. -/
theorem parse_cases (args : List (List Char)) {p : List Group × Int} {st : Setup} (parsed : Parsed p st) :
    (∃ st', args.foldlM storageOption st = .ok st' ∧ Parsed ((args.map storageFields).foldl addGroup p) st') ∨
    args.foldlM storageOption st = .error .exited ∨
    args.foldlM storageOption st = .error .undefined ∧
      ¬ InInts ((args.map storageFields).foldl addGroup p).1 := by
  induction args generalizing p st with
  | nil => exact Or.inl ⟨st, rfl, parsed⟩
  | cons arg args ih =>
    rw [List.foldlM_cons, List.map_cons, List.foldl_cons]
    rcases storageOption_cases parsed arg with ⟨st', same, parsed'⟩ | same | ⟨same, beyond⟩
    · rw [same]
      exact ih parsed'
    · exact Or.inr (Or.inl (by rw [same]; rfl))
    · refine Or.inr (Or.inr ⟨by rw [same]; rfl, fun ints => beyond (ints.subset fun g member => ?_)⟩)
      exact mem_placed _ _ member

/-- What the parser accepted asks no more of its ints than they hold. -/
theorem Parsed.inInts {p : List Group × Int} {st : Setup} (parsed : Parsed p st) : InInts p.1 where
  starts := parsed.starts
  counts := fun g listed f member n given => (parsed.fit g listed f member n given).trans (by decide)

theorem parsed_init : Parsed ([], 0) ⟨fun _ => .init, 0⟩ where
  infos := fun _ => rfl
  devices := rfl
  room := by decide
  starts := fun _ member => by cases member
  ends := fun _ member => by cases member
  fit := fun _ member => by cases member

/-- The count of an option is the last one given at its position. -/
theorem placed_count (opts : List (List Field)) {before after : List Group} {g : Group}
    (split : (placeGroups opts).1 = before ++ g :: after) : g.count = countAt before g.start g.fields := by
  induction opts using List.reverseRecOn generalizing after with
  | nil => simp [placeGroups] at split
  | append_singleton opts fs ih =>
    rw [placeGroups, List.foldl_append] at split
    rcases List.eq_nil_or_concat after with rfl | ⟨after, last, rfl⟩
    · obtain ⟨same, end_⟩ := List.append_inj' split rfl
      cases end_
      rw [← same]
    · have moved : before ++ g :: (after.concat last) = (before ++ g :: after) ++ [last] := by simp
      rw [moved] at split
      exact ih (List.append_inj' split rfl).1

end StorageOptions
