import Mathlib.Data.List.Infix
import Mathlib.Tactic.Common
import DistWalk.StorageOptions
import DistWalk.WhileLoops

/-!
# Setting up the storage devices

After the options, `main` goes through `storage_worker_infos`: it fills in the global
defaults, makes the path, copies the entry for the other devices of its count and moves
on by the count. Every device gets the settings of the option whose range it lies in
exactly when the ranges are apart and nothing is left over from another option. A count
of 0 is accepted, and the loop stays where it is.
-/

namespace StorageSetup

open StorageOptions WhileLoops

/-! ## The defaults -/

/-- The environment, `snprintf` of a template with one int, where the template asks for no
other argument, and the global defaults. -/
structure Env where
  home : Option (List Char)
  snprintf : List Char → Option (Int → List Char)
  periodicSyncMsec : Int
  useWaitSpinStorage : Int
  useOdirect : Int
  maxStorageSize : BitVec 64

def Env.default (e : Env) : Setting → Int
  | .sync => e.periodicSyncMsec
  | .spin => e.useWaitSpinStorage
  | .odirect => e.useOdirect
  | .size => e.maxStorageSize.toInt

def setDefaults (e : Env) (info : StorageWorkerInfo) : StorageWorkerInfo :=
  { info with
    periodicSyncMsec := if info.periodicSyncMsec = -1 then e.periodicSyncMsec else info.periodicSyncMsec
    useWaitSpin := if info.useWaitSpin = -1 then e.useWaitSpinStorage else info.useWaitSpin
    useOdirect := if info.useOdirect = -1 then e.useOdirect else info.useOdirect
    maxStorageSize := if info.maxStorageSize = -1 then e.maxStorageSize else info.maxStorageSize }

/-- What a setting comes to. -/
def Env.resolve (e : Env) (s : Setting) (v : Int) : Int := if v = -1 then e.default s else v

theorem setDefaults_value (e : Env) (s : Setting) (info : StorageWorkerInfo) :
    (setDefaults e info).value s = e.resolve s (info.value s) := by
  cases s with
  | size =>
    have unset : info.maxStorageSize = -1 ↔ info.maxStorageSize.toInt = -1 := by
      rw [← BitVec.toInt_inj]
      rfl
    simp only [setDefaults, StorageWorkerInfo.value, Env.resolve, Env.default, unset]
    exact apply_ite BitVec.toInt _ _ _
  | _ => rfl

/-! ## The paths -/

def pathTemplate : Nat := 1024

/-- `snprintf` into `storage_path`. -/
def printed (e : Env) (template : List Char) : Run Stop (Int → List Char) :=
  match e.snprintf template with
  | none => throw .undefined
  | some name => return fun i => (name i).take (maxStoragePathStr - 1)

/-- What `snprintf` makes of `"%s/.dw_store_%%d"`. -/
def homeTemplate (home : List Char) : List Char := (home ++ "/.dw_store_%d".toList).take (pathTemplate - 1)

/-- The path with the index in it, or behind it. -/
def indexTemplate (path : List Char) : List Char :=
  if "%d".toList <:+: path then path else path ++ "_%d".toList

/-- The paths of the devices that an entry is for. A path that fills the array cannot be
read as a string. -/
def naming (e : Env) (path : List Char) (count : Int) : Run Stop (Int → List Char) :=
  if path = [] then
    match e.home with
    | none => throw .undefined
    | some home => printed e (homeTemplate home)
  else if count > 1 then
    if path.length < maxStoragePathStr then printed e (indexTemplate path) else throw .undefined
  else return fun _ => path

/-! ## The loop -/

/-- A copy of the settings for another device. -/
def copyInfo (info info2 : StorageWorkerInfo) (path : List Char) : StorageWorkerInfo :=
  { info2 with
    periodicSyncMsec := info.periodicSyncMsec
    useWaitSpin := info.useWaitSpin
    useOdirect := info.useOdirect
    maxStorageSize := info.maxStorageSize
    storagePath := path }

/-- The copies to the `n` entries behind `i`. -/
def replicateInfo (info : StorageWorkerInfo) (name : Int → List Char) (i : Int) : Nat → Table → Table
  | 0, infos => infos
  | n + 1, infos =>
    let infos := replicateInfo info name i n infos
    let j := i + (n + 1 : Nat)
    Function.update infos j (copyInfo info (infos j) (name j))

/-- The table after the round for the entry at `i`. -/
def setEntry (e : Env) (name : Int → List Char) (i : Int) (infos : Table) : Table :=
  let info := { setDefaults e (infos i) with storagePath := name i }
  replicateInfo info name i (info.count - 1).toNat (Function.update infos i info)

/-- A round of the loop, at an index that may lie outside of the table. -/
def storageRound (e : Env) (storageDevices : Int) : Int × Table → Run Stop ((Int × Table) ⊕ Table)
  | (i, infos) =>
    if storageDevices ≤ i then return .inr infos
    else if i < 0 ∨ maxStorageDevices ≤ i then throw .undefined
    else do
      let count := (infos i).count
      let name ← naming e (infos i).storagePath count
      if maxStorageDevices < i + count ∨ i + count - 1 < intMin then throw .undefined
      else return .inl (i + count, setEntry e name i infos)

/-- The options and the loop. Without options there is one device. -/
def setup (e : Env) (args : List (List Char)) (fuel : Nat) : Run Stop Setup :=
  match parseOptions args with
  | .error stop => throw stop
  | .ok st => do
    let storageDevices := if st.storageDevices = 0 then 1 else st.storageDevices
    let infos ← loop (storageRound e storageDevices) fuel (0, st.infos)
    return ⟨infos, storageDevices⟩

/-! ## One round -/

theorem replicateInfo_apply (info : StorageWorkerInfo) (name : Int → List Char) (i : Int) (n : Nat) (infos : Table)
    (d : Int) : replicateInfo info name i n infos d =
      if i < d ∧ d ≤ i + n then copyInfo info (infos d) (name d) else infos d := by
  induction n with
  | zero =>
    rw [replicateInfo, if_neg]
    omega
  | succ n ih =>
    rw [replicateInfo]
    by_cases last : d = i + (n + 1 : Nat)
    · subst last
      have behind : ¬ (i < i + (n + 1 : Nat) ∧ i + (n + 1 : Nat) ≤ i + n) := by omega
      rw [if_neg behind] at ih
      rw [Function.update_self, ih, if_pos (by omega)]
    · rw [Function.update_of_ne last, ih]
      have same : (i < d ∧ d ≤ i + n) ↔ (i < d ∧ d ≤ i + (n + 1 : Nat)) := by omega
      simp only [same]

/-- The entries outside of the round stay. -/
theorem setEntry_other (e : Env) (name : Int → List Char) (i : Int) (infos : Table) {d : Int}
    (other : d < i ∨ i < d ∧ i + (infos i).count ≤ d) : setEntry e name i infos d = infos d := by
  have count : ({ setDefaults e (infos i) with storagePath := name i } : StorageWorkerInfo).count = (infos i).count :=
    rfl
  rw [setEntry, replicateInfo_apply, count, if_neg (by omega), Function.update_of_ne (by omega)]

/-- The entries of the round get the settings of the first one, and a path each. -/
theorem setEntry_own (e : Env) (name : Int → List Char) (i : Int) (infos : Table) {d : Int}
    (own : i ≤ d ∧ d < i + (infos i).count) :
    (∀ s, (setEntry e name i infos d).value s = e.resolve s ((infos i).value s)) ∧
      (setEntry e name i infos d).storagePath = name d := by
  have count : ({ setDefaults e (infos i) with storagePath := name i } : StorageWorkerInfo).count = (infos i).count :=
    rfl
  have value (s : Setting) : ({ setDefaults e (infos i) with storagePath := name i } : StorageWorkerInfo).value s =
      e.resolve s ((infos i).value s) := (by cases s <;> rfl : _ = _).trans (setDefaults_value e s (infos i))
  rw [setEntry, replicateInfo_apply, count]
  by_cases first : d = i
  · subst first
    rw [if_neg (by omega), Function.update_self]
    exact ⟨value, rfl⟩
  · rw [if_pos (by omega)]
    exact ⟨fun s => (by cases s <;> rfl : _ = _).trans (value s), rfl⟩

theorem setEntry_count (e : Env) (name : Int → List Char) (i : Int) (infos : Table) (d : Int) :
    (setEntry e name i infos d).count = (infos d).count := by
  rw [setEntry, replicateInfo_apply]
  by_cases first : d = i
  · subst first
    rw [if_neg (by omega), Function.update_self]
    rfl
  · rw [Function.update_of_ne first]
    split <;> rfl

/-- A round leaves at the end, goes on where the paths can be named, or fails. -/
theorem storageRound_cases (e : Env) (storageDevices : Int) (s : Int × Table) :
    (storageDevices ≤ s.1 ∧ storageRound e storageDevices s = pure (.inr s.2)) ∨
    (s.1 < storageDevices ∧ 0 ≤ s.1 ∧ ∃ name, naming e (s.2 s.1).storagePath (s.2 s.1).count = pure name ∧
      storageRound e storageDevices s = pure (.inl (s.1 + (s.2 s.1).count, setEntry e name s.1 s.2))) ∨
    ∀ r, storageRound e storageDevices s ≠ pure r := by
  obtain ⟨i, infos⟩ := s
  simp only [storageRound]
  split
  · rename_i ended
    exact Or.inl ⟨ended, rfl⟩
  · rename_i more
    split
    · exact Or.inr (Or.inr fun r fails => by cases fails)
    · rename_i inside
      rcases named : naming e (infos i).storagePath (infos i).count with _ | stop | name
      · exact Or.inr (Or.inr fun r fails => by cases fails)
      · exact Or.inr (Or.inr fun r fails => by cases fails)
      · by_cases outside : maxStorageDevices < i + (infos i).count ∨ i + (infos i).count - 1 < intMin
        · refine Or.inr (Or.inr fun r fails => ?_)
          change (if _ then throw Stop.undefined else _) = _ at fails
          rw [if_pos outside] at fails
          cases fails
        · exact Or.inr (Or.inl ⟨not_le.mp more, by omega, name, rfl, if_neg outside⟩)

theorem storageRound_goes {e : Env} {storageDevices : Int} {s s' : Int × Table}
    (goes : storageRound e storageDevices s = pure (.inl s')) :
    s.1 < storageDevices ∧ 0 ≤ s.1 ∧ ∃ name, naming e (s.2 s.1).storagePath (s.2 s.1).count = pure name ∧
      s' = (s.1 + (s.2 s.1).count, setEntry e name s.1 s.2) := by
  rcases storageRound_cases e storageDevices s with ⟨-, same⟩ | ⟨more, low, name, named, same⟩ | fails
  · rw [same] at goes
    cases goes
  · rw [same] at goes
    cases goes
    exact ⟨more, low, name, named, rfl⟩
  · exact absurd goes (fails _)

theorem storageRound_leaves {e : Env} {storageDevices : Int} {s : Int × Table} {infos : Table}
    (leaves : storageRound e storageDevices s = pure (.inr infos)) : storageDevices ≤ s.1 ∧ infos = s.2 := by
  rcases storageRound_cases e storageDevices s with ⟨ended, same⟩ | ⟨-, -, name, -, same⟩ | fails
  · rw [same] at leaves
    cases leaves
    exact ⟨ended, rfl⟩
  · rw [same] at leaves
    cases leaves
  · exact absurd leaves (fails _)

theorem storageRound_next {e : Env} {storageDevices i : Int} {infos : Table} {name : Int → List Char}
    (inside : 0 ≤ i ∧ i < storageDevices ∧ storageDevices ≤ maxStorageDevices)
    (named : naming e (infos i).storagePath (infos i).count = pure name)
    (fits : 0 ≤ (infos i).count ∧ i + (infos i).count ≤ maxStorageDevices) :
    storageRound e storageDevices (i, infos) = pure (.inl (i + (infos i).count, setEntry e name i infos)) := by
  have low : ¬ i + (infos i).count - 1 < intMin := by
    simp only [intMin]
    omega
  simp only [storageRound]
  rw [if_neg (by omega), if_neg (by omega), named, pure_bind, if_neg (by omega)]

/-! ## The ranges of the options -/

/-- An option that describes a device below `n`, as its first one is. -/
def Used (n : Int) (g : Group) : Prop := 0 < g.count ∧ g.start < n

/-- Each device is in the range of one option. -/
def CoveredOnce (gs : List Group) (n : Int) : Prop :=
  ∀ d, 0 ≤ d → d < n → ∃ g, gs.filter (·.contains d) = [g]

/-- No option starts again where one starts that describes a device. -/
def StartedOnce (gs : List Group) (n : Int) : Prop :=
  ∀ before g after, gs = before ++ g :: after → Used n g → ∀ g' ∈ after, g'.start ≠ g.start

/-- The options as the parser leaves them to the loop. -/
structure Placed (gs : List Group) (n : Int) (infos : Table) : Prop where
  infos : ∀ i, infos i = entryOf gs i
  small : n ≤ maxStorageDevices
  starts : ∀ g ∈ gs, 0 ≤ g.start
  fit : ∀ g ∈ gs, g.start + g.count ≤ maxStorageDevices
  counts : ∀ before g after, gs = before ++ g :: after → g.count = countAt before g.start g.fields

section Ranges

variable {gs : List Group} {n : Int}

theorem contains_iff {g : Group} {d : Int} : g.contains d = true ↔ g.start ≤ d ∧ d < g.start + g.count :=
  decide_eq_true_iff

theorem CoveredOnce.same (once : CoveredOnce gs n) {d : Int} (device : 0 ≤ d ∧ d < n) {g g' : Group}
    (listed : g ∈ gs) (contains : g.contains d = true) (listed' : g' ∈ gs) (contains' : g'.contains d = true) :
    g = g' := by
  obtain ⟨g₀, only⟩ := once d device.1 device.2
  have first : g ∈ gs.filter (·.contains d) := List.mem_filter.mpr ⟨listed, contains⟩
  have second : g' ∈ gs.filter (·.contains d) := List.mem_filter.mpr ⟨listed', contains'⟩
  rw [only, List.mem_singleton] at first second
  exact first.trans second.symm

/-- What comes after the option of a device does not describe it again. -/
theorem CoveredOnce.behind (once : CoveredOnce gs n) {d : Int} (device : 0 ≤ d ∧ d < n) {before after : List Group}
    {g g' : Group} (split : gs = before ++ g :: after) (contains : g.contains d = true) (member : g' ∈ after) :
    g'.contains d = false := by
  obtain ⟨only, alone⟩ := once d device.1 device.2
  have two := congrArg List.length alone
  rw [split, List.filter_append, List.filter_cons_of_pos (p := fun x : Group => x.contains d) contains,
    List.length_append, List.length_cons, List.length_singleton] at two
  have none_ : (after.filter (·.contains d)).length = 0 := by omega
  have nothing := List.filter_eq_nil_iff.mp (List.eq_nil_of_length_eq_zero none_) g' member
  exact Bool.eq_false_iff.mpr nothing

theorem CoveredOnce.covers (once : CoveredOnce gs n) {d : Int} (device : 0 ≤ d ∧ d < n) :
    ∃ g ∈ gs, g.contains d = true := by
  obtain ⟨g, only⟩ := once d device.1 device.2
  have listed : g ∈ gs.filter (·.contains d) := only ▸ List.mem_singleton_self g
  exact ⟨g, List.mem_filter.mp listed⟩

theorem Used.contains_start {g : Group} (used : Used n g) : g.contains g.start = true :=
  contains_iff.mpr ⟨le_refl _, lt_add_of_pos_right _ used.1⟩

/-- The last option that starts at a position. -/
theorem exists_last {g : Group} {pos : Int} (listed : g ∈ gs) (here : g.start = pos) :
    ∃ before last after, gs = before ++ last :: after ∧ last.start = pos ∧ ∀ g' ∈ after, g'.start ≠ pos := by
  induction gs using List.reverseRecOn with
  | nil => cases listed
  | append_singleton gs new ih =>
    by_cases there : new.start = pos
    · exact ⟨gs, new, [], rfl, there, fun g' member => by cases member⟩
    · rcases List.mem_append.mp listed with old | same
      · obtain ⟨before, last, after, split, here', rest⟩ := ih old
        refine ⟨before, last, after ++ [new], by rw [split, List.append_assoc]; rfl, here', fun g' member => ?_⟩
        rcases List.mem_append.mp member with inside | same
        · exact rest g' inside
        · rwa [List.mem_singleton.mp same]
      · exact absurd (List.mem_singleton.mp same ▸ here) there

/-- What the last option at a position finds and gives is all there is. -/
theorem fieldsAt_split {before after : List Group} {g : Group} (split : gs = before ++ g :: after)
    (last : ∀ g' ∈ after, g'.start ≠ g.start) : fieldsAt gs g.start = fieldsAt before g.start ++ g.fields := by
  have parts : gs = before ++ ([g] ++ after) := split
  rw [parts, fieldsAt_append, fieldsAt_append, fieldsAt_here rfl, fieldsAt_none last, List.append_nil]

theorem Placed.entry_count {infos : Table} (placed : Placed gs n infos) {before after : List Group} {g : Group}
    (split : gs = before ++ g :: after) (last : ∀ g' ∈ after, g'.start ≠ g.start) :
    (infos g.start).count = g.count := by
  rw [placed.infos, placed.counts before g after split, countAt, ← fieldsAt_split split last]
  exact foldl_lastGiven givesCount (fun info : StorageWorkerInfo => info.count) setField_count _ _

theorem Placed.entry_value {infos : Table} (placed : Placed gs n infos) {before after : List Group} {g : Group}
    (split : gs = before ++ g :: after) (last : ∀ g' ∈ after, g'.start ≠ g.start) (s : Setting) :
    (infos g.start).value s = (lastGiven (gives s) (fieldsAt before g.start ++ g.fields)).getD (-1) := by
  rw [placed.infos, entryOf_value, fieldsAt_split split last]

theorem Placed.entry_path {infos : Table} (placed : Placed gs n infos) {before after : List Group} {g : Group}
    (split : gs = before ++ g :: after) (last : ∀ g' ∈ after, g'.start ≠ g.start) :
    (infos g.start).storagePath = (lastGiven givesPath (fieldsAt before g.start ++ g.fields)).getD [] := by
  rw [placed.infos, entryOf_path, fieldsAt_split split last]

/-- The count of an entry is the one of an option that starts there, or 1. -/
theorem Placed.count_cases {infos : Table} (placed : Placed gs n infos) (i : Int) :
    (∃ g ∈ gs, g.start = i ∧ (infos i).count = g.count) ∨ (infos i).count = 1 := by
  by_cases some_ : ∃ g ∈ gs, g.start = i
  · obtain ⟨g, listed, here⟩ := some_
    obtain ⟨before, last, after, split, rfl, rest⟩ := exists_last listed here
    exact Or.inl ⟨last, split ▸ List.mem_append_right _ List.mem_cons_self, rfl, placed.entry_count split rest⟩
  · have nothing : fieldsAt gs i = [] := fieldsAt_none fun g listed here => some_ ⟨g, listed, here⟩
    refine Or.inr ?_
    rw [placed.infos, entryOf, nothing]
    rfl

end Ranges

/-! ## The loop returns only if no option starts again -/

/-- Where an option starts again, the loop does not get beyond. -/
theorem startedOnce_of_returned {e : Env} {gs : List Group} {n : Int} {infos infos' : Table}
    (placed : Placed gs n infos) (once : CoveredOnce gs n) {fuel : Nat}
    (returned : loop (storageRound e n) fuel (0, infos) = pure infos') : StartedOnce gs n := by
  intro before g after split used g' member same
  have listed : g ∈ gs := split ▸ List.mem_append_right _ List.mem_cons_self
  have nonneg := placed.starts g listed
  -- the last option there describes no device, as a second one would describe the first device
  have stuck : (infos g.start).count ≤ 0 := by
    obtain ⟨front, last, rest, split', here, behind⟩ := exists_last member same
    have whole : gs = (before ++ g :: front) ++ last :: rest := by
      rw [split, split', List.append_assoc]
      rfl
    have count := placed.entry_count whole (here ▸ behind)
    rw [here] at count
    rw [count]
    by_contra positive
    have both : last.contains g.start = true := contains_iff.mpr (by omega)
    have later : last ∈ after := split' ▸ List.mem_append_right _ List.mem_cons_self
    rw [once.behind ⟨nonneg, used.2⟩ split used.contains_start later] at both
    cases both
  refine loop_returns (storageRound e n) (fun s => s.1 ≤ g.start ∧ ∀ i, (s.2 i).count = (infos i).count)
    (fun _ => False) ?_ ?_ ⟨nonneg, fun _ => rfl⟩ returned
  · rintro s s' ⟨before_, counts⟩ goes
    obtain ⟨-, low, name, -, rfl⟩ := storageRound_goes goes
    refine ⟨?_, fun i => (setEntry_count e name s.1 s.2 i).trans (counts i)⟩
    simp only [counts]
    rcases before_.eq_or_lt with here | earlier
    · rw [here]
      omega
    · rcases placed.count_cases s.1 with ⟨x, inside, start, count⟩ | one
      · by_contra beyond
        have both : x.contains g.start = true := contains_iff.mpr (by omega)
        have equal := once.same ⟨nonneg, used.2⟩ inside both listed used.contains_start
        rw [equal] at start
        omega
      · omega
  · rintro s r ⟨before_, -⟩ leaves
    have ended := (storageRound_leaves leaves).1
    have below := used.2
    omega

/-! ## The loop goes from option to option -/

section Rounds

variable (e : Env) (gs : List Group) (n : Int) (infos : Table)

/-- The devices of an option are set from the entry where it starts, in the table `t`. -/
def SetFrom (t : Table) (g : Group) : Prop :=
  ∃ name, naming e (infos g.start).storagePath g.count = pure name ∧ ∀ d, g.contains d = true → d < n →
    (∀ s, (t d).value s = e.resolve s ((infos g.start).value s)) ∧ (t d).storagePath = name d

/-- The loop is where an option starts, or at the end. The options before are done, and
the entries behind are as they were. -/
structure AtOption (s : Int × Table) : Prop where
  here : n ≤ s.1 ∨ ∃ g ∈ gs, g.start = s.1 ∧ 0 < g.count
  rest : ∀ d, s.1 ≤ d → s.2 d = infos d
  done : ∀ g ∈ gs, Used n g → g.start < s.1 → SetFrom e n infos s.2 g

variable {e gs n infos}

theorem Placed.start_count (placed : Placed gs n infos) (started : StartedOnce gs n) {g : Group} (listed : g ∈ gs)
    (used : Used n g) : (infos g.start).count = g.count := by
  obtain ⟨before, after, split⟩ := List.append_of_mem listed
  exact placed.entry_count split (started before g after split used)

theorem atOption_start (placed : Placed gs n infos) (once : CoveredOnce gs n) : AtOption e gs n infos (0, infos) where
  here := by
    by_cases none_ : n ≤ 0
    · exact Or.inl none_
    · obtain ⟨g, listed, contains⟩ := once.covers ⟨le_refl 0, not_le.mp none_⟩
      have low := placed.starts g listed
      have bounds := contains_iff.mp contains
      exact Or.inr ⟨g, listed, by omega, by omega⟩
  rest := fun _ _ => rfl
  done := fun g listed _ earlier => absurd (placed.starts g listed) (not_le.mpr earlier)

/-- The option where the loop is, and the entry there. -/
theorem AtOption.current {s : Int × Table} (at_ : AtOption e gs n infos s) (placed : Placed gs n infos)
    (started : StartedOnce gs n) (more : s.1 < n) :
    ∃ g ∈ gs, Used n g ∧ g.start = s.1 ∧ s.2 s.1 = infos s.1 ∧ (s.2 s.1).count = g.count := by
  rcases at_.here with ended | ⟨g, listed, here, positive⟩
  · exact absurd more (not_lt.mpr ended)
  · have used : Used n g := ⟨positive, here ▸ more⟩
    have entry := at_.rest s.1 (le_refl _)
    refine ⟨g, listed, used, here, entry, ?_⟩
    rw [entry, ← here]
    exact placed.start_count started listed used

/-- A round that names the devices of an option leads to the next one. -/
theorem AtOption.step {s : Int × Table} (at_ : AtOption e gs n infos s) (placed : Placed gs n infos)
    (once : CoveredOnce gs n) {g : Group} (listed : g ∈ gs) (used : Used n g) (here : g.start = s.1)
    (entry : s.2 s.1 = infos s.1) (count : (s.2 s.1).count = g.count) {name : Int → List Char}
    (named : naming e (s.2 s.1).storagePath (s.2 s.1).count = pure name) :
    AtOption e gs n infos (s.1 + (s.2 s.1).count, setEntry e name s.1 s.2) := by
  obtain ⟨i, t⟩ := s
  simp only at here entry count named ⊢
  subst here
  obtain ⟨positive, more⟩ := used
  have nonneg := placed.starts g listed
  rw [entry] at named
  constructor
  · by_cases ended : n ≤ g.start + (t g.start).count
    · exact Or.inl ended
    · obtain ⟨g', listed', contains⟩ := once.covers (d := g.start + (t g.start).count) (by omega)
      have bounds := contains_iff.mp contains
      refine Or.inr ⟨g', listed', ?_, by omega⟩
      -- otherwise both options have the last device of the first one
      by_contra apart
      have own : g.contains (g.start + g.count - 1) = true := contains_iff.mpr (by omega)
      have others : g'.contains (g.start + g.count - 1) = true := contains_iff.mpr (by omega)
      have equal := once.same (by omega) listed own listed' others
      subst equal
      omega
  · intro d behind
    simp only at behind
    exact (setEntry_other e name g.start t (by omega)).trans (at_.rest d (by simp only; omega))
  · intro g' listed' used' earlier
    simp only at earlier
    by_cases same : g' = g
    · subst same
      refine ⟨name, by rw [← count, entry, named], fun d contains below => ?_⟩
      have bounds := contains_iff.mp contains
      rw [← entry]
      exact setEntry_own e name g'.start t (by omega)
    · have low := placed.starts g' listed'
      have before : g'.start < g.start := by
        by_contra inside
        have both : g.contains g'.start = true := contains_iff.mpr (by omega)
        exact same (once.same ⟨low, used'.2⟩ listed' used'.contains_start listed both)
      obtain ⟨name', named', set⟩ := at_.done g' listed' used' before
      refine ⟨name', named', fun d contains below => ?_⟩
      have bounds := contains_iff.mp contains
      have outside : d < g.start := by
        by_contra inside
        have reach : g.start < g'.start + g'.count := by omega
        have both : g'.contains g.start = true := contains_iff.mpr (by omega)
        exact same (once.same ⟨nonneg, more⟩ listed' both listed (Used.contains_start ⟨positive, more⟩))
      have kept : setEntry e name g.start t d = t d := setEntry_other e name g.start t (Or.inl outside)
      simp only [kept]
      exact set d contains below

/-- What the loop returns. -/
theorem set_of_returned (placed : Placed gs n infos) (once : CoveredOnce gs n) (started : StartedOnce gs n)
    {fuel : Nat} {infos' : Table} (returned : loop (storageRound e n) fuel (0, infos) = pure infos') :
    ∀ g ∈ gs, Used n g → SetFrom e n infos infos' g := by
  refine loop_returns (storageRound e n) (AtOption e gs n infos) (fun t => ∀ g ∈ gs, Used n g → SetFrom e n infos t g)
    ?_ ?_ (atOption_start placed once) returned
  · intro s s' at_ goes
    obtain ⟨more, -, name, named, rfl⟩ := storageRound_goes goes
    obtain ⟨g, listed, used, here, entry, count⟩ := at_.current placed started more
    exact at_.step placed once listed used here entry count named
  · intro s t at_ leaves g listed used
    obtain ⟨ended, rfl⟩ := storageRound_leaves leaves
    exact at_.done g listed used (used.2.trans_le ended)

/-- The loop returns if every option can name its devices. -/
theorem returns_of_named (placed : Placed gs n infos) (once : CoveredOnce gs n) (started : StartedOnce gs n)
    (names : ∀ g ∈ gs, Used n g → ∃ name, naming e (infos g.start).storagePath g.count = pure name) :
    ∃ fuel infos', loop (storageRound e n) fuel (0, infos) = pure infos' := by
  have ends : ∃ t, loop (storageRound e n) ((n - 0).toNat + 1) (0, infos) = pure t ∧ True := by
    refine loop_ends (storageRound e n) (AtOption e gs n infos) (fun _ => True) (fun s => (n - s.1).toNat) ?_
      (atOption_start placed once) (Nat.lt_succ_self _)
    intro s at_
    by_cases ended : n ≤ s.1
    · exact Or.inr ⟨s.2, if_pos ended, trivial⟩
    · have more := not_le.mp ended
      obtain ⟨g, listed, used, here, entry, count⟩ := at_.current placed started more
      obtain ⟨name, named⟩ := names g listed used
      have named' : naming e (s.2 s.1).storagePath (s.2 s.1).count = pure name := by
        rw [count, entry, ← here]
        exact named
      have low := placed.starts g listed
      have fit := placed.fit g listed
      have positive := used.1
      refine Or.inl ⟨_, storageRound_next ⟨by omega, more, placed.small⟩ named' ⟨by omega, by omega⟩, ?_, ?_⟩
      · exact at_.step placed once listed used here entry count named'
      · simp only
        omega
  obtain ⟨t, returned, -⟩ := ends
  exact ⟨_, t, returned⟩

end Rounds

/-! ## When the devices are set up -/

/-- The fields of the options; without options there is a device that nothing describes. -/
def optionFields (args : List (List Char)) : List (List Field) :=
  if args = [] then [[]] else args.map storageFields

def groups (args : List (List Char)) : List Group := (placeGroups (optionFields args)).1

def devices (args : List (List Char)) : Int :=
  if (placeGroups (optionFields args)).2 = 0 then 1 else (placeGroups (optionFields args)).2

/-- The setup comes to an end, and every device has the settings of the option whose range
it lies in, or the global defaults where that option left them unset, and a path. -/
def SetsUp (e : Env) (args : List (List Char)) : Prop :=
  ∃ fuel st, setup e args fuel = pure st ∧ ∀ d, 0 ≤ d → d < st.storageDevices →
    ∃ g, (groups args).filter (·.contains d) = [g] ∧
      (∀ s, (st.infos d).value s = (lastGiven (gives s) g.fields).getD (e.default s)) ∧
      (st.infos d).storagePath ≠ []

/-- A setting that is given is not the mark of one that is unset, and one that is left
unset was not set before, unless the global default is the same. -/
def Kept (e : Env) (s : Setting) (earlier own : List Field) : Prop :=
  match lastGiven (gives s) own with
  | some v => v = -1 → e.default s = -1
  | none => ∀ w, lastGiven (gives s) earlier = some w → w = -1 ∨ w = e.default s

def pathOf (fs : List Field) : List Char := (lastGiven givesPath fs).getD []

/-- The path of the device `d` is printed and not empty, where it is printed. -/
def Named (e : Env) (path : List Char) (count d : Int) : Prop :=
  (path = [] ∧ ∃ home name, e.home = some home ∧ e.snprintf (homeTemplate home) = some name ∧ name d ≠ []) ∨
  (path ≠ [] ∧ count ≤ 1) ∨
  (path ≠ [] ∧ 1 < count ∧ path.length < maxStoragePathStr ∧
    ∃ name, e.snprintf (indexTemplate path) = some name ∧ name d ≠ [])

/-- The ranges are inside of the table and apart, and each device can be set from its
option. -/
structure Apart (e : Env) (gs : List Group) (n : Int) : Prop where
  ints : InInts gs
  once : CoveredOnce gs n
  started : StartedOnce gs n
  kept : ∀ before g after, gs = before ++ g :: after → Used n g → ∀ s, Kept e s (fieldsAt before g.start) g.fields
  named : ∀ before g after, gs = before ++ g :: after → Used n g → ∀ d, g.contains d = true → d < n →
    Named e (pathOf (fieldsAt before g.start ++ g.fields)) g.count d

theorem kept_iff (e : Env) (s : Setting) (earlier own : List Field) :
    e.resolve s ((lastGiven (gives s) (earlier ++ own)).getD (-1)) = (lastGiven (gives s) own).getD (e.default s) ↔
      Kept e s earlier own := by
  rw [lastGiven_append, Kept, Env.resolve]
  cases lastGiven (gives s) own with
  | some v =>
    simp only [Option.some_or, Option.getD_some]
    by_cases unset : v = -1
    · simp [unset]
    · simp [unset]
  | none =>
    simp only [Option.none_or, Option.getD_none]
    cases lastGiven (gives s) earlier with
    | none => simp
    | some w =>
      by_cases unset : w = -1
      · simp [unset]
      · simp [unset]

theorem printed_iff (e : Env) (template : List Char) (d : Int) :
    (∃ name, printed e template = pure name ∧ name d ≠ []) ↔
      ∃ name, e.snprintf template = some name ∧ name d ≠ [] := by
  rw [printed]
  cases e.snprintf template with
  | none =>
    constructor
    · rintro ⟨name, same, -⟩
      cases same
    · rintro ⟨name, same, -⟩
      cases same
  | some name =>
    have taken : (name d).take (maxStoragePathStr - 1) ≠ [] ↔ name d ≠ [] := by simp [maxStoragePathStr]
    constructor
    · rintro ⟨name', same, some_⟩
      cases same
      exact ⟨name, rfl, taken.mp some_⟩
    · rintro ⟨name', same, some_⟩
      cases same
      exact ⟨_, rfl, taken.mpr some_⟩

theorem named_iff (e : Env) (path : List Char) (count d : Int) :
    (∃ name, naming e path count = pure name ∧ name d ≠ []) ↔ Named e path count d := by
  rw [naming, Named]
  by_cases empty : path = []
  · simp only [empty, if_true, ne_eq, not_true_eq_false, true_and, false_and, or_false]
    cases e.home with
    | none =>
      constructor
      · rintro ⟨name, same, -⟩
        cases same
      · rintro ⟨home, name, same, -⟩
        cases same
    | some home => simpa using printed_iff e (homeTemplate home) d
  · simp only [empty, if_false, ne_eq, not_false_eq_true, true_and, false_and, false_or]
    by_cases many : 1 < count
    · simp only [gt_iff_lt, many, if_true, not_le.mpr many, true_and, false_or]
      split
      · rename_i short
        simpa [short] using printed_iff e (indexTemplate path) d
      · rename_i long
        simp only [long, false_and, iff_false]
        rintro ⟨name, same, -⟩
        cases same
    · simp only [gt_iff_lt, many, if_false, not_lt.mp many, true_or, iff_true]
      exact ⟨_, rfl, empty⟩

/-- The places that the parser leaves to the loop. -/
theorem parse_placed {args : List (List Char)} {st : Setup} (parsed : parseOptions args = .ok st) :
    (if st.storageDevices = 0 then 1 else st.storageDevices) = devices args ∧
      Placed (groups args) (devices args) st.infos ∧ InInts (groups args) := by
  obtain ⟨st', same, devices_, placed⟩ : ∃ st', st'.infos = st.infos ∧
      (if st.storageDevices = 0 then 1 else st.storageDevices) = devices args ∧
      Parsed (placeGroups (optionFields args)) st' := by
    by_cases none_ : args = []
    · subst none_
      cases parsed
      refine ⟨⟨fun _ => .init, 1⟩, rfl, rfl, fun i => ?_, rfl, by decide, ?_, ?_, ?_⟩
      · have nothing : fieldsAt (placeGroups (optionFields [])).1 i = [] := by
          refine List.flatMap_eq_nil_iff.mpr fun g member => ?_
          rw [List.mem_singleton.mp (List.mem_filter.mp member).1]
        rw [entryOf, nothing]
        rfl
      · simp [placeGroups, optionFields, addGroup]
      · simp [placeGroups, optionFields, addGroup, countAt, fieldsAt, lastGiven, maxStorageDevices]
      · simp [placeGroups, optionFields, addGroup]
    · have fields : optionFields args = args.map storageFields := if_neg none_
      rcases parse_cases args parsed_init with ⟨st', same, placed⟩ | same | ⟨same, -⟩
      · rw [parseOptions, same] at parsed
        cases parsed
        rw [devices, fields, placeGroups, ← placed.devices]
        exact ⟨st, rfl, rfl, placed⟩
      · rw [parseOptions, same] at parsed
        cases parsed
      · rw [parseOptions, same] at parsed
        cases parsed
  refine ⟨devices_, ⟨?_, ?_, placed.starts, placed.ends, fun before g after => placed_count _⟩, placed.inInts⟩
  · intro i
    rw [← same]
    exact placed.infos i
  · rw [devices]
    split
    · decide
    · exact placed.room

/-- The parser comes to a result on options that it accepts and that stay in its ints. -/
theorem parse_ok {args : List (List Char)} (accepted : parseOptions args ≠ .error .exited)
    (ints : InInts (groups args)) : ∃ st, parseOptions args = .ok st := by
  by_cases none_ : args = []
  · subst none_
    exact ⟨_, rfl⟩
  · have fields : optionFields args = args.map storageFields := if_neg none_
    rcases parse_cases args parsed_init with ⟨st, same, -⟩ | same | ⟨-, beyond⟩
    · exact ⟨st, same⟩
    · exact absurd same accepted
    · rw [groups, fields] at ints
      exact absurd ints beyond

theorem setup_eq {e : Env} {args : List (List Char)} {st : Setup} (parsed : parseOptions args = .ok st) (fuel : Nat) :
    setup e args fuel = do
      let infos ← loop (storageRound e (devices args)) fuel (0, st.infos)
      return ⟨infos, devices args⟩ := by
  rw [setup, parsed, ← (parse_placed parsed).1]

/-- What the setup returns comes from the loop. -/
theorem setup_returned {e : Env} {args : List (List Char)} {fuel : Nat} {st' : Setup}
    (returned : setup e args fuel = pure st') : ∃ st, parseOptions args = .ok st ∧ st'.storageDevices = devices args ∧
      loop (storageRound e (devices args)) fuel (0, st.infos) = pure st'.infos := by
  cases parsed : parseOptions args with
  | error stop =>
    rw [setup, parsed] at returned
    cases returned
  | ok st =>
    rw [setup_eq parsed] at returned
    rcases looped : loop (storageRound e (devices args)) fuel (0, st.infos) with _ | stop | infos
    · rw [looped] at returned
      cases returned
    · rw [looped] at returned
      cases returned
    · rw [looped] at returned
      cases returned
      exact ⟨st, rfl, rfl, looped⟩

/-- What the setup of the devices asks of the options. -/
theorem apart_of_setsUp {e : Env} {args : List (List Char)} (sets : SetsUp e args) :
    Apart e (groups args) (devices args) := by
  obtain ⟨fuel, st', returned, set⟩ := sets
  obtain ⟨st, parsed, count, looped⟩ := setup_returned returned
  obtain ⟨-, placed, ints⟩ := parse_placed parsed
  rw [count] at set
  have once : CoveredOnce (groups args) (devices args) := fun d low high => (set d low high).imp fun _ both => both.1
  have started := startedOnce_of_returned placed once looped
  have from_ := set_of_returned placed once started looped
  refine ⟨ints, once, started, ?_, ?_⟩
  · intro before g after split used s
    have listed : g ∈ groups args := split ▸ List.mem_append_right _ List.mem_cons_self
    obtain ⟨g', only, values, -⟩ := set g.start (placed.starts g listed) used.2
    have same : g = g' := List.mem_singleton.mp (only ▸ List.mem_filter.mpr ⟨listed, used.contains_start⟩)
    obtain ⟨name, -, devices_⟩ := from_ g listed used
    have value := (devices_ g.start used.contains_start used.2).1 s
    rw [placed.entry_value split (started before g after split used), values s, ← same] at value
    exact (kept_iff e s _ _).mp value.symm
  · intro before g after split used d contains below
    have listed : g ∈ groups args := split ▸ List.mem_append_right _ List.mem_cons_self
    have low := (placed.starts g listed).trans (contains_iff.mp contains).1
    obtain ⟨g', -, -, path⟩ := set d low below
    obtain ⟨name, named, devices_⟩ := from_ g listed used
    rw [(devices_ d contains below).2] at path
    rw [placed.entry_path split (started before g after split used)] at named
    exact (named_iff e _ g.count d).mp ⟨name, named, path⟩

theorem setsUp_of_apart {e : Env} {args : List (List Char)} (accepted : parseOptions args ≠ .error .exited)
    (apart : Apart e (groups args) (devices args)) : SetsUp e args := by
  obtain ⟨st, parsed⟩ := parse_ok accepted apart.ints
  obtain ⟨-, placed, -⟩ := parse_placed parsed
  have names (g : Group) (listed : g ∈ groups args) (used : Used (devices args) g) (d : Int)
      (contains : g.contains d = true) (below : d < devices args) :
      ∃ name, naming e (st.infos g.start).storagePath g.count = pure name ∧ name d ≠ [] := by
    obtain ⟨before, after, split⟩ := List.append_of_mem listed
    rw [placed.entry_path split (apart.started before g after split used)]
    exact (named_iff e _ g.count d).mpr (apart.named before g after split used d contains below)
  obtain ⟨fuel, infos, looped⟩ := returns_of_named placed apart.once apart.started fun g listed used =>
    (names g listed used g.start used.contains_start used.2).imp fun _ both => both.1
  have from_ := set_of_returned placed apart.once apart.started looped
  refine ⟨fuel, ⟨infos, devices args⟩, by rw [setup_eq parsed, looped]; rfl, ?_⟩
  intro d low (below : d < devices args)
  obtain ⟨g, only⟩ := apart.once d low below
  have member : g ∈ (groups args).filter (·.contains d) := only ▸ List.mem_singleton_self g
  obtain ⟨listed, contains⟩ := List.mem_filter.mp member
  have bounds := contains_iff.mp contains
  have used : Used (devices args) g := ⟨by omega, by omega⟩
  obtain ⟨before, after, split⟩ := List.append_of_mem listed
  obtain ⟨name, named, set⟩ := from_ g listed used
  obtain ⟨values, path⟩ := set d contains below
  obtain ⟨name', named', some_⟩ := names g listed used d contains below
  refine ⟨g, only, fun s => ?_, ?_⟩
  · rw [values s, placed.entry_value split (apart.started before g after split used)]
    exact (kept_iff e s _ _).mpr (apart.kept before g after split used s)
  · rw [named] at named'
    cases named'
    exact path ▸ some_

/-- The options that the parser accepts are set up exactly when they are apart. -/
theorem setsUp_iff (e : Env) (args : List (List Char)) (accepted : parseOptions args ≠ .error .exited) :
    SetsUp e args ↔ Apart e (groups args) (devices args) :=
  ⟨apart_of_setsUp, setsUp_of_apart accepted⟩

/-- `snprintf` of a template whose conversions are one `%d` at most. -/
def printIndex : List Char → Option (Int → List Char)
  | '%' :: 'd' :: rest => if '%' ∈ rest then none else some fun i => (toString i).toList ++ rest
  | '%' :: _ => none
  | c :: rest => (printIndex rest).map fun text i => c :: text i
  | [] => some fun _ => []

def plainEnv : Env := ⟨some "/root".toList, printIndex, -1, 0, 0, 1073741824⟩

/-- Two devices with files of their own, and a third one under the home directory. -/
def twoAndOne : List (List Char) := ["count=2,file=disk%d,sync=5".toList, "odirect".toList]

def firstTwo : Group := ⟨0, 2, [.count 2, .file "disk%d".toList, .sync 5]⟩

def lastOne : Group := ⟨2, 1, [.odirect]⟩

theorem groups_twoAndOne : groups twoAndOne = [firstTwo, lastOne] := by rfl

theorem split_pair {before after : List Group} {g : Group} (split : [firstTwo, lastOne] = before ++ g :: after) :
    before = [] ∧ g = firstTwo ∧ after = [lastOne] ∨ before = [firstTwo] ∧ g = lastOne ∧ after = [] := by
  match before, split with
  | [], split =>
    cases split
    exact Or.inl ⟨rfl, rfl, rfl⟩
  | [_], split =>
    cases split
    exact Or.inr ⟨rfl, rfl, rfl⟩
  | _ :: _ :: _, split => simp at split

theorem apart_twoAndOne : Apart plainEnv [firstTwo, lastOne] 3 where
  ints := ⟨by decide, by simp [firstTwo, lastOne, StorageOptions.givesCount, intMax]⟩
  once d low below := by
    obtain rfl | rfl | rfl : d = 0 ∨ d = 1 ∨ d = 2 := by omega
    · exact ⟨firstTwo, by decide⟩
    · exact ⟨firstTwo, by decide⟩
    · exact ⟨lastOne, by decide⟩
  started before g after split _ := by
    rcases split_pair split with ⟨-, rfl, rfl⟩ | ⟨-, rfl, rfl⟩
    · decide
    · exact fun _ member => absurd member List.not_mem_nil
  kept before g after split _ s := by
    rcases split_pair split with ⟨rfl, rfl, -⟩ | ⟨rfl, rfl, -⟩ 
    · cases s <;> simp [Kept, fieldsAt, firstTwo, lastGiven, List.findSome?_cons, gives]
    · cases s <;> simp [Kept, fieldsAt, firstTwo, lastOne, lastGiven, List.findSome?_cons, gives, plainEnv, Env.default]
  named before g after split _ d contains below := by
    rcases split_pair split with ⟨rfl, rfl, -⟩ | ⟨rfl, rfl, -⟩
    · refine Or.inr (Or.inr ⟨by decide, by decide, by decide, _, rfl, ?_⟩)
      exact List.cons_ne_nil _ _
    · exact Or.inl ⟨by decide, "/root".toList, _, rfl, rfl, List.cons_ne_nil _ _⟩

theorem setsUp_twoAndOne : SetsUp plainEnv twoAndOne := by
  have accepted : parseOptions twoAndOne ≠ .error .exited := by
    intro same
    cases same
  refine (setsUp_iff plainEnv twoAndOne accepted).mpr ?_
  rw [groups_twoAndOne]
  exact apart_twoAndOne

/-- The parser accepts `--storage count=0`, and the loop does not end. -/
theorem setup_count_zero : parseOptions ["count=0".toList] ≠ .error .exited ∧
    (∀ fuel, setup plainEnv ["count=0".toList] fuel = pending) ∧ ¬ SetsUp plainEnv ["count=0".toList] := by
  obtain ⟨st, parsed, none_, zero⟩ : ∃ st, parseOptions ["count=0".toList] = .ok st ∧ st.storageDevices = 0 ∧
      (st.infos 0).count = 0 := ⟨_, rfl, rfl, rfl⟩
  have named (path : List Char) : ∃ name, naming plainEnv path 0 = pure name := by
    by_cases empty : path = []
    · subst empty
      exact ⟨_, rfl⟩
    · exact ⟨fun _ => path, by rw [naming, if_neg empty, if_neg (by decide)]⟩
  have endless (fuel : Nat) : setup plainEnv ["count=0".toList] fuel = pending := by
    have stays : loop (storageRound plainEnv 1) fuel (0, st.infos) = pending := by
      refine loop_endless (storageRound plainEnv 1) (fun s => s.1 = 0 ∧ (s.2 0).count = 0) ?_ ⟨rfl, zero⟩ fuel
      rintro ⟨i, infos⟩ ⟨here, count⟩
      simp only at here count
      subst here
      obtain ⟨name, name_eq⟩ := named (infos 0).storagePath
      refine ⟨_, storageRound_next (by decide) (by rw [count, name_eq]) (by simp [count, maxStorageDevices]), ?_⟩
      exact ⟨by simp [count], (setEntry_count ..).trans count⟩
    rw [setup, parsed]
    simp only [none_, if_true, stays]
    rfl
  refine ⟨?_, endless, ?_⟩
  · rw [parsed]
    rintro ⟨⟩
  · rintro ⟨fuel, st', returned, -⟩
    rw [endless fuel] at returned
    cases returned

/-! ## Positive counts -/

/-- The ranges follow each other and leave nothing out. -/
structure InRow (p : List Group × Int) : Prop where
  bounds : ∀ g ∈ p.1, 0 ≤ g.start ∧ 0 < g.count ∧ g.start + g.count ≤ p.2
  follow : p.1.Pairwise fun g g' => g.start + g.count ≤ g'.start
  reach : 0 ≤ p.2 ∧ ∀ d, 0 ≤ d → d < p.2 → ∃ g ∈ p.1, g.contains d = true

theorem InRow.add {p : List Group × Int} (row : InRow p) {fs : List Field}
    (positive : ∀ f ∈ fs, ∀ n, givesCount f = some n → 0 < n) : InRow (addGroup p fs) := by
  have nothing : fieldsAt p.1 p.2 = [] := fieldsAt_none fun g listed => by
    have := row.bounds g listed
    omega
  have more : 0 < countAt p.1 p.2 fs := by
    rw [countAt, nothing, List.nil_append]
    cases given : lastGiven givesCount fs with
    | none => exact Int.one_pos
    | some n =>
      obtain ⟨f, member, value⟩ := lastGiven_mem givesCount given
      exact positive f member n value
  obtain ⟨low, covered⟩ := row.reach
  simp only [addGroup]
  refine ⟨fun g listed => ?_, ?_, by simp only; omega, fun d nonneg below => ?_⟩
  · rcases List.mem_append.mp listed with old | new
    · have := row.bounds g old
      simp only
      omega
    · rw [List.mem_singleton.mp new]
      simp only
      omega
  · refine List.pairwise_append.mpr ⟨row.follow, List.pairwise_singleton .., fun g listed g' new => ?_⟩
    rw [List.mem_singleton.mp new]
    exact (row.bounds g listed).2.2
  · simp only at below
    by_cases old : d < p.2
    · obtain ⟨g, listed, contains⟩ := covered d nonneg old
      exact ⟨g, List.mem_append_left _ listed, contains⟩
    · exact ⟨_, List.mem_append_right _ (List.mem_singleton_self _), contains_iff.mpr (by simp only; omega)⟩

/-- Options whose counts are all positive are in a row. -/
theorem inRow_of_positive {opts : List (List Field)}
    (positive : ∀ fs ∈ opts, ∀ f ∈ fs, ∀ n, givesCount f = some n → 0 < n) : InRow (placeGroups opts) := by
  induction opts using List.reverseRecOn with
  | nil =>
    refine ⟨fun g listed => absurd listed List.not_mem_nil, List.Pairwise.nil, le_refl _, fun d low high => ?_⟩
    exact absurd high (not_lt.mpr low)
  | append_singleton opts fs ih =>
    rw [placeGroups, List.foldl_append]
    exact (ih fun fs' member => positive fs' (List.mem_append_left _ member)).add
      (positive fs (List.mem_append_right _ (List.mem_singleton_self fs)))

theorem InRow.apart {p : List Group × Int} (row : InRow p) : CoveredOnce p.1 p.2 ∧ StartedOnce p.1 p.2 := by
  have ordered {before after : List Group} {g : Group} (split : p.1 = before ++ g :: after) :
      (∀ x ∈ before, x.start + x.count ≤ g.start) ∧ ∀ x ∈ after, g.start + g.count ≤ x.start := by
    have follow := row.follow
    rw [split] at follow
    obtain ⟨-, behind, across⟩ := List.pairwise_append.mp follow
    exact ⟨fun x member => across x member g List.mem_cons_self, (List.pairwise_cons.mp behind).1⟩
  constructor
  · intro d low high
    obtain ⟨g, listed, contains⟩ := row.reach.2 d low high
    obtain ⟨before, after, split⟩ := List.append_of_mem listed
    obtain ⟨earlier, later⟩ := ordered split
    have bounds := contains_iff.mp contains
    have front : before.filter (·.contains d) = [] := List.filter_eq_nil_iff.mpr fun x member inside => by
      have := earlier x member
      have := contains_iff.mp inside
      omega
    have back : after.filter (·.contains d) = [] := List.filter_eq_nil_iff.mpr fun x member inside => by
      have := later x member
      have := contains_iff.mp inside
      omega
    refine ⟨g, ?_⟩
    rw [split, List.filter_append, front, List.nil_append,
      List.filter_cons_of_pos (p := fun x : Group => x.contains d) contains, back]
  · intro before g after split used g' member
    have := (ordered split).2 g' member
    have := used.1
    omega

end StorageSetup
