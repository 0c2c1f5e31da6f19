import DistWalk.ConnThreads

/-!
# Where a connection is

From `accept` on a connection is in one place at a time: in the hands of a worker, in the
socket pair of a worker or in its poll table. So no connection is given to two workers.
-/

namespace ThreadPlaces

open ByteMemory Message Connection Worker Node Requests PollBackends PollTable ConnThreads
open SendStream (memOf)

/-- A connection that a worker is about to pass on. It has a slot from `filled` on; a `turned`
one will be closed. -/
inductive Hand (threads : Nat)
  | fresh
  | turned
  | filled (c : Nat)
  | assigned (c : Nat) (t : Fin threads)
  | taken (c : Nat)
  deriving DecidableEq

/-- Where the connection of an accepted descriptor is. -/
inductive Place (threads : Nat)
  | hand (j : Fin threads) (x : Hand threads)
  | sent (t : Fin threads) (c : Nat)
  | watched (t : Fin threads) (c : Nat)
  | lost (t : Fin threads) (c : Nat)

variable {n : Nat}

def Hand.slot : Hand n → Option Nat
  | .filled c => some c
  | .assigned c _ => some c
  | .taken c => some c
  | _ => none

def Place.slot : Place n → Option Nat
  | .hand _ x => x.slot
  | .sent _ c => some c
  | .watched _ c => some c
  | .lost _ c => some c

def Place.hand? : Place n → Option (Fin n × Hand n)
  | .hand j x => some (j, x)
  | _ => none

def Place.sent? : Place n → Option (Fin n × Nat)
  | .sent t c => some (t, c)
  | _ => none

def Place.watched? : Place n → Option (Fin n × Nat)
  | .watched t c => some (t, c)
  | _ => none

def Place.lost? : Place n → Option (Fin n × Nat)
  | .lost t c => some (t, c)
  | _ => none

/-- The worker that a connection was given to, and the connection. -/
def Place.given : Place n → Option (Fin n × Nat)
  | .hand _ (.assigned c t) => some (t, c)
  | .hand j (.taken c) => some (j, c)
  | .hand _ _ => none
  | .sent t c => some (t, c)
  | .watched t c => some (t, c)
  | .lost t c => some (t, c)

/-- What a part of the system sees of the places. -/
def view {β : Type} (f : Place n → Option β) (place : Nat → Option (Place n)) (fd : Nat) : Option β := (place fd).bind f

theorem view_update {β : Type} (f : Place n → Option β) (place : Nat → Option (Place n)) (fd : Nat)
    (v : Option (Place n)) : view f (Function.update place fd v) = Function.update (view f place) fd (v.bind f) := by
  funext k
  simp only [view, Function.update_apply]
  split <;> rfl

theorem view_kept {β : Type} {f : Place n → Option β} {place : Nat → Option (Place n)} {fd : Nat}
    {v : Option (Place n)} (same : v.bind f = view f place fd) :
    view f (Function.update place fd v) = view f place := by
  rw [view_update, same, Function.update_eq_self]

theorem view_moves {β : Type} {f : Place n → Option β} {place : Nat → Option (Place n)} {fd : Nat} {p q : Place n}
    (here : place fd = some p) (same : f q = f p) : view f (Function.update place fd (some q)) = view f place :=
  view_kept (by rw [view, here]; exact same)

/-- What a worker that stands at `pc` is about to pass on. -/
def Holding (sock : Nat → Option Nat) (fd : Nat) (x : Hand n) : Pc n → Prop
  | .claiming fd' _ _ => fd = fd' ∧ x = .fresh
  | .claimed fd' _ _ => fd = fd' ∧ x = .fresh
  | .assigning fd' c => fd = fd' ∧ x = .filled c
  | .handing fd' c t => fd = fd' ∧ x = .assigned c t
  | .taking c => sock c = some fd ∧ x = .taken c
  | .forgetting fd' => fd = fd' ∧ x = .turned
  | .finding fd' _ => fd = fd' ∧ x = .turned
  | .closing fd' => fd = fd' ∧ x = .turned
  | _ => False

/-- The connection whose requests a worker handles. -/
def busyWith : Pc n → Option Nat
  | .obtaining c => some c
  | .processing c _ _ => some c
  | _ => none

/-- The descriptors of its own that a worker watches, with their aux values. -/
def registered {cfg : Config} (s : System cfg) (t : Fin cfg.threads) : List (Nat × Nat) :=
  (watchList cfg (s.listenSocks t) t).map fun e => (e.1, i2l e.2.code e.1)

/-! ## The parts of the system -/

/-- Exactly the open descriptors have a place. -/
structure Opened (own : Set Nat) (place : Nat → Option (Place n)) (peer : Nat → Option Nat) (clients : Nat) : Prop where
  peers : ∀ fd, (place fd).isSome = (peer fd).isSome
  distinct : ∀ fd fd' k, peer fd = some k → peer fd' = some k → fd = fd'
  known : ∀ fd k, peer fd = some k → k < clients
  foreign : ∀ fd ∈ own, peer fd = none

/-- The table of connections says which slots have which descriptors. -/
structure Slotted (own : Set Nat) (slotAt : Nat → Option Nat) (conns : Nat → ConnInfo) : Prop where
  slots : ∀ c fd, (conns c).sock = some fd → fd ∈ own ∨ slotAt fd = some c
  socks : ∀ fd c, slotAt fd = some c → (conns c).sock = some fd ∧ c < maxConns
  idle : ∀ c, (conns c).busy = false → (conns c).sock = none

/-- Each worker has in its hands what it is about to pass on, and handles connections of
its own. -/
structure Handed (handAt : Nat → Option (Fin n × Hand n)) (watchedAt : Nat → Option (Fin n × Nat))
    (conns : Nat → ConnInfo) (pc : Fin n → Pc n) : Prop where
  hands : ∀ j fd x, handAt fd = some (j, x) ↔ Holding (fun c => (conns c).sock) fd x (pc j)
  claims : ∀ j fd addr c, pc j = .claimed fd addr c → c < maxConns ∧ (conns c).busy = true ∧
    (conns c).sock = none ∧ ∀ i fd' addr', pc i = .claimed fd' addr' c → i = j
  taking : ∀ j c, pc j = .taking c → ∃ fd, (conns c).sock = some fd
  working : ∀ j c, busyWith (pc j) = some c → ∃ fd, watchedAt fd = some (j, c)
  whole : ∀ j, (∀ c, pc j ≠ .failing c) ∧ ∀ fd c, pc j ≠ .deleting fd c

/-- Each socket pair holds whole ids, none of them twice. -/
def Paired (sentAt : Nat → Option (Fin n × Nat)) (pair : Fin n → List UInt8) : Prop :=
  ∀ t, ∃ ids : List Nat, pair t = ids.flatMap u32Bytes ∧ ids.Nodup ∧ ∀ c, c ∈ ids ↔ ∃ fd, sentAt fd = some (t, c)

/-- Each worker watches its own descriptors and the connections that it has got. -/
structure Watched (watchedAt : Nat → Option (Fin n × Nat)) (dwPoll : Fin n → DwPoll)
    (registered : Fin n → List (Nat × Nat)) : Prop where
  plain : ∀ t, (dwPoll t).Plain
  watches : ∀ t fd aux, (dwPoll t).watches fd = some aux ↔
    (fd, aux) ∈ registered t ∨ ∃ c, watchedAt fd = some (t, c) ∧ aux = i2l EventKind.socket.code c

/-- The connections that have been given to a worker, in their order. -/
structure Given (turns : Prop) (givenAt : Nat → Option (Fin n × Nat)) (peer : Nat → Option Nat) (cnt : Int)
    (assigned : List (Assignment n)) : Prop where
  members : ∀ a, a ∈ assigned ↔ ∃ fd, givenAt fd = some (a.worker, a.conn) ∧ peer fd = some a.client
  once : (assigned.map Assignment.conn).Nodup
  counter : turns → cnt = assigned.length ∧ ∀ i a, assigned[i]? = some a → a.worker.val = i % n

def Dropped (lostAt : Nat → Option (Fin n × Nat)) (dropped : List Nat) : Prop :=
  ∀ c, c ∈ dropped ↔ ∃ fd t, lostAt fd = some (t, c)

def own (cfg : Config) : Set Nat := Set.range cfg.fd

structure Placed {cfg : Config} (s : System cfg) (place : Nat → Option (Place cfg.threads)) : Prop where
  opened : Opened (own cfg) place s.peer s.clients
  slotted : Slotted (own cfg) (view Place.slot place) s.node.conns
  handed : Handed (view Place.hand? place) (view Place.watched? place) s.node.conns s.pc
  paired : Paired (view Place.sent? place) s.dispatchFd
  watched : Watched (view Place.watched? place) s.dwPoll (registered s)
  given : Given (cfg.acceptMode = .parent) (view Place.given place) s.peer s.nextThreadCnt s.assigned
  dropped : Dropped (view Place.lost? place) s.dropped
  listening : ∀ t, ∀ fd ∈ s.listenSocks t, fd ∈ own cfg

/-! ## What changes in a part -/

section Opened

variable {own : Set Nat} {place : Nat → Option (Place n)} {peer : Nat → Option Nat} {clients fd : Nat}

theorem Opened.accepted (h : Opened own place peer clients) (foreign : fd ∉ own) (p : Place n) :
    Opened own (Function.update place fd (some p)) (Function.update peer fd (some clients)) (clients + 1) := by
  constructor
  · intro k
    have before := h.peers k
    simp only [Function.update_apply]
    split
    · rfl
    · exact before
  · intro k k' c here there
    have apart := h.distinct k k' c
    have older := h.known k c
    have older' := h.known k' c
    simp only [Function.update_apply] at here there
    grind
  · intro k c here
    have older := h.known k c
    simp only [Function.update_apply] at here
    grind
  · intro k mem
    rw [Function.update_of_ne (ne_of_mem_of_not_mem mem foreign)]
    exact h.foreign k mem

theorem Opened.moves (h : Opened own place peer clients) (here : (place fd).isSome = true) (q : Place n) :
    Opened own (Function.update place fd (some q)) peer clients := by
  refine ⟨fun k => ?_, h.distinct, h.known, h.foreign⟩
  rw [← h.peers k, Function.update_apply]
  split
  · rename_i same
    rw [same, here]
    rfl
  · rfl

theorem Opened.closed (h : Opened own place peer clients) :
    Opened own (Function.update place fd none) (Function.update peer fd none) clients := by
  constructor
  · intro k
    have before := h.peers k
    simp only [Function.update_apply]
    split
    · rfl
    · exact before
  · intro k k' c here there
    have apart := h.distinct k k' c
    simp only [Function.update_apply] at here there
    grind
  · intro k c here
    have older := h.known k c
    simp only [Function.update_apply] at here
    grind
  · intro k mem
    rw [Function.update_apply, h.foreign k mem, ite_self]

end Opened

section Slotted

variable {own : Set Nat} {slotAt : Nat → Option Nat} {conns conns' : Nat → ConnInfo} {fd c : Nat}

/-- What the table says of descriptors and slots is all that matters. -/
theorem Slotted.congr (h : Slotted own slotAt conns) (same : ∀ c, housing (conns' c) = housing (conns c)) :
    Slotted own slotAt conns' := by
  have busy (c : Nat) : (conns' c).busy = (conns c).busy := congrArg Prod.fst (same c)
  have sock (c : Nat) : (conns' c).sock = (conns c).sock := congrArg Prod.snd (same c)
  refine ⟨fun c k here => h.slots c k ((sock c).symm.trans here), fun k c here => ?_, fun c here => ?_⟩
  · rw [sock]
    exact h.socks k c here
  · rw [sock]
    exact h.idle c ((busy c).symm.trans here)

theorem Slotted.claimed (h : Slotted own slotAt conns) (same : ∀ c, (conns' c).sock = (conns c).sock)
    (busy : ∀ c, (conns c).busy = true → (conns' c).busy = true) : Slotted own slotAt conns' := by
  refine ⟨fun c k here => h.slots c k ((same c).symm.trans here), fun k c here => ?_, fun c here => ?_⟩
  · rw [same]
    exact h.socks k c here
  · rw [same]
    exact h.idle c (Bool.eq_false_iff.mpr fun taken => by simp [busy c taken] at here)

/-- A slot without a descriptor gets that of a connection without a slot. -/
theorem Slotted.filled (h : Slotted own slotAt conns) (free : (conns c).sock = none) (fresh : slotAt fd = none)
    (inside : c < maxConns) {conn : ConnInfo} (sock : conn.sock = some fd) (busy : conn.busy = true) :
    Slotted own (Function.update slotAt fd (some c)) (Function.update conns c conn) := by
  constructor
  · intro d k here
    have before := h.slots d k
    simp only [Function.update_apply] at here ⊢
    grind
  · intro k d here
    have before := h.socks k d
    simp only [Function.update_apply] at here ⊢
    grind
  · intro d here
    have before := h.idle d
    simp only [Function.update_apply] at here ⊢
    grind

end Slotted

section Handed

variable {handAt handAt' : Nat → Option (Fin n × Hand n)} {watchedAt watchedAt' : Nat → Option (Fin n × Nat)}
  {conns conns' : Nat → ConnInfo} {pc : Fin n → Pc n} {j : Fin n} {pc' : Pc n}

/-- What one worker does leaves alone what the others are about to pass on. -/
theorem Handed.goes (h : Handed handAt watchedAt conns pc)
    (others : ∀ i ≠ j, ∀ k x, handAt' k = some (i, x) ↔ handAt k = some (i, x))
    (hands : ∀ k x, handAt' k = some (j, x) ↔ Holding (fun c => (conns' c).sock) k x pc')
    (kept : ∀ c fd, (conns c).sock = some fd → (conns' c).sock = some fd)
    (busy : ∀ c, (conns c).busy = true → (conns' c).busy = true)
    (free : ∀ i ≠ j, ∀ fd addr c, pc i = .claimed fd addr c → (conns' c).sock = none)
    (grows : ∀ fd x, watchedAt fd = some x → watchedAt' fd = some x)
    (claims : ∀ fd addr c, pc' = .claimed fd addr c → c < maxConns ∧ (conns' c).busy = true ∧
      (conns' c).sock = none ∧ ∀ i ≠ j, ∀ fd' addr', pc i ≠ .claimed fd' addr' c)
    (taking : ∀ c, pc' = .taking c → ∃ fd, (conns' c).sock = some fd)
    (working : ∀ c, busyWith pc' = some c → ∃ fd, watchedAt' fd = some (j, c))
    (whole : (∀ c, pc' ≠ .failing c) ∧ ∀ fd c, pc' ≠ .deleting fd c) :
    Handed handAt' watchedAt' conns' (Function.update pc j pc') := by
  constructor
  · intro i fd x
    by_cases own : i = j
    · rw [own, Function.update_self]
      exact hands fd x
    · rw [Function.update_of_ne own, others i own, h.hands]
      cases at_ : pc i with
      | taking c =>
        obtain ⟨fd', sock⟩ := h.taking i c at_
        simp only [Holding, sock, kept c fd' sock]
      | _ => rfl
  · intro i fd addr c here
    by_cases own : i = j
    · rw [own, Function.update_self] at here
      obtain ⟨inside, taken, none_, alone⟩ := claims fd addr c here
      refine ⟨inside, taken, none_, fun i' fd' addr' there => ?_⟩
      by_contra other
      rw [own] at other
      rw [Function.update_of_ne other] at there
      exact alone i' other fd' addr' there
    · rw [Function.update_of_ne own] at here
      obtain ⟨inside, taken, -, alone⟩ := h.claims i fd addr c here
      refine ⟨inside, busy c taken, free i own fd addr c here, fun i' fd' addr' there => ?_⟩
      by_cases own' : i' = j
      · rw [own', Function.update_self] at there
        exact absurd here ((claims fd' addr' c there).2.2.2 i own fd addr)
      · rw [Function.update_of_ne own'] at there
        exact alone i' fd' addr' there
  · intro i c here
    by_cases own : i = j
    · rw [own, Function.update_self] at here
      exact taking c here
    · rw [Function.update_of_ne own] at here
      obtain ⟨fd, sock⟩ := h.taking i c here
      exact ⟨fd, kept c fd sock⟩
  · intro i c here
    by_cases own : i = j
    · rw [own, Function.update_self] at here
      rw [own]
      exact working c here
    · rw [Function.update_of_ne own] at here
      obtain ⟨fd, there⟩ := h.working i c here
      exact ⟨fd, grows fd _ there⟩
  · intro i
    by_cases own : i = j
    · rw [own, Function.update_self]
      exact whole
    · rw [Function.update_of_ne own]
      exact h.whole i

/-- Other slots may get descriptors. -/
theorem Handed.socks (h : Handed handAt watchedAt conns pc)
    (kept : ∀ c fd, (conns c).sock = some fd → (conns' c).sock = some fd)
    (busy : ∀ c, (conns c).busy = true → (conns' c).busy = true)
    (free : ∀ i fd addr c, pc i = .claimed fd addr c → (conns' c).sock = none) :
    Handed handAt watchedAt conns' pc := by
  refine ⟨fun i fd x => ?_, fun i fd addr c here => ?_, fun i c here => ?_, h.working, h.whole⟩
  · rw [h.hands]
    cases at_ : pc i with
    | taking c =>
      obtain ⟨fd', sock⟩ := h.taking i c at_
      simp only [Holding, sock, kept c fd' sock]
    | _ => rfl
  · obtain ⟨inside, taken, -, alone⟩ := h.claims i fd addr c here
    exact ⟨inside, busy c taken, free i fd addr c here, alone⟩
  · obtain ⟨fd, sock⟩ := h.taking i c here
    exact ⟨fd, kept c fd sock⟩

/-- A worker passes on what it has in its hands, or puts it elsewhere in them. -/
theorem Handed.passes (h : Handed handAt watchedAt conns pc) {fd : Nat} {v : Option (Hand n)}
    (only : ∀ k x, Holding (fun c => (conns c).sock) k x (pc j) → k = fd)
    (mine : ∀ i x, handAt fd = some (i, x) → i = j)
    (holds : ∀ k x, Holding (fun c => (conns c).sock) k x pc' ↔ k = fd ∧ v = some x)
    (grows : ∀ fd x, watchedAt fd = some x → watchedAt' fd = some x)
    (unclaimed : ∀ fd addr c, pc' ≠ .claimed fd addr c) (taking : ∀ c, pc' = .taking c → ∃ fd, (conns c).sock = some fd)
    (working : ∀ c, busyWith pc' = some c → ∃ fd, watchedAt' fd = some (j, c))
    (whole : (∀ c, pc' ≠ .failing c) ∧ ∀ fd c, pc' ≠ .deleting fd c) :
    Handed (Function.update handAt fd (v.map fun x => (j, x))) watchedAt' conns (Function.update pc j pc') := by
  refine h.goes (fun i other k x => ?_) (fun k x => ?_) (fun _ _ => id) (fun _ => id)
    (fun i _ fd' addr c here => (h.claims i fd' addr c here).2.2.1) grows
    (fun fd' addr c here => absurd here (unclaimed fd' addr c)) taking working whole
  · rw [Function.update_apply]
    split
    · rename_i same
      rw [same]
      constructor
      · intro here
        obtain ⟨x', -, pair⟩ := Option.map_eq_some_iff.mp here
        cases pair
        exact absurd rfl other
      · intro here
        exact absurd (mine i x here) other
    · rfl
  · rw [holds, Function.update_apply]
    split
    · rename_i same
      simp [same]
    · rename_i differ
      rw [h.hands]
      exact ⟨fun here => absurd (only k x here) differ, fun here => absurd here.1 differ⟩

end Handed

section Paired

variable {sentAt : Nat → Option (Fin n × Nat)} {pair : Fin n → List UInt8} {fd c : Nat}

theorem Paired.sent (h : Paired sentAt pair) (t : Fin n) (fresh : sentAt fd = none)
    (new : ∀ k t', sentAt k ≠ some (t', c)) :
    Paired (Function.update sentAt fd (some (t, c))) (Function.update pair t (pair t ++ u32Bytes c)) := by
  intro t'
  obtain ⟨ids, bytes, once, members⟩ := h t'
  by_cases own : t' = t
  · subst own
    refine ⟨ids ++ [c], by simp [bytes], ?_, fun d => ?_⟩
    · refine List.nodup_append.mpr ⟨once, List.nodup_singleton c, fun d inside d' last => ?_⟩
      rintro rfl
      rw [List.mem_singleton.mp last] at inside
      obtain ⟨k, there⟩ := (members c).mp inside
      exact new k t' there
    · have before := members d
      simp only [List.mem_append, List.mem_singleton, Function.update_apply]
      grind
  · refine ⟨ids, by rw [Function.update_of_ne own, bytes], once, fun d => ?_⟩
    have before := members d
    simp only [Function.update_apply]
    grind

/-- The first id is read whole. -/
theorem Paired.taken (h : Paired sentAt pair) {t : Fin n} (some_ : pair t ≠ [])
    (distinct : ∀ k k' c, sentAt k = some (t, c) → sentAt k' = some (t, c) → k = k') :
    ∃ c fd, sentAt fd = some (t, c) ∧ (pair t).take 4 = u32Bytes c ∧
      Paired (Function.update sentAt fd none) (Function.update pair t ((pair t).drop 4)) := by
  obtain ⟨ids, bytes, once, members⟩ := h t
  cases ids with
  | nil => exact absurd bytes some_
  | cons c ids =>
    obtain ⟨fd, there⟩ := (members c).mp List.mem_cons_self
    have length : (u32Bytes c).length = 4 := length_u32Bytes c
    rw [List.flatMap_cons] at bytes
    refine ⟨c, fd, there, by rw [bytes, ← length, List.take_left], fun t' => ?_⟩
    by_cases own : t' = t
    · subst own
      have rest := List.nodup_cons.mp once
      refine ⟨ids, by rw [Function.update_self, bytes, ← length, List.drop_left], rest.2, fun d => ?_⟩
      have before := members d
      have apart := distinct fd
      simp only [List.mem_cons] at before
      simp only [Function.update_apply]
      grind
    · obtain ⟨ids', bytes', once', members'⟩ := h t'
      refine ⟨ids', by rw [Function.update_of_ne own, bytes'], once', fun d => ?_⟩
      have before := members' d
      simp only [Function.update_apply]
      grind

end Paired

section Watched

variable {watchedAt : Nat → Option (Fin n × Nat)} {dwPoll : Fin n → DwPoll} {registered : Fin n → List (Nat × Nat)}
  {fd : Nat} {t : Fin n}

/-- A descriptor that is neither the worker's own nor given to it is not in its table. -/
theorem Watched.free (h : Watched watchedAt dwPoll registered) (unknown : ∀ aux, (fd, aux) ∉ registered t)
    (none_ : watchedAt fd = none) : (dwPoll t).watches fd = none := by
  cases here : (dwPoll t).watches fd with
  | none => rfl
  | some aux =>
    rcases (h.watches t fd aux).mp here with mem | ⟨c, there, -⟩
    · exact absurd mem (unknown aux)
    · rw [none_] at there
      cases there

theorem Watched.added (h : Watched watchedAt dwPoll registered) (unknown : ∀ aux, (fd, aux) ∉ registered t)
    (none_ : watchedAt fd = none) (c : Nat)
    (fits : (dwPollAdd (dwPoll t) fd dwPollIn (i2l EventKind.socket.code c)).2 = 0) :
    Watched (Function.update watchedAt fd (some (t, c)))
      (Function.update dwPoll t (dwPollAdd (dwPoll t) fd dwPollIn (i2l EventKind.socket.code c)).1) registered := by
  obtain ⟨plain, ⟨-, view⟩ | ⟨failed, -⟩⟩ :=
    dwPollAdd_spec (h.plain t) (h.free unknown none_) (i2l EventKind.socket.code c)
  · constructor
    · intro t'
      by_cases own : t' = t
      · rw [own, Function.update_self]
        exact plain
      · rw [Function.update_of_ne own]
        exact h.plain t'
    · intro t' k aux
      have before := h.watches t' k aux
      by_cases own : t' = t
      · subst own
        rw [Function.update_self, view k]
        have absent := unknown aux
        simp only [Function.update_apply]
        grind
      · rw [Function.update_of_ne own]
        simp only [Function.update_apply]
        grind
  · exact absurd fits failed

/-- Nothing is forgotten with a descriptor that is not in the table. -/
theorem Watched.deleted (h : Watched watchedAt dwPoll registered) (unknown : ∀ aux, (fd, aux) ∉ registered t)
    (none_ : watchedAt fd = none) :
    Watched watchedAt (Function.update dwPoll t (dwPollDel (dwPoll t) fd).1) registered := by
  obtain ⟨plain, view⟩ := dwPollDel_spec (h.plain t) fd
  have absent := h.free unknown none_
  constructor
  · intro t'
    by_cases own : t' = t
    · rw [own, Function.update_self]
      exact plain
    · rw [Function.update_of_ne own]
      exact h.plain t'
  · intro t' k aux
    rw [← h.watches t' k aux]
    by_cases own : t' = t
    · subst own
      rw [Function.update_self, view k]
      split
      · rename_i same
        rw [same, absent]
      · rfl
    · rw [Function.update_of_ne own]

end Watched

section Given

variable {turns : Prop} {givenAt : Nat → Option (Fin n × Nat)} {peer : Nat → Option Nat} {cnt cnt' : Int}
  {assigned : List (Assignment n)} {fd k c : Nat} {t : Fin n}

theorem Given.gives (h : Given turns givenAt peer cnt assigned) (fresh : givenAt fd = none)
    (new : ∀ fd' t', givenAt fd' ≠ some (t', c)) (client : peer fd = some k)
    (counted : turns → cnt' = cnt + 1 ∧ t.val = assigned.length % n) :
    Given turns (Function.update givenAt fd (some (t, c))) peer cnt' (assigned ++ [⟨k, c, t⟩]) := by
  constructor
  · intro a
    rw [List.mem_append, List.mem_singleton, h.members a]
    simp only [Function.update_apply]
    constructor
    · rintro (⟨fd', there, peers⟩ | rfl)
      · refine ⟨fd', ?_, peers⟩
        rw [if_neg (by rintro rfl; simp [fresh] at there)]
        exact there
      · exact ⟨fd, if_pos rfl, client⟩
    · rintro ⟨fd', there, peers⟩
      split at there
      · rename_i same
        right
        simp only [Option.some.injEq, Prod.mk.injEq] at there
        rw [same, client] at peers
        cases a
        simp_all
      · exact Or.inl ⟨fd', there, peers⟩
  · rw [List.map_append, List.nodup_append]
    refine ⟨h.once, List.nodup_singleton c, fun d before d' last => ?_⟩
    rintro rfl
    obtain ⟨a, mem, conn⟩ := List.mem_map.mp before
    obtain ⟨fd', there, -⟩ := (h.members a).mp mem
    rw [List.map_singleton, List.mem_singleton] at last
    refine new fd' a.worker ?_
    rw [there, conn, last]
  · intro parent
    obtain ⟨count, turn⟩ := h.counter parent
    obtain ⟨next, mine⟩ := counted parent
    refine ⟨by rw [next, count]; simp, fun i a here => ?_⟩
    rcases Nat.lt_trichotomy i assigned.length with inside | at_ | beyond
    · rw [List.getElem?_append_left inside] at here
      exact turn i a here
    · rw [at_, List.getElem?_concat_length] at here
      cases here
      rw [at_]
      exact mine
    · rw [List.getElem?_eq_none (by simp; omega)] at here
      cases here

/-- Where no connection has been given to a worker the client does not matter. -/
theorem Given.peers (h : Given turns givenAt peer cnt assigned) (none_ : givenAt fd = none) (v : Option Nat) :
    Given turns givenAt (Function.update peer fd v) cnt assigned := by
  refine ⟨fun a => ?_, h.once, h.counter⟩
  rw [h.members a]
  refine exists_congr fun k => and_congr_right fun there => ?_
  rw [Function.update_of_ne]
  rintro rfl
  simp [none_] at there

end Given

theorem Dropped.added {lostAt : Nat → Option (Fin n × Nat)} {dropped : List Nat} {fd : Nat} (h : Dropped lostAt dropped)
    (fresh : lostAt fd = none) (t : Fin n) (c : Nat) :
    Dropped (Function.update lostAt fd (some (t, c))) (dropped ++ [c]) := by
  intro d
  have before := h d
  rw [List.mem_append, List.mem_singleton, before]
  simp only [Function.update_apply]
  constructor
  · rintro (⟨k, t', there⟩ | rfl)
    · refine ⟨k, t', ?_⟩
      rw [if_neg (by rintro rfl; simp [fresh] at there)]
      exact there
    · exact ⟨fd, t, if_pos rfl⟩
  · rintro ⟨k, t', there⟩
    split at there
    · right
      simp only [Option.some.injEq, Prod.mk.injEq] at there
      exact there.2.symm
    · exact Or.inl ⟨k, t', there⟩

/-! ## The steps of a worker -/

section Steps

variable {cfg : Config} {s : System cfg} {place : Nat → Option (Place cfg.threads)} {j : Fin cfg.threads} {fd c : Nat}

theorem watchList_own {socks : List Nat} (all : ∀ fd ∈ socks, fd ∈ own cfg) (i : Fin cfg.threads) :
    ∀ e ∈ watchList cfg socks i, e.1 ∈ own cfg := by
  have ours (d : Own cfg.threads cfg.binds cfg.devices) : cfg.fd d ∈ own cfg := Set.mem_range_self d
  intro e mem
  simp only [watchList, List.mem_append] at mem
  rcases mem with (((listens | fixed) | stats) | storage) | dispatch
  · split at listens
    · obtain ⟨fd, inside, rfl⟩ := List.mem_map.mp listens
      exact all fd inside
    · cases listens
  · simp only [List.mem_cons, List.not_mem_nil, or_false] at fixed
    rcases fixed with rfl | rfl
    · exact ours _
    · exact ours _
  · split at stats
    · rw [List.mem_singleton.mp stats]
      exact ours _
    · cases stats
  · obtain ⟨d, -, rfl⟩ := List.mem_map.mp storage
    exact ours _
  · split at dispatch
    · rw [List.mem_singleton.mp dispatch]
      exact ours _
    · cases dispatch

theorem Placed.unknown (h : Placed s place) (foreign : fd ∉ own cfg) (t : Fin cfg.threads) (aux : Nat) :
    (fd, aux) ∉ registered s t := by
  intro mem
  obtain ⟨e, inside, same⟩ := List.mem_map.mp mem
  have ours := watchList_own (h.listening t) t e inside
  rw [(Prod.mk.injEq ..).mp same |>.1] at ours
  exact foreign ours

theorem Placed.client (h : Placed s place) {p : Place cfg.threads} (here : place fd = some p) :
    ∃ k, s.peer fd = some k ∧ fd ∉ own cfg := by
  have open_ := h.opened.peers fd
  rw [here] at open_
  obtain ⟨k, client⟩ := Option.isSome_iff_exists.mp open_.symm
  refine ⟨k, client, fun mem => ?_⟩
  rw [h.opened.foreign fd mem] at client
  cases client

/-- A slot belongs to one connection. -/
theorem Placed.slot_injective (h : Placed s place) {fd' : Nat} (here : view Place.slot place fd = some c)
    (there : view Place.slot place fd' = some c) : fd = fd' := by
  have sock := (h.slotted.socks fd c here).1
  rw [(h.slotted.socks fd' c there).1] at sock
  cases sock
  rfl

/-- No other connection with the slot `c` is in any place. -/
theorem Placed.alone (h : Placed s place) {p : Place cfg.threads} (here : place fd = some p) (slot : p.slot = some c)
    {f : Place cfg.threads → Option (Fin cfg.threads × Nat)} (slots : ∀ q t d, f q = some (t, d) → q.slot = some d)
    (absent : f p = none) (k : Nat) (t : Fin cfg.threads) : view f place k ≠ some (t, c) := by
  intro there
  obtain ⟨q, at_, seen⟩ := Option.bind_eq_some_iff.mp there
  have same := h.slot_injective (c := c) (show view Place.slot place fd = some c by rw [view, here]; exact slot)
    (show view Place.slot place k = some c by rw [view, at_]; exact slots q t c seen)
  rw [← same, here] at at_
  cases at_
  rw [absent] at seen
  cases seen

theorem sent_slot (q : Place n) (t : Fin n) (d : Nat) (seen : q.sent? = some (t, d)) : q.slot = some d := by
  cases q with
  | sent t' d' =>
    cases seen
    rfl
  | _ => cases seen

theorem given_slot (q : Place n) (t : Fin n) (d : Nat) (seen : q.given = some (t, d)) : q.slot = some d := by
  cases q with
  | hand i x =>
    cases x with
    | assigned d' t' =>
      cases seen
      rfl
    | taken d' =>
      cases seen
      rfl
    | _ => cases seen
  | _ =>
    cases seen
    rfl

theorem Holding.unique {sock : Nat → Option Nat} {pc : Pc n} {k k' : Nat} {x y : Hand n} (h : Holding sock k x pc)
    (h' : Holding sock k' y pc) : k = k' := by
  cases pc with
  | taking c => exact Option.some.inj (h.1.symm.trans h'.1)
  | claiming fd addr i => exact h.1.trans h'.1.symm
  | claimed fd addr c => exact h.1.trans h'.1.symm
  | assigning fd c => exact h.1.trans h'.1.symm
  | handing fd c t => exact h.1.trans h'.1.symm
  | forgetting fd => exact h.1.trans h'.1.symm
  | finding fd i => exact h.1.trans h'.1.symm
  | closing fd => exact h.1.trans h'.1.symm
  | polling => exact h.elim
  | obtaining c => exact h.elim
  | processing c slot cmd => exact h.elim
  | failing c => exact h.elim
  | deleting fd c => exact h.elim

/-- What is in the hands of a worker, and nothing else is. -/
theorem Placed.inHand (h : Placed s place) {x : Hand cfg.threads}
    (holds : Holding (fun c => (s.node.conns c).sock) fd x (s.pc j)) :
    place fd = some (.hand j x) ∧ ∀ k y, Holding (fun c => (s.node.conns c).sock) k y (s.pc j) → k = fd := by
  have seen := (h.handed.hands j fd x).mpr holds
  obtain ⟨q, here, hand⟩ := Option.bind_eq_some_iff.mp seen
  refine ⟨?_, fun k y other => other.unique holds⟩
  rw [here]
  cases q with
  | hand i x' =>
    cases hand
    rfl
  | _ => cases hand

theorem placed_accept (h : Placed s place) (idle : s.pc j = .polling) {addr : Addr} (foreign : fd ∉ own cfg)
    (free : s.peer fd = none) :
    Placed (goto { s with peer := Function.update s.peer fd (some s.clients), clients := s.clients + 1 } j
      (.claiming fd addr 0)) (Function.update place fd (some (.hand j .fresh))) := by
  have nowhere : place fd = none := by
    have closed := h.opened.peers fd
    rw [free] at closed
    exact Option.isSome_eq_false_iff.mp closed |> Option.isNone_iff_eq_none.mp
  have unseen {β : Type} (f : Place cfg.threads → Option β) : view f place fd = none := by rw [view, nowhere]; rfl
  have kept {β : Type} {f : Place cfg.threads → Option β} (none_ : f (.hand j .fresh) = none) :
      view f (Function.update place fd (some (.hand j .fresh))) = view f place :=
    view_kept (by rw [unseen]; exact none_)
  refine ⟨h.opened.accepted foreign _, ?_, ?_, ?_, ?_, ?_, ?_, h.listening⟩
  · rw [kept rfl]
    exact h.slotted
  · rw [view_update, kept rfl]
    refine h.handed.passes (v := some .fresh) ?_ ?_ ?_ (fun _ _ => id) nofun nofun nofun ⟨nofun, nofun⟩
    · rw [idle]
      exact fun _ _ => False.elim
    · intro i x there
      rw [unseen] at there
      cases there
    · simp [Holding, eq_comm]
  · rw [kept rfl]
    exact h.paired
  · rw [kept rfl]
    exact h.watched
  · rw [kept rfl]
    exact h.given.peers (unseen _) _
  · rw [kept rfl]
    exact h.dropped

theorem hand_owner {x : Hand cfg.threads} (here : place fd = some (.hand j x))
    (i : Fin cfg.threads) (y : Hand cfg.threads)
    (there : view Place.hand? place fd = some (i, y)) : i = j := by
  rw [view, here] at there
  cases there
  rfl

/-- A worker that keeps what it has in its hands only moves on. -/
theorem Placed.stays (h : Placed s place) {x : Hand cfg.threads} {pc' : Pc cfg.threads}
    (here : place fd = some (.hand j x))
    (only : ∀ k y, Holding (fun c => (s.node.conns c).sock) k y (s.pc j) → k = fd)
    (holds : ∀ k y, Holding (fun c => (s.node.conns c).sock) k y pc' ↔ k = fd ∧ some x = some y)
    (unclaimed : ∀ fd addr c, pc' ≠ .claimed fd addr c)
    (taking : ∀ c, pc' = .taking c → ∃ fd, (s.node.conns c).sock = some fd)
    (idle : busyWith pc' = none) (whole : (∀ c, pc' ≠ .failing c) ∧ ∀ fd c, pc' ≠ .deleting fd c) :
    Placed (goto s j pc') place := by
  have seen : view Place.hand? place fd = some (j, x) := by rw [view, here]; rfl
  refine ⟨h.opened, h.slotted, ?_, h.paired, h.watched, h.given, h.dropped, h.listening⟩
  have passed := h.handed.passes (v := some x) only (fun i y there => by rw [seen] at there; cases there; rfl)
    holds (fun _ _ => id) unclaimed taking (fun c busy => by rw [idle] at busy; cases busy) whole
  rwa [Option.map_some, ← seen, Function.update_eq_self] at passed

/-- A connection that gets no slot is to be closed. -/
theorem Placed.turns (h : Placed s place) (here : place fd = some (.hand j .fresh))
    (only : ∀ k y, Holding (fun c => (s.node.conns c).sock) k y (s.pc j) → k = fd) :
    Placed (goto s j (.forgetting fd)) (Function.update place fd (some (.hand j .turned))) := by
  have seen : view Place.hand? place fd = some (j, .fresh) := by rw [view, here]; rfl
  have kept {β : Type} {f : Place cfg.threads → Option β} (same : f (.hand j .turned) = f (.hand j .fresh)) :
      view f (Function.update place fd (some (.hand j .turned))) = view f place := view_moves here same
  refine ⟨h.opened.moves (by rw [here]; rfl) _, ?_, ?_, ?_, ?_, ?_, ?_, h.listening⟩
  · rw [kept rfl]
    exact h.slotted
  · rw [view_update, kept rfl]
    refine h.handed.passes (v := some .turned) only ?_ ?_ (fun _ _ => id) nofun nofun nofun ⟨nofun, nofun⟩
    · intro i y there
      rw [seen] at there
      cases there
      rfl
    · simp [Holding, eq_comm]
  · rw [kept rfl]
    exact h.paired
  · rw [kept rfl]
    exact h.watched
  · rw [kept rfl]
    exact h.given
  · rw [kept rfl]
    exact h.dropped

theorem placed_claimSlot (h : Placed s place) {addr : Addr} {i : Nat} (at_ : s.pc j = .claiming fd addr i) :
    ∃ place', Placed (claimSlot s j fd addr i) place' := by
  obtain ⟨here, only⟩ := h.inHand (x := .fresh) (by rw [at_]; exact ⟨rfl, rfl⟩)
  rw [claimSlot]
  split
  · rename_i inside
    split
    · refine ⟨place, h.stays here only ?_ nofun nofun rfl ⟨nofun, nofun⟩⟩
      simp [Holding, eq_comm]
    · rename_i free
      have idle := h.slotted.idle i (Bool.eq_false_iff.mpr free)
      let conns' := Function.update s.node.conns i { s.node.conns i with busy := true }
      have sock (c : Nat) : (conns' c).sock = (s.node.conns c).sock := by
        simp only [conns', Function.update_apply]
        split
        · rename_i same
          rw [same]
        · rfl
      have busy (c : Nat) (taken : (s.node.conns c).busy = true) : (conns' c).busy = true := by
        simp only [conns', Function.update_apply]
        split
        · rfl
        · exact taken
      refine ⟨place, h.opened, h.slotted.claimed sock busy, ?_, h.paired, h.watched, h.given, h.dropped, h.listening⟩
      refine h.handed.goes (fun _ _ _ _ => Iff.rfl) ?_ (fun c k => ?_) busy ?_ (fun _ _ => id) ?_ nofun nofun
        ⟨nofun, nofun⟩
      · intro k x
        rw [h.handed.hands, at_]
        rfl
      · exact (sock c).trans
      · exact fun i' _ fd' addr' c here => (sock c).trans (h.handed.claims i' fd' addr' c here).2.2.1
      · intro fd' addr' c same
        cases same
        refine ⟨inside, by simp [goto, setNode, State.setConn], (sock i).trans idle, fun i' _ fd' addr' there => ?_⟩
        exact free (h.handed.claims i' fd' addr' i there).2.1
  · exact ⟨_, h.turns here only⟩

theorem placed_fillSlot (h : Placed s place) {addr : Addr} (at_ : s.pc j = .claimed fd addr c) (memory : Bool) :
    ∃ place', Placed (fillSlot s j memory fd addr c) place' := by
  obtain ⟨here, only⟩ := h.inHand (x := .fresh) (by rw [at_]; exact ⟨rfl, rfl⟩)
  obtain ⟨inside, taken, free, alone⟩ := h.handed.claims j fd addr c at_
  rw [fillSlot]
  split
  · let conn : ConnInfo :=
      { (s.node.conns c).claim fd addr .tcp j with status := .ready, enableDefrag := s.node.enableDefrag }
    let conns' := Function.update s.node.conns c conn
    have kept {β : Type} {f : Place cfg.threads → Option β} (same : f (.hand j (.filled c)) = f (.hand j .fresh)) :
        view f (Function.update place fd (some (.hand j (.filled c)))) = view f place := view_moves here same
    have unseen : view Place.slot place fd = none := by
      rw [view, here]
      rfl
    have other {d : Nat} (differs : d ≠ c) : conns' d = s.node.conns d := Function.update_of_ne differs _ _
    have sock (d k : Nat) (there : (s.node.conns d).sock = some k) : (conns' d).sock = some k := by
      rw [other (by rintro rfl; simp [free] at there), there]
    have busy (d : Nat) (there : (s.node.conns d).busy = true) : (conns' d).busy = true := by
      by_cases same : d = c
      · rw [same]
        exact congrArg ConnInfo.busy (Function.update_self c conn s.node.conns)
      · rw [other same, there]
    refine ⟨Function.update place fd (some (.hand j (.filled c))), h.opened.moves (by rw [here]; rfl) _, ?_, ?_, ?_, ?_,
      ?_, ?_, h.listening⟩
    · rw [view_update]
      have sock' : conn.sock = some fd := rfl
      exact h.slotted.filled free unseen inside sock' rfl
    · rw [view_update, kept rfl]
      have holds (k : Nat) (x : Hand cfg.threads) : Holding (fun c => (s.node.conns c).sock) k x (.assigning fd c) ↔
          k = fd ∧ some (.filled c) = some x := by
        simp [Holding, eq_comm]
      have passed := h.handed.passes only (hand_owner here) holds (fun _ _ => id) nofun nofun nofun ⟨nofun, nofun⟩
      refine passed.socks sock busy fun i fd' addr' d there => ?_
      by_cases own : i = j
      · rw [own, Function.update_self] at there
        cases there
      · rw [Function.update_of_ne own] at there
        have differs : d ≠ c := fun same => own (alone i fd' addr' (same ▸ there))
        exact (congrArg ConnInfo.sock (other differs)).trans (h.handed.claims i fd' addr' d there).2.2.1
    · rw [kept rfl]
      exact h.paired
    · rw [kept rfl]
      exact h.watched
    · rw [kept rfl]
      exact h.given
    · rw [kept rfl]
      exact h.dropped
  · exact ⟨_, h.turns here only⟩

/-- There are no more assignments than slots. -/
theorem Placed.assigned_length (h : Placed s place) : s.assigned.length ≤ maxConns := by
  have inside : s.assigned.map Assignment.conn ⊆ List.range maxConns := by
    intro c mem
    obtain ⟨a, member, rfl⟩ := List.mem_map.mp mem
    obtain ⟨fd, there, -⟩ := (h.given.members a).mp member
    obtain ⟨q, at_, seen⟩ := Option.bind_eq_some_iff.mp there
    have slot : view Place.slot place fd = some a.conn := by
      rw [view, at_]
      exact given_slot q a.worker a.conn seen
    exact List.mem_range.mpr (h.slotted.socks fd a.conn slot).2
  have fewer := (h.given.once.subperm inside).length_le
  rwa [List.length_map, List.length_range] at fewer

theorem placed_assignThread (h : Placed s place) (at_ : s.pc j = .assigning fd c) :
    ∃ s' place', assignThread s j fd c = .ok s' ∧ Placed s' place' := by
  obtain ⟨here, only⟩ := h.inHand (x := .filled c) (by rw [at_]; exact ⟨rfl, rfl⟩)
  obtain ⟨k, client, -⟩ := h.client here
  have chosen : ∃ cnt t,
      (if cfg.acceptMode = .parent then nextThread s else (s.nextThreadCnt, some j)) = (cnt, some t) ∧
      (cfg.acceptMode = .parent → cnt = s.nextThreadCnt + 1 ∧ t.val = s.assigned.length % cfg.threads) := by
    split
    · rename_i parent
      have few := h.assigned_length
      have count := (h.given.counter parent).1
      have some_ := j.pos
      have turn : s.nextThreadCnt.tmod cfg.threads = (s.assigned.length % cfg.threads : Nat) := by
        rw [count]
        rfl
      have within := Nat.mod_lt s.assigned.length some_
      refine ⟨s.nextThreadCnt + 1, ⟨s.assigned.length % cfg.threads, within⟩, ?_, fun _ => ⟨rfl, rfl⟩⟩
      simp only [maxConns] at few
      refine Prod.ext ?_ ?_
      · simp only [nextThread]
        refine Int.bmod_eq_of_le ?_ ?_
        · omega
        · omega
      · have positive : (0 : Int) ≤ (s.assigned.length % cfg.threads : Nat) := Int.natCast_nonneg _
        have below : ((s.assigned.length % cfg.threads : Nat) : Int).toNat < cfg.threads := within
        simp only [nextThread, turn, dif_pos (And.intro positive below)]
        rfl
    · rename_i other
      exact ⟨_, _, rfl, fun parent => absurd parent other⟩
  obtain ⟨cnt, t, choice, counted⟩ := chosen
  have kept {β : Type} {f : Place cfg.threads → Option β}
      (same : f (.hand j (.assigned c t)) = f (.hand j (.filled c))) :
      view f (Function.update place fd (some (.hand j (.assigned c t)))) = view f place := view_moves here same
  refine ⟨_, Function.update place fd (some (.hand j (.assigned c t))), by rw [assignThread, choice], ?_⟩
  refine ⟨h.opened.moves (by rw [here]; rfl) _, ?_, ?_, ?_, ?_, ?_, ?_, h.listening⟩
  · rw [kept rfl]
    exact h.slotted
  · rw [view_update, kept rfl]
    refine h.handed.passes (v := some (.assigned c t)) only (hand_owner here) ?_ (fun _ _ => id) nofun nofun nofun
      ⟨nofun, nofun⟩
    simp [Holding, eq_comm]
  · rw [kept rfl]
    exact h.paired
  · rw [kept rfl]
    exact h.watched
  · rw [view_update, goto]
    simp only [client]
    refine h.given.gives (by rw [view, here]; rfl) (h.alone here rfl given_slot rfl) client counted
  · rw [kept rfl]
    exact h.dropped

theorem watchSock_fits {t : Fin cfg.threads}
    (fits : (dwPollAdd (s.dwPoll t) fd dwPollIn (i2l EventKind.socket.code c)).2 = 0) :
    watchSock s t fd c = setPoll s t (dwPollAdd (s.dwPoll t) fd dwPollIn (i2l EventKind.socket.code c)).1 := by
  simp [watchSock, fits]

theorem watchSock_full {t : Fin cfg.threads}
    (full : (dwPollAdd (s.dwPoll t) fd dwPollIn (i2l EventKind.socket.code c)).2 ≠ 0) :
    watchSock s t fd c = { setPoll s t (dwPollAdd (s.dwPoll t) fd dwPollIn (i2l EventKind.socket.code c)).1 with
      dropped := s.dropped ++ [c] } := by
  simp [watchSock, full, setPoll]

/-- A connection comes into the table of its worker, or there is no room for it. -/
theorem placed_watchSock (h : Placed s place) {x : Hand cfg.threads} {t : Fin cfg.threads}
    (here : place fd = some (.hand j x)) (gives : (Place.hand j x).given = some (t, c))
    (only : ∀ k y, Holding (fun c => (s.node.conns c).sock) k y (s.pc j) → k = fd) :
    ∃ place', Placed (goto (watchSock s t fd c) j .polling) place' := by
  have slot : (Place.hand j x).slot = some c := given_slot _ t c gives
  obtain ⟨-, -, foreign⟩ := h.client here
  have unseen : view Place.watched? place fd = none := by
    rw [view, here]
    rfl
  have unlost : view Place.lost? place fd = none := by
    rw [view, here]
    rfl
  have moves : (place fd).isSome = true := by rw [here]; rfl
  have empty (k : Nat) (y : Hand cfg.threads) : Holding (fun c => (s.node.conns c).sock) k y .polling ↔
      k = fd ∧ (none : Option (Hand cfg.threads)) = some y := by
    simp [Holding]
  by_cases fits : (dwPollAdd (s.dwPoll t) fd dwPollIn (i2l EventKind.socket.code c)).2 = 0
  · have kept {β : Type} {f : Place cfg.threads → Option β} (same : f (.watched t c) = f (.hand j x)) :
        view f (Function.update place fd (some (.watched t c))) = view f place := view_moves here same
    rw [watchSock_fits fits]
    refine ⟨Function.update place fd (some (.watched t c)), h.opened.moves moves _, ?_, ?_, ?_, ?_, ?_, ?_, h.listening⟩
    · rw [kept slot.symm]
      exact h.slotted
    · rw [view_update, view_update]
      refine h.handed.passes only (hand_owner here) empty (fun k y there => ?_) nofun nofun nofun ⟨nofun, nofun⟩
      rw [Function.update_of_ne, there]
      rintro rfl
      rw [unseen] at there
      cases there
    · rw [kept rfl]
      exact h.paired
    · rw [view_update]
      exact h.watched.added (h.unknown foreign t) unseen c fits
    · rw [kept gives.symm]
      exact h.given
    · rw [kept rfl]
      exact h.dropped
  · have kept {β : Type} {f : Place cfg.threads → Option β} (same : f (.lost t c) = f (.hand j x)) :
        view f (Function.update place fd (some (.lost t c))) = view f place := view_moves here same
    rw [watchSock_full fits]
    refine ⟨Function.update place fd (some (.lost t c)), h.opened.moves moves _, ?_, ?_, ?_, ?_, ?_, ?_, h.listening⟩
    · rw [kept slot.symm]
      exact h.slotted
    · rw [view_update, kept rfl]
      exact h.handed.passes only (hand_owner here) empty (fun _ _ => id) nofun nofun nofun ⟨nofun, nofun⟩
    · rw [kept rfl]
      exact h.paired
    · obtain ⟨-, ⟨fit, -⟩ | ⟨-, same, -⟩⟩ := dwPollAdd_spec (h.watched.plain t)
        (h.watched.free (h.unknown foreign t) unseen) (i2l EventKind.socket.code c)
      · exact absurd fit fits
      · rw [kept rfl, goto, setPoll]
        simp only [same, Function.update_eq_self]
        exact h.watched
    · rw [kept gives.symm]
      exact h.given
    · rw [view_update]
      exact h.dropped.added unlost t c

theorem placed_handOver (h : Placed s place) {t : Fin cfg.threads} (at_ : s.pc j = .handing fd c t) :
    ∃ place', Placed (handOver s j fd c t) place' := by
  obtain ⟨here, only⟩ := h.inHand (x := .assigned c t) (by rw [at_]; exact ⟨rfl, rfl⟩)
  rw [handOver]
  split
  · have kept {β : Type} {f : Place cfg.threads → Option β} (same : f (.sent t c) = f (.hand j (.assigned c t))) :
        view f (Function.update place fd (some (.sent t c))) = view f place := view_moves here same
    refine ⟨Function.update place fd (some (.sent t c)), h.opened.moves (by rw [here]; rfl) _, ?_, ?_, ?_, ?_, ?_, ?_,
      h.listening⟩
    · rw [kept rfl]
      exact h.slotted
    · rw [view_update, kept rfl]
      have empty (k : Nat) (y : Hand cfg.threads) : Holding (fun c => (s.node.conns c).sock) k y .polling ↔
          k = fd ∧ (none : Option (Hand cfg.threads)) = some y := by
        simp [Holding]
      exact h.handed.passes only (hand_owner here) empty (fun _ _ => id) nofun nofun nofun ⟨nofun, nofun⟩
    · rw [view_update]
      exact h.paired.sent t (by rw [view, here]; rfl) (h.alone here rfl sent_slot rfl)
    · rw [kept rfl]
      exact h.watched
    · rw [kept rfl]
      exact h.given
    · rw [kept rfl]
      exact h.dropped
  · exact placed_watchSock h here rfl only

theorem placed_takeOver (h : Placed s place) (at_ : s.pc j = .taking c) :
    ∃ s' place', takeOver s j c = .ok s' ∧ Placed s' place' := by
  obtain ⟨fd, sock⟩ := h.handed.taking j c at_
  obtain ⟨here, only⟩ := h.inHand (x := .taken c) (by rw [at_]; exact ⟨sock, rfl⟩)
  obtain ⟨place', placed⟩ := placed_watchSock h here rfl only
  exact ⟨_, place', by simp only [takeOver, sock], placed⟩

theorem u32_memOf_u32Bytes {v : Nat} (small : v < 2 ^ 32) : u32 (memOf (u32Bytes v)) 0 = v := by
  simp only [u32, memOf, u32Bytes, List.getD_cons_zero, List.getD_cons_succ, UInt8.toNat_ofNat']
  omega

theorem placed_dispatchEvent (h : Placed s place) (idle : s.pc j = .polling) :
    ∃ place', Placed (dispatchEvent s j) place' := by
  rw [dispatchEvent]
  split
  · exact ⟨place, h⟩
  · rename_i some_
    have nonempty : s.dispatchFd j ≠ [] := fun empty => some_ (by rw [empty]; rfl)
    obtain ⟨c, fd, there, got, paired⟩ := h.paired.taken nonempty fun k k' d at_ at' => by
      obtain ⟨q, atk, seen⟩ := Option.bind_eq_some_iff.mp at_
      obtain ⟨q', atk', seen'⟩ := Option.bind_eq_some_iff.mp at'
      exact h.slot_injective (show view Place.slot place k = some d by rw [view, atk]; exact sent_slot q j d seen)
        (show view Place.slot place k' = some d by rw [view, atk']; exact sent_slot q' j d seen')
    obtain ⟨q, here, seen⟩ := Option.bind_eq_some_iff.mp there
    have sent : q = .sent j c := by
      cases q with
      | sent t' d =>
        cases seen
        rfl
      | _ => cases seen
    rw [sent] at here
    obtain ⟨sock, inside⟩ := h.slotted.socks fd c (by rw [view, here]; rfl)
    have small : c < 2 ^ 32 := inside.trans (by decide)
    have kept {β : Type} {f : Place cfg.threads → Option β} (same : f (.hand j (.taken c)) = f (.sent j c)) :
        view f (Function.update place fd (some (.hand j (.taken c)))) = view f place := view_moves here same
    have unseen : view Place.hand? place fd = none := by
      rw [view, here]
      rfl
    simp only [got, length_u32Bytes, Nat.lt_irrefl, if_false, u32_memOf_u32Bytes small]
    refine ⟨Function.update place fd (some (.hand j (.taken c))), h.opened.moves (by rw [here]; rfl) _, ?_, ?_, ?_, ?_,
      ?_, ?_, h.listening⟩
    · rw [kept rfl]
      exact h.slotted
    · rw [view_update, kept rfl]
      have holds (k : Nat) (x : Hand cfg.threads) : Holding (fun c => (s.node.conns c).sock) k x (.taking c) ↔
          k = fd ∧ some (.taken c) = some x := by
        simp [Holding, sock, eq_comm]
      refine h.handed.passes ?_ ?_ holds (fun _ _ => id) nofun ?_ nofun ⟨nofun, nofun⟩
      · rw [idle]
        exact fun _ _ => False.elim
      · intro i x none_
        rw [unseen] at none_
        cases none_
      · intro d same
        cases same
        exact ⟨fd, sock⟩
    · rw [view_update]
      exact paired
    · rw [kept rfl]
      exact h.watched
    · rw [kept rfl]
      exact h.given
    · rw [kept rfl]
      exact h.dropped

/-! ## A connection without a slot -/

theorem placed_forget (h : Placed s place) (at_ : s.pc j = .forgetting fd) :
    ∃ place', Placed (forget s j fd) place' := by
  obtain ⟨here, only⟩ := h.inHand (x := .turned) (by rw [at_]; exact ⟨rfl, rfl⟩)
  have holds (k : Nat) (x : Hand cfg.threads) : Holding (fun c => (s.node.conns c).sock) k x (.finding fd 0) ↔
      k = fd ∧ some .turned = some x := by
    simp [Holding, eq_comm]
  have stays := h.stays here only holds nofun nofun rfl ⟨nofun, nofun⟩
  obtain ⟨-, -, foreign⟩ := h.client here
  exact ⟨place, stays.opened, stays.slotted, stays.handed, stays.paired,
    h.watched.deleted (h.unknown foreign j) (by rw [view, here]; rfl), stays.given, stays.dropped, stays.listening⟩

theorem placed_findSock (h : Placed s place) {i : Nat} (at_ : s.pc j = .finding fd i) :
    ∃ place', Placed (findSock s j fd i) place' := by
  obtain ⟨here, only⟩ := h.inHand (x := .turned) (by rw [at_]; exact ⟨rfl, rfl⟩)
  obtain ⟨-, -, foreign⟩ := h.client here
  rw [findSock]
  split
  · split
    · rename_i sock
      have slotless : view Place.slot place fd = none := by
        rw [view, here]
        rfl
      rcases h.slotted.slots i fd sock with mem | slot
      · exact absurd mem foreign
      · rw [slotless] at slot
        cases slot
    · refine ⟨place, h.stays here only ?_ nofun nofun rfl ⟨nofun, nofun⟩⟩
      simp [Holding, eq_comm]
  · refine ⟨place, h.stays here only ?_ nofun nofun rfl ⟨nofun, nofun⟩⟩
    simp [Holding, eq_comm]

theorem placed_closeSock (h : Placed s place) (at_ : s.pc j = .closing fd) :
    ∃ place', Placed (closeSock s j fd) place' := by
  obtain ⟨here, only⟩ := h.inHand (x := .turned) (by rw [at_]; exact ⟨rfl, rfl⟩)
  have empty (k : Nat) (y : Hand cfg.threads) : Holding (fun c => (s.node.conns c).sock) k y .polling ↔
      k = fd ∧ (none : Option (Hand cfg.threads)) = some y := by
    simp [Holding]
  have unseen {β : Type} {f : Place cfg.threads → Option β} (none_ : f (.hand j .turned) = none) :
      view f place fd = none := by
    rw [view, here]
    exact none_
  have kept {β : Type} {f : Place cfg.threads → Option β} (none_ : f (.hand j .turned) = none) :
      view f (Function.update place fd none) = view f place := view_kept (unseen none_).symm
  refine ⟨Function.update place fd none, h.opened.closed, ?_, ?_, ?_, ?_, ?_, ?_, h.listening⟩
  · rw [kept rfl]
    exact h.slotted
  · rw [view_update, kept rfl]
    exact h.handed.passes only (hand_owner here) empty (fun _ _ => id) nofun nofun nofun ⟨nofun, nofun⟩
  · rw [kept rfl]
    exact h.paired
  · rw [kept rfl]
    exact h.watched
  · rw [kept rfl]
    exact h.given.peers (unseen rfl) none
  · rw [kept rfl]
    exact h.dropped

/-! ## Requests -/

/-- Handling requests leaves the connections where they are. -/
theorem Placed.works (h : Placed s place) {w : State} (flight : Nat → List UInt8) (outputs : List (Output cfg.threads))
    {pc' : Pc cfg.threads} (same : ∀ c, housing (w.conns c) = housing (s.node.conns c))
    (idle : s.pc j = .polling ∨ ∃ c, busyWith (s.pc j) = some c)
    (busy : pc' = .polling ∨ ∃ c, busyWith pc' = some c ∧ ∃ fd, view Place.watched? place fd = some (j, c)) :
    Placed (goto { setNode s w with flight := flight, outputs := outputs } j pc') place := by
  have sock (c : Nat) : (w.conns c).sock = (s.node.conns c).sock := congrArg Prod.snd (same c)
  have taken (c : Nat) : (w.conns c).busy = (s.node.conns c).busy := congrArg Prod.fst (same c)
  have handless {pc : Pc cfg.threads} (at_ : pc = .polling ∨ ∃ c, busyWith pc = some c) (k : Nat) (x : Hand cfg.threads)
      (sockOf : Nat → Option Nat) : ¬ Holding sockOf k x pc := by
    rcases at_ with rfl | ⟨c, working⟩
    · exact id
    · cases pc <;> first | exact id | cases working
  have busy' : pc' = .polling ∨ ∃ c, busyWith pc' = some c := busy.imp_right fun ⟨c, working, _⟩ => ⟨c, working⟩
  refine ⟨h.opened, h.slotted.congr same, ?_, h.paired, h.watched, h.given, h.dropped, h.listening⟩
  refine h.handed.goes (fun _ _ _ _ => Iff.rfl) (fun k x => ?_) (fun c fd => (sock c).trans) (fun c => (taken c).trans)
    (fun i _ fd addr c at_ => (sock c).trans (h.handed.claims i fd addr c at_).2.2.1) (fun _ _ => id) ?_ ?_ ?_ ?_
  · rw [h.handed.hands]
    exact ⟨fun holds => absurd holds (handless idle k x _), fun holds => absurd holds (handless busy' k x _)⟩
  · rintro fd addr c rfl
    simp [busyWith] at busy
  · rintro c rfl
    simp [busyWith] at busy
  · intro c working
    rcases busy with rfl | ⟨d, working', there⟩
    · cases working
    · rw [working] at working'
      cases working'
      exact there
  · rcases busy with rfl | ⟨d, working', there⟩
    · exact ⟨nofun, nofun⟩
    · constructor
      · rintro c rfl
        cases working'
      · rintro fd c rfl
        cases working'

end Steps

end ThreadPlaces
