import DistWalk.NodeCalls
import Mathlib.Data.Finset.Card

/-!
# Slots of the connection table

`conn_alloc` claims the first slot whose `busy` is 0 and `conn_free` gives it
back; `close_and_forget` only forgets the descriptor, and a `conn_alloc` that runs
out of memory leaves the slot it claimed. So `busy` marks the open connections in
the histories without these two, and one of them is enough to lose a slot.
-/

namespace ConnectionSlots

open ByteMemory Message Connection PriorityQueue Worker Timeout Node Requests Transitions

/-- `conn_alloc` when `calloc` fails: the slot it claimed stays busy. -/
def connAllocStarved (w : State) : State :=
  match findIndex (fun i => !(w.conns i).busy) maxConns 0 with
  | none => w
  | some c => w.setConn c { w.conns c with busy := true }

/-- `busy` is 1 exactly for the slots of open connections. -/
def Exact (w : State) : Prop := ∀ c, (w.conns c).busy = true ↔ (w.conns c).sock ≠ none

/-- The descriptors in the table have been handed out before. -/
def Issued (w : State) : Prop := ∀ c sock, (w.conns c).sock = some sock → sock < w.nextFd

/-! ## Searching the table -/

theorem findIndex_eq_none {p : Nat → Bool} {fuel i : Nat} :
    findIndex p fuel i = none ↔ ∀ j, i ≤ j → j < i + fuel → p j = false := by
  induction fuel generalizing i with
  | zero => simp only [findIndex, true_iff]; omega
  | succ fuel ih =>
    simp only [findIndex]
    split
    · rename_i found
      simp only [reduceCtorEq, false_iff, not_forall]
      exact ⟨i, le_refl i, by omega, by rw [found]; simp⟩
    · rename_i other
      rw [ih]
      constructor
      · intro rest j le lt
        by_cases here : j = i
        · subst here
          exact Bool.eq_false_iff.mpr other
        · exact rest j (by omega) (by omega)
      · exact fun all j le lt => all j (by omega) (by omega)

/-! ## What the calls do to a slot -/

theorem housing_setConn (w : State) (c i : Nat) (conn : ConnInfo) :
    housing ((w.setConn c conn).conns i) = if i = c then housing conn else housing (w.conns i) := by
  by_cases own : i = c
  · subst own
    simp [State.setConn]
  · simp [State.setConn, own]

/-- A change of the other fields of a connection leaves the slots alone. -/
theorem housing_setConn_same (w : State) (c i : Nat) {conn : ConnInfo}
    (same : housing conn = housing (w.conns c)) :
    housing ((w.setConn c conn).conns i) = housing (w.conns i) :=
  congrFun (tableless_housing.setConn w c conn same) i

theorem housing_connReset (w : State) (c i : Nat) :
    housing ((connReset w c).conns i) = housing (w.conns i) := by
  rw [connReset, connResetFrom_conns]

theorem housing_connDelId (w : State) (c i : Nat) :
    housing ((connDelId w c).conns i) =
      if i = c then ((w.conns c).busy, none) else housing (w.conns i) := by
  rw [connDelId, housing_setConn, housing_connReset]
  split
  · rw [connReset, connResetFrom_conns]
    rfl
  · rfl

theorem housing_connFree (w : State) (c i : Nat) :
    housing ((connFree w c).conns i) = if i = c then (false, none) else housing (w.conns i) := by
  rw [connFree, housing_setConn, housing_connReset]
  rfl

/-- `close_and_forget` forgets the descriptor of the first slot that has it. -/
theorem housing_closeAndForget {w w' : State} {sock : Nat}
    (h : closeAndForget w (some sock) = .ok w') :
    (findIndex (fun i => (w.conns i).sock = some sock) maxConns 0 = none ∧
      ∀ i, housing (w'.conns i) = housing (w.conns i)) ∨
    ∃ c, findIndex (fun i => (w.conns i).sock = some sock) maxConns 0 = some c ∧
      ∀ i, housing (w'.conns i) = if i = c then ((w.conns c).busy, none) else housing (w.conns i) := by
  have table : (w.emit (.pollDel (some sock))).conns = w.conns := rfl
  simp only [closeAndForget, connDelSock, connFindSock, table] at h
  cases found : findIndex (fun i => (w.conns i).sock = some sock) maxConns 0 with
  | none =>
    simp only [found] at h
    cases h
    exact Or.inl ⟨rfl, fun _ => rfl⟩
  | some c =>
    simp only [found] at h
    cases h
    exact Or.inr ⟨c, rfl, fun i => housing_connDelId _ c i⟩

theorem closeAndForget_nextFd {w w' : State} {sock : Option Nat}
    (h : closeAndForget w sock = .ok w') : w'.nextFd = w.nextFd := by
  have table : (w.emit (.pollDel sock)).nextFd = w.nextFd := rfl
  simp only [closeAndForget, connDelSock] at h
  split at h
  · cases h
  · rename_i closed
    cases h
    split at closed
    · cases closed
    · cases closed
      exact table
    · cases closed
      exact (tableless_nextFd.connResetFrom _ _ _).trans table

/-- The slots are as before, though descriptors may have been handed out. -/
structure SlotsKept (w w' : State) : Prop where
  slots : ∀ i, housing (w'.conns i) = housing (w.conns i)
  issued : w.nextFd ≤ w'.nextFd

/-- A free slot has got the next descriptor. -/
structure Claimed (c : Nat) (w w' : State) : Prop where
  free : (w.conns c).busy = false
  slots : ∀ i, housing (w'.conns i) = if i = c then (true, some w.nextFd) else housing (w.conns i)
  issued : w'.nextFd = w.nextFd + 1

theorem SlotsKept.refl (w : State) : SlotsKept w w := ⟨fun _ => rfl, le_rfl⟩

theorem SlotsKept.trans {a b c : State} (h : SlotsKept a b) (h' : SlotsKept b c) : SlotsKept a c :=
  ⟨fun i => (h'.slots i).trans (h.slots i), h.issued.trans h'.issued⟩

theorem Claimed.then {c : Nat} {w w₁ w₂ : State} (h : Claimed c w w₁)
    (same : ∀ i, housing (w₂.conns i) = housing (w₁.conns i))
    (issued : w₂.nextFd = w₁.nextFd) : Claimed c w w₂ :=
  ⟨h.free, fun i => (same i).trans (h.slots i), issued.trans h.issued⟩

theorem Exact.free {w : State} (h : Exact w) {c : Nat} (free : (w.conns c).busy = false) :
    housing (w.conns c) = (false, none) := by
  have closed : (w.conns c).sock = none := by
    by_contra opened
    rw [(h c).mpr opened] at free
    cases free
  rw [housing, free, closed]

/-- A new slot that is given back at once was never taken. -/
theorem Claimed.freed {c : Nat} {w w₁ w₂ : State} (h : Claimed c w w₁) (exact_ : Exact w)
    (others : ∀ i, i ≠ c → housing (w₂.conns i) = housing (w₁.conns i))
    (issued : w₂.nextFd = w₁.nextFd) : SlotsKept w (connFree w₂ c) where
  slots := by
    intro i
    rw [housing_connFree]
    by_cases own : i = c
    · rw [if_pos own, own, exact_.free h.free]
    · rw [if_neg own, others i own, h.slots, if_neg own]
  issued := by
    have kept : (connFree w₂ c).nextFd = w₂.nextFd :=
      tableless_nextFd.connResetFrom w₂ _ _
    rw [kept, issued, h.issued]
    omega

theorem connAlloc_claimed {w w' : State} {target : Addr} {proto : Proto} {c : Nat}
    (h : connAlloc { w with nextFd := w.nextFd + 1 } w.nextFd target proto = (w', some c)) :
    Claimed c w w' := by
  obtain ⟨free, rfl⟩ := connAlloc_claims h
  refine ⟨free, fun i => ?_, rfl⟩
  rw [housing_setConn]
  rfl

theorem connAlloc_full {w w' : State} {sock : Nat} {target : Addr} {proto : Proto}
    (h : connAlloc w sock target proto = (w', none)) : w' = w := by
  simp only [connAlloc] at h
  split at h
  · cases h
    rfl
  · cases h

theorem connEnableSsl_slots (w : State) (c : Nat) :
    (∀ i, housing ((connEnableSsl w c).1.conns i) = housing (w.conns i)) ∧
      (connEnableSsl w c).1.nextFd = w.nextFd := by
  have taken : ∀ w : State, (takeSsl w).1.conns = w.conns ∧ (takeSsl w).1.nextFd = w.nextFd := by
    intro w
    unfold takeSsl
    split
    · exact ⟨rfl, rfl⟩
    · exact ⟨rfl, rfl⟩
  obtain ⟨conns, issued⟩ := taken w
  unfold connEnableSsl
  split
  · rename_i e
    rw [e] at conns issued
    exact ⟨fun i => by rw [conns], issued⟩
  · rename_i e
    rw [e] at conns issued
    refine ⟨fun i => ?_, issued⟩
    exact (housing_setConn_same _ c i (by rfl)).trans (by rw [conns])

/-- Accepting a connection opens a free slot or leaves the slots as they are. -/
theorem acceptConn_slots {w w' : State} {addr : Addr} {proto : Proto} (exact_ : Exact w)
    (issued : Issued w) (h : acceptConn w addr proto = .ok w') :
    SlotsKept w w' ∨ ∃ c, Claimed c w w' := by
  simp only [acceptConn] at h
  cases e : connAlloc { w with nextFd := w.nextFd + 1 } w.nextFd addr proto with
  | mk w₁ found =>
    cases found with
    | none =>
      simp only [e] at h
      cases connAlloc_full e
      refine Or.inl ⟨?_, ?_⟩
      · rcases housing_closeAndForget h with ⟨-, same⟩ | ⟨c, found, -⟩
        · exact same
        · have sock : (w.conns c).sock = some w.nextFd := of_decide_eq_true (findIndex_holds found)
          have := issued c w.nextFd sock
          omega
      · rw [closeAndForget_nextFd h]
        exact Nat.le_succ _
    | some c =>
      have claimed := connAlloc_claimed e
      simp only [e] at h
      split at h
      · have enabled := connEnableSsl_slots w₁ c
        cases ssl : connEnableSsl w₁ c with
        | mk w₂ ok =>
          rw [ssl] at enabled
          have with₂ := claimed.then enabled.1 enabled.2
          simp only [ssl] at h
          cases ok with
          | true =>
            cases h
            exact Or.inr ⟨c, with₂.then (fun i => housing_setConn_same w₂ c i (by rfl)) rfl⟩
          | false =>
            obtain ⟨w₃, closed, rfl⟩ := map_eq_ok.mp h
            refine Or.inl (with₂.freed exact_ ?_ (closeAndForget_nextFd closed))
            intro i other
            rcases housing_closeAndForget closed with ⟨-, same⟩ | ⟨c', found, same⟩
            · exact same i
            · have sock : (w₂.conns c').sock = some w.nextFd :=
                of_decide_eq_true (findIndex_holds found)
              have own : c' = c := by
                by_contra differ
                have kept := with₂.slots c'
                rw [if_neg differ] at kept
                have := issued c' w.nextFd ((congrArg Prod.snd kept).symm.trans sock)
                omega
              rw [same i, if_neg (by rw [own]; exact other)]
      · cases h
        refine Or.inr ⟨c, claimed.then (fun i => ?_) rfl⟩
        exact (housing_setConn_same _ c i (by rfl)).trans (housing_setConn_same w₁ c i (by rfl))

theorem takeConnect_slots (w : State) :
    (takeConnect w).1.conns = w.conns ∧ (takeConnect w).1.nextFd = w.nextFd := by
  unfold takeConnect
  split
  · exact ⟨rfl, rfl⟩
  · exact ⟨rfl, rfl⟩

/-- The new slot of a FORWARD is kept, or given back when TLS cannot be set up. -/
theorem connectForward_slots {w₀ w : State} {c : Nat} (claimed : Claimed c w₀ w)
    (sock : Nat) (proto : Proto) :
    ((Exact w₀ → SlotsKept w₀ (connectForward w c sock proto).1) ∧
      (connectForward w c sock proto).2 = none) ∨
    Claimed c w₀ (connectForward w c sock proto).1 ∧
      ∀ i, (connectForward w c sock proto).2 = some i → i = c := by
  have begun : Claimed c w₀ (w.emit (.pollAdd sock c)) := claimed.then (fun _ => rfl) rfl
  have enabled : Claimed c w₀ (if proto = .tls then connEnableSsl (w.emit (.pollAdd sock c)) c
      else (w.emit (.pollAdd sock c), true)).1 := by
    split
    · obtain ⟨same, issued⟩ := connEnableSsl_slots (w.emit (.pollAdd sock c)) c
      exact begun.then same issued
    · exact begun
  simp only [connectForward]
  split
  · rename_i w₁ e
    rw [e] at enabled
    exact Or.inl ⟨fun exact_ => enabled.freed exact_ (fun _ _ => rfl) rfl, rfl⟩
  · rename_i w₁ e
    rw [e] at enabled
    have taken := takeConnect_slots w₁
    right
    split
    · rename_i t
      rw [t] at taken
      exact ⟨enabled.then (fun i => by rw [taken.1]) taken.2, by simp⟩
    · rename_i t
      rw [t] at taken
      exact ⟨enabled.then (fun i => (housing_setConn_same _ c i (by rfl)).trans (by rw [taken.1]))
        taken.2, by simp [eq_comm]⟩
    · rename_i w₂ t
      rw [t] at taken
      split
      · exact ⟨enabled.then
          (fun i => (housing_setConn_same _ c i (by rfl)).trans (by rw [taken.1])) taken.2,
          by simp [eq_comm]⟩
      · refine ⟨enabled.then (fun i => ?_) taken.2, by simp [eq_comm]⟩
        exact (housing_setConn_same w₂ c i (by rfl)).trans (by rw [taken.1])

/-- So does opening a connection for a FORWARD. -/
theorem forwardConn_slots {w : State} (exact_ : Exact w) (fwd : FwdOpts) :
    SlotsKept w (forwardConn w fwd).1 ∨ ∃ c, Claimed c w (forwardConn w fwd).1 := by
  unfold forwardConn
  split
  · exact Or.inl (.refl w)
  · cases e : connAlloc { w with nextFd := w.nextFd + 1 } w.nextFd fwd.fwdAddr fwd.proto with
    | mk w₁ found =>
      cases found with
      | none =>
        cases connAlloc_full e
        simp only [allocForward, e]
        exact Or.inl ⟨fun _ => rfl, Nat.le_succ _⟩
      | some c =>
        have claimed : Claimed c w
            (w₁.setConn c { w₁.conns c with enableDefrag := w₁.enableDefrag }) :=
          (connAlloc_claimed e).then (fun i => housing_setConn_same w₁ c i (by rfl)) rfl
        simp only [allocForward, e]
        split
        · rcases connectForward_slots claimed w.nextFd fwd.proto with ⟨kept, -⟩ | ⟨taken, -⟩
          · exact Or.inl (kept exact_)
          · exact Or.inr ⟨c, taken⟩
        · exact Or.inr ⟨c, claimed⟩

/-! ## Histories -/

inductive Call
  | accept (addr : Addr) (proto : Proto)
  | forward (fwd : FwdOpts)
  | close (sock : Option Nat)
  | free (c : Nat)
  | starved
  | work

/-- What the calls do; `work` is anything that leaves the slots alone. -/
inductive Does : State → Call → State → Prop
  | accept {w w' : State} (addr : Addr) (proto : Proto) (done : acceptConn w addr proto = .ok w') :
      Does w (.accept addr proto) w'
  | forward (w : State) (fwd : FwdOpts) : Does w (.forward fwd) (forwardConn w fwd).1
  | close {w w' : State} (sock : Option Nat) (done : closeAndForget w sock = .ok w') :
      Does w (.close sock) w'
  | free (w : State) (c : Nat) : Does w (.free c) (connFree w c)
  | starved (w : State) : Does w .starved (connAllocStarved w)
  | work {w w' : State} (kept : SlotsKept w w') : Does w .work w'

/-- The call does not lose a slot: a descriptor that is closed is not in the
table, and memory does not run out for a slot that has been claimed. -/
def Spares (w : State) : Call → Prop
  | .close sock => ∀ c, c < maxConns → (w.conns c).sock ≠ sock
  | .starved => ∀ c, c < maxConns → (w.conns c).busy = true
  | _ => True

/-- Histories all of whose calls meet a condition on the state before them. -/
def History (ok : State → Call → Prop) : State → State → Prop :=
  Relation.ReflTransGen fun w w' => ∃ call, ok w call ∧ Does w call w'

def openConns (w : State) : Finset Nat := (Finset.range maxConns).filter fun c => (w.conns c).sock ≠ none

/-- `conn_alloc` finds a slot as long as fewer connections are open than there are. -/
theorem connAlloc_succeeds {w : State} (h : Exact w) (fewer : (openConns w).card < maxConns) (sock : Nat)
    (target : Addr) (proto : Proto) : (connAlloc w sock target proto).2 ≠ none := by
  have closed : ∃ c, c < maxConns ∧ (w.conns c).sock = none := by
    by_contra all
    have whole : openConns w = Finset.range maxConns := by
      refine Finset.filter_true_of_mem fun c hc => ?_
      exact fun none => all ⟨c, Finset.mem_range.mp hc, none⟩
    rw [whole, Finset.card_range] at fewer
    omega
  obtain ⟨c, inside, none⟩ := closed
  have free : (w.conns c).busy = false := by
    rw [Bool.eq_false_iff]
    exact fun busy => (h c).mp busy none
  simp only [connAlloc]
  split
  · rename_i full
    have := findIndex_eq_none.mp full c (Nat.zero_le c) (by omega)
    rw [free] at this
    cases this
  · simp

theorem exact_iff_housing {w : State} :
    Exact w ↔ ∀ c, (housing (w.conns c)).1 = true ↔ (housing (w.conns c)).2 ≠ none := Iff.rfl

theorem SlotsKept.exact_iff {w w' : State} (h : SlotsKept w w') : Exact w' ↔ Exact w := by
  simp only [exact_iff_housing, h.slots]

theorem SlotsKept.issued' {w w' : State} (h : SlotsKept w w') (issued : Issued w) : Issued w' := by
  intro c sock e
  have kept := congrArg Prod.snd (h.slots c)
  exact (issued c sock (kept.symm.trans e)).trans_le h.issued

theorem Claimed.exact' {c : Nat} {w w' : State} (h : Claimed c w w') (exact_ : Exact w) : Exact w' := by
  rw [exact_iff_housing]
  intro i
  rw [h.slots]
  split
  · simp
  · exact exact_ i

theorem Claimed.issued' {c : Nat} {w w' : State} (h : Claimed c w w') (issued : Issued w) :
    Issued w' := by
  intro i sock e
  have slot := congrArg Prod.snd (h.slots i)
  rw [h.issued]
  split at slot
  · cases slot.symm.trans e
    omega
  · exact Nat.lt_succ_of_lt (issued i sock (slot.symm.trans e))

/-- Descriptors that were in the table have been handed out before. -/
theorem Issued.of_socks {w w' : State} (h : Issued w) (counter : w'.nextFd = w.nextFd)
    (socks : ∀ i sock, (w'.conns i).sock = some sock → ∃ j, (w.conns j).sock = some sock) :
    Issued w' := by
  intro i sock e
  obtain ⟨j, known⟩ := socks i sock e
  rw [counter]
  exact h j sock known

/-- A slot that is busy without a descriptor is lost. -/
theorem not_exact_of_lost {w : State} {c : Nat} (lost : housing (w.conns c) = (true, none)) :
    ¬ Exact w := by
  intro exact_
  have := (exact_iff_housing.mp exact_ c).mp (by rw [lost])
  rw [lost] at this
  exact this rfl

theorem connAllocStarved_slots (w : State) :
    (findIndex (fun i => !(w.conns i).busy) maxConns 0 = none ∧ connAllocStarved w = w) ∨
    ∃ c, findIndex (fun i => !(w.conns i).busy) maxConns 0 = some c ∧
      ∀ i, housing ((connAllocStarved w).conns i) =
        if i = c then (true, (w.conns c).sock) else housing (w.conns i) := by
  cases found : findIndex (fun i => !(w.conns i).busy) maxConns 0 with
  | none => exact Or.inl ⟨rfl, by simp only [connAllocStarved, found]⟩
  | some c =>
    refine Or.inr ⟨c, rfl, fun i => ?_⟩
    simp only [connAllocStarved, found]
    rw [housing_setConn]
    rfl

/-- Each call keeps `busy` exact when it spares the slots, and only then. -/
theorem exact_after_iff {w w' : State} {call : Call} (exact_ : Exact w) (issued : Issued w)
    (does : Does w call w') : (Exact w' ↔ Spares w call) ∧ Issued w' := by
  cases does with
  | accept addr proto done =>
    rcases acceptConn_slots exact_ issued done with kept | ⟨c, claimed⟩
    · exact ⟨iff_of_true (kept.exact_iff.mpr exact_) trivial, kept.issued' issued⟩
    · exact ⟨iff_of_true (claimed.exact' exact_) trivial, claimed.issued' issued⟩
  | forward fwd =>
    rcases forwardConn_slots exact_ fwd with kept | ⟨c, claimed⟩
    · exact ⟨iff_of_true (kept.exact_iff.mpr exact_) trivial, kept.issued' issued⟩
    · exact ⟨iff_of_true (claimed.exact' exact_) trivial, claimed.issued' issued⟩
  | close sock done =>
    cases sock with
    | none => cases done
    | some sock =>
      have counter := closeAndForget_nextFd done
      rcases housing_closeAndForget done with ⟨absent, same⟩ | ⟨c, found, same⟩
      · have kept : SlotsKept w w' := ⟨same, counter.ge⟩
        refine ⟨iff_of_true (kept.exact_iff.mpr exact_) fun c inside here => ?_, kept.issued' issued⟩
        have := findIndex_eq_none.mp absent c (Nat.zero_le c) (by omega)
        simp [here] at this
      · have here : (w.conns c).sock = some sock := of_decide_eq_true (findIndex_holds found)
        have busy : (w.conns c).busy = true := (exact_ c).mpr (by rw [here]; simp)
        have lost : housing (w'.conns c) = (true, none) := by rw [same c, if_pos rfl, busy]
        refine ⟨iff_of_false (not_exact_of_lost lost) fun spares => ?_,
          issued.of_socks counter fun i s e => ?_⟩
        · exact spares c (by have := findIndex_range found; omega) here
        · have slot := congrArg Prod.snd (same i)
          split at slot
          · cases slot.symm.trans e
          · exact ⟨i, slot.symm.trans e⟩
  | free c =>
    have slots := housing_connFree w c
    have counter : (connFree w c).nextFd = w.nextFd := tableless_nextFd.connResetFrom w _ _
    refine ⟨iff_of_true (exact_iff_housing.mpr fun i => ?_) trivial,
      issued.of_socks counter fun i s e => ?_⟩
    · rw [slots i]
      split
      · simp
      · exact exact_ i
    · have slot := congrArg Prod.snd (slots i)
      split at slot
      · cases slot.symm.trans e
      · exact ⟨i, slot.symm.trans e⟩
  | starved =>
    rcases connAllocStarved_slots w with ⟨full, same⟩ | ⟨c, found, slots⟩
    · rw [same]
      refine ⟨iff_of_true exact_ fun c inside => ?_, issued⟩
      have := findIndex_eq_none.mp full c (Nat.zero_le c) (by omega)
      simpa using this
    · have free : (w.conns c).busy = false := by simpa using findIndex_holds found
      have closed := congrArg Prod.snd (exact_.free free)
      have counter : (connAllocStarved w).nextFd = w.nextFd := by
        simp only [connAllocStarved, found]
        rfl
      have lost : housing ((connAllocStarved w).conns c) = (true, none) := by
        rw [slots c, if_pos rfl]
        exact congrArg (true, ·) closed
      refine ⟨iff_of_false (not_exact_of_lost lost) fun spares => ?_,
        issued.of_socks counter fun i s e => ?_⟩
      · have := spares c (by have := findIndex_range found; omega)
        rw [free] at this
        cases this
      · have slot := congrArg Prod.snd (slots i)
        split at slot
        · exact ⟨c, slot.symm.trans e⟩
        · exact ⟨i, slot.symm.trans e⟩
  | work kept => exact ⟨iff_of_true (kept.exact_iff.mpr exact_) trivial, kept.issued' issued⟩

variable (storageDevices : Nat) (storageFd : Nat → Nat) (files : Nat → Mem) (enableDefrag : Bool)

/-- In every history that spares the slots `busy` is exact and `conn_alloc` finds
one; the first call that does not spare them loses one. -/
theorem slots_exact {w : State}
    (h : History Spares (State.init storageDevices storageFd files enableDefrag) w) :
    Exact w ∧
      ((openConns w).card < maxConns →
        ∀ sock target proto, (connAlloc w sock target proto).2 ≠ none) ∧
      ∀ call w', Does w call w' → (Exact w' ↔ Spares w call) := by
  have kept : Exact w ∧ Issued w := by
    induction h with
    | refl => exact ⟨fun _ => by simp [State.init, ConnInfo.init], fun _ _ e => by cases e⟩
    | tail _ last ih =>
      obtain ⟨call, spares, does⟩ := last
      obtain ⟨exact_, issued⟩ := exact_after_iff ih.1 ih.2 does
      exact ⟨exact_.mpr spares, issued⟩
  exact ⟨kept.1, fun fewer => connAlloc_succeeds kept.1 fewer,
    fun call w' does => (exact_after_iff kept.1 kept.2 does).1⟩

/-- A client is accepted and a connection to a peer opened. -/
theorem slots_exact_two_connections :
    ∃ w, acceptConn (State.init 0 (fun _ => 0) (fun _ _ => 0) true) [10, 0, 0, 9, 0, 9] .tcp = .ok w ∧
      Exact (forwardConn w ⟨64, [10, 0, 0, 1, 0, 1], 50, 1, 1, 1, 0, .tcp⟩).1 := by
  have evaluated : ∃ w, acceptConn (State.init 0 (fun _ => 0) (fun _ _ => 0) true)
      [10, 0, 0, 9, 0, 9] .tcp = .ok w := ⟨_, rfl⟩
  obtain ⟨w, accepted⟩ := evaluated
  refine ⟨w, accepted, (slots_exact 0 (fun _ => 0) (fun _ _ => 0) true ?_).1⟩
  exact .tail (.tail .refl ⟨.accept _ _, trivial, .accept _ _ accepted⟩)
    ⟨.forward _, trivial, .forward w _⟩

/-- A client is accepted and its connection closed: its slot is lost. -/
theorem closed_slot_stays_busy :
    ∃ w w', acceptConn (State.init 0 (fun _ => 0) (fun _ _ => 0) true) [10, 0, 0, 9, 0, 9] .tcp = .ok w ∧
      closeAndForget w (some 3) = .ok w' ∧
      History (fun _ _ => True) (State.init 0 (fun _ => 0) (fun _ _ => 0) true) w' ∧
      (w'.conns 0).busy = true ∧ (w'.conns 0).sock = none ∧ ¬ Exact w' := by
  have evaluated : ∃ w w', acceptConn (State.init 0 (fun _ => 0) (fun _ _ => 0) true)
      [10, 0, 0, 9, 0, 9] .tcp = .ok w ∧ closeAndForget w (some 3) = .ok w' ∧
      (w'.conns 0).busy = true ∧ (w'.conns 0).sock = none := ⟨_, _, rfl, rfl, rfl, rfl⟩
  obtain ⟨w, w', accepted, closed, busy, forgotten⟩ := evaluated
  refine ⟨w, w', accepted, closed, ?_, busy, forgotten, fun exact_ => (exact_ 0).mp busy forgotten⟩
  exact .tail (.tail .refl ⟨_, trivial, .accept _ _ accepted⟩) ⟨_, trivial, .close _ closed⟩

end ConnectionSlots
