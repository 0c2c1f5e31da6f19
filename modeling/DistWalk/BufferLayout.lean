import DistWalk.ReceiveQueue

/-!
# The receive buffers of a worker

`Laid` says of a state that every open connection has its receive queue, that live
requests are on open connections, and how the cursors stand. `Keeps` relates the
state before and after a piece of the worker: `Laid` goes on, and where messages
are defragmented no byte before `curr_proc_buf` becomes or ceases to be lost. Every
function of the worker below `obtain_messages` keeps in this sense.
-/

namespace BufferLayout

open ByteMemory Message Connection Worker Timeout Node Requests Transitions ThreadedBlocks ReceiveQueue

/-- The receive side of a connection, with its place in the tables. -/
def inbox (c : ConnInfo) : Mem × Nat × Nat × Nat × Option Nat × Bool × Option Nat × Bool :=
  (c.recvBuf, c.currRecvBuf, c.currRecvSize, c.currProcBuf, c.reqList, c.busy, c.sock, c.enableDefrag)

theorem sendBlind_inbox : SendBlind inbox := fun _ _ _ _ _ _ _ _ _ _ => rfl

structure Laid (w : State) : Prop where
  queue : ∀ c, (w.conns c).sock ≠ none → ∃ l, Queue w c l
  opened : ∀ s, (w.reqs s).messagePtr ≠ none → (w.conns (w.reqs s).connId).sock ≠ none
  busy : ∀ c, (w.conns c).sock ≠ none → (w.conns c).busy = true
  free : ∀ c, (w.conns c).busy = false → (w.conns c).reqList = none
  proc : ∀ c, (w.conns c).sock ≠ none → (w.conns c).currProcBuf ≤ (w.conns c).currRecvBuf
  recv : ∀ c, (w.conns c).sock ≠ none → (w.conns c).currRecvBuf + (w.conns c).currRecvSize = bufSize
  defrag : ∀ c, (w.conns c).sock ≠ none → (w.conns c).enableDefrag = w.enableDefrag
  range : ∀ c, (w.conns c).sock ≠ none → c < maxConns
  issued : ∀ c s, (w.conns c).sock = some s → s < w.nextFd
  distinct : ∀ c d s, (w.conns c).sock = some s → (w.conns d).sock = some s → c = d

theorem laid_init (storageDevices : Nat) (storageFd : Nat → Nat) (files : Nat → Mem) (enableDefrag : Bool) :
    Laid (State.init storageDevices storageFd files enableDefrag) where
  queue := fun _ opened => absurd rfl opened
  opened := fun _ live => absurd rfl live
  busy := fun _ opened => absurd rfl opened
  free := fun _ _ => rfl
  proc := fun _ opened => absurd rfl opened
  recv := fun _ opened => absurd rfl opened
  defrag := fun _ opened => absurd rfl opened
  range := fun _ opened => absurd rfl opened
  issued := fun _ _ none => by cases none
  distinct := fun _ _ _ none => by cases none

/-- Every connection that is open afterwards was open and has lost no byte more or
less, or it is new and has lost none. -/
def Carries (w w' : State) : Prop :=
  ∀ c, (w'.conns c).sock ≠ none →
    ((w.conns c).sock ≠ none ∧ ∀ lost, Queued w c lost → Queued w' c lost) ∨ Queued w' c 0

structure Keeps (w w' : State) : Prop where
  laid : Laid w → Laid w'
  flag : w'.enableDefrag = w.enableDefrag
  carries : Laid w → w.enableDefrag = true → Carries w w'

theorem Keeps.refl (w : State) : Keeps w w :=
  ⟨id, rfl, fun _ _ _ opened => Or.inl ⟨opened, fun _ h => h⟩⟩

theorem Keeps.trans {a b c : State} (h : Keeps a b) (h' : Keeps b c) : Keeps a c where
  laid := h'.laid ∘ h.laid
  flag := h'.flag.trans h.flag
  carries := by
    intro laid on i opened
    rcases h'.carries (h.laid laid) (h.flag.trans on) i opened with ⟨before, kept⟩ | new
    · rcases h.carries laid on i before with ⟨earlier, kept'⟩ | new
      · exact Or.inl ⟨earlier, fun lost q => kept lost (kept' lost q)⟩
      · exact Or.inr (kept 0 new)
    · exact Or.inr new

/-- What keeps may be shown from a state that is laid out. -/
theorem Keeps.given {w w' : State} (flag : w'.enableDefrag = w.enableDefrag) (h : Laid w → Keeps w w') :
    Keeps w w' :=
  ⟨fun laid => (h laid).laid laid, flag, fun laid on => (h laid).carries laid on⟩

theorem inbox_eq {c c' : ConnInfo} (h : inbox c' = inbox c) :
    c'.recvBuf = c.recvBuf ∧ c'.currRecvBuf = c.currRecvBuf ∧ c'.currRecvSize = c.currRecvSize ∧
      c'.currProcBuf = c.currProcBuf ∧ c'.reqList = c.reqList ∧ c'.busy = c.busy ∧ c'.sock = c.sock ∧
      c'.enableDefrag = c.enableDefrag := by
  simpa only [inbox, Prod.mk.injEq] using h

/-! ## Nothing of the layout changes -/

/-- The layout is the same. -/
structure Quiet (w w' : State) : Prop where
  conns : ∀ c, inbox (w'.conns c) = inbox (w.conns c)
  reqs : ∀ s, place (w'.reqs s) = place (w.reqs s)
  flag : w'.enableDefrag = w.enableDefrag
  nextFd : w.nextFd ≤ w'.nextFd

theorem Quiet.refl (w : State) : Quiet w w := ⟨fun _ => rfl, fun _ => rfl, rfl, Nat.le_refl _⟩

theorem Quiet.trans {a b c : State} (h : Quiet a b) (h' : Quiet b c) : Quiet a c :=
  ⟨fun i => (h'.conns i).trans (h.conns i), fun s => (h'.reqs s).trans (h.reqs s),
    h'.flag.trans h.flag, Nat.le_trans h.nextFd h'.nextFd⟩

theorem Quiet.on {w w' : State} (h : Quiet w w') (c s : Nat) : OnConn w' c s ↔ OnConn w c s := by
  have same := place_eq (h.reqs s)
  simp only [OnConn, same.1, same.2.1]

theorem Quiet.sameQueue {w w' : State} (h : Quiet w w') (c : Nat) : SameQueue w w' c where
  on := h.on c
  placed := fun s _ => h.reqs s
  list := (inbox_eq (h.conns c)).2.2.2.2.1
  top := (inbox_eq (h.conns c)).2.2.2.1
  sizes := fun s p _ _ => by rw [(inbox_eq (h.conns c)).1]

theorem Quiet.keeps {w w' : State} (h : Quiet w w') : Keeps w w' where
  laid := by
    intro laid
    have sock : ∀ c, (w'.conns c).sock = (w.conns c).sock := fun c => (inbox_eq (h.conns c)).2.2.2.2.2.2.1
    refine ⟨fun c opened => ?_, fun s live => ?_, fun c opened => ?_, fun c freed => ?_, fun c opened => ?_,
      fun c opened => ?_, fun c opened => ?_, fun c opened => laid.range c (sock c ▸ opened), fun c s open_ => ?_,
      fun c d s hc hd => ?_⟩
    · obtain ⟨l, queue⟩ := laid.queue c (sock c ▸ opened)
      exact ⟨l, queue.same (h.sameQueue c)⟩
    · have same := place_eq (h.reqs s)
      rw [sock, same.1]
      exact laid.opened s (same.2.1 ▸ live)
    · rw [(inbox_eq (h.conns c)).2.2.2.2.2.1]
      exact laid.busy c (sock c ▸ opened)
    · rw [(inbox_eq (h.conns c)).2.2.2.2.1]
      exact laid.free c ((inbox_eq (h.conns c)).2.2.2.2.2.1 ▸ freed)
    · rw [(inbox_eq (h.conns c)).2.1, (inbox_eq (h.conns c)).2.2.2.1]
      exact laid.proc c (sock c ▸ opened)
    · rw [(inbox_eq (h.conns c)).2.1, (inbox_eq (h.conns c)).2.2.1]
      exact laid.recv c (sock c ▸ opened)
    · rw [(inbox_eq (h.conns c)).2.2.2.2.2.2.2, h.flag]
      exact laid.defrag c (sock c ▸ opened)
    · exact Nat.lt_of_lt_of_le (laid.issued c s (sock c ▸ open_)) h.nextFd
    · exact laid.distinct c d s (sock c ▸ hc) (sock d ▸ hd)
  flag := h.flag
  carries := by
    intro _ _ c opened
    rw [(inbox_eq (h.conns c)).2.2.2.2.2.2.1] at opened
    exact Or.inl ⟨opened, fun lost q => (h.sameQueue c).queued q⟩

theorem quiet_aside {w w' : State} (conns : w'.conns = w.conns) (reqs : w'.reqs = w.reqs)
    (flag : w'.enableDefrag = w.enableDefrag) (nextFd : w.nextFd ≤ w'.nextFd) : Quiet w w' :=
  ⟨fun c => by rw [conns], fun s => by rw [reqs], flag, nextFd⟩

theorem quiet_emit (w : State) (e : Effect) : Quiet w (w.emit e) := quiet_aside rfl rfl rfl (Nat.le_refl _)

theorem quiet_setConn (w : State) (c : Nat) {conn : ConnInfo} (side : inbox conn = inbox (w.conns c)) :
    Quiet w (w.setConn c conn) where
  conns := by
    intro i
    simp only [State.setConn, Function.update_apply]
    split
    · rename_i own
      rw [own, side]
    · rfl
  reqs := fun _ => rfl
  flag := rfl
  nextFd := Nat.le_refl _

theorem quiet_setReq (w : State) (slot : Nat) {r : ReqInfo} (same : place r = place (w.reqs slot)) :
    Quiet w (w.setReq slot r) :=
  ⟨fun _ => rfl, setReq_keeps place w same, rfl, Nat.le_refl _⟩

/-! ## One connection changes -/

/-- Outside connection `c` the layout is the same. -/
structure Touches (w w' : State) (c : Nat) : Prop where
  others : ∀ d, d ≠ c → inbox (w'.conns d) = inbox (w.conns d)
  same : ∀ d, d ≠ c → (w.conns d).sock ≠ none → SameQueue w w' d
  flag : w'.enableDefrag = w.enableDefrag
  nextFd : w.nextFd ≤ w'.nextFd

/-- What is asked of connection `c` itself. -/
structure InOrder (w : State) (c : Nat) : Prop where
  queue : ∃ l, Queue w c l
  busy : (w.conns c).busy = true
  proc : (w.conns c).currProcBuf ≤ (w.conns c).currRecvBuf
  recv : (w.conns c).currRecvBuf + (w.conns c).currRecvSize = bufSize
  defrag : (w.conns c).enableDefrag = w.enableDefrag

theorem Laid.inOrder {w : State} (h : Laid w) {c : Nat} (opened : (w.conns c).sock ≠ none) : InOrder w c :=
  ⟨h.queue c opened, h.busy c opened, h.proc c opened, h.recv c opened, h.defrag c opened⟩

section Touches

variable {w w' : State} {c : Nat}

theorem Touches.laid (t : Touches w w' c) (laid : Laid w)
    (socket : (w'.conns c).sock = none ∨ (w'.conns c).sock = (w.conns c).sock ∨
      ∃ s, (w'.conns c).sock = some s ∧ w.nextFd ≤ s ∧ s < w'.nextFd ∧ c < maxConns)
    (own : (w'.conns c).sock ≠ none → InOrder w' c)
    (free : (w'.conns c).busy = false → (w'.conns c).reqList = none)
    (live : ∀ s, (w'.reqs s).messagePtr ≠ none → (w'.conns (w'.reqs s).connId).sock ≠ none) : Laid w' := by
  have sock : ∀ d, d ≠ c → (w'.conns d).sock = (w.conns d).sock :=
    fun d other => (inbox_eq (t.others d other)).2.2.2.2.2.2.1
  have below : ∀ d s, d ≠ c → (w'.conns d).sock = some s → s < w.nextFd :=
    fun d s other e => laid.issued d s (sock d other ▸ e)
  refine ⟨fun d opened => ?_, live, fun d opened => ?_, fun d freed => ?_, fun d opened => ?_,
    fun d opened => ?_, fun d opened => ?_, fun d opened => ?_, fun d s e => ?_, fun d d' s e e' => ?_⟩
  · by_cases here : d = c
    · exact here ▸ (own (here ▸ opened)).queue
    · obtain ⟨l, queue⟩ := laid.queue d (sock d here ▸ opened)
      exact ⟨l, queue.same (t.same d here (sock d here ▸ opened))⟩
  · by_cases here : d = c
    · exact here ▸ (own (here ▸ opened)).busy
    · rw [(inbox_eq (t.others d here)).2.2.2.2.2.1]
      exact laid.busy d (sock d here ▸ opened)
  · by_cases here : d = c
    · exact here ▸ free (here ▸ freed)
    · rw [(inbox_eq (t.others d here)).2.2.2.2.1]
      exact laid.free d ((inbox_eq (t.others d here)).2.2.2.2.2.1 ▸ freed)
  · by_cases here : d = c
    · exact here ▸ (own (here ▸ opened)).proc
    · rw [(inbox_eq (t.others d here)).2.1, (inbox_eq (t.others d here)).2.2.2.1]
      exact laid.proc d (sock d here ▸ opened)
  · by_cases here : d = c
    · exact here ▸ (own (here ▸ opened)).recv
    · rw [(inbox_eq (t.others d here)).2.1, (inbox_eq (t.others d here)).2.2.1]
      exact laid.recv d (sock d here ▸ opened)
  · by_cases here : d = c
    · exact here ▸ (own (here ▸ opened)).defrag
    · rw [(inbox_eq (t.others d here)).2.2.2.2.2.2.2, t.flag]
      exact laid.defrag d (sock d here ▸ opened)
  · by_cases here : d = c
    · subst here
      rcases socket with none | same | ⟨-, -, -, -, small⟩
      · exact absurd none opened
      · exact laid.range d (same ▸ opened)
      · exact small
    · exact laid.range d (sock d here ▸ opened)
  · by_cases here : d = c
    · subst here
      rcases socket with none | same | ⟨s', new, -, lt, -⟩
      · rw [none] at e
        cases e
      · exact Nat.lt_of_lt_of_le (laid.issued d s (same ▸ e)) t.nextFd
      · rw [new] at e
        cases e
        exact lt
    · exact Nat.lt_of_lt_of_le (below d s here e) t.nextFd
  · have cross : ∀ x, x ≠ c → (w'.conns c).sock = some s → (w'.conns x).sock = some s → False := by
      intro x other hc hx
      rcases socket with none | same | ⟨s', new, le, -, -⟩
      · rw [none] at hc
        cases hc
      · exact other (laid.distinct x c s (sock x other ▸ hx) (same ▸ hc))
      · rw [new] at hc
        cases hc
        exact absurd (below x s other hx) (Nat.not_lt.mpr le)
    by_cases here : d = c
    · subst here
      by_cases there : d' = d
      · exact there.symm
      · exact (cross d' there e e').elim
    · by_cases there : d' = c
      · subst there
        exact (cross d here e' e).elim
      · exact laid.distinct d d' s (sock d here ▸ e) (sock d' there ▸ e')

theorem Touches.carries (t : Touches w w' c)
    (own : (w'.conns c).sock ≠ none →
      ((w.conns c).sock ≠ none ∧ ∀ lost, Queued w c lost → Queued w' c lost) ∨ Queued w' c 0) :
    Carries w w' := by
  intro d opened
  by_cases here : d = c
  · exact here ▸ own (here ▸ opened)
  · rw [(inbox_eq (t.others d here)).2.2.2.2.2.2.1] at opened
    exact Or.inl ⟨opened, fun lost q => (t.same d here opened).queued q⟩

end Touches

/-! ## The pieces of the worker -/

theorem keeps_setMsgStatus {w : State} {slot m : Nat} (status : Nat)
    (placed : (w.reqs slot).messagePtr = some m) : Keeps w (setMsgStatus w slot m status) := by
  have live : (w.reqs slot).messagePtr ≠ none := by
    rw [placed]
    exact Option.some_ne_none m
  have conn : (setMsgStatus w slot m status).conns (w.reqs slot).connId =
      { w.conns (w.reqs slot).connId with
        recvBuf := setStatus (w.conns (w.reqs slot).connId).recvBuf m status } := by
    simp [setMsgStatus, State.setConn]
  have touches : Touches w (setMsgStatus w slot m status) (w.reqs slot).connId := by
    have others : ∀ d, d ≠ (w.reqs slot).connId →
        (setMsgStatus w slot m status).conns d = w.conns d := by
      intro d other
      simp [setMsgStatus, State.setConn, other]
    refine ⟨fun d other => by rw [others d other], fun d other _ => ⟨fun _ => Iff.rfl, fun _ _ => rfl, ?_, ?_, ?_⟩,
      rfl, Nat.le_refl _⟩
    · rw [others d other]
    · rw [others d other]
    · intro s p _ _
      rw [others d other]
  refine ⟨fun laid => ?_, rfl, fun laid _ => touches.carries fun _ => ?_⟩
  · have order := laid.inOrder (laid.opened slot live)
    obtain ⟨l, queue⟩ := order.queue
    refine touches.laid laid (Or.inr (Or.inl (by rw [conn]))) (fun _ => ⟨?_, ?_, ?_, ?_, ?_⟩) ?_ fun s live' => ?_
    · exact ⟨l, queue.same (sameQueue_setMsgStatus status placed queue)⟩
    · rw [conn]
      exact order.busy
    · rw [conn]
      exact order.proc
    · rw [conn]
      exact order.recv
    · rw [conn]
      exact order.defrag
    · rw [conn]
      exact laid.free _
    · have before := laid.opened s live'
      by_cases here : (w.reqs s).connId = (w.reqs slot).connId
      · change ((setMsgStatus w slot m status).conns (w.reqs s).connId).sock ≠ none
        rw [here, conn]
        rw [here] at before
        exact before
      · change ((setMsgStatus w slot m status).conns (w.reqs s).connId).sock ≠ none
        rw [(inbox_eq (touches.others _ here)).2.2.2.2.2.2.1]
        exact before
  · have opened := laid.opened slot live
    refine Or.inl ⟨opened, fun lost queued => ?_⟩
    obtain ⟨l, queue, total⟩ := queued
    exact (sameQueue_setMsgStatus status placed queue).queued ⟨l, queue, total⟩

theorem keeps_connReqRemove {w : State} {slot p : Nat} (placed : (w.reqs slot).messagePtr = some p) :
    Keeps w (connReqRemove w (w.reqs slot).connId slot) := by
  have live : (w.reqs slot).messagePtr ≠ none := by
    rw [placed]
    exact Option.some_ne_none p
  have flag : (connReqRemove w (w.reqs slot).connId slot).enableDefrag = w.enableDefrag :=
    tableless_enableDefrag.connReqRemove w _ slot
  have nextFd : (connReqRemove w (w.reqs slot).connId slot).nextFd = w.nextFd :=
    tableless_nextFd.connReqRemove w _ slot
  have housed : ∀ d, housing ((connReqRemove w (w.reqs slot).connId slot).conns d) = housing (w.conns d) :=
    congrFun (tableless_housing.connReqRemove w _ slot)
  have sock : ∀ d, ((connReqRemove w (w.reqs slot).connId slot).conns d).sock = (w.conns d).sock :=
    fun d => congrArg Prod.snd (housed d)
  have conns : Laid w → ∃ conn, (connReqRemove w (w.reqs slot).connId slot).conns =
      Function.update w.conns (w.reqs slot).connId conn ∧
      conn.currProcBuf ≤ conn.currRecvBuf ∧ conn.currRecvBuf + conn.currRecvSize = bufSize ∧
      conn.enableDefrag = (w.conns (w.reqs slot).connId).enableDefrag := by
    intro laid
    have order := laid.inOrder (laid.opened slot live)
    have proc := order.proc
    have recv := order.recv
    obtain ⟨l, queue⟩ := order.queue
    have own : slot ∈ l := (queue.members slot).mpr ⟨live, rfl⟩
    obtain ⟨q, here, -, fits⟩ := queue.stacked.mem own
    rw [placed] at here
    cases here
    obtain ⟨a, t, rfl⟩ := List.append_of_mem own
    by_cases moves : (w.conns (w.reqs slot).connId).enableDefrag = true ∧ p < bufSize
    · refine ⟨_, (connReqRemove_moves placed queue moves).2, ?_, ?_, rfl⟩
      · simp only [defragment]
        omega
      · simp only [defragment]
        omega
    · exact ⟨_, (connReqRemove_stays (a := a) placed moves).2, proc, recv, rfl⟩
  have touches : Laid w → Touches w (connReqRemove w (w.reqs slot).connId slot) (w.reqs slot).connId := by
    intro laid
    obtain ⟨conn, table, -⟩ := conns laid
    obtain ⟨l, queue⟩ := laid.queue _ (laid.opened slot live)
    refine ⟨fun d other => ?_, fun d other _ => sameQueue_release placed queue other, flag, Nat.le_of_eq nextFd.symm⟩
    rw [table, Function.update_of_ne other]
  refine ⟨fun laid => ?_, flag, fun laid on => (touches laid).carries fun _ => Or.inl ⟨laid.opened slot live, ?_⟩⟩
  · obtain ⟨conn, table, proc, recv, defrag⟩ := conns laid
    have order := laid.inOrder (laid.opened slot live)
    have here : (connReqRemove w (w.reqs slot).connId slot).conns (w.reqs slot).connId = conn := by
      rw [table, Function.update_self]
    obtain ⟨l, queue⟩ := order.queue
    have bound : (w.conns (w.reqs slot).connId).currRecvBuf ≤ bufSize := by
      have := order.recv
      omega
    refine (touches laid).laid laid (Or.inr (Or.inl (sock _))) (fun _ => ⟨?_, ?_, ?_, ?_, ?_⟩) ?_ fun s live' => ?_
    · obtain ⟨l', queue', -⟩ := queue.release placed order.proc bound
      exact ⟨l', queue'⟩
    · exact (congrArg Prod.fst (housed _)).trans order.busy
    · rw [here]
      exact proc
    · rw [here]
      exact recv
    · rw [here, defrag, flag]
      exact order.defrag
    · intro free
      have busy := (congrArg Prod.fst (housed (w.reqs slot).connId)).symm.trans free
      exact absurd (order.busy.symm.trans busy) (by decide)
    · rw [sock]
      obtain ⟨l, queue⟩ := order.queue
      have on := (on_release placed queue ((connReqRemove w (w.reqs slot).connId slot).reqs s).connId s).mp ⟨live', rfl⟩
      rw [← on.2.2]
      exact laid.opened s on.2.1
  · have order := laid.inOrder (laid.opened slot live)
    have bound : (w.conns (w.reqs slot).connId).currRecvBuf ≤ bufSize := by
      have := order.recv
      omega
    rintro lost ⟨l, queue, total⟩
    obtain ⟨l', queue', balance⟩ := queue.release placed order.proc bound
    exact ⟨l', queue', balance (order.defrag.trans on) lost total⟩

/-- After `conn_reset` no request is left on the connection. -/
theorem connReset_cleared {w : State} {c : Nat} {l : List Nat} (h : Queue w c l) (x : Nat) :
    (x ∈ l → ((connReset w c).reqs x).messagePtr = none) ∧
      (x ∉ l → (connReset w c).reqs x = w.reqs x) := by
  have fits : l.length < maxReqs + 1 := Nat.lt_succ_of_le h.length_le
  have cleared := connResetFrom_queue h.linked h.nodup fits x
  rw [connReset, h.head]
  exact cleared

theorem connReset_on {w : State} {c d x : Nat} {l : List Nat} (h : Queue w c l) :
    OnConn (connReset w c) d x ↔ OnConn w d x ∧ d ≠ c := by
  by_cases inside : x ∈ l
  · have none := (connReset_cleared h x).1 inside
    have live := h.live inside
    simp only [OnConn, none, ne_eq, not_true_eq_false, false_and, false_iff, not_and]
    intro on other
    exact other (on.2.symm.trans live.2)
  · have same := (connReset_cleared h x).2 inside
    have off : ¬ OnConn w c x := fun on => inside ((h.members x).mpr on)
    simp only [OnConn, same] at off ⊢
    constructor
    · intro on
      refine ⟨on, fun e => off ?_⟩
      rw [← e]
      exact on
    · exact And.left

/-- A connection is emptied and its socket forgotten, whatever else becomes of it. -/
theorem keeps_emptied {w w' : State} {c : Nat} (opened : (w.conns c).sock ≠ none)
    (reqs : w'.reqs = (connReset w c).reqs) (conns : ∀ d, d ≠ c → w'.conns d = w.conns d)
    (closed : (w'.conns c).sock = none)
    (free : Laid w → (w'.conns c).busy = false → (w'.conns c).reqList = none)
    (flag : w'.enableDefrag = w.enableDefrag) (nextFd : w'.nextFd = w.nextFd) : Keeps w w' := by
  have on : Laid w → ∀ d x, OnConn w' d x ↔ OnConn w d x ∧ d ≠ c := by
    intro laid d x
    obtain ⟨l, queue⟩ := laid.queue c opened
    simpa only [OnConn, reqs] using connReset_on (d := d) (x := x) queue
  have touches : Laid w → Touches w w' c := by
    intro laid
    obtain ⟨l, queue⟩ := laid.queue c opened
    refine ⟨fun d other => by rw [conns d other], fun d other _ => ⟨fun x => ?_, fun x on' => ?_, ?_, ?_, ?_⟩,
      flag, Nat.le_of_eq nextFd.symm⟩
    · rw [on laid]
      simp [other]
    · have outside : x ∉ l := fun inside => other (on'.2.symm.trans (queue.live inside).2)
      rw [reqs, (connReset_cleared queue x).2 outside]
    · rw [conns d other]
    · rw [conns d other]
    · intro x p _ _
      rw [conns d other]
  refine ⟨fun laid => ?_, flag, fun laid _ => (touches laid).carries fun still => absurd closed still⟩
  refine (touches laid).laid laid (Or.inl closed) (fun still => absurd closed still) (free laid) fun s live => ?_
  have before := (on laid (w'.reqs s).connId s).mp ⟨live, rfl⟩
  rw [conns _ before.2, ← before.1.2]
  exact laid.opened s before.1.1

theorem keeps_connDelId {w : State} {c : Nat} (opened : (w.conns c).sock ≠ none) :
    Keeps w (connDelId w c) := by
  have conns : (connReset w c).conns = w.conns := connResetFrom_conns _ _ _
  refine keeps_emptied opened rfl (fun d other => ?_) ?_ (fun laid freed => ?_) ?_ ?_
  · simp [connDelId, State.setConn, other, conns]
  · simp [connDelId, State.setConn]
  · simp only [connDelId, State.setConn, Function.update_self, conns] at freed ⊢
    exact laid.free c freed
  · exact tableless_enableDefrag.connResetFrom w _ _
  · exact tableless_nextFd.connResetFrom w _ _

theorem keeps_emit (w : State) (e : Effect) : Keeps w (w.emit e) := (quiet_emit w e).keeps

theorem keeps_closeAndForget {w w' : State} {sock : Option Nat} (h : closeAndForget w sock = .ok w') :
    Keeps w w' := by
  cases sock with
  | none => cases h
  | some s =>
    simp only [closeAndForget, connDelSock, connFindSock] at h
    cases found : findIndex (fun i => decide (((w.emit (.pollDel (some s))).conns i).sock = some s))
        maxConns 0 with
    | none =>
      simp only [found] at h
      cases h
      exact (keeps_emit w _).trans (keeps_emit _ _)
    | some c =>
      simp only [found] at h
      cases h
      have own : ((w.emit (.pollDel (some s))).conns c).sock = some s := by
        simpa using findIndex_holds found
      have opened : ((w.emit (.pollDel (some s))).conns c).sock ≠ none := by
        rw [own]
        exact Option.some_ne_none s
      exact (keeps_emit w _).trans ((keeps_connDelId opened).trans (keeps_emit _ _))

/-- A connection just claimed has no queue yet and its whole buffer free. -/
structure Fresh (w : State) (c : Nat) (conn : ConnInfo) : Prop where
  sock : conn.sock = some w.nextFd
  busy : conn.busy = true
  recvBuf : conn.currRecvBuf = 0
  procBuf : conn.currProcBuf = 0
  recvSize : conn.currRecvSize = bufSize
  list : conn.reqList = (w.conns c).reqList
  defrag : conn.enableDefrag = w.enableDefrag

theorem keeps_claim {w w' : State} {c : Nat} {conn : ConnInfo} (small : c < maxConns)
    (free : (w.conns c).busy = false) (fresh : Fresh w c conn)
    (conns : w'.conns = Function.update w.conns c conn) (reqs : w'.reqs = w.reqs)
    (flag : w'.enableDefrag = w.enableDefrag) (nextFd : w'.nextFd = w.nextFd + 1) : Keeps w w' := by
  have here : w'.conns c = conn := by rw [conns, Function.update_self]
  have others : ∀ d, d ≠ c → w'.conns d = w.conns d := fun d other => by
    rw [conns, Function.update_of_ne other]
  have touches : Touches w w' c := by
    refine ⟨fun d other => by rw [others d other], fun d other _ => ⟨fun x => ?_, fun x _ => ?_, ?_, ?_, ?_⟩,
      flag, by omega⟩
    · simp only [OnConn, reqs]
    · rw [reqs]
    · rw [others d other]
    · rw [others d other]
    · intro s p _ _
      rw [others d other]
  have queue : Laid w → Queue w' c [] := by
    intro laid
    refine ⟨?_, trivial, trivial, fun x => ?_, fun x hx => absurd hx List.not_mem_nil⟩
    · rw [here, fresh.list]
      exact laid.free c free
    · simp only [List.not_mem_nil, false_iff]
      rintro ⟨live, on⟩
      rw [reqs] at live on
      have busy := laid.busy _ (laid.opened x live)
      rw [on, free] at busy
      cases busy
  refine ⟨fun laid => ?_, flag, fun laid _ => touches.carries fun _ => Or.inr ⟨[], queue laid, ?_⟩⟩
  · refine touches.laid laid (Or.inr (Or.inr ⟨w.nextFd, ?_, Nat.le_refl _, by omega, small⟩))
      (fun _ => ⟨⟨[], queue laid⟩, ?_, ?_, ?_, ?_⟩) (fun freed => ?_) fun s live => ?_
    · rw [here, fresh.sock]
    · rw [here, fresh.busy]
    · rw [here, fresh.procBuf]
      exact Nat.zero_le _
    · rw [here, fresh.recvBuf, fresh.recvSize]
      exact Nat.zero_add _
    · rw [here, fresh.defrag, flag]
    · rw [here, fresh.busy] at freed
      cases freed
    · rw [reqs] at live ⊢
      by_cases own : (w.reqs s).connId = c
      · rw [own, here, fresh.sock]
        exact Option.some_ne_none _
      · rw [others _ own]
        exact laid.opened s live
  · rw [here, fresh.procBuf]
    rfl

/-- A free slot that is claimed and given up at once. -/
theorem keeps_unclaimed {w w' : State} {c : Nat} (free : (w.conns c).busy = false) (reqs : w'.reqs = w.reqs)
    (conns : ∀ d, d ≠ c → w'.conns d = w.conns d) (closed : (w'.conns c).sock = none)
    (list : (w'.conns c).reqList = (w.conns c).reqList) (flag : w'.enableDefrag = w.enableDefrag)
    (nextFd : w.nextFd ≤ w'.nextFd) : Keeps w w' := by
  have touches : Touches w w' c := by
    refine ⟨fun d other => by rw [conns d other], fun d other _ => ⟨fun x => ?_, fun x _ => ?_, ?_, ?_, ?_⟩,
      flag, nextFd⟩
    · simp only [OnConn, reqs]
    · rw [reqs]
    · rw [conns d other]
    · rw [conns d other]
    · intro s p _ _
      rw [conns d other]
  refine ⟨fun laid => ?_, flag, fun laid _ => touches.carries fun still => absurd closed still⟩
  refine touches.laid laid (Or.inl closed) (fun still => absurd closed still) (fun _ => ?_) fun s live => ?_
  · rw [list]
    exact laid.free c free
  · rw [reqs] at live ⊢
    have before := laid.opened s live
    have other : (w.reqs s).connId ≠ c := by
      intro own
      have busy := laid.busy _ before
      rw [own, free] at busy
      cases busy
    rw [conns _ other]
    exact before

theorem keeps_connFree {w : State} {c : Nat} (opened : (w.conns c).sock ≠ none)
    (empty : (w.conns c).reqList = none) : Keeps w (connFree w c) := by
  have conns : (connReset w c).conns = w.conns := connResetFrom_conns _ _ _
  refine keeps_emptied opened rfl (fun d other => ?_) ?_ (fun _ _ => ?_) ?_ ?_
  · simp [connFree, State.setConn, other, conns]
  · simp [connFree, State.setConn]
  · simp only [connFree, State.setConn, Function.update_self, conns]
    exact empty
  · exact tableless_enableDefrag.connResetFrom w _ _
  · exact tableless_nextFd.connResetFrom w _ _

/-! ## Receiving -/

/-- Received bytes are stored behind everything the queue rests on. -/
theorem keeps_fill {w : State} {c : Nat} (data : List UInt8) :
    Keeps w (w.setConn c (takeBytes (w.conns c) data)) := by
  have here : (w.setConn c (takeBytes (w.conns c) data)).conns c = takeBytes (w.conns c) data := by
    simp [State.setConn]
  have others : ∀ d, d ≠ c → (w.setConn c (takeBytes (w.conns c) data)).conns d = w.conns d :=
    fun d other => by simp [State.setConn, other]
  have touches : Touches w (w.setConn c (takeBytes (w.conns c) data)) c := by
    refine ⟨fun d other => by rw [others d other], fun d other _ => ⟨fun x => Iff.rfl, fun x _ => rfl, ?_, ?_, ?_⟩,
      rfl, Nat.le_refl _⟩
    · rw [others d other]
    · rw [others d other]
    · intro s p _ _
      rw [others d other]
  have own : Laid w → (w.conns c).sock ≠ none → ∀ l, Queue w c l →
      SameQueue w (w.setConn c (takeBytes (w.conns c) data)) c := by
    intro laid opened l queue
    refine ⟨fun x => Iff.rfl, fun x _ => rfl, by rw [here]; rfl, by rw [here]; rfl, fun s p on at_ => ?_⟩
    obtain ⟨q, place, large, fits⟩ := queue.stacked.mem ((queue.members s).mpr on)
    rw [at_] at place
    cases place
    have proc := laid.proc c opened
    simp only [messageHeader] at large
    rw [here]
    exact u32_store_disjoint _ _ _ _ (Or.inl (by omega))
  refine ⟨fun laid => ?_, rfl, fun laid _ => touches.carries fun opened => ?_⟩
  · refine touches.laid laid (Or.inr (Or.inl (by rw [here]; rfl))) (fun opened => ?_) ?_ fun s live => ?_
    · have before : (w.conns c).sock ≠ none := by
        rw [here] at opened
        exact opened
      have order := laid.inOrder before
      obtain ⟨l, queue⟩ := order.queue
      have recv := order.recv
      have proc := order.proc
      have short := List.length_take_le (w.conns c).currRecvSize data
      refine ⟨⟨l, queue.same (own laid before l queue)⟩, by rw [here]; exact order.busy, ?_, ?_,
        by rw [here]; exact order.defrag⟩
      · rw [here]
        simp only [takeBytes]
        omega
      · rw [here]
        simp only [takeBytes]
        omega
    · rw [here]
      exact laid.free c
    · have before := laid.opened s live
      by_cases at_ : (w.reqs s).connId = c
      · change ((w.setConn c (takeBytes (w.conns c) data)).conns (w.reqs s).connId).sock ≠ none
        rw [at_, here]
        rw [at_] at before
        exact before
      · change ((w.setConn c (takeBytes (w.conns c) data)).conns (w.reqs s).connId).sock ≠ none
        rw [others _ at_]
        exact before
  · have before : (w.conns c).sock ≠ none := by
      rw [here] at opened
      exact opened
    refine Or.inl ⟨before, fun lost queued => ?_⟩
    obtain ⟨l, queue, total⟩ := queued
    exact (own laid before l queue).queued ⟨l, queue, total⟩

section Take

variable {w : State} {c m : Nat} {conn : ConnInfo}

/-- A message is taken from the connection and not entered: its bytes are lost. -/
theorem Laid.take (laid : Laid w) (opened : (w.conns c).sock ≠ none)
    (h : connPrepareRecvMessage (w.conns c) = .ok (some m, conn)) :
    Laid (w.setConn c conn) ∧
      (∀ lost, Queued w c lost → Queued (w.setConn c conn) c (lost + reqSizeOf (w.conns c).recvBuf m)) ∧
      ∀ d, d ≠ c → SameQueue w (w.setConn c conn) d := by
  obtain ⟨start, -, fits, rfl⟩ := connPrepareRecvMessage_some h
  generalize next : ({ w.conns c with currProcBuf := m + reqSizeOf (w.conns c).recvBuf m } : ConnInfo) = conn
  have here : (w.setConn c conn).conns c = conn := by simp [State.setConn]
  have others : ∀ d, d ≠ c → (w.setConn c conn).conns d = w.conns d :=
    fun d other => by simp [State.setConn, other]
  have same : ∀ d, d ≠ c → SameQueue w (w.setConn c conn) d := by
    intro d other
    refine ⟨fun x => Iff.rfl, fun x _ => rfl, ?_, ?_, ?_⟩
    · rw [others d other]
    · rw [others d other]
    · intro s p _ _
      rw [others d other]
  have touches : Touches w (w.setConn c conn) c :=
    ⟨fun d other => by rw [others d other], fun d other _ => same d other, rfl, Nat.le_refl _⟩
  have queue : ∀ l, Queue w c l → Queue (w.setConn c conn) c l := by
    intro l queue
    refine ⟨?_, queue.linked, ?_, queue.members, queue.slots⟩
    · rw [here, ← next]
      exact queue.head
    · rw [here, ← next]
      exact queue.stacked.mono (by simp only; omega)
  have order := laid.inOrder opened
  have recv := order.recv
  refine ⟨touches.laid laid (Or.inr (Or.inl ?_)) (fun _ => ?_) ?_ fun s live => ?_, ?_, same⟩
  · rw [here, ← next]
  · obtain ⟨l, before⟩ := order.queue
    refine ⟨⟨l, queue l before⟩, ?_, ?_, ?_, ?_⟩
    · rw [here, ← next]
      exact order.busy
    · rw [here, ← next]
      exact fits
    · rw [here, ← next]
      exact order.recv
    · rw [here, ← next]
      exact order.defrag
  · rw [here, ← next]
    exact laid.free c
  · have before := laid.opened s live
    by_cases at_ : (w.reqs s).connId = c
    · change ((w.setConn c conn).conns (w.reqs s).connId).sock ≠ none
      rw [at_, here, ← next]
      exact opened
    · change ((w.setConn c conn).conns (w.reqs s).connId).sock ≠ none
      rw [others _ at_]
      exact before
  · rintro lost ⟨l, before, total⟩
    refine ⟨l, queue l before, ?_⟩
    have bytes : ((w.setConn c conn).conns c).recvBuf = (w.conns c).recvBuf := by rw [here, ← next]
    have held : heldBytes (w.setConn c conn) c l = heldBytes w c l := by
      simp only [heldBytes, bytes]
      rfl
    rw [held, here, ← next]
    simp only
    omega

/-- A message is taken and entered as a request. -/
theorem keeps_admit {w' : State} {slot : Nat} (opened : (w.conns c).sock ≠ none)
    (h : connPrepareRecvMessage (w.conns c) = .ok (some m, conn))
    (entered : enterRequest (w.setConn c conn) c m = (w', some slot))
    (vacant : (w.reqs (slotOf w.lastReqs)).messagePtr = none) : Keeps w w' := by
  obtain ⟨start, large, fits, next⟩ := connPrepareRecvMessage_some h
  have here : (w.setConn c conn).conns c = conn := by simp [State.setConn]
  have after : ∀ l, Queue w c l → Laid w → Entered (w.setConn c conn) w' c m slot ∧ slot = slotOf w.lastReqs ∧
      Queue (w.setConn c conn) c l ∧ Queue w' c (slot :: l) ∧
      heldBytes w' c (slot :: l) = heldBytes w c l + reqSizeOf (w.conns c).recvBuf m := by
    intro l queue laid
    have queue' : Queue (w.setConn c conn) c l := by
      refine ⟨?_, queue.linked, ?_, queue.members, queue.slots⟩
      · rw [here, next]
        exact queue.head
      · rw [here, next]
        exact queue.stacked.mono (by simp only; omega)
    have slot_eq : slot = slotOf w.lastReqs := by
      rcases enterRequest_cases (w.setConn c conn) c m with ⟨-, none, -⟩ | ⟨-, some⟩
      · rw [entered] at none
        cases none
      · rw [entered] at some
        exact Option.some.inj some
    have outside : ((w.setConn c conn).conns c).reqList ≠ some slot := by
      rw [queue'.head]
      intro first
      exact (queue'.live (List.mem_of_mem_head? first)).1 (slot_eq ▸ vacant)
    obtain ⟨e, -⟩ := enterRequest_entered entered outside
    have bytes : ((w.setConn c conn).conns c).recvBuf = (w.conns c).recvBuf := by rw [here, next]
    have grown := queue'.enter e (slot_eq ▸ vacant) (by rw [slot_eq]; exact Nat.mod_lt _ (by decide))
      (by rw [bytes]; exact large) (by rw [bytes, here, next])
      (by rw [bytes]; exact start ▸ queue.stacked)
    rw [bytes] at grown
    have held : heldBytes (w.setConn c conn) c l = heldBytes w c l := by
      simp only [heldBytes, bytes]
      rfl
    rw [held] at grown
    exact ⟨e, slot_eq, queue', grown⟩
  have flag : w'.enableDefrag = w.enableDefrag := by
    have kept := tableless_enableDefrag.enterRequest (w.setConn c conn) c m
    rw [entered] at kept
    exact kept
  have fd : w'.nextFd = w.nextFd := by
    have kept := tableless_nextFd.enterRequest (w.setConn c conn) c m
    rw [entered] at kept
    exact kept
  have own : Laid w → w'.conns c = { conn with reqList := some slot } := by
    intro laid
    obtain ⟨l, queue⟩ := laid.queue c opened
    rw [(after l queue laid).1.conns, Function.update_self, here]
  have touches : Laid w → Touches w w' c := by
    intro laid
    obtain ⟨l, queue⟩ := laid.queue c opened
    obtain ⟨e, slot_eq, queue', -⟩ := after l queue laid
    obtain ⟨-, -, same⟩ := laid.take opened h
    have others : ∀ d, d ≠ c → w'.conns d = w.conns d := by
      intro d other
      rw [e.conns, Function.update_of_ne other]
      simp [State.setConn, other]
    refine ⟨fun d other => by rw [others d other], fun d other _ => ?_, flag, Nat.le_of_eq fd.symm⟩
    have kept := sameQueue_enter queue' e (slot_eq ▸ vacant) other
    have before := same d other
    exact ⟨fun x => (kept.on x).trans (before.on x),
      fun x on => (kept.placed x ((before.on x).mpr on)).trans (before.placed x on),
      kept.list.trans before.list, kept.top.trans before.top,
      fun x p on e => (kept.sizes x p ((before.on x).mpr on) e).trans (before.sizes x p on e)⟩
  refine ⟨fun laid => ?_, flag, fun laid _ => (touches laid).carries fun _ => Or.inl ⟨opened, ?_⟩⟩
  · obtain ⟨l, queue⟩ := laid.queue c opened
    obtain ⟨e, slot_eq, queue', grown, -⟩ := after l queue laid
    have order := laid.inOrder opened
    have conn' := own laid
    refine (touches laid).laid laid (Or.inr (Or.inl ?_)) (fun _ => ⟨⟨_, grown⟩, ?_, ?_, ?_, ?_⟩) (fun freed => ?_)
      fun s live => ?_
    · rw [conn', next]
    · rw [conn', next]
      exact order.busy
    · rw [conn', next]
      exact fits
    · rw [conn', next]
      exact order.recv
    · rw [conn', next, flag]
      exact order.defrag
    · rw [conn', next] at freed
      exact absurd (order.busy.symm.trans freed) (by decide)
    · have on := (e.on_iff (slot_eq ▸ vacant) (w'.reqs s).connId s).mp ⟨live, rfl⟩
      by_cases at_ : (w'.reqs s).connId = c
      · rw [at_, conn', next]
        exact opened
      · rcases on with before | ⟨-, same⟩
        · rw [(inbox_eq ((touches laid).others _ at_)).2.2.2.2.2.2.1, ← before.2]
          exact laid.opened s before.1
        · exact absurd same at_
  · rintro lost ⟨l, queue, total⟩
    obtain ⟨-, -, -, grown, held⟩ := after l queue laid
    refine ⟨_, grown, ?_⟩
    rw [held, own laid, next]
    simp only
    omega

end Take

end BufferLayout
