import DistWalk.LayoutRuns

/-!
# Removing a request closes the gap of its message

`conn_req_remove` moves the bytes behind the removed message down in one piece. The
messages of the newer requests, the two cursors behind them and the bytes that are
not processed yet all move by the size of that message, whatever request of the
list is removed.
-/

namespace Defragmentation

open ByteMemory Message Connection Worker Node Requests Transitions ThreadedBlocks ReceiveQueue LayoutRuns

/-- The cursors of a receive buffer are in order and the rest of the buffer is free. -/
structure Cursors (conn : ConnInfo) : Prop where
  proc : conn.currProcBuf ≤ conn.currRecvBuf
  total : conn.currRecvBuf + conn.currRecvSize = bufSize

section Remove

variable {w : State} {slot p : Nat} {a t : List Nat}

/-- What the connection looks like without the message. -/
theorem conn_removed (placed : (w.reqs slot).messagePtr = some p)
    (queue : Queue w (w.reqs slot).connId (a ++ slot :: t))
    (defrag : (w.conns (w.reqs slot).connId).enableDefrag = true) (low : p < bufSize) :
    (connReqRemove w (w.reqs slot).connId slot).conns (w.reqs slot).connId =
      { defragment (w.conns (w.reqs slot).connId) p
          (reqSizeOf (w.conns (w.reqs slot).connId).recvBuf p) with
        reqList := (a ++ t).head? } := by
  rw [(connReqRemove_moves placed queue ⟨defrag, low⟩).2, Function.update_self, queue.head_without]

/-- The message of a request of the list lies in the buffer, below `curr_proc_buf`. -/
theorem message_fits (placed : (w.reqs slot).messagePtr = some p)
    (queue : Queue w (w.reqs slot).connId (a ++ slot :: t)) :
    messageHeader ≤ reqSizeOf (w.conns (w.reqs slot).connId).recvBuf p ∧
      p + reqSizeOf (w.conns (w.reqs slot).connId).recvBuf p ≤
        (w.conns (w.reqs slot).connId).currProcBuf := by
  obtain ⟨q, here, large, fits⟩ := queue.stacked.mem (List.mem_append_right a List.mem_cons_self)
  rw [placed] at here
  cases here
  exact ⟨large, fits⟩

theorem Cursors.removed (h : Cursors (w.conns (w.reqs slot).connId))
    (placed : (w.reqs slot).messagePtr = some p)
    (queue : Queue w (w.reqs slot).connId (a ++ slot :: t))
    (defrag : (w.conns (w.reqs slot).connId).enableDefrag = true) :
    Cursors ((connReqRemove w (w.reqs slot).connId slot).conns (w.reqs slot).connId) := by
  obtain ⟨large, fits⟩ := message_fits placed queue
  have proc := h.proc
  have total := h.total
  simp only [messageHeader] at large
  rw [conn_removed placed queue defrag (by omega)]
  refine ⟨?_, ?_⟩
  · simp only [defragment]
    omega
  · simp only [defragment]
    omega

/-- Removing any request of the list keeps the list and the stack of messages of the others,
gives back the bytes of its message and no others, and every other request keeps its message
byte for byte and its place in it; so do the bytes that are not processed yet. -/
theorem removal_preserves {l : List Nat} (own : slot ∈ l) (queue : Queue w (w.reqs slot).connId l)
    (placed : (w.reqs slot).messagePtr = some p)
    (defrag : (w.conns (w.reqs slot).connId).enableDefrag = true)
    (cursors : Cursors (w.conns (w.reqs slot).connId))
    (inside : ∀ s ∈ l, ∀ m cmd, (w.reqs s).messagePtr = some m → (w.reqs s).currCmd = some cmd → m ≤ cmd) :
    let conn := w.conns (w.reqs slot).connId
    let size := reqSizeOf conn.recvBuf p
    let w' := connReqRemove w (w.reqs slot).connId slot
    let conn' := w'.conns (w.reqs slot).connId
    Queue w' (w.reqs slot).connId (l.erase slot) ∧ Cursors conn' ∧
      conn'.currProcBuf + size = conn.currProcBuf ∧ conn'.currRecvBuf + size = conn.currRecvBuf ∧
      conn'.currRecvSize = conn.currRecvSize + size ∧
      heldBytes w' (w.reqs slot).connId (l.erase slot) + size = heldBytes w (w.reqs slot).connId l ∧
      (∀ x ∈ l.erase slot, ∀ q, (w.reqs x).messagePtr = some q →
        Stays (reqSizeOf conn.recvBuf q) w w' x) ∧
      ∀ i, conn'.currProcBuf ≤ i → i < conn'.currRecvBuf → conn'.recvBuf i = conn.recvBuf (i + size) := by
  intro conn size w' conn'
  obtain ⟨a, t, rfl⟩ := List.append_of_mem own
  have fresh := (List.nodup_cons.mp (List.nodup_middle.mp queue.nodup)).1
  have rest : (a ++ slot :: t).erase slot = a ++ t := by
    rw [List.erase_append_right _ fun inA => fresh (List.mem_append_left t inA), List.erase_cons_head]
  obtain ⟨large, fits⟩ := message_fits placed queue
  have proc := cursors.proc
  have total := cursors.total
  have low : p < bufSize := by
    simp only [messageHeader] at large
    omega
  have whole : size ≤ conn.currProcBuf ∧ size ≤ conn.currRecvBuf := by
    simp only [size, conn]
    omega
  have after : conn' = { defragment conn p size with reqList := (a ++ t).head? } :=
    conn_removed placed queue defrag low
  have closes := (connReqRemove_moves placed queue ⟨defrag, low⟩).1.closes placed queue proc
    (show conn'.recvBuf = _ by rw [after])
  obtain ⟨l', kept, -⟩ := queue.release placed proc (by omega)
  have same : l' = a ++ t := by
    refine kept.linked.unique ((connReqRemove_moves placed queue ⟨defrag, low⟩).1.linked queue) ?_
    rw [← kept.head]
    change conn'.reqList = _
    rw [after]
  subst same
  rw [rest]
  refine ⟨kept, cursors.removed placed queue defrag, ?_, ?_, ?_,
    (closes.total queue.stacked placed).symm, fun x member q here => ?_, fun i low_i high_i => ?_⟩
  · rw [after]
    exact Nat.sub_add_cancel whole.1
  · rw [after]
    exact Nat.sub_add_cancel whole.2
  · rw [after]
    rfl
  · have other : x ≠ slot := by
      rintro rfl
      exact fresh member
    have member' : x ∈ a ++ slot :: t := by
      simp only [List.mem_append, List.mem_cons] at member ⊢
      tauto
    have home := (queue.live member').2
    have stays := stays_release placed queue proc member' other here fun cmd => inside x member' q cmd here
    rw [reqMem, home] at stays
    exact stays
  · rw [after] at low_i high_i ⊢
    simp only [defragment] at low_i high_i
    have lower : p + size ≤ conn.currProcBuf := fits
    exact defragment_above conn (by omega) (by omega)

end Remove

/-! ## The older of two requests -/

/-- Two messages of 16 bytes and the first bytes of a third one. -/
def twoMessages : ConnInfo := { ConnInfo.init with
  recvBuf := fun i => if i = 4 ∨ i = 20 then 16 else 0
  currProcBuf := 32, currRecvBuf := 40, currRecvSize := bufSize - 40
  reqList := some 1, enableDefrag := true }

def twoRequests : State := { State.init 0 (fun _ => 0) (fun _ _ => 0) true with
  conns := fun _ => twoMessages
  reqs := fun s =>
    match s with
    | 0 => { ReqInfo.init with reqId := 0, messagePtr := some 0, currCmd := some 12, prev := some 1 }
    | 1 => { ReqInfo.init with reqId := 1, messagePtr := some 16, currCmd := some 28, next := some 0 }
    | _ => .init }

theorem twoRequests_queue : Queue twoRequests 0 [1, 0] where
  head := rfl
  linked := ⟨rfl, rfl, rfl, rfl, trivial⟩
  stacked := ⟨16, rfl, by decide, by decide, 0, rfl, by decide, by decide, trivial⟩
  members s := by
    match s with
    | 0 => simp [OnConn, twoRequests, ReqInfo.init]
    | 1 => simp [OnConn, twoRequests, ReqInfo.init]
    | s + 2 => simp [OnConn, twoRequests, ReqInfo.init]
  slots := by decide

theorem removal_preserves_older : Queue (connReqRemove twoRequests 0 0) 0 [1] :=
  (@removal_preserves twoRequests 0 0 [1, 0] (by decide) twoRequests_queue rfl rfl
    ⟨by decide, by decide⟩ (by
      intro s hs m cmd placed current
      rcases List.mem_cons.mp hs with rfl | hs
      · cases placed
        cases current
        decide
      · obtain rfl := List.mem_singleton.mp hs
        cases placed
        exact Nat.zero_le cmd)).1

end Defragmentation
