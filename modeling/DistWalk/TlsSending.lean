import DistWalk.ReceiveQueue
import DistWalk.Wire

/-!
# Sending over TLS and over a socket

`conn_ssl_send` and the socket branch of `conn_send` move the same cursors and
return the same code. The status is where they differ: the socket branch
records that it waits (SENDING) and that it has finished waiting (READY),
`conn_ssl_send` does neither. A caller that reads the status takes a TLS write
that would block for a failure.
-/

namespace TlsSending

open ByteMemory Message Connection Worker Node Transitions ReceiveQueue

/-- The socket branch of `conn_send`. -/
def plainSend (c : ConnInfo) (r : IoResult) : Sent := connSend { c with useSsl := false } r

/-- Return code, cursors and status are the same. -/
structure Agree (a b : Sent) : Prop where
  ret : a.ret = b.ret
  currSendBuf : a.conn.currSendBuf = b.conn.currSendBuf
  currSendSize : a.conn.currSendSize = b.conn.currSendSize
  status : a.conn.status = b.conn.status

/-- The write takes all that is pending. -/
def Drains (c : ConnInfo) (r : IoResult) : Prop :=
  ∃ n, r = .done n ∧ 0 < c.currSendSize ∧ c.currSendSize ≤ n

/-- No status changes hands: a connection that would block is waiting already,
and one that waits is not drained. -/
structure Unmarked (c : ConnInfo) (r : IoResult) : Prop where
  blocked : r = .wouldBlock → c.status = .sending
  drained : c.status = .sending → ¬ Drains c r

theorem advanceSend_status (c : ConnInfo) (n : Nat) : (advanceSend c n).status = c.status := rfl

/-- Up to the status the two agree on every outcome. -/
theorem cursors_agree (c : ConnInfo) (r : IoResult) :
    (connSslSend c r).ret = (plainSend c r).ret ∧
      (connSslSend c r).conn.currSendBuf = (plainSend c r).conn.currSendBuf ∧
      (connSslSend c r).conn.currSendSize = (plainSend c r).conn.currSendSize := by
  cases r with
  | done n =>
    simp only [plainSend, connSend, connSslSend, Bool.false_eq_true, if_false]
    split
    · exact ⟨rfl, rfl, rfl⟩
    · split
      · exact ⟨rfl, rfl, rfl⟩
      · exact ⟨rfl, rfl, rfl⟩
  | wouldBlock => exact ⟨rfl, rfl, rfl⟩
  | peerClosed => exact ⟨rfl, rfl, rfl⟩
  | failed => exact ⟨rfl, rfl, rfl⟩

theorem connSslSend_status (c : ConnInfo) (r : IoResult) :
    (connSslSend c r).conn.status = if r = .peerClosed then .closing else c.status := by
  cases r with
  | done n =>
    simp only [connSslSend]
    split <;> rfl
  | wouldBlock => rfl
  | peerClosed => rfl
  | failed => rfl

theorem plainSend_status_done (c : ConnInfo) (n : Nat) :
    (plainSend c (.done n)).conn.status =
      if 0 < c.currSendSize ∧ c.currSendSize ≤ n ∧ c.status = .sending then .ready else c.status := by
  simp only [plainSend, connSend, Bool.false_eq_true, if_false]
  split
  · rename_i nothing
    rw [if_neg (by omega)]
  · rename_i some
    by_cases drained : c.currSendSize ≤ n
    · by_cases waits : c.status = .sending
      · rw [if_pos ⟨by simp only [advanceSend]; omega, waits⟩, if_pos ⟨by omega, drained, waits⟩]
      · rw [if_neg (fun both => waits both.2), if_neg (fun all => waits all.2.2), advanceSend_status]
    · rw [if_neg (fun both => drained (by have := both.1; simp only [advanceSend] at this; omega)),
        if_neg (fun all => drained all.2.1), advanceSend_status]

theorem not_drains {c : ConnInfo} {r : IoResult} (other : ∀ n, r ≠ .done n) : ¬ Drains c r := by
  rintro ⟨n, e, -⟩
  exact other n e

theorem unmarked_blocked_iff (c : ConnInfo) : Unmarked c .wouldBlock ↔ c.status = .sending := by
  constructor
  · intro unmarked
    exact unmarked.blocked rfl
  · intro waits
    exact ⟨fun _ => waits, fun _ => not_drains (by simp)⟩

theorem agree_iff (c : ConnInfo) (r : IoResult) :
    Agree (connSslSend c r) (plainSend c r) ↔ Unmarked c r := by
  obtain ⟨ret, buf, size⟩ := cursors_agree c r
  have status : Agree (connSslSend c r) (plainSend c r) ↔
      (connSslSend c r).conn.status = (plainSend c r).conn.status :=
    ⟨fun agree => agree.status, fun same => ⟨ret, buf, size, same⟩⟩
  rw [status, connSslSend_status]
  cases r with
  | done n =>
    rw [plainSend_status_done, if_neg (by simp)]
    constructor
    · intro same
      refine ⟨fun e => (by cases e), ?_⟩
      rintro waits ⟨k, e, pending, all⟩
      cases e
      rw [if_pos ⟨pending, all, waits⟩, waits] at same
      cases same
    · intro unmarked
      rw [if_neg]
      rintro ⟨pending, all, waits⟩
      exact unmarked.drained waits ⟨n, rfl, pending, all⟩
  | wouldBlock =>
    rw [unmarked_blocked_iff]
    rfl
  | peerClosed =>
    have unmarked : Unmarked c .peerClosed := ⟨fun e => (by cases e), fun _ => not_drains (by simp)⟩
    exact ⟨fun _ => unmarked, fun _ => rfl⟩
  | failed =>
    have unmarked : Unmarked c .failed := ⟨fun e => (by cases e), fun _ => not_drains (by simp)⟩
    exact ⟨fun _ => unmarked, fun _ => rfl⟩

/-! ## The response -/

theorem connReqRemove_status (w : State) (c slot d : Nat) :
    ((connReqRemove w c slot).conns d).status = (w.conns d).status := by
  have reclaimed : ((reclaim w c slot).conns d).status = (w.conns d).status := by
    unfold reclaim
    split
    · rfl
    · split
      · rw [shiftNewer_conns]
        by_cases own : d = c
        · subst own
          simp [State.setConn, defragment]
        · simp [State.setConn, own]
      · rfl
  rw [connReqRemove, reqUnlink_conns, ← reclaimed, dropHead]
  split
  · by_cases own : d = c
    · subst own
      simp [State.setConn]
    · simp [State.setConn, own]
  · rfl

/-- The next TLS write on the connection of the request would block. -/
structure Blocked (w : State) (slot cmd : Nat) : Prop where
  tls : (w.conns (w.reqs slot).connId).useSsl = true
  live : (w.conns (w.reqs slot).connId).status.deferred = false
  mode : (replyOpts (reqMem w slot) cmd).mode ≠ .sendfile
  answer : w.kernel.sends.head? = some .wouldBlock

/-- The response is composed, and none of it leaves. -/
theorem reply_blocked {w w' : State} {slot m cmd : Nat} {result : Int} (blocked : Blocked w slot cmd)
    (h : reply w slot m cmd = .ok (w', result)) :
    result = 0 ∧ (w'.conns (w.reqs slot).connId).status = (w.conns (w.reqs slot).connId).status := by
  obtain ⟨tls, live, mode, answer⟩ := blocked
  have waiting : ∃ rest, w.kernel.sends = .wouldBlock :: rest := by
    cases sends : w.kernel.sends with
    | nil =>
      rw [sends] at answer
      cases answer
    | cons r rest =>
      rw [sends] at answer
      cases answer
      exact ⟨rest, rfl⟩
  obtain ⟨rest, sends⟩ := waiting
  simp only [Node.reply] at h
  split at h
  · cases h
  · obtain ⟨⟨v, ret⟩, sent, paired⟩ := map_eq_ok.mp h
    cases paired
    rw [connReqRemove_status]
    have plain : ∀ (u : State) (target : Addr), u.kernel.sends = .wouldBlock :: rest →
        (u.conns (w.reqs slot).connId).useSsl = true →
        (u.conns (w.reqs slot).connId).status = (w.conns (w.reqs slot).connId).status →
        startSendOn u (w.reqs slot).connId target = (v, ret) →
        ret = 0 ∧ (v.conns (w.reqs slot).connId).status = (w.conns (w.reqs slot).connId).status := by
      intro u target answers ssl same started
      have status : (u.conns (w.reqs slot).connId).status.deferred = false := by rw [same, live]
      simp only [startSendOn, status, takeSend, answers, connStartSend, connSend, ssl, connSslSend,
        Bool.false_eq_true, if_false, if_true] at started
      cases started
      exact ⟨rfl, by simpa [State.setConn, State.emit] using same⟩
    unfold transmitReply at sent
    split at sent
    · rename_i other
      exact absurd other mode
    · refine plain _ _ ?_ ?_ ?_ (Except.ok.inj sent)
      · exact sends
      · simp [State.setConn, fillReply, connPrepareSendMessage, tls]
      · simp [State.setConn, fillReply, connPrepareSendMessage]

/-- A TLS response that would block costs the connection, unless it is already
known to wait or to be closed. -/
theorem processReply_blocked {w w' : State} {slot m cmd : Nat} {ret : Int} (blocked : Blocked w slot cmd)
    (h : processReply w slot m cmd = .ok (w', ret)) :
    ret = -1 ↔ (w.conns (w.reqs slot).connId).status ≠ .sending ∧
      (w.conns (w.reqs slot).connId).status ≠ .close := by
  simp only [processReply] at h
  split at h
  · cases h
  · rename_i v result replied
    obtain ⟨none, same⟩ := reply_blocked blocked replied
    rw [same] at h
    split at h
    · rename_i waits
      split at h
      · rename_i sending
        obtain ⟨u, -, paired⟩ := map_eq_ok.mp h
        cases paired
        simp [sending]
      · rename_i idle
        obtain ⟨u, -, paired⟩ := map_eq_ok.mp h
        cases paired
        simp [idle, waits.1]
    · rename_i closed
      have close : (w.conns (w.reqs slot).connId).status = .close := by
        by_contra other
        exact closed ⟨other, none⟩
      split at h
      · obtain ⟨u, -, paired⟩ := map_eq_ok.mp h
        cases paired
        simp [close]
      · cases h
        simp [close]

/-- The two ways of sending agree exactly where no status has to be recorded; and
a TLS response that would block has its connection closed exactly where the
connection is not waiting already. -/
theorem tls_sending_iff (c : ConnInfo) (r : IoResult) :
    (Agree (connSslSend c r) (plainSend c r) ↔ Unmarked c r) ∧
    ∀ {w w' : State} {slot m cmd : Nat} {ret : Int}, w.conns (w.reqs slot).connId = c →
      Blocked w slot cmd → c.status ≠ .close → processReply w slot m cmd = .ok (w', ret) →
      (ret ≠ -1 ↔ Unmarked c .wouldBlock) := by
  refine ⟨agree_iff c r, ?_⟩
  intro w w' slot m cmd ret home blocked unclosed h
  subst home
  rw [ne_eq, processReply_blocked blocked h, unmarked_blocked_iff]
  constructor
  · intro kept
    by_contra idle
    exact kept ⟨idle, unclosed⟩
  · rintro waits ⟨idle, -⟩
    exact idle waits

/-- A TLS client asks for a load and a response. -/
def tlsClient : List (Kernel × Event) :=
  [(.silent, .accept [10, 0, 0, 9, 0, 9] .tls),
   (.silent, .ready 0 .socket (received (Wire.message 1 0 [.load 0, .reply 16, .eom])))]

def tlsNode : State := .init 1 (fun _ => 5) (fun _ _ => 0) true

/-- No `SSL_write` is taken. -/
def blockedWrites : Kernel := { Kernel.silent with sends := [.wouldBlock] }

/-- The response of the client's request, at its REPLY. -/
theorem tls_response_blocked : ∃ w w' ret, run tlsNode tlsClient = .ok w ∧
    Blocked { w with kernel := blockedWrites } 0 40 ∧
    processReply { w with kernel := blockedWrites } 0 0 40 = .ok (w', ret) ∧
    (ret ≠ -1 ↔ Unmarked (w.conns 0) .wouldBlock) := by
  have evaluated : ((run tlsNode tlsClient).toOption.any fun w =>
      (w.reqs 0).connId = 0 ∧ (w.conns 0).useSsl = true ∧ (w.conns 0).status = .ready ∧
        (replyOpts (reqMem w 0) 40).mode = .normal ∧
        (processReply { w with kernel := blockedWrites } 0 0 40).toOption.any fun _ => true) = true := by
    decide +kernel
  obtain ⟨w, ran, facts⟩ := exists_of_any evaluated
  obtain ⟨home, tls, ready, mode, answered⟩ := of_decide_eq_true facts
  obtain ⟨⟨w', ret⟩, done, -⟩ := exists_of_any answered
  have done := toOption_eq_some done
  have blocked : Blocked { w with kernel := blockedWrites } 0 40 := by
    constructor
    · rw [home, tls]
    · rw [home, ready]
      rfl
    · change (replyOpts (reqMem w 0) 40).mode ≠ .sendfile
      rw [mode]
      decide
    · rfl
  have unclosed : (w.conns 0).status ≠ .close := by rw [ready]; decide
  have conn : w.conns (w.reqs 0).connId = w.conns 0 := congrArg w.conns home
  have kept : ret ≠ -1 ↔ Unmarked (w.conns 0) .wouldBlock := by
    apply (tls_sending_iff (w.conns 0) .wouldBlock).2 _ blocked unclosed done
    exact conn
  exact ⟨w, w', ret, toOption_eq_some ran, blocked, done, kept⟩

/-- With 16 bytes pending a TLS write that would block leaves the connection
READY where a socket would be SENDING, a TLS write that takes them all leaves it
SENDING where a socket would be READY, and the response to the client's request
ends its connection. -/
theorem blocked_write_closes :
    let c := { ConnInfo.init.claim 3 [] .tls 0 with useSsl := true, currSendSize := 16 }
    ¬ Agree (connSslSend c .wouldBlock) (plainSend c .wouldBlock) ∧
    ¬ Agree (connSslSend { c with status := .sending } (.done 16))
      (plainSend { c with status := .sending } (.done 16)) ∧
    ∃ w, run tlsNode (tlsClient ++ [(blockedWrites, .storage 0)]) = .ok w ∧
      .closed (some 3) ∈ w.effects ∧ (w.conns 0).sock = none := by
  intro c
  refine ⟨?_, ?_, ?_⟩
  · intro agree
    have status := agree.status
    cases status
  · intro agree
    have status := agree.status
    cases status
  · have evaluated : ((run tlsNode (tlsClient ++ [(blockedWrites, .storage 0)])).toOption.any fun w =>
        .closed (some 3) ∈ w.effects ∧ (w.conns 0).sock = none) = true := by
      decide +kernel
    obtain ⟨w, ran, facts⟩ := exists_of_any evaluated
    obtain ⟨closed, gone⟩ := of_decide_eq_true facts
    exact ⟨w, toOption_eq_some ran, closed, gone⟩

end TlsSending
