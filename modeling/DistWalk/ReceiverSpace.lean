import DistWalk.SessionEnds

/-!
# Space in the client's receive buffer

The client moves `curr_proc_buf` past every reply and gives space back only when it
shortens a long REPLY, so the replies of a session have to fit in the buffer together.
A receive that ends between the code of the first command and its end costs up to three
bytes more: `diff` is then negative.
-/

namespace ReceiverSpace

open ByteMemory Message Connection ClientReceiver ReplyStream SessionEnds

/-- The connection at every `conn_recv` of the `do` loop, the one that waits for an answer
included. -/
def calls (o : Open) : List Answer → List Open
  | [] => [o]
  | a :: answers =>
    o :: match turn o a with
      | .again o => calls o answers
      | _ => []

/-- Every complete reply received so far has been processed. -/
def Processed (c : ConnInfo) : Prop := connPrepareRecvMessage c = .ok (none, c)

/-- No `conn_recv` of the round is called without room while every complete reply has been
processed. -/
def Fed (cfg : Client) (r : Receiver) (i : Input) : Prop :=
  ∀ o ∈ current cfg r i, ∀ o' ∈ calls o i.answers, Processed o'.conn → o'.conn.currRecvSize ≠ 0

/-- The receive ends within the code of the first command of a reply. -/
def Cuts (o : Open) (a : Answer) : Prop :=
  12 < (pending (receive o a).1.conn).length ∧ (pending (receive o a).1.conn).length < 16

/-- The `conn_recv` calls of the `do` loop that were answered. -/
def turns (o : Open) : List Answer → List (Open × Answer)
  | [] => []
  | a :: answers =>
    (o, a) :: match turn o a with
      | .again o => turns o answers
      | _ => []

def Clean (cfg : Client) (r : Receiver) (i : Input) : Prop :=
  ∀ o ∈ current cfg r i, ∀ t ∈ turns o i.answers, ¬ Cuts t.1 t.2

/-! ## Room for what is unread -/

/-- The unread bytes fit, with `e` bytes to spare for every reply that may still be cut. -/
structure Roomy (e : Nat) (o : Open) (rs : List (List UInt8)) : Prop where
  holds : Holds o rs
  size : o.conn.currRecvSize + o.conn.currRecvBuf = bufSize
  fits : o.conn.currRecvBuf + o.rest.length +
    e * (rs.length - if 16 ≤ (pending o.conn).length then 1 else 0) ≤ bufSize

section Room

variable {e : Nat} {o : Open} {rs : List (List UInt8)}

/-- An incomplete reply has unread bytes. -/
theorem Roomy.room (h : Roomy e o rs) (some : rs ≠ []) (incomplete : Incomplete o rs) :
    0 < o.conn.currRecvSize := by
  cases rs with
  | nil => exact absurd rfl some
  | cons b rs =>
    have unread := unread_head h.holds incomplete
    have size := h.size
    have fits := h.fits
    omega

theorem Roomy.receive (h : Roomy e o rs) (a : Answer) : Roomy e (receive o a).1 rs := by
  obtain ⟨n, moved⟩ := connRecv_appends o.conn o.rest a
  have more := moved.pending h.holds.order
  have dropped : (ClientReceiver.receive o a).1.rest = o.rest.drop n := by
    simp only [ClientReceiver.receive, moved.recv, Nat.add_sub_cancel_left]
  have size := h.size
  have fits := h.fits
  have room := moved.room
  have within := moved.within
  refine ⟨h.holds.receive a, ?_, ?_⟩
  · change (connRecv o.conn (a.result o.rest)).1.currRecvSize +
      (connRecv o.conn (a.result o.rest)).1.currRecvBuf = _
    rw [moved.size, moved.recv]
    omega
  · rw [dropped, List.length_drop]
    change (connRecv o.conn (a.result o.rest)).1.currRecvBuf + _ + e * (rs.length -
      if 16 ≤ (pending (connRecv o.conn (a.result o.rest)).1).length then 1 else 0) ≤ _
    rw [more, List.length_append, moved.recv]
    have fewer : e * (rs.length - if 16 ≤ (pending o.conn).length + (o.rest.take n).length then 1 else 0) ≤
        e * (rs.length - if 16 ≤ (pending o.conn).length then 1 else 0) := by
      refine Nat.mul_le_mul_left e ?_
      split
      · split <;> omega
      · rw [if_neg (by omega)]
    omega

theorem Roomy.shorten {b : List UInt8} (h : Roomy e o (b :: rs)) (long : Long o b)
    (spare : e = 3 ∨ 16 ≤ (pending o.conn).length) :
    Roomy e { o with conn := shorten o.conn (o.conn.currProcBuf + 16) } (shortened o.conn b :: rs) := by
  have header := long.header
  have part := long.part
  have total := congrArg List.length h.holds.stream
  rw [List.length_append, List.flatten_cons, List.length_append] at total
  have order := h.holds.order
  have pendingSize := length_pending o.conn
  have whole := (h.holds.whole b (List.mem_cons_self ..)).long
  have size := h.size
  have fits := h.fits
  have small : bufSize < 2 ^ 64 := by simp [bufSize]
  have after : (pending (ClientReceiver.shorten o.conn (o.conn.currProcBuf + 16))).length = 16 := by
    rw [pending_shorten, length_slice]
  refine ⟨h.holds.shorten long, ?_, ?_⟩
  · change (o.conn.currRecvSize + o.conn.currRecvBuf + 2 ^ 64 - (o.conn.currProcBuf + 16)) % 2 ^ 64 +
      (o.conn.currProcBuf + 16) = bufSize
    rw [size, Nat.sub_add_comm (by omega), Nat.add_mod_right, Nat.mod_eq_of_lt (by omega)]
    omega
  · change o.conn.currProcBuf + 16 + o.rest.length + e * (_ - if 16 ≤ (pending _).length then 1 else 0) ≤ _
    rw [after, if_pos (Nat.le_refl _)]
    by_cases before : 16 ≤ (pending o.conn).length
    · rw [if_pos before] at fits
      simp only [List.length_cons] at fits ⊢
      omega
    · rw [if_neg before] at fits
      have three := spare.resolve_right before
      subst three
      simp only [List.length_cons] at fits ⊢
      omega

theorem Roomy.longReply (h : Roomy e o rs) (recv : Int)
    (spare : e = 3 ∨ ¬ (12 < (pending o.conn).length ∧ (pending o.conn).length < 16)) :
    ∃ rs', Roomy e (Turn.open (longReply o recv)) rs' ∧ rs'.length = rs.length ∧
      (∀ o', longReply o recv = .skip o' → Incomplete o' rs') ∧
      ∀ o', longReply o recv = .again o' → (o' = o ∧ rs' = rs ∧ recv = -1) ∨ Incomplete o' rs' := by
  rw [ClientReceiver.longReply]
  split
  · rename_i found
    obtain ⟨header, eom, part⟩ := found
    rw [← length_pending] at header part
    simp only [messageHeader] at header
    cases rs with
    | nil =>
      have := h.holds.nothing.1
      omega
    | cons b rs =>
      rw [h.holds.size (by omega)] at part
      split
      · refine ⟨b :: rs, h, rfl, fun o' e => ?_, fun o' e => by cases e⟩
        cases e
        intro d member
        rw [List.head?_cons, Option.mem_some_iff] at member
        exact member ▸ part
      · rename_i next bounded
        have place : next = o.conn.currProcBuf + 16 := cmdBoundedNext_eom eom bounded
        subst place
        have roomy := h.shorten ⟨header, part, eom⟩ (spare.imp_right (by omega))
        refine ⟨_, roomy, rfl, fun o' e => (by cases e), fun o' e => Or.inr ?_⟩
        cases e
        intro d member
        rw [List.head?_cons, Option.mem_some_iff] at member
        rw [← member, length_shortened, pending_shorten, length_slice]
        omega
  · split
    · rename_i again
      exact ⟨rs, h, rfl, fun o' e => (by cases e), fun o' e => Or.inl ⟨by cases e; rfl, rfl, again⟩⟩
    · exact ⟨rs, h, rfl, fun o' e => (by cases e), fun o' e => by cases e⟩

/-- A call that would block leaves the connection as it is. -/
theorem receive_again (o : Open) (a : Answer) (again : (receive o a).2 = -1) : (receive o a).1 = o := by
  cases a with
  | bytes n =>
    simp only [ClientReceiver.receive, Answer.result, connRecv] at again
    split at again
    · cases again
    · split at again
      · cases again
      · cases again
  | wouldBlock =>
    simp only [ClientReceiver.receive, Answer.result, connRecv]
    split <;> simp
  | closed =>
    simp only [ClientReceiver.receive, Answer.result, connRecv] at again
    split at again <;> cases again
  | failed =>
    simp only [ClientReceiver.receive, Answer.result, connRecv] at again
    split at again <;> cases again

theorem Roomy.turn (h : Roomy e o rs) (a : Answer) (spare : e = 3 ∨ ¬ Cuts o a) :
    ∃ rs', Roomy e (Turn.open (turn o a)) rs' ∧ rs'.length = rs.length ∧
      (∀ o', turn o a = .skip o' → Incomplete o' rs') ∧
      (Incomplete o rs → ∀ o', turn o a = .again o' → Incomplete o' rs') := by
  have received := h.receive a
  rw [ClientReceiver.turn]
  split
  · exact ⟨rs, received, rfl, fun o' e => (by cases e), fun _ o' e => by cases e⟩
  · obtain ⟨rs', roomy, length, skipped, again⟩ := received.longReply (ClientReceiver.receive o a).2 spare
    refine ⟨rs', roomy, length, skipped, fun incomplete o' next => ?_⟩
    rcases again o' next with ⟨rfl, rfl, blocked⟩ | short
    · rw [receive_again o a blocked]
      exact incomplete
    · exact short

/-- Every call finds room. -/
theorem Roomy.calls {answers : List Answer} (h : Roomy e o rs) (some : rs ≠ [])
    (incomplete : Incomplete o rs) (spare : e = 3 ∨ ∀ t ∈ turns o answers, ¬ Cuts t.1 t.2) :
    ∀ o' ∈ calls o answers, 0 < o'.conn.currRecvSize := by
  induction answers generalizing o rs with
  | nil =>
    intro o' member
    rw [ReceiverSpace.calls, List.mem_singleton] at member
    exact member ▸ h.room some incomplete
  | cons a answers ih =>
    intro o' member
    rw [turns] at spare
    rw [ReceiverSpace.calls] at member
    rcases List.mem_cons.mp member with rfl | later
    · exact h.room some incomplete
    · obtain ⟨rs', roomy, length, -, next⟩ :=
        h.turn a (spare.imp_right fun clean => clean _ (List.mem_cons_self ..))
      split at later
      · rename_i o₁ again
        rw [again] at roomy spare
        have left : rs' ≠ [] := by
          rintro rfl
          exact some (List.length_eq_zero_iff.mp length.symm)
        exact ih roomy left (next incomplete o₁ again)
          (spare.imp_right fun clean t here => clean t (List.mem_cons_of_mem _ here)) o' later
      · cases later

theorem Roomy.receiveLoop {answers : List Answer} (h : Roomy e o rs)
    (spare : e = 3 ∨ ∀ t ∈ turns o answers, ¬ Cuts t.1 t.2) {t : Turn}
    (done : receiveLoop o answers = some t) :
    ∃ rs', Roomy e (Turn.open t) rs' ∧ rs'.length = rs.length ∧ ∀ o', t = .skip o' → Incomplete o' rs' := by
  induction answers generalizing o rs with
  | nil => cases done
  | cons a answers ih =>
    rw [turns] at spare
    obtain ⟨rs', roomy, length, skipped, -⟩ :=
      h.turn a (spare.imp_right fun clean => clean _ (List.mem_cons_self ..))
    rw [ClientReceiver.receiveLoop] at done
    split at done
    · rename_i o' again
      rw [again] at roomy spare
      obtain ⟨rs'', later, length', last⟩ :=
        ih roomy (spare.imp_right fun clean t here => clean t (List.mem_cons_of_mem _ here)) done
      exact ⟨rs'', later, length'.trans length, last⟩
    · cases done
      exact ⟨rs', roomy, length, skipped⟩

theorem processReplies_proc {fuel : Nat} {c c' : ConnInfo} {verdicts : List Verdict}
    (done : processReplies fuel c = .ok (c', verdicts)) :
    c' = { c with currProcBuf := c'.currProcBuf } := by
  induction fuel generalizing c verdicts with
  | zero =>
    cases done
    rfl
  | succ fuel ih =>
    rw [processReplies] at done
    split at done
    · cases done
    · rename_i d none
      obtain ⟨rfl, -⟩ := connPrepareRecvMessage_none none
      cases done
      rfl
    · rename_i m d some
      obtain ⟨rfl, -⟩ := connPrepareRecvMessage_some some
      cases processed : processReplies fuel { c with
          currProcBuf := c.currProcBuf + reqSizeOf c.recvBuf c.currProcBuf } with
      | error e =>
        rw [processed] at done
        cases done
      | ok s =>
        obtain ⟨d, later⟩ := s
        rw [processed] at done
        cases done
        have same := ih processed
        exact same

theorem Roomy.processReplies (h : Roomy e o rs) {c : ConnInfo} {verdicts : List Verdict}
    (done : processReplies (o.conn.currRecvBuf + 1) o.conn = .ok (c, verdicts)) :
    ∃ left, Roomy e { o with conn := c } left ∧ Incomplete { o with conn := c } left ∧
      rs.length = left.length + verdicts.length := by
  have enough : (pending o.conn).length < o.conn.currRecvBuf + 1 := by
    rw [length_pending]
    omega
  obtain ⟨before, left, split, count, holds, incomplete⟩ := h.holds.processReplies enough done
  have same := processReplies_proc done
  have recv : c.currRecvBuf = o.conn.currRecvBuf := by rw [same]
  have size : c.currRecvSize = o.conn.currRecvSize := by rw [same]
  have total : rs.length = left.length + verdicts.length := by
    rw [split, List.length_append, count, Nat.add_comm]
  have fits := h.fits
  refine ⟨left, ⟨holds, ?_, ?_⟩, incomplete, total⟩
  · change c.currRecvSize + c.currRecvBuf = _
    rw [recv, size]
    exact h.size
  · change c.currRecvBuf + o.rest.length + e * (left.length - if 16 ≤ (pending c).length then 1 else 0) ≤ _
    rw [recv]
    have fewer : e * (left.length - if 16 ≤ (pending c).length then 1 else 0) ≤
        e * (rs.length - if 16 ≤ (pending o.conn).length then 1 else 0) := by
      refine Nat.mul_le_mul_left e ?_
      cases before with
      | nil =>
        rw [List.nil_append] at split
        have after := congrArg List.length holds.stream
        have start := congrArg List.length h.holds.stream
        rw [List.length_append] at after start
        change (pending c).length + o.rest.length = _ at after
        rw [← split] at after ⊢
        have unchanged : (pending c).length = (pending o.conn).length := by omega
        rw [unchanged]
      | cons b before =>
        rw [split, List.cons_append, List.length_cons, List.length_append]
        split <;> split <;> omega
    omega

end Room

/-! ## Rounds -/

/-- The connection of the current session has room for its replies. -/
def Spacious (e : Nat) (cfg : Client) (r : Receiver) : Prop :=
  r.accounted % cfg.pktsPerSession ≠ 0 → ∀ o ∈ r.conn, ∃ rs, Roomy e o rs ∧ Incomplete o rs ∧
    rs.length + r.accounted % cfg.pktsPerSession = cfg.pktsPerSession

section Rounds

variable {e : Nat} {cfg : Client} {r r₀ r' : Receiver} {o : Open} {rs : List (List UInt8)}

theorem accounted_endSession (r : Receiver) (pktI : Nat) : (endSession cfg r pktI).accounted = r.accounted := by
  rw [endSession]
  split
  · split <;> rfl
  · rfl

theorem conn_endSession (pktI : Nat) (member : o ∈ (endSession cfg r pktI).conn) : o ∈ r.conn := by
  rw [endSession] at member
  split at member
  · split at member
    · exact member
    · cases member
  · exact member

/-- After an error the session counts as over. -/
theorem accounted_skipPkts (positive : 0 < cfg.pktsPerSession) (r : Receiver) :
    (skipPkts cfg r r.accounted).accounted % cfg.pktsPerSession = 0 := by
  have small := Nat.mod_lt r.accounted positive
  have sum : (skipPkts cfg r r.accounted).accounted =
      cfg.pktsPerSession * (r.accounted / cfg.pktsPerSession + 1) := by
    have split := Nat.div_add_mod r.accounted cfg.pktsPerSession
    have skipped : (skipPkts cfg r r.accounted).accounted =
        r.accounted + (cfg.pktsPerSession - r.accounted % cfg.pktsPerSession) := by
      simp only [skipPkts, Receiver.accounted]
      omega
    rw [skipped, Nat.mul_add, Nat.mul_one]
    omega
  rw [sum, Nat.mul_mod_right]

/-- The round on a connection. -/
theorem round_current {i : Input} (here : current cfg r i = some o) : ∃ r₀, r₀.accounted = r.accounted ∧
    ClientReceiver.round cfg r i = receiveReplies cfg r₀ o r.accounted i.answers := by
  rw [current] at here
  rw [ClientReceiver.round]
  split at here
  · rename_i start
    rw [if_pos start]
    split at here
    · cases here
    · rename_i opens
      rw [not_or] at opens
      rw [if_neg opens.1, if_neg opens.2]
      cases here
      refine ⟨{ r with
        conn := some (openConn cfg (r.accounted / cfg.pktsPerSession) i.sock)
        notes := .opened (r.accounted / cfg.pktsPerSession) r.accounted :: r.notes }, rfl, rfl⟩
  · rename_i inside
    rw [if_neg inside, here]
    exact ⟨r, rfl, rfl⟩

/-- A round without a connection refuses the session. -/
theorem round_refused (positive : 0 < cfg.pktsPerSession) {i : Input} (none : current cfg r i = none)
    (done : ClientReceiver.round cfg r i = .next r') : r'.accounted % cfg.pktsPerSession = 0 := by
  rw [current] at none
  rw [ClientReceiver.round] at done
  split at none
  · rename_i start
    rw [if_pos start] at done
    split at none
    · split at done
      · cases done
        rw [accounted_endSession]
        exact accounted_skipPkts positive
          { r with conn := .none, notes := .refused (r.accounted / cfg.pktsPerSession) r.accounted :: r.notes }
      · rename_i refused connects
        rw [if_pos (refused.resolve_left connects)] at done
        cases done
    · cases none
  · rename_i inside
    rw [if_neg inside, none] at done
    cases done

theorem Roomy.receiveReplies {answers : List Answer} (h : Roomy e o rs)
    (positive : 0 < cfg.pktsPerSession)
    (left : rs.length + r.accounted % cfg.pktsPerSession = cfg.pktsPerSession)
    (spare : e = 3 ∨ ∀ t ∈ turns o answers, ¬ Cuts t.1 t.2)
    (done : receiveReplies cfg r o r.accounted answers = .next r') : Spacious e cfg r' := by
  rw [ClientReceiver.receiveReplies] at done
  split at done
  · cases done
  · cases done
  · rename_i o' loop
    cases done
    intro inside
    rw [accounted_endSession] at inside
    exact absurd (accounted_skipPkts positive { r with conn := some o' }) inside
  · rename_i o' loop
    cases done
    intro inside o₁ member
    obtain ⟨rs', roomy, length, skipped⟩ := h.receiveLoop spare loop
    have here := conn_endSession _ member
    cases here
    rw [accounted_endSession]
    exact ⟨rs', roomy, skipped o' rfl, length ▸ left⟩
  · rename_i o' loop
    split at done
    · cases done
    · rename_i c verdicts processed
      cases done
      intro inside o₁ member
      obtain ⟨rs', roomy, length, -⟩ := h.receiveLoop spare loop
      obtain ⟨later, roomy', incomplete', total⟩ := roomy.processReplies processed
      obtain ⟨accounted, conn, -⟩ := foldl_count verdicts { r with conn := some { o' with conn := c } }
      have here := conn_endSession _ member
      rw [conn] at here
      cases here
      rw [accounted_endSession, accounted] at inside ⊢
      refine ⟨later, roomy', incomplete', ?_⟩
      change later.length + (r.accounted + verdicts.length) % _ = _
      change (r.accounted + verdicts.length) % _ ≠ 0 at inside
      rw [← Nat.mod_add_mod] at inside ⊢
      have sum : r.accounted % cfg.pktsPerSession + verdicts.length + later.length = cfg.pktsPerSession := by
        omega
      have some : later.length ≠ 0 := by
        intro none
        rw [none, Nat.add_zero] at sum
        rw [sum, Nat.mod_self] at inside
        exact inside rfl
      rw [Nat.mod_eq_of_lt (by omega)]
      omega

/-- The replies of every session, with `e` bytes more for each, fit in the buffer. -/
def FitTogether (e : Nat) (cfg : Client) : Prop :=
  ∀ s, s * cfg.pktsPerSession < cfg.numPkts →
    (cfg.replies s).flatten.length + e * cfg.pktsPerSession ≤ bufSize

theorem roomy_open (answered : Answered cfg) (fit : FitTogether e cfg) {s : Nat}
    (more : s * cfg.pktsPerSession < cfg.numPkts) (sock : Nat) :
    Roomy e (openConn cfg s sock) (cfg.replies s) where
  holds := (holds_open answered s sock).1
  size := Nat.add_zero _
  fits := by
    have fresh : pending (openConn cfg s sock).conn = [] := rfl
    have fits := fit s more
    rw [fresh, if_neg (by simp), Nat.sub_zero, answered.all s]
    change 0 + _ + _ ≤ _
    rw [Nat.zero_add]
    exact fits

/-- The connection a round receives on has room, and at least one reply is to come. -/
theorem Spacious.current (h : Spacious e cfg r) (answered : Answered cfg) (fit : FitTogether e cfg)
    (more : r.accounted < cfg.numPkts) {i : Input} (here : o ∈ current cfg r i) :
    ∃ rs, Roomy e o rs ∧ Incomplete o rs ∧
      rs.length + r.accounted % cfg.pktsPerSession = cfg.pktsPerSession := by
  rw [SessionEnds.current] at here
  split at here
  · rename_i start
    split at here
    · cases here
    · cases here
      have begins := Nat.div_mul_le_self r.accounted cfg.pktsPerSession
      refine ⟨_, roomy_open answered fit (by omega) _, (holds_open answered _ _).2, ?_⟩
      rw [answered.all, start, Nat.add_zero]
  · rename_i inside
    exact h inside o here

theorem Spacious.round (h : Spacious e cfg r) (answered : Answered cfg) (fit : FitTogether e cfg)
    (more : r.accounted < cfg.numPkts) {i : Input} (spare : e = 3 ∨ Clean cfg r i)
    (done : ClientReceiver.round cfg r i = .next r') : Spacious e cfg r' := by
  have positive := answered.positive
  cases here : SessionEnds.current cfg r i with
  | none =>
    intro inside
    exact absurd (round_refused positive here done) inside
  | some o =>
    obtain ⟨rs, roomy, -, left⟩ := h.current answered fit more here
    obtain ⟨r₀, same, received⟩ := round_current here
    rw [← same] at left received
    rw [received] at done
    exact roomy.receiveReplies positive left (spare.imp_right fun clean => clean o here) done

theorem Spacious.of_reaches (answered : Answered cfg) (fit : FitTogether e cfg)
    {ok : Receiver → Input → Prop} (spare : ∀ r i, ok r i → e = 3 ∨ Clean cfg r i)
    (h : Reaches cfg ok r) : Spacious e cfg r := by
  induction h with
  | init =>
    intro inside
    exact absurd (Nat.zero_mod _) inside
  | round i before more meets done ih => exact ih.round answered fit more (spare _ i meets) done

theorem Spacious.fed (h : Spacious e cfg r) (answered : Answered cfg) (fit : FitTogether e cfg)
    (more : r.accounted < cfg.numPkts) {i : Input} (spare : e = 3 ∨ Clean cfg r i) : Fed cfg r i := by
  intro o here o' call _
  obtain ⟨rs, roomy, incomplete, left⟩ := h.current answered fit more here
  have some : rs ≠ [] := by
    rintro rfl
    have small := Nat.mod_lt r.accounted answered.positive
    rw [List.length_nil] at left
    omega
  have room := roomy.calls some incomplete (spare.imp_right fun clean => clean o here) o' call
  omega

end Rounds

/-! ## Filling the buffer -/

/-- A round in which the connection, if one is opened, is opened. -/
def answering (answers : List Answer) : Input := ⟨true, true, 0, answers⟩

section Filling

variable {cfg : Client} {r : Receiver} {o : Open} {b d : List UInt8} {rs : List (List UInt8)}

/-- Nothing complete is left: the next reply has not arrived in full. -/
theorem processed_of_incomplete (h : Holds o (d :: rs)) (incomplete : Incomplete o (d :: rs)) :
    Processed o.conn := by
  have part := incomplete d rfl
  simp only [Processed, connPrepareRecvMessage, ← length_pending]
  split
  · rfl
  · rename_i arrived
    simp only [messageHeader] at arrived
    rw [h.size (by omega), if_pos part]

/-- One complete reply and a part of the next. -/
theorem processReplies_one (h : Holds o (b :: d :: rs)) (all : b.length ≤ (pending o.conn).length)
    (part : (pending o.conn).length < b.length + d.length) (small : b.length ≤ bufSize)
    (fuel : Nat) : ∃ c v, processReplies (fuel + 2) o.conn = .ok (c, [v]) ∧
      c = { o.conn with currProcBuf := o.conn.currProcBuf + b.length } ∧
      Holds { o with conn := c } (d :: rs) ∧ Processed c := by
  have long := (h.whole b (List.mem_cons_self ..)).long
  have size := h.size (by omega)
  have popped := h.pop (by omega) all
  rw [size] at popped
  have processed := processed_of_incomplete popped (fun d' member => by
    rw [List.head?_cons, Option.mem_some_iff] at member
    rw [← member]
    rw [length_pending] at part all ⊢
    simp only
    omega)
  have first : connPrepareRecvMessage o.conn =
      .ok (some o.conn.currProcBuf, { o.conn with currProcBuf := o.conn.currProcBuf + b.length }) := by
    have header : messageHeader = 12 := rfl
    simp only [connPrepareRecvMessage, ← length_pending, size]
    rw [if_neg (by omega), if_neg (by omega), if_neg (by omega)]
  refine ⟨_, processReply o.conn.recvBuf o.conn.currProcBuf, ?_, rfl, popped, processed⟩
  rw [processReplies, first]
  simp only
  rw [processReplies, show connPrepareRecvMessage _ = _ from processed]
  rfl

/-- A receive of exactly `n` bytes. -/
theorem receive_bytes (plain : o.conn.status = .ready) {n : Nat} (some : 0 < n)
    (room : n ≤ o.conn.currRecvSize) (within : n ≤ o.rest.length) :
    (receive o (.bytes n)).2 = 1 ∧ Appends o.conn (receive o (.bytes n)).1.conn o.rest n ∧
      (receive o (.bytes n)).1.conn.status = .ready := by
  have handshake : ¬ (o.conn.useSsl = true ∧ o.conn.status = .sslHandshake) := by
    rw [plain]
    simp
  have got : ((o.rest.take n).take o.conn.currRecvSize).length = n := by
    rw [List.take_take, List.length_take]
    omega
  have moved := appends_takeBytes (c := o.conn)
    (d := if o.conn.useSsl then o.conn else { o.conn with target := o.conn.target })
    (by split <;> rfl) (by split <;> rfl) (by split <;> rfl) (by split <;> rfl) o.rest n
  rw [show min (min o.conn.currRecvSize n) o.rest.length = n by omega] at moved
  have result : connRecv o.conn ((Answer.bytes n).result o.rest) =
      (takeBytes (if o.conn.useSsl then o.conn else { o.conn with target := o.conn.target })
        (o.rest.take n), 1) := by
    simp only [Answer.result, connRecv]
    rw [if_neg handshake, if_neg (by omega)]
    rfl
  simp only [ClientReceiver.receive, result]
  refine ⟨trivial, moved, ?_⟩
  simp only [takeBytes]
  split
  · exact plain
  · exact plain

/-- The connection of the round to come. -/
structure Seated (cfg : Client) (r : Receiver) (o : Open) (rs : List (List UInt8)) : Prop where
  here : ∀ answers, current cfg r (answering answers) = some o
  holds : Holds o rs
  size : o.conn.currRecvSize + o.conn.currRecvBuf = bufSize
  plain : o.conn.status = .ready
  left : rs.length + r.accounted % cfg.pktsPerSession = cfg.pktsPerSession

/-- One receive completes a reply and brings a part of the next. -/
theorem Seated.round (h : Seated cfg r o (b :: d :: rs)) (small : b.length ≤ bufSize) {n : Nat}
    (positive : 0 < n) (room : n ≤ o.conn.currRecvSize) (within : n ≤ o.rest.length)
    (all : b.length ≤ (pending o.conn).length + n)
    (part : (pending o.conn).length + n < b.length + d.length) :
    ∃ r' o', ClientReceiver.round cfg r (answering [.bytes n]) = .next r' ∧
      Clean cfg r (answering [.bytes n]) ∧ r'.accounted = r.accounted + 1 ∧
      Seated cfg r' o' (d :: rs) ∧ Processed o'.conn ∧
      o'.conn.currRecvBuf = o.conn.currRecvBuf + n ∧
      o'.conn.currProcBuf = o.conn.currProcBuf + b.length := by
  obtain ⟨got, moved, ready⟩ := receive_bytes h.plain positive room within
  have holds := h.holds.receive (.bytes n)
  generalize hmid : (receive o (.bytes n)).1 = mid at got moved ready holds
  have arrived : (pending mid.conn).length = (pending o.conn).length + n := by
    rw [moved.pending h.holds.order, List.length_append, List.length_take, Nat.min_eq_left within]
  have long := (h.holds.whole b (List.mem_cons_self ..)).long
  have complete : turn o (.bytes n) = .ready mid := by
    rw [turn, got, hmid, if_neg (by decide), longReply, if_neg ?_, if_neg (by decide)]
    rintro ⟨-, -, short⟩
    rw [← length_pending, holds.size (by omega)] at short
    omega
  have loop : receiveLoop o [.bytes n] = some (.ready mid) := by
    rw [receiveLoop, complete]
  obtain ⟨c, v, processed, moved', holds', done⟩ :=
    processReplies_one holds (by omega) (by omega) small (mid.conn.currRecvBuf - 1)
  rw [show mid.conn.currRecvBuf - 1 + 2 = mid.conn.currRecvBuf + 1 by have := moved.recv; omega] at processed
  obtain ⟨r₀, same, round⟩ := round_current (h.here [.bytes n])
  have left := h.left
  rw [List.length_cons, List.length_cons] at left
  have mod : (r.accounted + 1) % cfg.pktsPerSession = r.accounted % cfg.pktsPerSession + 1 := by
    rw [← Nat.mod_add_mod, Nat.mod_eq_of_lt (by omega)]
  obtain ⟨accounted, conn, -, incr⟩ := foldl_count [v] { r₀ with conn := some { mid with conn := c } }
  have counted : (List.foldl count { r₀ with conn := some { mid with conn := c } } [v]).accounted =
      r.accounted + 1 := by
    rw [accounted, ← same]
    rfl
  refine ⟨[v].foldl count { r₀ with conn := some { mid with conn := c } }, { mid with conn := c },
    ?_, ?_, counted, ⟨fun answers => ?_, holds', ?_, ?_, ?_⟩, done, ?_, ?_⟩
  · have answers : (answering [.bytes n]).answers = [.bytes n] := rfl
    have goesOn : (r.accounted + 1) % cfg.pktsPerSession ≠ 0 := by omega
    rw [round, receiveReplies, answers, loop]
    simp only
    rw [processed]
    simp only
    rw [endSession, if_neg (by rw [incr]; exact goesOn)]
  · intro o₁ here t member
    rw [h.here, Option.mem_some_iff] at here
    subst here
    have answers : (answering [.bytes n]).answers = [.bytes n] := rfl
    rw [answers, turns, complete, List.mem_singleton] at member
    rw [member, Cuts, hmid, arrived]
    omega
  · rw [current, counted, mod, if_neg (Nat.succ_ne_zero _), conn]
  · rw [moved']
    change mid.conn.currRecvSize + mid.conn.currRecvBuf = _
    have size := h.size
    rw [moved.size, moved.recv]
    omega
  · rw [moved']
    exact ready
  · rw [counted, mod, List.length_cons]
    omega
  · rw [moved']
    exact moved.recv
  · rw [moved']
    change mid.conn.currProcBuf + _ = _
    rw [moved.proc]

/-- Whole replies up to the end of the buffer, and then a call without room. -/
theorem Seated.starves (rs : List (List UInt8)) {o : Open} {r : Receiver} {b : List UInt8}
    (h : Seated cfg r o (b :: rs)) (before : Reaches cfg (Clean cfg) r)
    (drained : o.conn.currProcBuf = o.conn.currRecvBuf)
    (enough : r.accounted + (rs.length + 1) ≤ cfg.numPkts)
    (fits : o.conn.currRecvBuf + b.length ≤ bufSize)
    (more : bufSize < o.conn.currRecvBuf + (b :: rs).flatten.length) :
    ∃ r i, Reaches cfg (Clean cfg) r ∧ r.accounted < cfg.numPkts ∧ Clean cfg r i ∧ ¬ Fed cfg r i := by
  induction rs generalizing o r b with
  | nil =>
    rw [List.flatten_cons, List.flatten_nil, List.append_nil] at more
    omega
  | cons d rs ih =>
    have size := h.size
    have long := (h.holds.whole b (List.mem_cons_self ..)).long
    have long' := (h.holds.whole d (by simp)).long
    have none : (pending o.conn).length = 0 := by
      rw [length_pending]
      omega
    have unread := congrArg List.length h.holds.stream
    rw [List.length_append, none, Nat.zero_add] at unread
    simp only [List.flatten_cons, List.length_append, List.length_cons] at unread more enough
    have start : r.accounted < cfg.numPkts := by omega
    by_cases next : o.conn.currRecvBuf + b.length + d.length ≤ bufSize
    · -- the next reply fits as well
      obtain ⟨r', o', done, clean, accounted, seated, -, recv, proc⟩ :=
        h.round (n := b.length) (by omega) (by omega) (by omega) (by omega) (by omega) (by omega)
      refine ih seated (.round _ before start clean done) (by omega) (by omega) (by omega) ?_
      rw [List.flatten_cons, List.length_append]
      omega
    · obtain ⟨r', o', done, clean, accounted, seated, processed, recv, -⟩ :=
        h.round (n := o.conn.currRecvSize) (by omega) (by omega) (Nat.le_refl _) (by omega) (by omega)
          (by omega)
      refine ⟨r', answering [], .round _ before start clean done, by omega, ?_, fun fed => ?_⟩
      · intro o₁ _ t member
        cases member
      · have room := fed o' (seated.here []) o' (List.mem_cons_self ..) processed
        have size' := seated.size
        omega

/-- The sessions before `s` can all be refused. -/
theorem reaches_start (positive : 0 < cfg.pktsPerSession) {ok : Receiver → Input → Prop}
    (free : ∀ r i, current cfg r i = none → ok r i) (s : Nat) (more : s * cfg.pktsPerSession ≤ cfg.numPkts) :
    ∃ r, Reaches cfg ok r ∧ r.accounted = s * cfg.pktsPerSession := by
  induction s with
  | zero => exact ⟨.init, .init, (Nat.zero_mul _).symm⟩
  | succ s ih =>
    rw [Nat.succ_mul] at more
    obtain ⟨r, before, start⟩ := ih (by omega)
    have begins : r.accounted % cfg.pktsPerSession = 0 := by rw [start, Nat.mul_mod_left]
    have refused : current cfg r ⟨false, true, 0, []⟩ = none := by
      rw [current, if_pos begins, if_pos (Or.inl rfl)]
    refine ⟨endSession cfg (skipPkts cfg { r with
        conn := none, notes := .refused (r.accounted / cfg.pktsPerSession) r.accounted :: r.notes }
        r.accounted) r.accounted,
      .round ⟨false, true, 0, []⟩ before (by omega) (free _ _ refused) ?_, ?_⟩
    · rw [ClientReceiver.round, if_pos begins, if_pos rfl]
    · rw [accounted_endSession, Nat.succ_mul, ← start]
      simp only [Receiver.accounted] at begins
      simp only [skipPkts, Receiver.accounted, begins]
      omega

end Filling

theorem seated_open {cfg : Client} (answered : Answered cfg) {r : Receiver} {s : Nat}
    (start : r.accounted = s * cfg.pktsPerSession) : Seated cfg r (openConn cfg s 0) (cfg.replies s) where
  here answers := by
    have begins : r.accounted % cfg.pktsPerSession = 0 := by rw [start, Nat.mul_mod_left]
    have session : r.accounted / cfg.pktsPerSession = s := by
      rw [start, Nat.mul_div_cancel _ answered.positive]
    rw [current, if_pos begins, session, if_neg (by simp [answering])]
    rfl
  holds := (holds_open answered s 0).1
  size := Nat.add_zero _
  plain := rfl
  left := by
    rw [start, Nat.mul_mod_left, answered.all s, Nat.add_zero]

/-- A session whose replies take more bytes than the buffer has can starve. -/
theorem starves_of_long {cfg : Client} (answered : Answered cfg) {s : Nat}
    (more : (s + 1) * cfg.pktsPerSession ≤ cfg.numPkts)
    (long : bufSize < (cfg.replies s).flatten.length) :
    ∃ r i, Reaches cfg (Clean cfg) r ∧ r.accounted < cfg.numPkts ∧ Clean cfg r i ∧ ¬ Fed cfg r i := by
  rw [Nat.succ_mul] at more
  have refused : ∀ r i, current cfg r i = none → Clean cfg r i := by
    intro r i none o here
    rw [none] at here
    cases here
  obtain ⟨r, before, start⟩ := reaches_start answered.positive refused s (by omega)
  have seated := seated_open answered start
  have all := answered.all s
  have small := answered.small s
  cases replies : cfg.replies s with
  | nil =>
    rw [replies] at long
    exact absurd long (Nat.not_lt_zero _)
  | cons b bs =>
    rw [replies] at seated all small long
    have here : (openConn cfg s 0).conn.currRecvBuf = 0 := rfl
    refine seated.starves bs before rfl ?_ ?_ ?_
    · rw [List.length_cons] at all
      omega
    · rw [here, Nat.zero_add]
      exact small b (List.mem_cons_self ..)
    · rw [here, Nat.zero_add]
      exact long

/-- Without cuts the receiver finds room at every call of every run exactly when the
replies of every session fit in the buffer together. Three bytes more for every reply are
enough for any way to split the stream. -/
theorem receiver_fed (cfg : Client) (answered : Answered cfg)
    (sessions : cfg.pktsPerSession ∣ cfg.numPkts) :
    ((∀ r i, Reaches cfg (Clean cfg) r → r.accounted < cfg.numPkts → Clean cfg r i → Fed cfg r i) ↔
      FitTogether 0 cfg) ∧
    (FitTogether 3 cfg →
      ∀ r i, Reaches cfg (fun _ _ => True) r → r.accounted < cfg.numPkts → Fed cfg r i) := by
  refine ⟨⟨fun fed s more => ?_, fun fit r i reached more clean => ?_⟩, fun fit r i reached more => ?_⟩
  · by_contra long
    rw [Nat.zero_mul, Nat.add_zero, not_le] at long
    have whole : (s + 1) * cfg.pktsPerSession ≤ cfg.numPkts := by
      obtain ⟨n, total⟩ := sessions
      rw [total, Nat.mul_comm] at more ⊢
      exact Nat.mul_le_mul_left _ (Nat.lt_of_mul_lt_mul_left more)
    obtain ⟨r, i, reached, start, clean, starved⟩ := starves_of_long answered whole long
    exact starved (fed r i reached start clean)
  · exact (Spacious.of_reaches answered fit (fun _ _ => Or.inr) reached).fed answered fit more
      (Or.inr clean)
  · exact (Spacious.of_reaches answered fit (fun _ _ _ => Or.inl rfl) reached).fed answered fit more
      (Or.inl rfl)

/-- The first receive ends 4 bytes into the second reply. -/
theorem receiver_fed_second : ∃ r, ClientReceiver.round twoPackets .init (given 20) = .next r ∧ r.accounted = 1 ∧
    Fed twoPackets r (given 12) := by
  obtain ⟨r, done, first⟩ : ∃ r, ClientReceiver.round twoPackets .init (given 20) = .next r ∧ r.accounted = 1 :=
    ⟨_, rfl, rfl⟩
  refine ⟨r, done, first, (receiver_fed twoPackets answered_twoPackets (Nat.dvd_refl 2)).2 (fun s _ => ?_) r (given 12)
    (.round (given 20) .init (by decide) trivial done) (by rw [first]; decide)⟩
  simp [twoPackets, shortReply, bufSize]

/-! ## Two long replies -/

/-- A reply that takes the whole buffer. -/
def longestReply : List UInt8 :=
  [0, 0, 0, 0, 0, 0, 0, 1, 0, 0, 0, 0, 7, 0, 0, 0] ++ List.replicate (bufSize - 16) 0

def twoLong : Client := ⟨2, 2, .tcp, [127, 0, 0, 1, 30, 211], fun _ => [longestReply, longestReply]⟩

theorem length_longestReply : longestReply.length = bufSize := by
  rw [longestReply, List.length_append, List.length_replicate]
  rfl

theorem answered_twoLong : Answered twoLong where
  positive := by decide
  all _ := rfl
  whole _ b member := by
    have same : b = longestReply := by simpa [twoLong] using member
    subst same
    refine ⟨?_, ?_, rfl⟩
    · rw [length_longestReply]
      decide
    · rw [length_longestReply]
      rfl
  small _ b member := by
    have same : b = longestReply := by simpa [twoLong] using member
    rw [same, length_longestReply]

/-- The first reply fills the buffer; the next `conn_recv` is called without room. -/
theorem starved_by_first_reply : Answered twoLong ∧ ∃ r i, Reaches twoLong (Clean twoLong) r ∧
    r.accounted < twoLong.numPkts ∧ Clean twoLong r i ∧ ¬ Fed twoLong r i := by
  refine ⟨answered_twoLong, starves_of_long answered_twoLong (s := 0) (by decide) ?_⟩
  simp only [twoLong, List.flatten_cons, List.flatten_nil, List.length_append, length_longestReply]
  decide

end ReceiverSpace
