import DistWalk.ReceiverSpace
import Mathlib.Algebra.Order.BigOperators.Group.List

/-!
# Framing of long replies

While the client waits for the rest of a long reply it throws away what has arrived of
it, and writes the length that is left over the one in the header. What `process_reply`
reads of the reply, its id and its status, stands in the bytes that are kept. So what is
handed over is handed over once and as it was sent, however the stream is cut. All
replies of a session are handed over unless a receive ends the session before: one that
leaves the loop with a reply that is not complete, when none has been processed yet or
all but one.
-/

namespace ReplyFraming

open ByteMemory Message Connection ClientReceiver ReplyStream SessionEnds ReceiverSpace

/-- What `process_reply` reads of a message. -/
structure Tag where
  reqId : Nat
  status : Nat
  deriving DecidableEq, Repr

def tagAt (mem : Mem) (m : Nat) : Tag := ⟨reqIdOf mem m, statusOf mem m⟩

/-- The tag that a reply is sent with. -/
def tag (b : List UInt8) : Tag := tagAt (memOf b) 0

/-- The connection each time after its pointers may have moved, and the tags that
`process_reply` is given. -/
structure Log where
  conns : List ConnInfo
  handed : List Tag

def Log.append (l l' : Log) : Log := ⟨l.conns ++ l'.conns, l.handed ++ l'.handed⟩

def maxPkts : Nat := 1000000

/-- `idx` accepts the id of a success. Without `--per-session-output` the id itself is the
index; as an `int` it is negative from 2^31 on and lies before the array. -/
def Tag.Indexed (perSession : Bool) (t : Tag) : Prop :=
  t.status = statusSuccess → perSession = true ∨ t.reqId < maxPkts

instance (perSession : Bool) (t : Tag) : Decidable (t.Indexed perSession) :=
  inferInstanceAs (Decidable (t.status = statusSuccess → perSession = true ∨ t.reqId < maxPkts))

/-- What `process_reply` returns. -/
def Tag.verdict (t : Tag) : Verdict :=
  if t.status ≠ statusSuccess then if t.status = statusErr then .error else .timedout else .success

/-- The loop over the complete replies in the buffer; `none` when the client ends in it. -/
def handReplies (perSession : Bool) : Nat → ConnInfo → Option ConnInfo × Log
  | 0, c => (some c, ⟨[], []⟩)
  | fuel + 1, c =>
    match connPrepareRecvMessage c with
    | .error _ => (none, ⟨[], []⟩)
    | .ok (none, c) => (some c, ⟨[c], []⟩)
    | .ok (some m, c) =>
      let t := tagAt c.recvBuf m
      if t.Indexed perSession then
        let s := handReplies perSession fuel c
        (s.1, Log.append ⟨[c], [t]⟩ s.2)
      else (none, ⟨[c], [t]⟩)

/-! ## Receiving -/

/-- The thread between two receives of a session. -/
structure Receiving where
  receiver : Receiver
  conn : Open

section Receiving

variable (cfg : Client) (perSession : Bool)

/-- What a round leaves of the session. The next round opens a new connection if the
packets accounted begin a session. -/
def nextRound (r : Receiver) : Option Receiving :=
  match r.conn with
  | none => none
  | some o => if r.accounted % cfg.pktsPerSession = 0 then none else some ⟨r, o⟩

/-- One receive, with the end of the round where it leaves the `do` loop. Within a round
nothing is accounted before its end, so `pkt_i` is what the receiver has accounted. -/
def receiveOne (s : Receiving) (a : Answer) : Option Receiving × Log :=
  let r := s.receiver
  match turn s.conn a with
  | .again o => (some ⟨r, o⟩, ⟨[o.conn], []⟩)
  | .failed o =>
    (nextRound cfg (endSession cfg (skipPkts cfg { r with conn := some o } r.accounted) r.accounted), ⟨[], []⟩)
  | .skip o => (nextRound cfg (endSession cfg { r with conn := some o } r.accounted), ⟨[], []⟩)
  | .ready o =>
    match handReplies perSession (o.conn.currRecvBuf + 1) o.conn with
    | (none, log) => (none, log)
    | (some c, log) =>
      (nextRound cfg (endSession cfg
        ((log.handed.map Tag.verdict).foldl count { r with conn := some { o with conn := c } }) r.accounted), log)

/-- The receives of a session, one answer of the kernel after the other; what is left of
them when the session is over is not received. -/
def receives : Receiving → List Answer → Option Receiving × Log
  | s, [] => (some s, ⟨[], []⟩)
  | s, a :: given =>
    let t := receiveOne cfg perSession s a
    let log := Log.append ⟨[(receive s.conn a).1.conn], []⟩ t.2
    match t.1 with
    | none => (none, log)
    | some s' =>
      let rest := receives s' given
      (rest.1, Log.append log rest.2)

/-- A session that begins on a new connection. -/
def begins (r : Receiver) (o : Open) : Receiving :=
  ⟨{ r with conn := some o, notes := .opened o.sess r.accounted :: r.notes }, o⟩

/-- A receive that leaves the loop without a complete reply, where the packets accounted
are those of whole sessions, or one less. -/
structure Breaks (s : Receiving) (a : Answer) : Prop where
  left : ∀ o, turn s.conn a ≠ .again o
  short : ∀ m c, connPrepareRecvMessage (receive s.conn a).1.conn ≠ .ok (some m, c)
  edge : s.receiver.accounted % cfg.pktsPerSession = 0 ∨
    (s.receiver.accounted + 1) % cfg.pktsPerSession = 0

/-- No receive of the session is such a one. -/
def Lasts : Receiving → List Answer → Prop
  | _, [] => True
  | s, a :: given =>
    ¬ Breaks cfg s a ∧ ∀ s', (receiveOne cfg perSession s a).1 = some s' → Lasts s' given

end Receiving

/-- The order of the pointers, and the space they leave. Positions count from `recv_buf`. -/
def Framed (c : ConnInfo) : Prop :=
  c.currProcBuf ≤ c.currRecvBuf ∧ c.currRecvBuf + c.currRecvSize = bufSize

/-- The replies of a session that are whole, not too short, and leave half of the buffer. -/
structure Moderate (rs : List (List UInt8)) : Prop where
  whole : ∀ b ∈ rs, Whole b
  long : ∀ b ∈ rs, 44 ≤ b.length
  total : rs.flatten.length ≤ bufSize / 2

/-- The stream in pieces, none of them empty. -/
structure Cutting (pieces : List (List UInt8)) (stream : List UInt8) : Prop where
  nonempty : ∀ p ∈ pieces, p ≠ []
  whole : pieces.flatten = stream

/-- Each piece is what one `conn_recv` gets. -/
def answers (pieces : List (List UInt8)) : List Answer := pieces.map fun p => .bytes p.length

/-! ## Tags -/

section Tags

variable {o : Open} {b : List UInt8} {rs : List (List UInt8)}

theorem tag_head (h : Holds o (b :: rs)) (arrived : 12 ≤ (pending o.conn).length) :
    tagAt o.conn.recvBuf o.conn.currProcBuf = tag b := by
  have long := (h.whole b (List.mem_cons_self ..)).long
  have reqId := h.word (a := 0) (by omega) (by omega)
  have status := h.word (a := 8) (by omega) (by omega)
  simp only [tag, tagAt, reqIdOf, statusOf, Nat.zero_add, Tag.mk.injEq]
  exact ⟨reqId, status⟩

/-- Only the length is written. -/
theorem tagAt_shorten (c : ConnInfo) (next : Nat) :
    tagAt (shorten c next).recvBuf c.currProcBuf = tagAt c.recvBuf c.currProcBuf := by
  simp only [tagAt, reqIdOf, statusOf, shorten, setReqSize, storeU32, Tag.mk.injEq]
  constructor
  · exact u32_store_disjoint _ _ _ _ (.inl (by omega))
  · exact u32_store_disjoint _ _ _ _ (.inr (by simp))

theorem tag_shortened (h : Holds o (b :: rs)) (long : Long o b) : tag (shortened o.conn b) = tag b := by
  have arrived : 16 ≤ (pending (shorten o.conn (o.conn.currProcBuf + 16))).length := by
    rw [pending_shorten, length_slice]
  have after := tag_head (h.shorten long) (Nat.le_trans (by decide) arrived)
  rw [← after, ← tag_head h (Nat.le_of_lt long.header)]
  exact tagAt_shorten _ _

end Tags

/-! ## Handing over -/

section Handing

variable {e : Nat} {perSession : Bool} {o : Open} {b : List UInt8} {rs : List (List UInt8)}

theorem framed_of_roomy (h : Roomy e o rs) : Framed o.conn := by
  have size := h.size
  exact ⟨h.holds.order, by omega⟩

/-- The first reply is handed over. -/
theorem roomy_pop (h : Roomy e o (b :: rs)) (arrived : 12 ≤ (pending o.conn).length)
    (all : b.length ≤ (pending o.conn).length) :
    Roomy e { o with conn := { o.conn with
      currProcBuf := o.conn.currProcBuf + reqSizeOf o.conn.recvBuf o.conn.currProcBuf } } rs := by
  refine ⟨h.holds.pop arrived all, h.size, ?_⟩
  have fits := h.fits
  rw [List.length_cons] at fits
  have fewer : ∀ x y : Nat, y ≤ 1 → e * (rs.length - x) ≤ e * (rs.length + 1 - y) := by
    intro x y small
    exact Nat.mul_le_mul_left e (by omega)
  have less := fewer (if 16 ≤ (pending { o.conn with
    currProcBuf := o.conn.currProcBuf + reqSizeOf o.conn.recvBuf o.conn.currProcBuf }).length then 1 else 0)
    (if 16 ≤ (pending o.conn).length then 1 else 0) (by split <;> omega)
  exact Nat.le_trans (Nat.add_le_add_left less _) fits

/-- What the loop over the complete replies leaves, when `left` are still to come. -/
structure Handed (e : Nat) (perSession : Bool) (o : Open) (rs left : List (List UInt8)) (c : ConnInfo)
    (log : Log) : Prop where
  tags : log.handed ++ left.map tag = rs.map tag
  indexed : ∀ t ∈ log.handed, t.Indexed perSession
  roomy : Roomy e { o with conn := c } left
  incomplete : Incomplete { o with conn := c } left
  status : c.status = o.conn.status
  framed : ∀ d ∈ log.conns, Framed d

/-- The client ends in `process_reply`, with the last reply that it was given. -/
structure Ended (perSession : Bool) (rs : List (List UInt8)) (log : Log) : Prop where
  tags : ∃ before t after, log.handed = before ++ [t] ∧ rs.map tag = before ++ t :: after ∧
    ¬ t.Indexed perSession ∧ ∀ u ∈ before, u.Indexed perSession
  framed : ∀ d ∈ log.conns, Framed d

theorem prepared_incomplete (h : Roomy e o rs) (incomplete : Incomplete o rs) :
    connPrepareRecvMessage o.conn = .ok (none, o.conn) := by
  cases rs with
  | nil =>
    have none := h.holds.nothing.1
    simp only [connPrepareRecvMessage, ← length_pending, none]
    rfl
  | cons b later => exact processed_of_incomplete h.holds incomplete

/-- The first reply has arrived in full. -/
theorem prepared_whole (h : Roomy e o (b :: rs)) (all : b.length ≤ (pending o.conn).length) :
    connPrepareRecvMessage o.conn =
      .ok (some o.conn.currProcBuf, { o.conn with currProcBuf := o.conn.currProcBuf + b.length }) := by
  have long := (h.holds.whole b (List.mem_cons_self ..)).long
  have size := h.holds.size (by omega)
  have framed := framed_of_roomy h
  have bound : (pending o.conn).length ≤ bufSize := by
    have := framed.2
    rw [length_pending]
    omega
  have header : messageHeader = 12 := rfl
  simp only [connPrepareRecvMessage, ← length_pending, size]
  rw [if_neg (by omega), if_neg (by omega), if_neg (by omega)]

theorem handReplies_whole (h : Roomy e o (b :: rs)) (perSession : Bool) (fuel : Nat) (all : b.length ≤ (pending o.conn).length) :
    (handReplies perSession (fuel + 1) o.conn).2.handed ≠ [] := by
  simp only [handReplies, prepared_whole h all]
  split <;> simp [Log.append]

theorem handReplies_roomy {fuel : Nat} (h : Roomy e o rs) (perSession : Bool) (enough : (pending o.conn).length < fuel) :
    (∃ c log left, handReplies perSession fuel o.conn = (some c, log) ∧ Handed e perSession o rs left c log) ∨
      ∃ log, handReplies perSession fuel o.conn = (none, log) ∧ Ended perSession rs log := by
  induction fuel generalizing o rs with
  | zero => omega
  | succ fuel ih =>
    by_cases whole : ∃ b later, rs = b :: later ∧ b.length ≤ (pending o.conn).length
    · obtain ⟨b, later, rfl, all⟩ := whole
      have long := (h.holds.whole b (List.mem_cons_self ..)).long
      have popped := roomy_pop h (by omega) all
      have tag := tag_head h.holds (by omega)
      have prepared := prepared_whole h all
      rw [h.holds.size (by omega)] at popped
      have framed := framed_of_roomy popped
      have fewer : (pending { o.conn with currProcBuf := o.conn.currProcBuf + b.length }).length < fuel := by
        rw [length_pending] at enough all ⊢
        simp only
        omega
      by_cases fits : (ReplyFraming.tag b).Indexed perSession
      · rcases ih popped fewer with ⟨c, log, left, handed, result⟩ | ⟨log, handed, ended⟩
        · refine .inl ⟨c, Log.append ⟨[{ o.conn with currProcBuf := o.conn.currProcBuf + b.length }],
            [ReplyFraming.tag b]⟩ log, left, ?_, ?_, ?_, result.roomy, result.incomplete, result.status, ?_⟩
          · simp only [handReplies, prepared, tag, if_pos fits, handed]
          · simp only [Log.append, List.cons_append, List.nil_append, List.map_cons, result.tags]
          · exact List.forall_mem_cons.mpr ⟨fits, result.indexed⟩
          · exact List.forall_mem_cons.mpr ⟨framed, result.framed⟩
        · obtain ⟨⟨before, t, after, given, split, bad, good⟩, inOrder⟩ := ended
          refine .inr ⟨Log.append ⟨[{ o.conn with currProcBuf := o.conn.currProcBuf + b.length }],
            [ReplyFraming.tag b]⟩ log, ?_, ⟨ReplyFraming.tag b :: before, t, after, ?_, ?_, bad, ?_⟩, ?_⟩
          · simp only [handReplies, prepared, tag, if_pos fits, handed]
          · simp only [Log.append, List.cons_append, List.nil_append, given]
          · rw [List.map_cons, split, List.cons_append]
          · exact List.forall_mem_cons.mpr ⟨fits, good⟩
          · exact List.forall_mem_cons.mpr ⟨framed, inOrder⟩
      · refine .inr ⟨⟨[{ o.conn with currProcBuf := o.conn.currProcBuf + b.length }],
          [ReplyFraming.tag b]⟩, ?_, ⟨[], ReplyFraming.tag b, later.map ReplyFraming.tag, rfl, rfl, fits, ?_⟩, ?_⟩
        · simp only [handReplies, prepared, tag, if_neg fits]
        · exact fun u none => by cases none
        · exact List.forall_mem_cons.mpr ⟨framed, fun d none => by cases none⟩
    · have incomplete : Incomplete o rs := by
        intro b member
        obtain ⟨later, rfl⟩ := List.head?_eq_some_iff.mp member
        by_contra all
        exact whole ⟨b, later, rfl, not_lt.mp all⟩
      refine .inl ⟨o.conn, ⟨[o.conn], []⟩, rs, ?_, rfl, ?_, h, incomplete, rfl, ?_⟩
      · simp only [handReplies, prepared_incomplete h incomplete]
      · exact fun u none => by cases none
      · exact List.forall_mem_cons.mpr ⟨framed_of_roomy h, fun d none => by cases none⟩

/-! ## Receiving -/

/-- The check after a `conn_recv` that returned 1: the replies that are complete are handed
over, or the first one, which is not complete, is kept as it is or shortened. -/
theorem longReply_cases (h : Holds o rs) :
    longReply o 1 = .ready o ∨ (longReply o 1 = .skip o ∧ Incomplete o rs) ∨
    ∃ b later, rs = b :: later ∧ Long o b ∧
      longReply o 1 = .again { o with conn := shorten o.conn (o.conn.currProcBuf + 16) } := by
  rw [longReply]
  split
  · rename_i found
    obtain ⟨header, eom, part⟩ := found
    rw [← length_pending] at header part
    cases rs with
    | nil =>
      have := h.nothing.1
      omega
    | cons b later =>
      rw [h.size (by simp only [messageHeader] at header; omega)] at part
      right
      split
      · refine .inl ⟨rfl, ?_⟩
        intro d member
        rw [List.head?_cons, Option.mem_some_iff] at member
        exact member ▸ part
      · rename_i next found
        have place : next = o.conn.currProcBuf + 16 := cmdBoundedNext_eom eom found
        subst place
        exact .inr ⟨b, later, rfl, ⟨header, part, eom⟩, rfl⟩
  · left
    rfl

end Handing

/-! ## The session -/

theorem mod_add_lt {x n j : Nat} (h : x % n + j < n) : (x + j) % n = x % n + j := by
  rw [← Nat.mod_add_mod, Nat.mod_eq_of_lt h]

theorem forall_dropLast_append {α : Type} {P : α → Prop} {xs : List α} (all : ∀ x ∈ xs, P x) (ys : List α) :
    (∀ x ∈ (xs ++ ys).dropLast, P x) ↔ ∀ x ∈ ys.dropLast, P x := by
  cases ys with
  | nil =>
    rw [List.append_nil]
    exact ⟨fun _ x none => (by cases none), fun _ x member => all x (List.mem_of_mem_dropLast member)⟩
  | cons y ys =>
    rw [List.dropLast_append_of_ne_nil (by simp), List.forall_mem_append]
    exact ⟨And.right, fun rest => ⟨all, rest⟩⟩

/-- The thread in a session with the replies `rs` still to come. -/
structure Expects (cfg : Client) (s : Receiving) (rs : List (List UInt8)) : Prop where
  roomy : Roomy 3 s.conn rs
  incomplete : Incomplete s.conn rs
  ready : s.conn.conn.status = .ready
  due : s.receiver.accounted % cfg.pktsPerSession + rs.length ≤ cfg.pktsPerSession
  incr : s.receiver.accounted % cfg.pktsPerSession ≠ 0 → s.receiver.iIncr = 1

section Session

variable {cfg : Client} {perSession : Bool} {s : Receiving} {rs : List (List UInt8)}

/-- A piece of the stream has arrived. -/
structure Received (s : Receiving) (rs : List (List UInt8)) (p : List UInt8) (pieces : List (List UInt8))
    (mid : Open) : Prop where
  roomy : Roomy 3 mid rs
  ready : mid.conn.status = .ready
  cut : Cutting pieces mid.rest
  some_left : rs ≠ []
  turned : turn s.conn (.bytes p.length) = longReply mid 1

theorem Expects.received {p : List UInt8} {pieces : List (List UInt8)} (h : Expects cfg s rs)
    (cut : Cutting (p :: pieces) s.conn.rest) : Received s rs p pieces (receive s.conn (.bytes p.length)).1 := by
  have split : s.conn.rest = p ++ pieces.flatten := by rw [← cut.whole, List.flatten_cons]
  have some_ : 0 < p.length := List.length_pos_iff.mpr (cut.nonempty p (List.mem_cons_self ..))
  have within : p.length ≤ s.conn.rest.length := by
    rw [split, List.length_append]
    exact Nat.le_add_right _ _
  have room : p.length ≤ s.conn.conn.currRecvSize := by
    have size := h.roomy.size
    have fits := h.roomy.fits
    omega
  obtain ⟨got, moved, ready⟩ := receive_bytes h.ready some_ room within
  refine ⟨h.roomy.receive _, ready, ⟨?_, ?_⟩, ?_, ?_⟩
  · exact fun q inside => cut.nonempty q (List.mem_cons_of_mem _ inside)
  · have dropped : (receive s.conn (.bytes p.length)).1.rest =
        s.conn.rest.drop ((receive s.conn (.bytes p.length)).1.conn.currRecvBuf - s.conn.conn.currRecvBuf) := rfl
    rw [dropped, moved.recv, Nat.add_sub_cancel_left, split, List.drop_left]
  · rintro rfl
    have none := h.roomy.holds.nothing.2
    rw [none, List.length_nil] at within
    omega
  · rw [turn, got, if_neg (by decide)]

theorem nextRound_some {r : Receiver} {o : Open} (conn : r.conn = some o) :
    nextRound cfg r = if r.accounted % cfg.pktsPerSession = 0 then none else some ⟨r, o⟩ := by
  simp only [nextRound, conn]

/-- What a round leaves that has processed no reply. -/
theorem Expects.nextRound_short (h : Expects cfg s rs) (o : Open) :
    nextRound cfg (endSession cfg { s.receiver with conn := some o } s.receiver.accounted) =
      if s.receiver.accounted % cfg.pktsPerSession = 0 ∨ (s.receiver.accounted + 1) % cfg.pktsPerSession = 0 then none
      else some ⟨{ s.receiver with conn := some o }, o⟩ := by
  by_cases first : s.receiver.accounted % cfg.pktsPerSession = 0
  · rw [if_pos (.inl first)]
    simp only [endSession]
    split
    · rfl
    · exact (nextRound_some rfl).trans (if_pos first)
  · have one := h.incr first
    simp only [endSession, one]
    by_cases last : (s.receiver.accounted + 1) % cfg.pktsPerSession = 0
    · rw [if_pos last, if_pos (.inr last)]
      rfl
    · rw [if_neg last, if_neg (by simp [first, last])]
      exact (nextRound_some rfl).trans (if_neg first)

/-- What a round leaves that has processed some of the replies. -/
theorem Expects.nextRound_handed (h : Expects cfg s rs) {left : List (List UInt8)} {verdicts : List Verdict}
    (some_ : verdicts ≠ []) (total : verdicts.length + left.length = rs.length) (o : Open) :
    (nextRound cfg (endSession cfg (verdicts.foldl count { s.receiver with conn := some o }) s.receiver.accounted) =
        none ∧ left = []) ∨
      ∃ r, nextRound cfg (endSession cfg (verdicts.foldl count { s.receiver with conn := some o })
          s.receiver.accounted) = some ⟨r, o⟩ ∧
        r.accounted % cfg.pktsPerSession + left.length ≤ cfg.pktsPerSession ∧ r.iIncr = 1 := by
  obtain ⟨accounted, conn, -, incr⟩ := foldl_count verdicts { s.receiver with conn := some o }
  have positive := List.length_pos_iff.mpr some_
  have due := h.due
  rw [if_neg (by omega)] at incr
  have same : ({ s.receiver with conn := some o } : Receiver).accounted = s.receiver.accounted := rfl
  rw [same] at accounted
  generalize hr : verdicts.foldl count { s.receiver with conn := some o } = r at accounted conn incr
  by_cases rest : s.receiver.accounted % cfg.pktsPerSession + verdicts.length < cfg.pktsPerSession
  · have now := mod_add_lt rest
    have next : (s.receiver.accounted + 1) % cfg.pktsPerSession ≠ 0 := by
      rw [mod_add_lt (by omega)]
      omega
    right
    refine ⟨r, ?_, ?_, incr⟩
    · rw [endSession, incr, if_neg next, nextRound_some conn, accounted, now, if_neg (by omega)]
    · rw [accounted, now]
      omega
  · left
    have all : left = [] := List.length_eq_zero_iff.mp (by omega)
    refine ⟨?_, all⟩
    have full : (s.receiver.accounted + verdicts.length) % cfg.pktsPerSession = 0 := by
      have exactly : s.receiver.accounted % cfg.pktsPerSession + verdicts.length = cfg.pktsPerSession := by
        have := List.length_eq_zero_iff.mpr all
        omega
      rw [← Nat.mod_add_mod, exactly, Nat.mod_self]
    simp only [endSession]
    split
    · simp only [conn, nextRound]
    · rw [nextRound_some conn, accounted, if_pos full]

/-- What a receive does: the session goes on with the replies that are left, or all have
been handed over, or the session is over before. -/
inductive Step (cfg : Client) (perSession : Bool) (s : Receiving) (rs : List (List UInt8)) (a : Answer)
    (pieces : List (List UInt8)) : Option Receiving → List Tag → Prop
  | goesOn {s' : Receiving} {left : List (List UInt8)} {handed : List Tag} (lasts : ¬ Breaks cfg s a)
      (expects : Expects cfg s' left) (cut : Cutting pieces s'.conn.rest) (tags : handed ++ left.map tag = rs.map tag)
      (indexed : ∀ t ∈ handed, t.Indexed perSession) : Step cfg perSession s rs a pieces (some s') handed
  | all {handed : List Tag} (lasts : ¬ Breaks cfg s a) (tags : handed = rs.map tag)
      (indexed : ∀ t ∈ (rs.map tag).dropLast, t.Indexed perSession) : Step cfg perSession s rs a pieces none handed
  | over_ {handed : List Tag} (fewer : handed.length < rs.length)
      (because : Breaks cfg s a ∨ ¬ ∀ t ∈ (rs.map tag).dropLast, t.Indexed perSession) :
      Step cfg perSession s rs a pieces none handed

/-- A round that ends without a complete reply. -/
theorem Expects.short {a : Answer} {pieces : List (List UInt8)} {mid : Open} (h : Expects cfg s rs)
    (some_left : rs ≠ []) (here : (receive s.conn a).1 = mid) (left : ∀ o, turn s.conn a ≠ .again o)
    (roomy : Roomy 3 mid rs) (incomplete : Incomplete mid rs) (ready : mid.conn.status = .ready)
    (cut : Cutting pieces mid.rest) :
    Step cfg perSession s rs a pieces
      (nextRound cfg (endSession cfg { s.receiver with conn := some mid } s.receiver.accounted)) [] := by
  have short : ∀ m c, connPrepareRecvMessage (receive s.conn a).1.conn ≠ .ok (some m, c) := by
    intro m c found
    rw [here, prepared_incomplete roomy incomplete] at found
    cases found
  rw [h.nextRound_short]
  split
  · rename_i edge
    exact .over_ (List.length_pos_iff.mpr some_left) (.inl ⟨left, short, edge⟩)
  · rename_i inside
    exact .goesOn (fun breaks => inside breaks.edge) ⟨roomy, incomplete, ready, h.due, h.incr⟩ cut rfl
      (fun t none => by cases none)

theorem Expects.step {p : List UInt8} {pieces : List (List UInt8)} (h : Expects cfg s rs) (perSession : Bool)
    (cut : Cutting (p :: pieces) s.conn.rest) :
    (∀ c ∈ (receiveOne cfg perSession s (.bytes p.length)).2.conns, Framed c) ∧
      Step cfg perSession s rs (.bytes p.length) pieces (receiveOne cfg perSession s (.bytes p.length)).1
        (receiveOne cfg perSession s (.bytes p.length)).2.handed := by
  have received := h.received cut
  generalize hmid : (receive s.conn (.bytes p.length)).1 = mid at received
  obtain ⟨roomy, ready, rest, some_left, turned⟩ := received
  rcases longReply_cases roomy.holds with done | ⟨done, part⟩ | ⟨b, later, rfl, long, done⟩
  · rw [done] at turned
    have left : ∀ o, turn s.conn (.bytes p.length) ≠ .again o := by simp [turned]
    have enough : (pending mid.conn).length < mid.conn.currRecvBuf + 1 := by
      rw [length_pending]
      omega
    simp only [receiveOne, turned]
    by_cases part : Incomplete mid rs
    · have nothing : handReplies perSession (mid.conn.currRecvBuf + 1) mid.conn = (some mid.conn, ⟨[mid.conn], []⟩) := by
        simp only [handReplies, prepared_incomplete roomy part]
      simp only [nothing]
      refine ⟨List.forall_mem_cons.mpr ⟨framed_of_roomy roomy, fun c none => by cases none⟩, ?_⟩
      exact h.short some_left hmid left roomy part ready rest
    · -- the first reply is complete, so the receive does not break the session
      obtain ⟨b, later, rfl⟩ := List.exists_cons_of_ne_nil some_left
      have all : b.length ≤ (pending mid.conn).length := by
        by_contra few
        refine part fun d member => ?_
        rw [List.head?_cons, Option.mem_some_iff] at member
        exact member ▸ not_le.mp few
      have lasts : ¬ Breaks cfg s (.bytes p.length) := by
        rintro ⟨-, short, -⟩
        exact short _ _ (by rw [hmid]; exact prepared_whole roomy all)
      rcases handReplies_roomy roomy perSession enough with
        ⟨c, log, left', handed, result⟩ | ⟨log, handed, ended⟩
      · simp only [handed]
        refine ⟨result.framed, ?_⟩
        have some_ : log.handed ≠ [] := by
          have first := handReplies_whole roomy perSession mid.conn.currRecvBuf all
          rwa [handed] at first
        have total : (log.handed.map Tag.verdict).length + left'.length = (b :: later).length := by
          have same := congrArg List.length result.tags
          rwa [List.length_append, List.length_map, List.length_map, ← List.length_map (f := Tag.verdict)] at same
        rcases h.nextRound_handed (by simpa using some_) total { mid with conn := c } with
          ⟨none, rfl⟩ | ⟨r, some, due, incr⟩
        · rw [none]
          have tags := result.tags
          rw [List.map_nil, List.append_nil] at tags
          exact .all lasts tags fun t member => result.indexed t (tags ▸ List.mem_of_mem_dropLast member)
        · rw [some]
          exact .goesOn lasts ⟨result.roomy, result.incomplete, result.status.trans ready, due, fun _ => incr⟩ rest
            result.tags result.indexed
      · simp only [handed]
        obtain ⟨⟨before, t, after, given, split, bad, good⟩, inOrder⟩ := ended
        refine ⟨inOrder, ?_⟩
        cases after with
        | nil =>
          refine .all lasts (given.trans split.symm) ?_
          rw [split, List.dropLast_concat]
          exact good
        | cons u after =>
          have inside : t ∈ ((b :: later).map tag).dropLast := by
            rw [split, List.dropLast_append_of_ne_nil (by simp)]
            simp
          refine .over_ ?_ (.inr fun indexed => bad (indexed t inside))
          have same := congrArg List.length split
          rw [List.length_map, List.length_append, List.length_cons (a := t), List.length_cons (a := u)] at same
          rw [given, List.length_append, List.length_singleton]
          omega
  · rw [done] at turned
    simp only [receiveOne, turned]
    refine ⟨fun c none => (by cases none), ?_⟩
    exact h.short some_left hmid (by simp [turned]) roomy part ready rest
  · -- the reply is shortened, with bytes of it still to come
    rw [done] at turned
    simp only [receiveOne, turned]
    have short := roomy.shorten long (.inl rfl)
    have part : Incomplete { mid with conn := shorten mid.conn (mid.conn.currProcBuf + 16) }
        (shortened mid.conn b :: later) := by
      intro d member
      rw [List.head?_cons, Option.mem_some_iff] at member
      have left := long.part
      rw [← member, length_shortened, pending_shorten, length_slice]
      omega
    refine ⟨List.forall_mem_cons.mpr ⟨framed_of_roomy short, fun c none => by cases none⟩, ?_⟩
    refine .goesOn (fun breaks => breaks.left _ turned) ⟨short, part, ready, h.due, h.incr⟩ rest ?_ ?_
    · rw [List.nil_append, List.map_cons, List.map_cons, tag_shortened roomy.holds long]
    · exact fun t none => by cases none

/-- What the receives hand over, and whether the session lasts for them. -/
theorem Expects.run {pieces : List (List UInt8)} (h : Expects cfg s rs) (perSession : Bool)
    (cut : Cutting pieces s.conn.rest) :
    (∀ c ∈ (receives cfg perSession s (answers pieces)).2.conns, Framed c) ∧
      (((receives cfg perSession s (answers pieces)).2.handed = rs.map tag ∧
          (∀ t ∈ (rs.map tag).dropLast, t.Indexed perSession) ∧ Lasts cfg perSession s (answers pieces)) ∨
        ((receives cfg perSession s (answers pieces)).2.handed.length < rs.length ∧
          ¬ ((∀ t ∈ (rs.map tag).dropLast, t.Indexed perSession) ∧ Lasts cfg perSession s (answers pieces)))) := by
  induction pieces generalizing s rs with
  | nil =>
    have none : s.conn.rest = [] := cut.whole.symm
    cases rs with
    | nil => exact ⟨fun c none => (by cases none), .inl ⟨rfl, fun t none => (by cases none), trivial⟩⟩
    | cons b later =>
      have unread := unread_head h.roomy.holds h.incomplete
      rw [none] at unread
      exact absurd unread (Nat.not_lt_zero _)
  | cons p pieces ih =>
    have received := framed_of_roomy (h.received cut).roomy
    obtain ⟨framed, step⟩ := h.step perSession cut
    have given : answers (p :: pieces) = .bytes p.length :: answers pieces := rfl
    simp only [given, receives, Lasts]
    generalize receiveOne cfg perSession s (.bytes p.length) = t at framed step
    obtain ⟨next, log⟩ := t
    simp only at framed step ⊢
    cases step with
    | @goesOn s' left _ lasts expects cut tags indexed =>
      obtain ⟨framed', result⟩ := ih expects cut
      simp only [Log.append, ← tags, forall_dropLast_append indexed, Option.some.injEq, forall_eq']
      refine ⟨?_, ?_⟩
      · intro c member
        simp only [List.cons_append, List.nil_append, List.mem_cons, List.mem_append] at member
        rcases member with rfl | here | later
        · exact received
        · exact framed c here
        · exact framed' c later
      · rcases result with ⟨handed, indices, rest⟩ | ⟨fewer, because⟩
        · exact .inl ⟨by rw [List.nil_append, handed], indices, lasts, rest⟩
        · refine .inr ⟨?_, fun both => because ⟨both.1, both.2.2⟩⟩
          have same := congrArg List.length tags
          rw [List.length_append, List.length_map, List.length_map] at same
          rw [List.nil_append, List.length_append]
          omega
    | all lasts tags indexed =>
      refine ⟨List.forall_mem_cons.mpr ⟨received, framed⟩, .inl ⟨tags, indexed, lasts, ?_⟩⟩
      exact fun s' none => by cases none
    | over_ fewer because =>
      refine ⟨List.forall_mem_cons.mpr ⟨received, framed⟩, .inr ⟨by simpa [Log.append] using fewer, ?_⟩⟩
      rintro ⟨indexed, lasts, -⟩
      rcases because with breaks | unindexed
      · exact lasts breaks
      · exact unindexed indexed

end Session

theorem length_moderate {rs : List (List UInt8)} (moderate : Moderate rs) : 44 * rs.length ≤ rs.flatten.length := by
  have sum := List.card_nsmul_le_sum (rs.map List.length) 44 (by simpa using moderate.long)
  rwa [List.length_map, smul_eq_mul, ← List.length_flatten, Nat.mul_comm] at sum

/-- The connection of a new session has room for replies of this kind. -/
theorem expects_begins {cfg : Client} {r : Receiver} {sess : Nat} (between : r.accounted % cfg.pktsPerSession = 0)
    (sent : Moderate (cfg.replies sess)) (few : (cfg.replies sess).length ≤ cfg.pktsPerSession) (sock : Nat) :
    Expects cfg (begins r (openConn cfg sess sock)) (cfg.replies sess) := by
  have accounted : (begins r (openConn cfg sess sock)).receiver.accounted = r.accounted := rfl
  have fresh : pending (openConn cfg sess sock).conn = [] := rfl
  have rest : (openConn cfg sess sock).rest = (cfg.replies sess).flatten := rfl
  have many := length_moderate sent
  have total := sent.total
  have small : ∀ b ∈ cfg.replies sess, b.length ≤ bufSize := by
    intro b member
    have part := (List.sublist_flatten_of_mem member).length_le
    omega
  refine ⟨?_, ?_, rfl, by rw [accounted, between]; omega, ?_⟩
  · refine ⟨⟨Nat.le_refl _, ?_, sent.whole, ?_, ?_⟩, Nat.add_zero _, ?_⟩
    · change pending (openConn cfg sess sock).conn ++ (openConn cfg sess sock).rest = _
      rw [fresh, List.nil_append, rest]
    · exact fun b member => small b (List.mem_of_mem_tail member)
    · intro b member
      have fits := small b (List.mem_of_mem_head? member)
      exact ⟨by omega, fun _ => fits⟩
    · change 0 + (cfg.replies sess).flatten.length + 3 * _ ≤ bufSize
      rw [if_neg (by rw [begins, fresh]; simp)]
      omega
  · intro b member
    have long := sent.long b (List.mem_of_mem_head? member)
    change (pending (openConn cfg sess sock).conn).length < b.length
    rw [fresh, List.length_nil]
    omega
  · rw [accounted]
    exact fun other => absurd between other

/-- However the stream is cut the pointers stay in order. The replies are handed over as
they were sent exactly when the session lasts for them, and `process_reply` accepts them. -/
theorem framing_kept_iff {cfg : Client} {r : Receiver} {sess : Nat} (between : r.accounted % cfg.pktsPerSession = 0)
    (sent : Moderate (cfg.replies sess)) (few : (cfg.replies sess).length ≤ cfg.pktsPerSession)
    (perSession : Bool) (sock : Nat) {pieces : List (List UInt8)} (cut : Cutting pieces (cfg.replies sess).flatten) :
    let s := begins r (openConn cfg sess sock)
    let log := (receives cfg perSession s (answers pieces)).2
    (∀ c ∈ log.conns, Framed c) ∧
      (log.handed = (cfg.replies sess).map tag ↔
        (∀ t ∈ ((cfg.replies sess).map tag).dropLast, t.Indexed perSession) ∧
          Lasts cfg perSession s (answers pieces)) := by
  intro s log
  obtain ⟨framed, result⟩ := (expects_begins between sent few sock).run perSession cut
  refine ⟨framed, ?_⟩
  rcases result with ⟨handed, lasts⟩ | ⟨fewer, because⟩
  · exact ⟨fun _ => lasts, fun _ => handed⟩
  · refine ⟨fun handed => ?_, fun lasts => absurd lasts because⟩
    have same := congrArg List.length handed
    rw [List.length_map] at same
    exact absurd same (Nat.ne_of_lt fewer)

/-- A reply of 44 bytes. -/
def fullReply (id status : UInt8) : List UInt8 :=
  [id, 0, 0, 0, 44, 0, 0, 0, status, 0, 0, 0, 7, 0, 0, 0] ++ List.replicate 28 9

def twoReplies : Client := ⟨2, 2, .tcp, [127, 0, 0, 1, 30, 211], fun _ => [fullReply 5 0, fullReply 6 1]⟩

theorem moderate_twoReplies (sess : Nat) : Moderate (twoReplies.replies sess) := by
  refine ⟨?_, by simp [twoReplies, fullReply], by simp [twoReplies, fullReply, bufSize]⟩
  intro b member
  simp only [twoReplies, List.mem_cons, List.not_mem_nil, or_false] at member
  rcases member with rfl | rfl
  · exact ⟨by decide, rfl, rfl⟩
  · exact ⟨by decide, rfl, rfl⟩

/-- The first reply arrives up to the code of its EOM, and then with the beginning of the
second one. -/
def threePieces : List (List UInt8) :=
  [(fullReply 5 0).take 13, (fullReply 5 0).drop 13 ++ (fullReply 6 1).take 20, (fullReply 6 1).drop 20]

theorem framing_kept_iff_two :
    (receives twoReplies false (begins .init (openConn twoReplies 0 3)) (answers threePieces)).2.handed =
      [⟨5, 0⟩, ⟨6, 1⟩] := by
  have lasts : Lasts twoReplies false (begins .init (openConn twoReplies 0 3)) (answers threePieces) := by
    refine ⟨fun breaks => breaks.left _ rfl, ?_⟩
    rintro _ ⟨⟩
    refine ⟨fun breaks => breaks.short _ _ rfl, ?_⟩
    rintro _ ⟨⟩
    refine ⟨fun breaks => breaks.short _ _ rfl, ?_⟩
    rintro _ ⟨⟩
  exact (@framing_kept_iff twoReplies .init 0 rfl (moderate_twoReplies 0) (by decide) false 3 threePieces
    ⟨by decide, rfl⟩).2.mpr ⟨by decide, lasts⟩

/-- The first reply arrives alone, and then the second one after the first ten bytes of
it. -/
def cutInLast : List (List UInt8) := [fullReply 5 0, (fullReply 6 1).take 10, (fullReply 6 1).drop 10]

/-- Ten bytes of the last reply end the session, which never gets the rest. -/
theorem last_reply_lost : Cutting cutInLast (twoReplies.replies 0).flatten ∧
    (twoReplies.replies 0).map tag = [⟨5, 0⟩, ⟨6, 1⟩] ∧
    (receives twoReplies false (begins .init (openConn twoReplies 0 3)) (answers cutInLast)).2.handed = [⟨5, 0⟩] :=
  ⟨⟨by decide, rfl⟩, rfl, rfl⟩

/-! ## Rounds of the thread -/

/-- The thread counts a verdict for every tag that is handed over. -/
theorem processReplies_of_handed {perSession : Bool} {fuel : Nat} {c c' : ConnInfo} {log : Log}
    (handed : handReplies perSession fuel c = (some c', log)) :
    processReplies fuel c = .ok (c', log.handed.map Tag.verdict) := by
  induction fuel generalizing c log with
  | zero =>
    cases handed
    rfl
  | succ fuel ih =>
    rw [handReplies] at handed
    rw [processReplies]
    cases prepared : connPrepareRecvMessage c with
    | error e =>
      simp only [prepared] at handed
      cases handed
    | ok t =>
      obtain ⟨_ | m, d⟩ := t
      · simp only [prepared] at handed ⊢
        cases handed
        rfl
      · simp only [prepared] at handed ⊢
        split at handed
        · cases later : handReplies perSession fuel d with
          | mk next rest =>
            rw [later] at handed
            cases handed
            rw [ih later]
            rfl
        · cases handed

theorem receives_one (cfg : Client) (perSession : Bool) (s : Receiving) (a : Answer) :
    (receives cfg perSession s [a]).1 = (receiveOne cfg perSession s a).1 := by
  simp only [receives]
  cases (receiveOne cfg perSession s a).1 <;> rfl

/-- The answers that a round uses lead to the receiver that the round leaves, unless the
client ends in `process_reply`. -/
theorem receives_round {cfg : Client} {perSession : Bool} {s : Receiving} {given : List Answer} {t : Turn}
    (done : receiveLoop s.conn given = some t)
    (accepted : ∀ o, t = .ready o → (handReplies perSession (o.conn.currRecvBuf + 1) o.conn).1 ≠ none) :
    ∃ used later r, given = used ++ later ∧
      receiveReplies cfg s.receiver s.conn s.receiver.accounted given = .next r ∧
      (receives cfg perSession s used).1 = nextRound cfg r := by
  induction given generalizing s with
  | nil => cases done
  | cons a given ih =>
    simp only [receiveReplies, receiveLoop] at done ⊢
    cases here : turn s.conn a with
    | again o =>
      simp only [here] at done ⊢
      obtain ⟨used, later, r, split, left, last⟩ := ih (s := ⟨s.receiver, o⟩) done
      refine ⟨a :: used, later, r, by rw [split, List.cons_append], ?_, ?_⟩
      · simpa only [receiveReplies] using left
      · simpa only [receives, receiveOne, here] using last
    | ready o =>
      simp only [here] at done ⊢
      cases done
      cases handed : handReplies perSession (o.conn.currRecvBuf + 1) o.conn with
      | mk next log =>
        cases next with
        | none => exact absurd (by rw [handed]) (accepted o rfl)
        | some c =>
          refine ⟨[a], given, _, rfl, by rw [processReplies_of_handed handed], ?_⟩
          simp only [receives_one, receiveOne, here, handed]
    | skip o =>
      simp only [here] at done ⊢
      refine ⟨[a], given, _, rfl, rfl, ?_⟩
      simp only [receives_one, receiveOne, here]
    | failed o =>
      simp only [here] at done ⊢
      refine ⟨[a], given, _, rfl, rfl, ?_⟩
      simp only [receives_one, receiveOne, here]

end ReplyFraming
