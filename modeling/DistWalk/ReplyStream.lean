import DistWalk.ClientReceiver

/-!
# Replies in the client's receive buffer

What stands between `curr_proc_buf` and `curr_recv_buf`, followed by what has not been
read yet, is a sequence of whole replies. Shortening a long REPLY replaces the first of
them by another whole reply with as many bytes still to come.
-/

namespace ReplyStream

open ByteMemory Message Connection ClientReceiver

/-- The bytes of a list as a buffer. -/
def memOf (b : List UInt8) : Mem := fun a => b.getD a 0

/-- A reply names its own length, and its first command is EOM. -/
structure Whole (b : List UInt8) : Prop where
  long : 16 ≤ b.length
  size : reqSizeOf (memOf b) 0 = b.length
  eom : cmdAt (memOf b) messageHeader = .eom

/-- The bytes received and not processed. -/
def pending (c : ConnInfo) : List UInt8 :=
  slice c.recvBuf c.currProcBuf (c.currRecvBuf - c.currProcBuf)

theorem length_pending (c : ConnInfo) : (pending c).length = c.currRecvBuf - c.currProcBuf :=
  length_slice _ _ _

/-- `rs` are the replies still to be processed. A shortened first reply is up to three
bytes longer than the one it replaces. -/
structure Holds (o : Open) (rs : List (List UInt8)) : Prop where
  order : o.conn.currProcBuf ≤ o.conn.currRecvBuf
  stream : pending o.conn ++ o.rest = rs.flatten
  whole : ∀ b ∈ rs, Whole b
  small : ∀ b ∈ rs.tail, b.length ≤ bufSize
  head : ∀ b ∈ rs.head?, b.length ≤ bufSize + 3 ∧
    ((pending o.conn).length < 16 → b.length ≤ bufSize)

/-! ## Reading the first reply -/

theorem u32_memOf {c : ConnInfo} {b l : List UInt8} (same : pending c = b) {a : Nat}
    (inside : a + 4 ≤ b.length) : u32 c.recvBuf (c.currProcBuf + a) = u32 (memOf (b ++ l)) a := by
  have size : c.currRecvBuf - c.currProcBuf = b.length := by rw [← length_pending, same]
  refine u32_congr fun i hi => ?_
  have bound : a + i < (slice c.recvBuf c.currProcBuf (c.currRecvBuf - c.currProcBuf)).length := by
    rw [length_slice]
    omega
  have here := getElem_slice c.recvBuf c.currProcBuf _ (a + i) bound
  have within : a + i < (b ++ l).length := by
    rw [List.length_append]
    omega
  rw [memOf, List.getD_eq_getElem _ _ within, List.getElem_append_left (by omega), Nat.add_assoc,
    ← here]
  simp only [← same, pending]

theorem u32_memOf_append {b l : List UInt8} {a : Nat} (inside : a + 4 ≤ b.length) :
    u32 (memOf (b ++ l)) a = u32 (memOf b) a := by
  refine u32_congr fun i hi => ?_
  have within : a + i < b.length := by omega
  rw [memOf, memOf, List.getD_append _ _ _ _ within]

/-- A word of the first reply that has arrived. -/
theorem Holds.word {o : Open} {b : List UInt8} {rs : List (List UInt8)} (h : Holds o (b :: rs)) {a : Nat}
    (arrived : a + 4 ≤ (pending o.conn).length) (inside : a + 4 ≤ b.length) :
    u32 o.conn.recvBuf (o.conn.currProcBuf + a) = u32 (memOf b) a := by
  have stream := h.stream
  rw [List.flatten_cons] at stream
  rw [u32_memOf rfl arrived, stream, u32_memOf_append inside]

/-- Once the length has arrived it is the length of the first reply. -/
theorem Holds.size {o : Open} {b : List UInt8} {rs : List (List UInt8)} (h : Holds o (b :: rs))
    (arrived : 8 ≤ (pending o.conn).length) :
    reqSizeOf o.conn.recvBuf o.conn.currProcBuf = b.length := by
  have whole := h.whole b (List.mem_cons_self ..)
  have long := whole.long
  have size := whole.size
  rw [reqSizeOf, Nat.zero_add] at size
  rw [reqSizeOf, h.word (by omega) (by omega), size]

/-- Nothing is pending without a reply. -/
theorem Holds.nothing {o : Open} (h : Holds o []) : (pending o.conn).length = 0 ∧ o.rest = [] := by
  have stream := h.stream
  rw [List.flatten_nil, List.append_eq_nil_iff] at stream
  exact ⟨by rw [stream.1]; rfl, stream.2⟩

/-! ## Receiving -/

/-- The first `n` unread bytes have moved into the buffer. -/
structure Appends (c c' : ConnInfo) (rest : List UInt8) (n : Nat) : Prop where
  recv : c'.currRecvBuf = c.currRecvBuf + n
  proc : c'.currProcBuf = c.currProcBuf
  within : n ≤ rest.length
  room : n ≤ c.currRecvSize
  size : c'.currRecvSize = c.currRecvSize - n
  buf : c'.recvBuf = store c.recvBuf c.currRecvBuf (rest.take n)

theorem appends_none (c : ConnInfo) (rest : List UInt8) : Appends c c rest 0 where
  recv := rfl
  proc := rfl
  within := Nat.zero_le _
  room := Nat.zero_le _
  size := rfl
  buf := by
    funext i
    exact (store_outside _ _ _ (by simp; omega)).symm

theorem appends_takeBytes {c d : ConnInfo} (recv : d.currRecvBuf = c.currRecvBuf)
    (proc : d.currProcBuf = c.currProcBuf) (size : d.currRecvSize = c.currRecvSize)
    (buf : d.recvBuf = c.recvBuf) (rest : List UInt8) (n : Nat) :
    Appends c (takeBytes d (rest.take n)) rest (min (min c.currRecvSize n) rest.length) := by
  have got : (rest.take n).take d.currRecvSize =
      rest.take (min (min c.currRecvSize n) rest.length) := by
    rw [List.take_take, size, ← List.take_eq_take_min]
  have length : ((rest.take n).take d.currRecvSize).length =
      min (min c.currRecvSize n) rest.length := by
    rw [List.take_take, List.length_take, size]
  refine ⟨?_, proc, by omega, by omega, ?_, ?_⟩
  · rw [takeBytes, length, recv]
  · rw [takeBytes, length, size]
  · rw [takeBytes, got, recv, buf]

/-- `conn_recv` appends a prefix of what is unread. -/
theorem connRecv_appends (c : ConnInfo) (rest : List UInt8) (a : Answer) :
    ∃ n, Appends c (connRecv c (a.result rest)).1 rest n := by
  cases a with
  | bytes n =>
    simp only [Answer.result, connRecv]
    split
    · exact ⟨0, appends_none c rest⟩
    · split
      · exact ⟨0, appends_none c rest⟩
      · refine ⟨_, appends_takeBytes ?_ ?_ ?_ ?_ rest n⟩
        all_goals split <;> rfl
  | wouldBlock =>
    simp only [Answer.result, connRecv]
    split <;> exact ⟨0, appends_none c rest⟩
  | closed =>
    simp only [Answer.result, connRecv]
    split <;> exact ⟨0, appends_none c rest⟩
  | failed =>
    simp only [Answer.result, connRecv]
    split <;> exact ⟨0, appends_none c rest⟩

theorem Appends.pending {c c' : ConnInfo} {rest : List UInt8} {n : Nat} (h : Appends c c' rest n)
    (order : c.currProcBuf ≤ c.currRecvBuf) :
    ReplyStream.pending c' = ReplyStream.pending c ++ rest.take n := by
  have size : c.currRecvBuf + n - c.currProcBuf = c.currRecvBuf - c.currProcBuf + n := by omega
  have place : c.currProcBuf + (c.currRecvBuf - c.currProcBuf) = c.currRecvBuf := by omega
  have length : (rest.take n).length = n := by
    rw [List.length_take]
    exact Nat.min_eq_left h.within
  have stored := slice_store_self c.recvBuf c.currRecvBuf (rest.take n)
  rw [length] at stored
  rw [ReplyStream.pending, ReplyStream.pending, h.recv, h.proc, h.buf, size, slice_add, place,
    slice_store_disjoint _ _ _ _ _ (Or.inl (by omega)), stored]

theorem Holds.receive {o : Open} {rs : List (List UInt8)} (h : Holds o rs) (a : Answer) :
    Holds (ClientReceiver.receive o a).1 rs := by
  obtain ⟨n, moved⟩ := connRecv_appends o.conn o.rest a
  have more := moved.pending h.order
  have dropped : (ClientReceiver.receive o a).1.rest = o.rest.drop n := by
    simp only [ClientReceiver.receive, moved.recv, Nat.add_sub_cancel_left]
  refine ⟨?_, ?_, h.whole, h.small, fun b member => ?_⟩
  · change (connRecv o.conn (a.result o.rest)).1.currProcBuf ≤
      (connRecv o.conn (a.result o.rest)).1.currRecvBuf
    rw [moved.proc, moved.recv]
    exact Nat.le_add_right_of_le h.order
  · rw [dropped]
    change ReplyStream.pending (connRecv o.conn (a.result o.rest)).1 ++ _ = _
    rw [more, List.append_assoc, List.take_append_drop]
    exact h.stream
  · refine ⟨(h.head b member).1, fun few => (h.head b member).2 ?_⟩
    change (ReplyStream.pending (connRecv o.conn (a.result o.rest)).1).length < 16 at few
    rw [more, List.length_append] at few
    omega

/-! ## Shortening -/

/-- The first reply after it has been shortened: sixteen bytes of the buffer and what has
not arrived. -/
def shortened (c : ConnInfo) (b : List UInt8) : List UInt8 :=
  slice (shorten c (c.currProcBuf + 16)).recvBuf c.currProcBuf 16 ++ b.drop (pending c).length

theorem length_shortened (c : ConnInfo) (b : List UInt8) :
    (shortened c b).length = 16 + (b.length - (pending c).length) := by
  rw [shortened, List.length_append, length_slice, List.length_drop]

theorem pending_shorten (c : ConnInfo) :
    pending (shorten c (c.currProcBuf + 16)) =
      slice (shorten c (c.currProcBuf + 16)).recvBuf c.currProcBuf 16 := by
  have size : c.currProcBuf + 16 - c.currProcBuf = 16 := by omega
  exact congrArg (slice _ c.currProcBuf) size

/-- A part of a reply has arrived, with its header and the code of its command. -/
structure Long (o : Open) (b : List UInt8) : Prop where
  header : 12 < (pending o.conn).length
  part : (pending o.conn).length < b.length
  eom : cmdAt o.conn.recvBuf (o.conn.currProcBuf + 12) = .eom

theorem Holds.whole_shortened {o : Open} {b : List UInt8} {rs : List (List UInt8)}
    (h : Holds o (b :: rs)) (long : Long o b) : Whole (shortened o.conn b) := by
  have size := h.size (by have := long.header; omega)
  have few := (h.head b (by simp)).1
  have header := long.header
  have part := long.part
  have words : ∀ a, a + 4 ≤ 16 → u32 (memOf (shortened o.conn b)) a =
      u32 (shorten o.conn (o.conn.currProcBuf + 16)).recvBuf (o.conn.currProcBuf + a) := by
    intro a inside
    have first := pending_shorten o.conn
    have bound : (pending (shorten o.conn (o.conn.currProcBuf + 16))).length = 16 := by
      rw [first, length_slice]
    rw [shortened, ← first]
    exact (u32_memOf rfl (by omega)).symm
  refine ⟨?_, ?_, ?_⟩
  · rw [length_shortened]
    omega
  · have value : reqSizeOf o.conn.recvBuf o.conn.currProcBuf + (o.conn.currProcBuf + 16) -
        o.conn.currRecvBuf = 16 + (b.length - (pending o.conn).length) := by
      have := h.order
      rw [length_pending] at part ⊢
      rw [size]
      omega
    have bounded : 16 + (b.length - (pending o.conn).length) < 2 ^ 32 := by
      simp only [bufSize] at few
      omega
    rw [reqSizeOf, Nat.zero_add, words 4 (by omega), length_shortened]
    simp only [shorten, setReqSize]
    rw [value, Nat.mod_eq_of_lt bounded, u32_storeU32 _ _ bounded]
  · rw [cmdAt, messageHeader, words 12 (by omega), ← long.eom, cmdAt]
    congr 1
    exact u32_store_disjoint _ _ _ _ (by simp)

theorem Holds.shorten {o : Open} {b : List UInt8} {rs : List (List UInt8)} (h : Holds o (b :: rs))
    (long : Long o b) :
    Holds { o with conn := ClientReceiver.shorten o.conn (o.conn.currProcBuf + 16) }
      (shortened o.conn b :: rs) := by
  have part := long.part
  have rest : o.rest = b.drop (pending o.conn).length ++ rs.flatten := by
    have dropped := congrArg (List.drop (pending o.conn).length) h.stream
    rw [List.drop_left, List.flatten_cons, List.drop_append_of_le_length (by omega)] at dropped
    exact dropped
  refine ⟨Nat.le_add_right _ _, ?_, ?_, h.small, ?_⟩
  · change pending (ClientReceiver.shorten o.conn (o.conn.currProcBuf + 16)) ++ o.rest = _
    rw [pending_shorten, rest, List.flatten_cons, shortened, List.append_assoc]
  · intro d member
    rcases List.mem_cons.mp member with rfl | later
    · exact h.whole_shortened long
    · exact h.whole d (List.mem_cons_of_mem _ later)
  · intro d member
    simp only [List.head?_cons, Option.mem_some_iff] at member
    subst member
    have few := h.head b (by simp)
    have header := long.header
    constructor
    · rw [length_shortened]
      by_cases short : (pending o.conn).length < 16
      · have := few.2 short
        omega
      · have := few.1
        omega
    · intro impossible
      change (pending (ClientReceiver.shorten o.conn (o.conn.currProcBuf + 16))).length < 16 at impossible
      rw [pending_shorten, length_slice] at impossible
      omega

/-! ## Turns -/

def Turn.open : Turn → Open
  | .again o => o
  | .ready o => o
  | .skip o => o
  | .failed o => o

/-- The same replies are still to be processed, the first perhaps in another form. -/
structure Onward (o : Open) (rs : List (List UInt8)) (o' : Open) (rs' : List (List UInt8)) : Prop where
  holds : Holds o' rs'
  tail : rs'.tail = rs.tail
  length : rs'.length = rs.length
  read : o'.rest.length ≤ o.rest.length
  sess : o'.sess = o.sess

theorem Onward.trans {o₁ o₂ o₃ : Open} {rs₁ rs₂ rs₃ : List (List UInt8)} (h : Onward o₁ rs₁ o₂ rs₂)
    (h' : Onward o₂ rs₂ o₃ rs₃) : Onward o₁ rs₁ o₃ rs₃ where
  holds := h'.holds
  tail := h'.tail.trans h.tail
  length := h'.length.trans h.length
  read := h'.read.trans h.read
  sess := h'.sess.trans h.sess

/-- The first reply has not arrived in full. -/
def Incomplete (o : Open) (rs : List (List UInt8)) : Prop :=
  ∀ b ∈ rs.head?, (pending o.conn).length < b.length

theorem cmdBoundedNext_eom {mem : Mem} {cmd msgEnd next : Nat} (eom : cmdAt mem cmd = .eom)
    (h : cmdBoundedNext mem cmd msgEnd = some next) : next = cmd + 4 := by
  simp only [cmdBoundedNext, eom, cmdTypeSize, commandHeader] at h
  split at h
  · exact (Option.some.inj h).symm
  · cases h

theorem Holds.longReply {o : Open} {rs : List (List UInt8)} (h : Holds o rs) (recv : Int) :
    ∃ rs', Onward o rs (Turn.open (longReply o recv)) rs' ∧
      ∀ o', longReply o recv = .skip o' → Incomplete o' rs' := by
  have same : Onward o rs o rs := ⟨h, rfl, rfl, Nat.le_refl _, rfl⟩
  rw [ClientReceiver.longReply]
  split
  · rename_i found
    obtain ⟨header, eom, part⟩ := found
    rw [← length_pending] at header part
    cases rs with
    | nil =>
      have := h.nothing.1
      omega
    | cons b rs =>
      rw [h.size (by simp only [messageHeader] at header; omega)] at part
      have long : Long o b := ⟨header, part, eom⟩
      split
      · refine ⟨_, same, fun o' e => ?_⟩
        cases e
        intro d member
        simp only [List.head?_cons, Option.mem_some_iff] at member
        exact member ▸ part
      · rename_i next found
        have place : next = o.conn.currProcBuf + 16 := cmdBoundedNext_eom eom found
        subst place
        exact ⟨_, ⟨h.shorten long, rfl, rfl, Nat.le_refl _, rfl⟩, fun o' e => by cases e⟩
  · split
    · exact ⟨rs, same, fun o' e => by cases e⟩
    · exact ⟨rs, same, fun o' e => by cases e⟩

theorem Holds.turn {o : Open} {rs : List (List UInt8)} (h : Holds o rs) (a : Answer) :
    ∃ rs', Onward o rs (Turn.open (turn o a)) rs' ∧
      ∀ o', turn o a = .skip o' → Incomplete o' rs' := by
  have received : Onward o rs (ClientReceiver.receive o a).1 rs := by
    refine ⟨h.receive a, rfl, rfl, ?_, rfl⟩
    simp only [ClientReceiver.receive, List.length_drop]
    omega
  rw [ClientReceiver.turn]
  split
  · exact ⟨rs, received, fun o' e => by cases e⟩
  · obtain ⟨rs', onward, skipped⟩ := received.holds.longReply (ClientReceiver.receive o a).2
    exact ⟨rs', received.trans onward, skipped⟩

theorem Holds.receiveLoop {o : Open} {rs : List (List UInt8)} (h : Holds o rs)
    (answers : List Answer) {t : Turn} (done : receiveLoop o answers = some t) :
    ∃ rs', Onward o rs (Turn.open t) rs' ∧ ∀ o', t = .skip o' → Incomplete o' rs' := by
  induction answers generalizing o rs with
  | nil => cases done
  | cons a answers ih =>
    obtain ⟨rs', onward, skipped⟩ := h.turn a
    rw [ClientReceiver.receiveLoop] at done
    split at done
    · rename_i o' again
      rw [again] at onward
      obtain ⟨rs'', later, last⟩ := ih onward.holds done
      exact ⟨rs'', onward.trans later, last⟩
    · cases done
      exact ⟨rs', onward, skipped⟩

/-! ## Processing -/

theorem connPrepareRecvMessage_none {c c' : ConnInfo} (h : connPrepareRecvMessage c = .ok (none, c')) :
    c' = c ∧ ((pending c).length < 12 ∨ (pending c).length < reqSizeOf c.recvBuf c.currProcBuf) := by
  rw [length_pending]
  rw [connPrepareRecvMessage] at h
  split at h
  · rename_i short
    cases h
    exact ⟨rfl, Or.inl short⟩
  · split at h
    · rename_i short
      cases h
      exact ⟨rfl, Or.inr short⟩
    · split at h
      · cases h
      · cases h

theorem connPrepareRecvMessage_some {c c' : ConnInfo} {m : Nat}
    (h : connPrepareRecvMessage c = .ok (some m, c')) :
    c' = { c with currProcBuf := c.currProcBuf + reqSizeOf c.recvBuf c.currProcBuf } ∧
      12 ≤ (pending c).length ∧ reqSizeOf c.recvBuf c.currProcBuf ≤ (pending c).length := by
  rw [length_pending]
  rw [connPrepareRecvMessage] at h
  split at h
  · cases h
  · rename_i long
    split at h
    · cases h
    · rename_i all
      split at h
      · cases h
      · cases h
        exact ⟨rfl, not_lt.mp long, not_lt.mp all⟩

/-- The first reply is processed. -/
theorem Holds.pop {o : Open} {b : List UInt8} {rs : List (List UInt8)} (h : Holds o (b :: rs))
    (arrived : 12 ≤ (pending o.conn).length) (all : b.length ≤ (pending o.conn).length) :
    Holds { o with conn := { o.conn with
      currProcBuf := o.conn.currProcBuf + reqSizeOf o.conn.recvBuf o.conn.currProcBuf } } rs := by
  rw [h.size (by omega)]
  have whole := all
  rw [length_pending] at whole
  have order := h.order
  have left : pending { o.conn with currProcBuf := o.conn.currProcBuf + b.length } =
      (pending o.conn).drop b.length := by
    have split := slice_split o.conn.recvBuf o.conn.currProcBuf whole
    have shift : o.conn.currRecvBuf - (o.conn.currProcBuf + b.length) =
        o.conn.currRecvBuf - o.conn.currProcBuf - b.length := by omega
    rw [pending, pending, split, List.drop_left' (length_slice _ _ _)]
    exact congrArg _ shift
  have stream := congrArg (List.drop b.length) h.stream
  rw [List.flatten_cons, List.drop_left, List.drop_append_of_le_length all] at stream
  refine ⟨by simp only; omega, ?_, fun d member => h.whole d (List.mem_cons_of_mem _ member),
    fun d member => h.small d (List.mem_of_mem_tail member), fun d member => ?_⟩
  · change pending { o.conn with currProcBuf := o.conn.currProcBuf + b.length } ++ o.rest = _
    rw [left, stream]
  · have small := h.small d (List.mem_of_mem_head? member)
    exact ⟨by omega, fun _ => small⟩

/-- The replies that have arrived in full are processed, one verdict for each. -/
theorem Holds.processReplies {fuel : Nat} {o : Open} {rs : List (List UInt8)} (h : Holds o rs)
    (enough : (pending o.conn).length < fuel) {c : ConnInfo} {verdicts : List Verdict}
    (done : processReplies fuel o.conn = .ok (c, verdicts)) :
    ∃ before left, rs = before ++ left ∧ before.length = verdicts.length ∧
      Holds { o with conn := c } left ∧ Incomplete { o with conn := c } left := by
  induction fuel generalizing o rs verdicts with
  | zero => omega
  | succ fuel ih =>
    rw [ClientReceiver.processReplies] at done
    split at done
    · cases done
    · rename_i c' none
      obtain ⟨rfl, short⟩ := connPrepareRecvMessage_none none
      cases done
      refine ⟨[], rs, rfl, rfl, h, fun b member => ?_⟩
      obtain ⟨rs', rfl⟩ := List.head?_eq_some_iff.mp member
      have long := (h.whole b (List.mem_cons_self ..)).long
      rcases short with few | few
      · change (pending o.conn).length < b.length
        omega
      · by_cases arrived : 8 ≤ (pending o.conn).length
        · rw [h.size arrived] at few
          exact few
        · change (pending o.conn).length < b.length
          omega
    · rename_i m c' some
      obtain ⟨rfl, arrived, all⟩ := connPrepareRecvMessage_some some
      cases rs with
      | nil =>
        have := h.nothing.1
        omega
      | cons b rs =>
        have size := h.size (by omega)
        rw [size] at all
        have popped := h.pop arrived all
        have long := (h.whole b (List.mem_cons_self ..)).long
        have fewer : (pending { o.conn with
            currProcBuf := o.conn.currProcBuf + reqSizeOf o.conn.recvBuf o.conn.currProcBuf }).length <
            fuel := by
          rw [length_pending, size]
          rw [length_pending] at enough all
          simp only
          omega
        cases processed : ClientReceiver.processReplies fuel { o.conn with
            currProcBuf := o.conn.currProcBuf + reqSizeOf o.conn.recvBuf o.conn.currProcBuf } with
        | error e =>
          rw [processed] at done
          cases done
        | ok s =>
          obtain ⟨c', later⟩ := s
          rw [processed] at done
          cases done
          obtain ⟨before, left, split, count, holds, incomplete⟩ := ih popped fewer processed
          refine ⟨b :: before, left, ?_, ?_, holds, incomplete⟩
          · rw [split, List.cons_append]
          · rw [List.length_cons, List.length_cons, count]

end ReplyStream
