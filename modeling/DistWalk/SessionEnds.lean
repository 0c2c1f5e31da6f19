import DistWalk.ReplyStream

/-!
# Session boundaries of the client

A session ends when its last packet has been accounted. `thread_receiver` tests for that
with the packet at the start of the round and an increment of at most one reply, so it
meets the end only when the last reply of a session is completed by a round of its own.
A round that completes no reply is harmless only in the middle of a session.
-/

namespace SessionEnds

open Message Connection ClientReceiver ReplyStream

/-- The replies whose last byte is among the last `unread` bytes. -/
def waiting : List (List UInt8) → Nat → Nat
  | [], _ => 0
  | _ :: bs, unread => if bs.flatten.length < unread then bs.length + 1 else waiting bs unread

/-- The replies that the bytes read between `o` and `o'` complete. -/
def completed (cfg : Client) (o o' : Open) : Nat :=
  waiting (cfg.replies o.sess) o.rest.length - waiting (cfg.replies o.sess) o'.rest.length

/-- The connection a round receives on. -/
def current (cfg : Client) (r : Receiver) (i : Input) : Option Open :=
  if r.accounted % cfg.pktsPerSession = 0 then
    if i.connects = false ∨ cfg.proto = .tls ∧ i.handshake = false then none
    else some (openConn cfg (r.accounted / cfg.pktsPerSession) i.sock)
  else r.conn

/-- `k` replies are completed when `a` of `n` have been accounted. -/
def Fits (n a k : Nat) : Prop := if k = 0 then 0 < a ∧ a + 1 < n else a + k = n → k = 1

/-- The last reply of a session comes alone, and a round without a complete reply has
one before it and two after it. -/
def Settles (cfg : Client) (r : Receiver) (i : Input) : Prop :=
  ∀ o ∈ current cfg r i, ∀ t ∈ receiveLoop o i.answers,
    (∃ o', t = .ready o' ∨ t = .skip o') →
      Fits cfg.pktsPerSession (r.accounted % cfg.pktsPerSession) (completed cfg o (Turn.open t))

/-- Every session is opened, or refused, at its first packet and closed at its last. -/
structure Punctual (cfg : Client) (r : Receiver) : Prop where
  begun : ∀ s, r.notes.count (.opened s (s * cfg.pktsPerSession)) +
      r.notes.count (.refused s (s * cfg.pktsPerSession)) =
    if s * cfg.pktsPerSession < r.accounted then 1 else 0
  ended : ∀ s, r.notes.count (.closed s ((s + 1) * cfg.pktsPerSession)) =
    if (s + 1) * cfg.pktsPerSession ≤ r.accounted then
      r.notes.count (.opened s (s * cfg.pktsPerSession)) else 0
  times : ∀ n ∈ r.notes, ∃ s, n = .opened s (s * cfg.pktsPerSession) ∨
    n = .refused s (s * cfg.pktsPerSession) ∨ n = .closed s ((s + 1) * cfg.pktsPerSession)
  idle : r.conn = none ↔ r.accounted % cfg.pktsPerSession = 0
  serving : ∀ o ∈ r.conn, o.sess = r.accounted / cfg.pktsPerSession

/-- The node answers every packet of a session with one reply. -/
structure Answered (cfg : Client) : Prop where
  positive : 0 < cfg.pktsPerSession
  all : ∀ s, (cfg.replies s).length = cfg.pktsPerSession
  whole : ∀ s, ∀ b ∈ cfg.replies s, Whole b
  small : ∀ s, ∀ b ∈ cfg.replies s, b.length ≤ bufSize

/-! ## Replies still to come -/

theorem waiting_drop (replies : List (List UInt8)) (p : Nat) {unread : Nat}
    (few : unread ≤ (replies.drop p).flatten.length) :
    waiting replies unread = waiting (replies.drop p) unread := by
  induction p generalizing replies with
  | zero => rfl
  | succ p ih =>
    cases replies with
    | nil => rfl
    | cons b bs =>
      rw [List.drop_succ_cons] at few ⊢
      have more : (bs.drop p).flatten.length ≤ bs.flatten.length := by
        conv_rhs => rw [← List.take_append_drop p bs]
        rw [List.flatten_append, List.length_append]
        omega
      rw [waiting, if_neg (by omega), ih bs few]

/-- The connection of a session with `left` replies to be processed. -/
def Session (replies : List (List UInt8)) (o : Open) (left : Nat) : Prop :=
  ∃ p rs, Holds o rs ∧ Incomplete o rs ∧ rs.length = left ∧ rs.tail = (replies.drop p).tail ∧
    rs.length = (replies.drop p).length ∧ o.rest.length ≤ (replies.drop p).flatten.length

theorem unread_head {o : Open} {b : List UInt8} {rs : List (List UInt8)} (h : Holds o (b :: rs))
    (incomplete : Incomplete o (b :: rs)) : rs.flatten.length < o.rest.length := by
  have part := incomplete b (by simp)
  have total := congrArg List.length h.stream
  rw [List.length_append, List.flatten_cons, List.length_append] at total
  omega

theorem Session.waiting {replies : List (List UInt8)} {o : Open} {left : Nat}
    (h : Session replies o left) : waiting replies o.rest.length = left := by
  obtain ⟨p, rs, holds, incomplete, rfl, tail, length, few⟩ := h
  rw [waiting_drop replies p few]
  cases dropped : replies.drop p with
  | nil =>
    rw [dropped] at length
    rw [length]
    rfl
  | cons b bs =>
    rw [dropped] at tail length
    cases rs with
    | nil => cases length
    | cons b' rs' =>
      rw [List.tail_cons, List.tail_cons] at tail
      subst tail
      rw [SessionEnds.waiting, if_pos (unread_head holds incomplete), List.length_cons]

theorem holds_open {cfg : Client} (answered : Answered cfg) (s sock : Nat) :
    Holds (openConn cfg s sock) (cfg.replies s) ∧ Incomplete (openConn cfg s sock) (cfg.replies s) := by
  have fresh : pending (openConn cfg s sock).conn = [] := rfl
  refine ⟨⟨Nat.le_refl _, ?_, answered.whole s, ?_, ?_⟩, ?_⟩
  · rw [fresh, List.nil_append]
    rfl
  · exact fun b member => answered.small s b (List.mem_of_mem_tail member)
  · intro b member
    have small := answered.small s b (List.mem_of_mem_head? member)
    exact ⟨by omega, fun _ => small⟩
  · intro b member
    have long := (answered.whole s b (List.mem_of_mem_head? member)).long
    rw [fresh, List.length_nil]
    omega

theorem session_open {cfg : Client} (answered : Answered cfg) (s sock : Nat) :
    Session (cfg.replies s) (openConn cfg s sock) cfg.pktsPerSession := by
  obtain ⟨holds, incomplete⟩ := holds_open answered s sock
  exact ⟨0, cfg.replies s, holds, incomplete, answered.all s, rfl, rfl, Nat.le_refl _⟩

theorem Session.skip {replies : List (List UInt8)} {o o' : Open} {left : Nat}
    (h : Session replies o left) {answers : List Answer}
    (done : receiveLoop o answers = some (.skip o')) : Session replies o' left := by
  obtain ⟨p, rs, holds, -, rfl, tail, length, few⟩ := h
  obtain ⟨rs', onward, skipped⟩ := holds.receiveLoop answers done
  exact ⟨p, rs', onward.holds, skipped o' rfl, onward.length, onward.tail.trans tail,
    onward.length.trans length, onward.read.trans few⟩

/-- One verdict for every reply that has arrived in full. -/
theorem Session.ready {replies : List (List UInt8)} {o o' : Open} {left : Nat}
    (h : Session replies o left) {answers : List Answer}
    (done : receiveLoop o answers = some (.ready o')) {c : ConnInfo} {verdicts : List Verdict}
    (processed : processReplies (o'.conn.currRecvBuf + 1) o'.conn = .ok (c, verdicts)) :
    ∃ left', left = left' + verdicts.length ∧ Session replies { o' with conn := c } left' := by
  obtain ⟨p, rs, holds, -, rfl, tail, length, few⟩ := h
  obtain ⟨rs', onward, -⟩ := holds.receiveLoop answers done
  have enough : (pending o'.conn).length < o'.conn.currRecvBuf + 1 := by
    rw [length_pending]
    omega
  obtain ⟨before, later, split, count, holds', incomplete⟩ :=
    Holds.processReplies onward.holds enough processed
  have total : rs.length = later.length + verdicts.length := by
    rw [← onward.length, split, List.length_append, count, Nat.add_comm]
  refine ⟨later.length, total, ?_⟩
  cases before with
  | nil =>
    rw [List.nil_append] at split
    subst split
    exact ⟨p, rs', holds', incomplete, rfl, onward.tail.trans tail, onward.length.trans length,
      onward.read.trans few⟩
  | cons b before =>
    -- the first reply is done, so what is left are replies as the node sent them
    have suffix : later = replies.drop (p + (before.length + 1)) := by
      have rest := onward.tail.trans tail
      rw [split, List.cons_append, List.tail_cons] at rest
      have dropped := congrArg (List.drop before.length) rest
      rw [List.drop_left, List.tail_drop, List.drop_drop] at dropped
      rw [dropped]
      congr 1
      omega
    have unread : o'.rest.length ≤ later.flatten.length := by
      have stream := congrArg List.length holds'.stream
      rw [List.length_append] at stream
      change _ + o'.rest.length = _ at stream
      omega
    exact ⟨p + (before.length + 1), later, holds', incomplete, rfl, by rw [← suffix],
      by rw [← suffix], by rw [← suffix]; exact unread⟩

/-! ## Counting -/

theorem count_accounted (r : Receiver) (v : Verdict) : (count r v).accounted = r.accounted + 1 := by
  cases v <;> simp only [count, Receiver.accounted] <;> omega

theorem foldl_count (verdicts : List Verdict) (r : Receiver) :
    (verdicts.foldl count r).accounted = r.accounted + verdicts.length ∧
      (verdicts.foldl count r).conn = r.conn ∧ (verdicts.foldl count r).notes = r.notes ∧
      (verdicts.foldl count r).iIncr = if verdicts.length = 0 then r.iIncr else 1 := by
  induction verdicts generalizing r with
  | nil => exact ⟨rfl, rfl, rfl, rfl⟩
  | cons v verdicts ih =>
    obtain ⟨accounted, conn, notes, incr⟩ := ih (count r v)
    have one : (count r v).iIncr = 1 := by cases v <;> rfl
    have sameConn : (count r v).conn = r.conn := by cases v <;> rfl
    have sameNotes : (count r v).notes = r.notes := by cases v <;> rfl
    rw [List.foldl_cons]
    refine ⟨?_, conn.trans sameConn, notes.trans sameNotes, ?_⟩
    · rw [accounted, count_accounted, List.length_cons]
      omega
    · rw [incr, one, List.length_cons, if_neg (Nat.succ_ne_zero _)]
      split <;> rfl

/-! ## Times -/

section Times

variable {n accounted s a : Nat}

/-- Where `accounted` packets stand: `a` packets into session `s`. -/
theorem before_iff (small : a < n) (split : accounted = s * n + a) (s' : Nat) :
    s' * n < accounted ↔ s' < s ∨ s' = s ∧ 0 < a := by
  constructor
  · intro less
    by_contra other
    rw [not_or, not_and, not_lt, not_lt] at other
    rcases Nat.lt_or_eq_of_le other.1 with more | same
    · have := Nat.mul_le_mul_right n (Nat.succ_le_of_lt more)
      rw [Nat.succ_mul] at this
      omega
    · subst same
      have := other.2 rfl
      omega
  · rintro (less | ⟨rfl, more⟩)
    · have := Nat.mul_le_mul_right n (Nat.succ_le_of_lt less)
      rw [Nat.succ_mul] at this
      omega
    · omega

theorem after_iff (small : a < n) (split : accounted = s * n + a) (s' : Nat) :
    (s' + 1) * n ≤ accounted ↔ s' < s := by
  constructor
  · intro more
    by_contra other
    have := Nat.mul_le_mul_right n (not_lt.mp other)
    rw [Nat.succ_mul] at more
    omega
  · intro less
    have : (s' + 1) * n ≤ s * n := Nat.mul_le_mul_right n less
    omega

end Times

/-! ## Notes -/

section Notes

variable {cfg : Client} {r : Receiver}

theorem count_closed_opened {s t s' t' : Nat} {notes : List Note} :
    (Note.closed s t :: notes).count (.opened s' t') = notes.count (.opened s' t') :=
  List.count_cons_of_ne (by simp)

theorem count_closed_refused {s t s' t' : Nat} {notes : List Note} :
    (Note.closed s t :: notes).count (.refused s' t') = notes.count (.refused s' t') :=
  List.count_cons_of_ne (by simp)

/-- The sessions before `s` are over and `s` has its connection. -/
structure Underway (cfg : Client) (s : Nat) (notes : List Note) : Prop where
  begun : ∀ s', notes.count (.opened s' (s' * cfg.pktsPerSession)) +
    notes.count (.refused s' (s' * cfg.pktsPerSession)) = if s' ≤ s then 1 else 0
  opened : notes.count (.refused s (s * cfg.pktsPerSession)) = 0
  ended : ∀ s', notes.count (.closed s' ((s' + 1) * cfg.pktsPerSession)) =
    if s' < s then notes.count (.opened s' (s' * cfg.pktsPerSession)) else 0
  times : ∀ n ∈ notes, ∃ s, n = .opened s (s * cfg.pktsPerSession) ∨
    n = .refused s (s * cfg.pktsPerSession) ∨ n = .closed s ((s + 1) * cfg.pktsPerSession)

/-- The notes of a receiver between sessions. -/
theorem Punctual.before (h : Punctual cfg r) (positive : 0 < cfg.pktsPerSession) {s : Nat}
    (start : r.accounted = s * cfg.pktsPerSession) (s' : Nat) :
    r.notes.count (.opened s' (s' * cfg.pktsPerSession)) +
        r.notes.count (.refused s' (s' * cfg.pktsPerSession)) = (if s' < s then 1 else 0) ∧
      r.notes.count (.closed s' ((s' + 1) * cfg.pktsPerSession)) =
        if s' < s then r.notes.count (.opened s' (s' * cfg.pktsPerSession)) else 0 := by
  have begun := h.begun s'
  have ended := h.ended s'
  rw [if_congr (before_iff positive start s') rfl rfl] at begun
  rw [if_congr (after_iff positive start s') rfl rfl] at ended
  simp only [Nat.lt_irrefl, and_false, or_false] at begun
  exact ⟨begun, ended⟩

theorem underway_opened (h : Punctual cfg r) (positive : 0 < cfg.pktsPerSession) {s : Nat}
    (start : r.accounted = s * cfg.pktsPerSession) :
    Underway cfg s (.opened s r.accounted :: r.notes) := by
  have before := h.before positive start
  have fresh := (before s).1
  rw [if_neg (Nat.lt_irrefl s)] at fresh
  refine ⟨fun s' => ?_, ?_, fun s' => ?_, fun n member => ?_⟩
  · have old := (before s').1
    rw [start, List.count_cons_of_ne (by simp : Note.opened s _ ≠ .refused s' _)]
    by_cases same : s' = s
    · subst same
      rw [List.count_cons_self, if_pos (Nat.le_refl _)]
      omega
    · rw [List.count_cons_of_ne (by simp [Ne.symm same]), old]
      by_cases less : s' < s
      · rw [if_pos less, if_pos (Nat.le_of_lt less)]
      · rw [if_neg less, if_neg (by omega)]
  · rw [List.count_cons_of_ne (by simp)]
    omega
  · rw [List.count_cons_of_ne (by simp : Note.opened s _ ≠ .closed s' _), (before s').2]
    by_cases less : s' < s
    · rw [if_pos less, if_pos less, List.count_cons_of_ne (by simp; omega)]
    · rw [if_neg less, if_neg less]
  · rcases List.mem_cons.mp member with rfl | old
    · exact ⟨s, Or.inl (by rw [start])⟩
    · exact h.times n old

theorem Punctual.underway (h : Punctual cfg r) {s a : Nat} (small : a < cfg.pktsPerSession)
    (split : r.accounted = s * cfg.pktsPerSession + a) (begun : 0 < a)
    (opened : r.notes.count (.refused s (s * cfg.pktsPerSession)) = 0) :
    Underway cfg s r.notes := by
  refine ⟨fun s' => ?_, opened, fun s' => ?_, h.times⟩
  · rw [h.begun s']
    refine if_congr ?_ rfl rfl
    rw [before_iff small split s']
    omega
  · rw [h.ended s']
    exact if_congr (after_iff small split s') rfl rfl

/-- The session goes on. -/
theorem Underway.goesOn {s a : Nat} (h : Underway cfg s r.notes) (small : a < cfg.pktsPerSession)
    (split : r.accounted = s * cfg.pktsPerSession + a) (begun : 0 < a) {o : Open}
    (conn : r.conn = some o) (own : o.sess = s) : Punctual cfg r := by
  have mod : r.accounted % cfg.pktsPerSession = a := by
    rw [split, Nat.mul_add_mod_of_lt small]
  refine ⟨fun s' => ?_, fun s' => ?_, h.times, ?_, ?_⟩
  · rw [h.begun s']
    refine if_congr ?_ rfl rfl
    rw [before_iff small split s']
    omega
  · rw [h.ended s']
    exact if_congr (after_iff small split s').symm rfl rfl
  · rw [conn, mod]
    exact iff_of_false (by simp) (by omega)
  · intro o' member
    rw [conn, Option.mem_some_iff] at member
    subst member
    rw [own, split, Nat.mul_comm, Nat.mul_add_div (by omega), Nat.div_eq_of_lt small, Nat.add_zero]

/-- The session ends. -/
theorem Underway.ends {s : Nat} {notes : List Note} (h : Underway cfg s notes)
    (positive : 0 < cfg.pktsPerSession) (total : r.accounted = (s + 1) * cfg.pktsPerSession)
    (conn : r.conn = none) (closed : r.notes = .closed s r.accounted :: notes) : Punctual cfg r := by
  have split : r.accounted = (s + 1) * cfg.pktsPerSession + 0 := total
  refine ⟨fun s' => ?_, fun s' => ?_, fun n member => ?_, ?_, ?_⟩
  · rw [closed, count_closed_opened, count_closed_refused, h.begun s']
    refine if_congr ?_ rfl rfl
    rw [before_iff positive split s']
    omega
  · rw [closed, count_closed_opened]
    rw [if_congr (after_iff positive split s') rfl rfl, total]
    by_cases same : s' = s
    · subst same
      rw [List.count_cons_self, h.ended, if_neg (Nat.lt_irrefl _), if_pos (Nat.lt_succ_self _)]
      have begun := h.begun s'
      rw [if_pos (Nat.le_refl _), h.opened] at begun
      omega
    · rw [List.count_cons_of_ne (by simp [Ne.symm same]), h.ended]
      exact if_congr (by omega) rfl rfl
  · rw [closed] at member
    rcases List.mem_cons.mp member with rfl | old
    · exact ⟨s, Or.inr (Or.inr (by rw [total]))⟩
    · exact h.times n old
  · rw [conn, total, Nat.mul_mod_left]
    simp
  · rw [conn]
    intro o member
    cases member

theorem Punctual.refused (h : Punctual cfg r) (positive : 0 < cfg.pktsPerSession) {s : Nat}
    (start : r.accounted = s * cfg.pktsPerSession) {r' : Receiver}
    (total : r'.accounted = (s + 1) * cfg.pktsPerSession) (conn : r'.conn = none)
    (notes : r'.notes = .refused s r.accounted :: r.notes) : Punctual cfg r' := by
  have before := h.before positive start
  have fresh := (before s).1
  rw [if_neg (Nat.lt_irrefl s)] at fresh
  have split : r'.accounted = (s + 1) * cfg.pktsPerSession + 0 := total
  refine ⟨fun s' => ?_, fun s' => ?_, fun n member => ?_, ?_, ?_⟩
  · have old := (before s').1
    rw [notes, start, List.count_cons_of_ne (by simp : Note.refused s _ ≠ .opened s' _),
      if_congr (before_iff positive split s') rfl rfl]
    by_cases same : s' = s
    · subst same
      rw [List.count_cons_self, if_pos (Or.inl (Nat.lt_succ_self _))]
      omega
    · rw [List.count_cons_of_ne (by simp [Ne.symm same]), old]
      exact if_congr (by omega) rfl rfl
  · rw [notes, List.count_cons_of_ne (by simp : Note.refused s _ ≠ .closed s' _),
      List.count_cons_of_ne (by simp : Note.refused s _ ≠ .opened s' _), (before s').2,
      if_congr (after_iff positive split s') rfl rfl]
    by_cases same : s' = s
    · subst same
      rw [if_neg (Nat.lt_irrefl _), if_pos (Nat.lt_succ_self _)]
      omega
    · exact if_congr (by omega) rfl rfl
  · rw [notes] at member
    rcases List.mem_cons.mp member with rfl | old
    · exact ⟨s, Or.inr (Or.inl (by rw [start]))⟩
    · exact h.times n old
  · rw [conn, total, Nat.mul_mod_left]
    simp
  · rw [conn]
    intro o member
    cases member

end Notes

/-! ## Rounds -/

structure Inv (cfg : Client) (r : Receiver) : Prop where
  punctual : Punctual cfg r
  incr : r.accounted % cfg.pktsPerSession ≠ 0 → r.iIncr = 1
  session : ∀ o ∈ r.conn,
    Session (cfg.replies o.sess) o (cfg.pktsPerSession - r.accounted % cfg.pktsPerSession)
  opened : ∀ o ∈ r.conn, r.notes.count (.refused o.sess (o.sess * cfg.pktsPerSession)) = 0

/-- Between sessions nothing more is to be known. -/
theorem inv_between {cfg : Client} {r : Receiver} (h : Punctual cfg r) (conn : r.conn = none) :
    Inv cfg r := by
  refine ⟨h, fun other => absurd (h.idle.mp conn) other, ?_, ?_⟩
  · intro o member
    rw [conn] at member
    cases member
  · intro o member
    rw [conn] at member
    cases member

theorem inv_init (cfg : Client) : Inv cfg .init := by
  refine inv_between ⟨fun s => ?_, fun s => ?_, fun n member => ?_, ?_, fun o member => ?_⟩ rfl
  · exact (if_neg (Nat.not_lt_zero _)).symm
  · exact (ite_self _).symm
  · cases member
  · exact iff_of_true rfl (Nat.zero_mod _)
  · cases member

/-- The receiver before the code at `skip`: `k` replies have been counted. -/
structure Counted (cfg : Client) (r : Receiver) (o : Open) (s a k : Nat) : Prop where
  underway : Underway cfg s r.notes
  conn : r.conn = some o
  own : o.sess = s
  small : a < cfg.pktsPerSession
  fits : a + k ≤ cfg.pktsPerSession
  total : r.accounted = s * cfg.pktsPerSession + a + k
  incr : a ≠ 0 ∨ k ≠ 0 → r.iIncr = 1
  session : Session (cfg.replies s) o (cfg.pktsPerSession - (a + k))

section Ends

variable {cfg : Client} {r : Receiver} {o : Open} {s a k : Nat}

theorem endSession_stays (other : (s * cfg.pktsPerSession + a + r.iIncr) % cfg.pktsPerSession ≠ 0) :
    endSession cfg r (s * cfg.pktsPerSession + a) = r := if_neg other

theorem endSession_idle (idle : r.conn = none) {pktI : Nat} : endSession cfg r pktI = r := by
  rw [endSession, idle]
  split <;> rfl

theorem Counted.closes (h : Counted cfg r o s a k)
    (final : (s * cfg.pktsPerSession + a + r.iIncr) % cfg.pktsPerSession = 0) :
    endSession cfg r (s * cfg.pktsPerSession + a) =
      { r with conn := none, notes := .closed s r.accounted :: r.notes } := by
  rw [endSession, if_pos final, h.conn, ← h.own]

theorem Counted.mod_one (h : Counted cfg r o s a k) (one : r.iIncr = 1) :
    (s * cfg.pktsPerSession + a + r.iIncr) % cfg.pktsPerSession = 0 ↔ a + 1 = cfg.pktsPerSession := by
  rw [one, Nat.add_assoc]
  have small := h.small
  by_cases last : a + 1 = cfg.pktsPerSession
  · exact iff_of_true (by rw [last, ← Nat.succ_mul, Nat.mul_mod_left]) last
  · rw [Nat.mul_add_mod_of_lt (by omega)]
    exact iff_of_false (by omega) last

/-- In the middle of a session nothing is closed. -/
theorem Counted.middle (h : Counted cfg r o s a k) (begun : 0 < a + k)
    (more : a + k < cfg.pktsPerSession) : Inv cfg r := by
  have split : r.accounted = s * cfg.pktsPerSession + (a + k) := by
    rw [h.total, Nat.add_assoc]
  have mod : r.accounted % cfg.pktsPerSession = a + k := by
    rw [split, Nat.mul_add_mod_of_lt more]
  refine ⟨h.underway.goesOn more split begun h.conn h.own, fun _ => h.incr (by omega), ?_, ?_⟩
  · intro o' member
    rw [h.conn, Option.mem_some_iff] at member
    subst member
    rw [mod, h.own]
    exact h.session
  · intro o' member
    rw [h.conn, Option.mem_some_iff] at member
    subst member
    rw [h.own]
    exact h.underway.opened

theorem Counted.last (h : Counted cfg r o s a k) (all : a + k = cfg.pktsPerSession) :
    Inv cfg { r with conn := none, notes := .closed s r.accounted :: r.notes } := by
  have total : r.accounted = (s + 1) * cfg.pktsPerSession := by
    rw [h.total, Nat.add_assoc, all, Nat.succ_mul]
  have positive : 0 < cfg.pktsPerSession := by
    have := h.small
    omega
  exact inv_between (h.underway.ends positive total rfl rfl) rfl

/-- The code at `skip` keeps the sessions punctual exactly when the replies fit. -/
theorem Counted.settle (h : Counted cfg r o s a k) :
    (Fits cfg.pktsPerSession a k → Inv cfg (endSession cfg r (s * cfg.pktsPerSession + a))) ∧
      (Punctual cfg (endSession cfg r (s * cfg.pktsPerSession + a)) → Fits cfg.pktsPerSession a k) := by
  have small := h.small
  have fits := h.fits
  have mod : a + k < cfg.pktsPerSession → r.accounted % cfg.pktsPerSession = a + k := by
    intro more
    rw [h.total, Nat.add_assoc, Nat.mul_add_mod_of_lt more]
  have busy : r.conn ≠ none := by
    rw [h.conn]
    simp
  by_cases none : k = 0
  · subst none
    by_cases first : a = 0
    · subst first
      refine ⟨fun fit => absurd fit.1 (Nat.lt_irrefl 0), fun punctual => ?_⟩
      by_cases final : (s * cfg.pktsPerSession + 0 + r.iIncr) % cfg.pktsPerSession = 0
      · have begun := punctual.begun s
        rw [h.closes final] at begun
        rw [count_closed_opened, count_closed_refused, h.underway.begun, if_pos (Nat.le_refl _),
          if_neg] at begun
        · cases begun
        · change ¬ _ < r.accounted
          rw [h.total]
          omega
      · rw [endSession_stays final] at punctual
        exact absurd (punctual.idle.mpr (mod (by omega))) busy
    · have closes := h.mod_one (h.incr (Or.inl first))
      by_cases last : a + 1 = cfg.pktsPerSession
      · rw [h.closes (closes.mpr last)]
        refine ⟨fun fit => ?_, fun punctual => ?_⟩
        · have := fit.2
          omega
        · have start := punctual.idle.mp rfl
          change r.accounted % _ = 0 at start
          rw [mod (by omega)] at start
          omega
      · rw [endSession_stays fun final => last (closes.mp final)]
        exact ⟨fun _ => h.middle (by omega) (by omega), fun _ => ⟨by omega, by omega⟩⟩
  · have closes := h.mod_one (h.incr (Or.inr none))
    rw [Fits, if_neg none]
    by_cases all : a + k = cfg.pktsPerSession
    · by_cases last : a + 1 = cfg.pktsPerSession
      · rw [h.closes (closes.mpr last)]
        exact ⟨fun _ => h.last all, fun _ _ => by omega⟩
      · rw [endSession_stays fun final => last (closes.mp final)]
        refine ⟨fun fit => absurd (fit all) (by omega), fun punctual => ?_⟩
        refine absurd (punctual.idle.mpr ?_) busy
        rw [h.total, Nat.add_assoc, all, ← Nat.succ_mul, Nat.mul_mod_left]
    · rw [endSession_stays fun final => by have := closes.mp final; omega]
      exact ⟨fun _ => h.middle (by omega) (by omega), fun _ whole => absurd whole all⟩

/-- The packets that are skipped after an error end the session. -/
theorem Counted.fails (h : Counted cfg r o s a 0) {o' : Open} (own : o'.sess = s) :
    Inv cfg (endSession cfg (skipPkts cfg { r with conn := some o' } (s * cfg.pktsPerSession + a))
      (s * cfg.pktsPerSession + a)) := by
  have small := h.small
  have mod : (s * cfg.pktsPerSession + a) % cfg.pktsPerSession = a := Nat.mul_add_mod_of_lt small
  have total := h.total
  have skipped : (skipPkts cfg { r with conn := some o' } (s * cfg.pktsPerSession + a)).accounted =
      (s + 1) * cfg.pktsPerSession := by
    rw [Nat.succ_mul]
    simp only [skipPkts, Receiver.accounted, mod] at total ⊢
    omega
  have final : (s * cfg.pktsPerSession + a +
      (skipPkts cfg { r with conn := some o' } (s * cfg.pktsPerSession + a)).iIncr) %
      cfg.pktsPerSession = 0 := by
    have sum : s * cfg.pktsPerSession + a + (cfg.pktsPerSession - a) =
        (s + 1) * cfg.pktsPerSession := by
      rw [Nat.succ_mul]
      omega
    simp only [skipPkts, mod, sum, Nat.mul_mod_left]
  rw [endSession, if_pos final]
  have closed : (skipPkts cfg { r with conn := some o' } (s * cfg.pktsPerSession + a)).conn =
      some o' := rfl
  rw [closed]
  simp only [own]
  exact inv_between (h.underway.ends (by omega) skipped rfl rfl) rfl

/-- Receive and count: what comes before the code at `skip`. -/
theorem Counted.receive (h : Counted cfg r o s a 0) {answers : List Answer} {r' : Receiver}
    (done : receiveReplies cfg r o (s * cfg.pktsPerSession + a) answers = .next r') :
    (∃ o', receiveLoop o answers = some (.failed o') ∧ Inv cfg r') ∨
    ∃ t o₁ k r₁, receiveLoop o answers = some t ∧ (∃ o', t = .ready o' ∨ t = .skip o') ∧
      completed cfg o (Turn.open t) = k ∧ Counted cfg r₁ o₁ s a k ∧
      r' = endSession cfg r₁ (s * cfg.pktsPerSession + a) := by
  have small := h.small
  have total := h.total
  have before := h.session.waiting
  have sess : ∀ {t : Turn}, receiveLoop o answers = some t → (Turn.open t).sess = s := by
    intro t loop
    obtain ⟨p, rs, holds, -⟩ := h.session
    obtain ⟨rs', onward, -⟩ := holds.receiveLoop answers loop
    exact onward.sess.trans h.own
  rw [receiveReplies] at done
  split at done
  · cases done
  · cases done
  · rename_i o' loop
    cases done
    exact Or.inl ⟨o', loop, h.fails (sess loop)⟩
  · rename_i o' loop
    cases done
    have later := h.session.skip loop
    refine Or.inr ⟨_, o', 0, _, loop, ⟨o', Or.inr rfl⟩, ?_, ?_, rfl⟩
    · rw [completed, h.own, before]
      change _ - waiting _ o'.rest.length = 0
      rw [later.waiting, Nat.sub_self]
    · exact ⟨h.underway, rfl, sess loop, h.small, h.fits, h.total, h.incr, later⟩
  · rename_i o' loop
    split at done
    · cases done
    · rename_i c verdicts processed
      cases done
      obtain ⟨left', sum, later⟩ := h.session.ready loop processed
      obtain ⟨accounted, conn, notes, incr⟩ :=
        foldl_count verdicts { r with conn := some { o' with conn := c } }
      refine Or.inr ⟨_, { o' with conn := c }, verdicts.length, _, loop, ⟨o', Or.inl rfl⟩, ?_, ?_, rfl⟩
      · rw [completed, h.own, before]
        change _ - waiting _ o'.rest.length = _
        have unread := later.waiting
        change waiting _ o'.rest.length = left' at unread
        rw [unread]
        omega
      · refine ⟨?_, conn, sess loop, h.small, by omega, ?_, ?_, ?_⟩
        · rw [notes]
          exact h.underway
        · rw [accounted]
          change r.accounted + _ = _
          rw [total, Nat.add_zero]
        · intro begun
          rw [incr]
          split
          · rename_i none
            exact h.incr (Or.inl (begun.resolve_right fun some => some none))
          · rfl
        · have remaining : cfg.pktsPerSession - (a + verdicts.length) = left' := by omega
          rw [remaining]
          exact later

end Ends

section Rounds

variable {cfg : Client} {r : Receiver}

/-- A round refuses the session or receives on its connection. -/
theorem Inv.round_cases (h : Inv cfg r) (answered : Answered cfg) {i : Input} {r' : Receiver}
    (done : ClientReceiver.round cfg r i = .next r') :
    (current cfg r i = none ∧ Inv cfg r') ∨
    ∃ o r₀, current cfg r i = some o ∧
      Counted cfg r₀ o (r.accounted / cfg.pktsPerSession) (r.accounted % cfg.pktsPerSession) 0 ∧
      receiveReplies cfg r₀ o r.accounted i.answers = .next r' := by
  have small := Nat.mod_lt r.accounted answered.positive
  have split : r.accounted = r.accounted / cfg.pktsPerSession * cfg.pktsPerSession +
      r.accounted % cfg.pktsPerSession := by
    rw [Nat.mul_comm]
    exact (Nat.div_add_mod _ _).symm
  rw [ClientReceiver.round] at done
  rw [current]
  by_cases start : r.accounted % cfg.pktsPerSession = 0
  · rw [if_pos start] at done ⊢
    have begins : r.accounted = r.accounted / cfg.pktsPerSession * cfg.pktsPerSession := by omega
    by_cases refused : i.connects = false
    · rw [if_pos refused] at done
      rw [if_pos (Or.inl refused)]
      cases done
      rw [endSession_idle rfl]
      refine Or.inl ⟨rfl, inv_between (h.punctual.refused answered.positive begins ?_ rfl rfl) rfl⟩
      rw [Nat.succ_mul, ← begins]
      simp only [skipPkts, Receiver.accounted] at start ⊢
      rw [start]
      omega
    · rw [if_neg refused] at done
      by_cases failed : cfg.proto = .tls ∧ i.handshake = false
      · rw [if_pos failed] at done
        cases done
      · rw [if_neg failed] at done
        rw [if_neg (not_or.mpr ⟨refused, failed⟩), start]
        have opened := underway_opened h.punctual answered.positive begins
        refine Or.inr ⟨openConn cfg (r.accounted / cfg.pktsPerSession) i.sock,
          { r with
            conn := some (openConn cfg (r.accounted / cfg.pktsPerSession) i.sock)
            notes := .opened (r.accounted / cfg.pktsPerSession) r.accounted :: r.notes },
          rfl, ⟨opened, rfl, rfl, answered.positive, Nat.zero_le _, begins, ?_, ?_⟩, done⟩
        · rintro (no | no) <;> exact absurd rfl no
        · exact session_open answered _ _
  · rw [if_neg start] at done ⊢
    cases conn : r.conn with
    | none => exact absurd (h.punctual.idle.mp conn) start
    | some o =>
      rw [conn] at done
      have own := h.punctual.serving o conn
      have refused := h.opened o conn
      have session := h.session o conn
      rw [own] at refused session
      have underway := h.punctual.underway small split (Nat.pos_of_ne_zero start) refused
      exact Or.inr ⟨o, r, rfl, ⟨underway, conn, own, small, Nat.le_of_lt small, split,
        fun _ => h.incr start, session⟩, done⟩

/-- After a round the sessions are punctual exactly when its replies settle. -/
theorem Inv.round (h : Inv cfg r) (answered : Answered cfg) {i : Input} {r' : Receiver}
    (done : ClientReceiver.round cfg r i = .next r') :
    (Settles cfg r i → Inv cfg r') ∧ (Punctual cfg r' → Settles cfg r i) := by
  have split : r.accounted / cfg.pktsPerSession * cfg.pktsPerSession +
      r.accounted % cfg.pktsPerSession = r.accounted := by
    rw [Nat.mul_comm]
    exact Nat.div_add_mod _ _
  rcases h.round_cases answered done with ⟨none, inv⟩ | ⟨o, r₀, some, counted, received⟩
  · refine ⟨fun _ => inv, fun _ o member => ?_⟩
    rw [none] at member
    cases member
  · rw [← split] at received
    rcases counted.receive received with ⟨o', loop, inv⟩ | ⟨t, o₁, k, r₁, loop, ends, count, before, rfl⟩
    · refine ⟨fun _ => inv, fun _ o'' member t ended kind => ?_⟩
      rw [some, Option.mem_some_iff] at member
      subst member
      rw [loop, Option.mem_some_iff] at ended
      subst ended
      obtain ⟨o₂, no | no⟩ := kind <;> cases no
    · obtain ⟨enough, needed⟩ := before.settle
      refine ⟨fun settles => enough ?_, fun punctual => ?_⟩
      · have fits := settles o some t loop ends
        rwa [count] at fits
      · intro o'' member t' ended _
        rw [some, Option.mem_some_iff] at member
        subst member
        rw [loop, Option.mem_some_iff] at ended
        subst ended
        rw [count]
        exact needed punctual

theorem Inv.of_reaches (answered : Answered cfg) (h : Reaches cfg (Settles cfg) r) : Inv cfg r := by
  induction h with
  | init => exact inv_init cfg
  | round i before more meets done ih => exact (ih.round answered done).1 meets

theorem Inv.in_bounds (h : Inv cfg r) (i : Input) : ClientReceiver.round cfg r i ≠ .outOfBounds := by
  rw [ClientReceiver.round]
  have receives : ∀ r₀ o answers, receiveReplies cfg r₀ o r.accounted answers ≠ .outOfBounds := by
    intro r₀ o answers
    rw [receiveReplies]
    split
    · simp
    · simp
    · simp
    · simp
    · split
      · simp
      · simp
  by_cases start : r.accounted % cfg.pktsPerSession = 0
  · rw [if_pos start]
    split
    · simp
    · split
      · simp
      · exact receives _ _ _
  · rw [if_neg start]
    cases conn : r.conn with
    | none => exact absurd (h.punctual.idle.mp conn) start
    | some o => exact receives _ _ _

end Rounds

/-- As long as its rounds settle, the receiver opens and closes every session on time and
never receives without a connection; the first round that does not settle breaks that. -/
theorem sessions_punctual (cfg : Client) (answered : Answered cfg) (r : Receiver)
    (reached : Reaches cfg (Settles cfg) r) :
    Punctual cfg r ∧ (∀ i, ClientReceiver.round cfg r i ≠ .outOfBounds) ∧
      ∀ i r', ClientReceiver.round cfg r i = .next r' → (Punctual cfg r' ↔ Settles cfg r i) := by
  have inv := Inv.of_reaches answered reached
  refine ⟨inv.punctual, inv.in_bounds, fun i r' done => ?_⟩
  obtain ⟨enough, needed⟩ := inv.round answered done
  exact ⟨needed, fun settles => (enough settles).punctual⟩

/-! ## Two replies -/

/-- A reply of sixteen bytes to request `id`. -/
def shortReply (id : UInt8) : List UInt8 := [id, 0, 0, 0, 16, 0, 0, 0, 0, 0, 0, 0, 7, 0, 0, 0]

/-- One session of two packets. -/
def twoPackets : Client := ⟨2, 2, .tcp, [127, 0, 0, 1, 30, 211], fun _ => [shortReply 0, shortReply 1]⟩

theorem whole_shortReply (id : UInt8) : Whole (shortReply id) := ⟨by simp [shortReply], rfl, rfl⟩

theorem answered_twoPackets : Answered twoPackets where
  positive := by decide
  all _ := rfl
  whole _ b member := by
    simp only [twoPackets, List.mem_cons, List.not_mem_nil, or_false] at member
    rcases member with rfl | rfl
    · exact whole_shortReply 0
    · exact whole_shortReply 1
  small _ b member := by
    simp only [twoPackets, List.mem_cons, List.not_mem_nil, or_false] at member
    rcases member with rfl | rfl <;> simp [shortReply, bufSize]

/-- A round in which the kernel gives `n` bytes. -/
def given (n : Nat) : Input := ⟨true, true, 3, [.bytes n]⟩

theorem settles_of_eval {cfg : Client} {r : Receiver} {i : Input} {o : Open} {t : Turn}
    (opened : current cfg r i = some o) (loop : receiveLoop o i.answers = some t)
    (fits : Fits cfg.pktsPerSession (r.accounted % cfg.pktsPerSession)
      (completed cfg o (Turn.open t))) : Settles cfg r i := by
  intro o' member t' ended _
  rw [opened, Option.mem_some_iff] at member
  subst member
  rw [loop, Option.mem_some_iff] at ended
  subst ended
  exact fits

/-- Each reply comes in a receive of its own. -/
theorem sessions_punctual_one_by_one : ∃ r₁ r₂,
    ClientReceiver.round twoPackets .init (given 16) = .next r₁ ∧
      ClientReceiver.round twoPackets r₁ (given 16) = .next r₂ ∧
      r₂.accounted = 2 ∧ r₂.notes = [.closed 0 2, .opened 0 0] ∧ Punctual twoPackets r₂ := by
  have evaluated : ∃ r₁ r₂ o₁ o₂ t₁ t₂,
      ClientReceiver.round twoPackets .init (given 16) = .next r₁ ∧
      ClientReceiver.round twoPackets r₁ (given 16) = .next r₂ ∧
      current twoPackets .init (given 16) = some o₁ ∧ receiveLoop o₁ (given 16).answers = some t₁ ∧
      current twoPackets r₁ (given 16) = some o₂ ∧ receiveLoop o₂ (given 16).answers = some t₂ ∧
      completed twoPackets o₁ (Turn.open t₁) = 1 ∧ completed twoPackets o₂ (Turn.open t₂) = 1 ∧
      r₁.accounted = 1 ∧ r₂.accounted = 2 ∧ r₂.notes = [.closed 0 2, .opened 0 0] :=
    ⟨_, _, _, _, _, _, rfl, rfl, rfl, rfl, rfl, rfl, rfl, rfl, rfl, rfl, rfl⟩
  obtain ⟨r₁, r₂, o₁, o₂, t₁, t₂, first, second, opened₁, loop₁, opened₂, loop₂, one₁, one₂, half, two,
    notes⟩ := evaluated
  have settles₁ : Settles twoPackets .init (given 16) := by
    refine settles_of_eval opened₁ loop₁ ?_
    rw [one₁]
    exact fun _ => rfl
  have settles₂ : Settles twoPackets r₁ (given 16) := by
    refine settles_of_eval opened₂ loop₂ ?_
    rw [one₂]
    exact fun _ => rfl
  have reached : Reaches twoPackets (Settles twoPackets) r₂ := by
    refine .round (given 16) (.round (given 16) .init (by decide) settles₁ first) ?_ settles₂ second
    rw [half]
    decide
  exact ⟨r₁, r₂, first, second, two, notes,
    (sessions_punctual twoPackets answered_twoPackets r₂ reached).1⟩

/-- The second reply comes in two pieces: the session is closed after the first piece,
with one packet accounted, and the next round receives on `conns[-1]`. -/
theorem closed_before_last_reply : ∃ r₁ r₂,
    ClientReceiver.round twoPackets .init (given 16) = .next r₁ ∧
      ClientReceiver.round twoPackets r₁ (given 5) = .next r₂ ∧
      Reaches twoPackets (fun _ _ => True) r₂ ∧ r₂.accounted = 1 ∧
      r₂.notes = [.closed 0 1, .opened 0 0] ∧ ¬ Punctual twoPackets r₂ ∧
      ClientReceiver.round twoPackets r₂ (given 11) = .outOfBounds := by
  have evaluated : ∃ r₁ r₂, ClientReceiver.round twoPackets .init (given 16) = .next r₁ ∧
      ClientReceiver.round twoPackets r₁ (given 5) = .next r₂ ∧ r₁.accounted = 1 ∧ r₂.accounted = 1 ∧
      r₂.notes = [.closed 0 1, .opened 0 0] ∧
      ClientReceiver.round twoPackets r₂ (given 11) = .outOfBounds :=
    ⟨_, _, rfl, rfl, rfl, rfl, rfl, rfl⟩
  obtain ⟨r₁, r₂, first, second, one, still, notes, wild⟩ := evaluated
  have reached : Reaches twoPackets (fun _ _ => True) r₂ := by
    refine .round (given 5) (.round (given 16) .init (by decide) trivial first) ?_ trivial second
    rw [one]
    decide
  refine ⟨r₁, r₂, first, second, reached, still, notes, fun punctual => ?_, wild⟩
  obtain ⟨s, no | no | no⟩ := punctual.times (.closed 0 1) (by rw [notes]; exact List.mem_cons_self ..)
  · cases no
  · cases no
  · simp [twoPackets] at no
    omega

end SessionEnds
