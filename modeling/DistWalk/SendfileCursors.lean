import DistWalk.Connection

/-!
# The cursors of a sendfile transmission

`conn_start_sendfile` sets the cursors for the header and the file, and repeated
calls of `conn_send_v2` move them with every answer to `send` and `sendfile`. A
log holds these answers with the cursors before and after each. The header loop
adds the result of `send` to the cursor without a case for other errors: -1
takes it back by one byte. As long as `send` answers no such error, the cursors
only advance and the connection is reset exactly with the last byte.
-/

namespace SendfileCursors

open ByteMemory Message Connection

inductive Syscall
  | send
  | sendfile
  deriving DecidableEq, Repr

/-- `curr_send_buf` from the start of the buffer, `curr_send_size` and
`file_remaining`. -/
structure Cursors where
  sendBuf : Int
  sendSize : Nat
  remaining : Nat
  deriving DecidableEq, Repr

def cursors (c : ConnInfo) : Cursors := ⟨c.currSendBuf, c.currSendSize, c.fileRemaining⟩

/-- A system call with its answer, the cursors around it and the bytes accepted. -/
structure Event where
  call : Syscall
  answer : IoResult
  before : Cursors
  after : Cursors
  accepted : Nat
  deriving DecidableEq, Repr

/-- The answers that one `conn_send_v2` gets, in order. -/
structure Call where
  sends : List IoResult
  file : IoResult
  deriving DecidableEq, Repr

/-- The header bytes of `n` that `send` accepts. -/
def headerSent (c : ConnInfo) (n : Nat) : ConnInfo :=
  { c with
    currSendBuf := c.currSendBuf + min n c.currSendSize
    currSendSize := c.currSendSize - min n c.currSendSize }

/-- The cursors after a -1 has been added; they may point before the buffer. -/
def stepBack (c : ConnInfo) : Cursors := ⟨c.currSendBuf - 1, c.currSendSize + 1, c.fileRemaining⟩

/-- The `send` calls of the header loop; the branches are those of `sendHeader`. -/
def headerLog : List IoResult → ConnInfo → List Event
  | [], _ => []
  | r :: rest, c =>
    if c.currSendSize = 0 then []
    else
      match r with
      | .done n =>
        ⟨.send, r, cursors c, cursors (headerSent c n), min n c.currSendSize⟩ ::
          headerLog rest (headerSent c n)
      | .wouldBlock => ⟨.send, r, cursors c, cursors c, 0⟩ :: headerLog rest c
      | .peerClosed => [⟨.send, r, cursors c, cursors c, 0⟩]
      | .failed =>
        ⟨.send, r, cursors c, stepBack c, 0⟩ ::
          if c.currSendBuf = 0 then []
          else headerLog rest
            { c with currSendBuf := c.currSendBuf - 1, currSendSize := c.currSendSize + 1 }

/-- The bytes that an answer of `sendfile` accepts. -/
def fileAccepted (c : ConnInfo) : IoResult → Nat
  | .done n => min n c.fileRemaining
  | _ => 0

/-- The `sendfile` call behind the loop. -/
def bodyLog (c : ConnInfo) (r : IoResult) : List Event :=
  if c.fileRemaining > 0 then
    [⟨.sendfile, r, cursors c,
      { cursors c with remaining := c.fileRemaining - fileAccepted c r }, fileAccepted c r⟩]
  else []

def callLog (c : ConnInfo) (call : Call) : List Event :=
  headerLog call.sends c ++
    if (sendHeader call.sends c).2.2 = .drained then bodyLog (sendHeader call.sends c).1 call.file else []

section Runs

variable (files : Nat → Mem)

/-- The connection when the call returns. -/
def returned (c : ConnInfo) (call : Call) : Option ConnInfo :=
  (connSendV2 files c call.sends call.file).1.map (·.conn)

/-- The answers of repeated calls, up to one that does not return. -/
def runLog : ConnInfo → List Call → List Event
  | _, [] => []
  | c, call :: rest =>
    callLog c call ++ match returned files c call with
      | none => []
      | some d => runLog d rest

/-- The connection after repeated calls that have all returned. -/
def after : ConnInfo → List Call → Option ConnInfo
  | c, [] => some c
  | c, call :: rest => (returned files c call).bind fun d => after d rest

end Runs

/-- The bytes that the calls of one kind accepted. -/
def accepted (k : Syscall) (log : List Event) : Nat :=
  (log.map fun e => if e.call = k then e.accepted else 0).sum

@[simp] theorem accepted_nil (k : Syscall) : accepted k [] = 0 := rfl

@[simp] theorem accepted_append (k : Syscall) (a b : List Event) :
    accepted k (a ++ b) = accepted k a + accepted k b := by
  simp [accepted]

@[simp] theorem accepted_cons (k : Syscall) (e : Event) (log : List Event) :
    accepted k (e :: log) = (if e.call = k then e.accepted else 0) + accepted k log := by
  simp [accepted]

/-- The connection is as Phase 3 of `conn_send_v2` leaves it. -/
structure Reset (c : ConnInfo) : Prop where
  ready : c.status = .ready
  noFile : c.fileFd = none
  rewound : c.currSendBuf = 0

/-- The answer is an error. -/
def Refused : IoResult → Prop
  | .done _ => False
  | _ => True

/-- One answer moves the cursors forward or, if it is an error, not at all. -/
structure Advances (e : Event) : Prop where
  forward : e.before.sendBuf ≤ e.after.sendBuf
  size : e.after.sendSize ≤ e.before.sendSize
  remaining : e.after.remaining ≤ e.before.remaining
  refused : Refused e.answer → e.after = e.before

/-- Each answer finds the cursors where the one before has left them. -/
def Linked : Cursors → List Event → Cursors → Prop
  | a, [], b => a = b
  | a, e :: log, b => e.before = a ∧ Linked e.after log b

/-- A transmission of `size` bytes by repeated calls on `c`. -/
structure Transmits (files : Nat → Mem) (c : ConnInfo) (size : Nat) (calls : List Call) : Prop where
  start : c.currSendBuf ≤ messageHeader
  linked : ∃ last, Linked (cursors c) (runLog files c calls) last
  advances : ∀ e ∈ runLog files c calls, Advances e
  within : ∀ e ∈ runLog files c calls, e.after.sendBuf ≤ messageHeader
  reset : ∀ done, done <+: calls → ∀ d, after files c done = some d →
    (Reset d ↔ accepted .send (runLog files c done) = messageHeader ∧
      accepted .sendfile (runLog files c done) = size - messageHeader)

/-- `send` answers no error but would-block and a closed peer. -/
def Unfailed (log : List Event) : Prop := ∀ e ∈ log, e.call = .send → e.answer ≠ .failed

theorem Linked.append {a b c : Cursors} {log rest : List Event} (first : Linked a log b)
    (second : Linked b rest c) : Linked a (log ++ rest) c := by
  induction log generalizing a with
  | nil =>
    cases first
    exact second
  | cons e log ih => exact ⟨first.1, ih first.2⟩

/-! ## The header loop -/

/-- What the loop does when no `send` fails. -/
structure HeaderRun (rs : List IoResult) (c : ConnInfo) : Prop where
  size : (sendHeader rs c).1.currSendSize + accepted .send (headerLog rs c) = c.currSendSize
  buf : (sendHeader rs c).1.currSendBuf = c.currSendBuf + accepted .send (headerLog rs c)
  file : (sendHeader rs c).1.fileRemaining = c.fileRemaining ∧ (sendHeader rs c).1.fileFd = c.fileFd
  exit : (sendHeader rs c).2.2 ≠ .underrun ∧
    ((sendHeader rs c).2.2 = .drained ↔ (sendHeader rs c).1.currSendSize = 0)
  linked : Linked (cursors c) (headerLog rs c) (cursors (sendHeader rs c).1)
  advances : ∀ e ∈ headerLog rs c, Advances e
  calls : ∀ e ∈ headerLog rs c, e.call = .send
  bound : ∀ e ∈ headerLog rs c, e.after.sendBuf ≤ c.currSendBuf + accepted .send (headerLog rs c)
  reached : 0 < accepted .send (headerLog rs c) →
    ∃ e ∈ headerLog rs c, e.after.sendBuf = c.currSendBuf + accepted .send (headerLog rs c)

theorem sendHeader_drained {rs : List IoResult} {c : ConnInfo} (empty : c.currSendSize = 0) :
    sendHeader rs c = (c, [], .drained) := by
  unfold sendHeader
  rw [if_pos empty]

theorem headerLog_drained {rs : List IoResult} {c : ConnInfo} (empty : c.currSendSize = 0) :
    headerLog rs c = [] := by
  cases rs with
  | nil => rfl
  | cons r rest =>
    unfold headerLog
    rw [if_pos empty]

theorem headerRun_drained {rs : List IoResult} {c : ConnInfo} (empty : c.currSendSize = 0) :
    HeaderRun rs c := by
  constructor
  · simp [sendHeader_drained empty, headerLog_drained empty]
  · simp [sendHeader_drained empty, headerLog_drained empty]
  · simp [sendHeader_drained empty]
  · simp [sendHeader_drained empty, empty]
  · rw [sendHeader_drained empty, headerLog_drained empty]
    rfl
  all_goals simp [headerLog_drained empty]

theorem advances_refused {call : Syscall} {r : IoResult} {same : Cursors} {n : Nat} :
    Advances ⟨call, r, same, same, n⟩ := ⟨le_rfl, le_rfl, le_rfl, fun _ => rfl⟩

/-- One more answer in front, which accepts `n` bytes. -/
theorem HeaderRun.cons {r : IoResult} {rest : List IoResult} {c d : ConnInfo} {n : Nat}
    (log : headerLog (r :: rest) c = ⟨.send, r, cursors c, cursors d, n⟩ :: headerLog rest d)
    (sent : (sendHeader (r :: rest) c).1 = (sendHeader rest d).1 ∧
      (sendHeader (r :: rest) c).2.2 = (sendHeader rest d).2.2)
    (size : d.currSendSize + n = c.currSendSize) (buf : d.currSendBuf = c.currSendBuf + n)
    (file : d.fileRemaining = c.fileRemaining ∧ d.fileFd = c.fileFd)
    (refused : Refused r → cursors d = cursors c) (run : HeaderRun rest d) : HeaderRun (r :: rest) c := by
  have total : accepted .send (headerLog (r :: rest) c) = n + accepted .send (headerLog rest d) := by
    rw [log, accepted_cons, if_pos rfl]
  have sizes := run.size
  have bufs := run.buf
  constructor
  · rw [sent.1, total]
    omega
  · rw [sent.1, total]
    omega
  · rw [sent.1, ← file.1, ← file.2]
    exact run.file
  · rw [sent.1, sent.2]
    exact run.exit
  · rw [log, sent.1]
    exact ⟨rfl, run.linked⟩
  · rw [log]
    rintro e (_ | ⟨_, later⟩)
    · refine ⟨?_, ?_, le_of_eq file.1, refused⟩
      · simp only [cursors]
        omega
      · simp only [cursors]
        omega
    · exact run.advances e later
  · rw [log]
    rintro e (_ | ⟨_, later⟩)
    · rfl
    · exact run.calls e later
  · rw [total, log]
    rintro e (_ | ⟨_, later⟩)
    · simp only [cursors]
      omega
    · have := run.bound e later
      omega
  · rw [total, log]
    intro some
    by_cases more : 0 < accepted .send (headerLog rest d)
    · obtain ⟨e, later, last⟩ := run.reached more
      exact ⟨e, List.mem_cons_of_mem _ later, by omega⟩
    · refine ⟨_, List.mem_cons_self .., ?_⟩
      simp only [cursors]
      omega

theorem headerRun (rs : List IoResult) (c : ConnInfo) (unfailed : Unfailed (headerLog rs c)) :
    HeaderRun rs c := by
  induction rs generalizing c with
  | nil =>
    by_cases empty : c.currSendSize = 0
    · exact headerRun_drained empty
    · have stays : sendHeader [] c = (c, [], .spinning) := by
        unfold sendHeader
        rw [if_neg empty]
      constructor <;> simp [stays, headerLog, empty, Linked]
  | cons r rest ih =>
    by_cases empty : c.currSendSize = 0
    · exact headerRun_drained empty
    · cases r with
      | done n =>
        have log : headerLog (.done n :: rest) c =
            ⟨.send, .done n, cursors c, cursors (headerSent c n), min n c.currSendSize⟩ ::
              headerLog rest (headerSent c n) := by
          rw [headerLog, if_neg empty]
        have sent : (sendHeader (.done n :: rest) c).1 = (sendHeader rest (headerSent c n)).1 ∧
            (sendHeader (.done n :: rest) c).2.2 = (sendHeader rest (headerSent c n)).2.2 := by
          constructor <;> rw [sendHeader, if_neg empty] <;> rfl
        apply HeaderRun.cons log sent
        · exact Nat.sub_add_cancel (Nat.min_le_right _ _)
        · rfl
        · exact ⟨rfl, rfl⟩
        · exact False.elim
        · apply ih
          intro e later
          exact unfailed e (by rw [log]; exact List.mem_cons_of_mem _ later)
      | wouldBlock =>
        have log : headerLog (.wouldBlock :: rest) c =
            ⟨.send, .wouldBlock, cursors c, cursors c, 0⟩ :: headerLog rest c := by
          rw [headerLog, if_neg empty]
        have sent : sendHeader (.wouldBlock :: rest) c = sendHeader rest c := by
          rw [sendHeader, if_neg empty]
        apply HeaderRun.cons log ⟨by rw [sent], by rw [sent]⟩
        · rfl
        · rfl
        · exact ⟨rfl, rfl⟩
        · exact fun _ => rfl
        · apply ih
          intro e later
          exact unfailed e (by rw [log]; exact List.mem_cons_of_mem _ later)
      | peerClosed =>
        have log : headerLog (.peerClosed :: rest) c =
            [⟨.send, .peerClosed, cursors c, cursors c, 0⟩] := by
          rw [headerLog, if_neg empty]
        have sent : sendHeader (.peerClosed :: rest) c =
            ({ c with status := .closing }, [], .peerClosed) := by
          rw [sendHeader, if_neg empty]
        constructor
        · simp [sent, log]
        · simp [sent, log]
        · simp [sent]
        · simp [sent, empty]
        · rw [log, sent]
          exact ⟨rfl, rfl⟩
        · rw [log]
          rintro e (_ | ⟨_, later⟩)
          · exact advances_refused
          · cases later
        · simp [log]
        · simp [log, cursors]
        · simp [log]
      | failed =>
        exfalso
        have log : ⟨.send, .failed, cursors c, stepBack c, 0⟩ ∈ headerLog (.failed :: rest) c := by
          rw [headerLog, if_neg empty]
          exact List.mem_cons_self ..
        exact unfailed _ log rfl rfl

/-! ## The file -/

/-- What the one `sendfile` call does behind a header that has left. -/
structure BodyRun (files : Nat → Mem) (c : ConnInfo) (r : IoResult) (out : List UInt8) : Prop where
  size : (sendBody files c r out).conn.currSendSize = c.currSendSize
  remaining : (sendBody files c r out).conn.fileRemaining + fileAccepted c r = c.fileRemaining
  rest : (sendBody files c r out).conn.fileRemaining ≠ 0 →
    (sendBody files c r out).conn.fileFd = c.fileFd ∧
      (sendBody files c r out).conn.currSendBuf = c.currSendBuf
  last : (sendBody files c r out).conn.fileRemaining = 0 → Reset (sendBody files c r out).conn

theorem finishSendfile_last {c : ConnInfo} (out : List UInt8) (last : c.fileRemaining = 0) :
    (finishSendfile c out).conn =
      { c with fileFd := none, fileOffset := 0, currSendBuf := 0, status := .ready } := by
  simp only [finishSendfile, if_pos last]

theorem fileAccepted_none {c : ConnInfo} {r : IoResult} (none : c.fileRemaining ≤ 0) :
    fileAccepted c r = 0 := by
  cases r with
  | done n =>
    simp only [fileAccepted]
    omega
  | _ => rfl

/-- An error leaves all but the status. -/
theorem bodyRun_refused {files : Nat → Mem} {c : ConnInfo} {r : IoResult} {out : List UInt8}
    (more : c.fileRemaining > 0) (sent : ∃ status, (sendBody files c r out).conn = { c with status := status })
    (none : fileAccepted c r = 0) : BodyRun files c r out := by
  obtain ⟨status, sent⟩ := sent
  refine ⟨by rw [sent], by rw [sent, none]; rfl, fun _ => by rw [sent]; exact ⟨rfl, rfl⟩, ?_⟩
  rw [sent]
  intro done
  exact absurd done (Nat.ne_of_gt more)

theorem bodyRun (files : Nat → Mem) (c : ConnInfo) (r : IoResult) (out : List UInt8) :
    BodyRun files c r out := by
  by_cases more : c.fileRemaining > 0
  · cases r with
    | done n =>
      by_cases rest : c.fileRemaining - min n c.fileRemaining > 0
      · have sent : (sendBody files c (.done n) out).conn = { c with
            fileOffset := c.fileOffset + min n c.fileRemaining
            fileRemaining := c.fileRemaining - min n c.fileRemaining
            status := .sending } := by
          simp only [sendBody, if_pos more, if_pos rest]
        refine ⟨by rw [sent], ?_, fun _ => by rw [sent]; exact ⟨rfl, rfl⟩, ?_⟩
        · rw [sent]
          simp only [fileAccepted]
          omega
        · rw [sent]
          intro none
          simp only at none
          omega
      · have sent : (sendBody files c (.done n) out).conn = { c with
            fileRemaining := c.fileRemaining - min n c.fileRemaining
            fileFd := none
            fileOffset := 0
            currSendBuf := 0
            status := .ready } := by
          simp only [sendBody, if_pos more, if_neg rest]
          rw [finishSendfile_last _ (by simp only; omega)]
        refine ⟨by rw [sent], ?_, ?_, fun _ => by rw [sent]; exact ⟨rfl, rfl, rfl⟩⟩
        · rw [sent]
          simp only [fileAccepted]
          omega
        · rw [sent]
          intro some
          simp only at some
          omega
    | wouldBlock => exact bodyRun_refused more ⟨.sending, by simp only [sendBody, if_pos more]⟩ rfl
    | peerClosed => exact bodyRun_refused more ⟨.closing, by simp only [sendBody, if_pos more]⟩ rfl
    | failed => exact bodyRun_refused more ⟨c.status, by simp only [sendBody, if_pos more]⟩ rfl
  · have sent : (sendBody files c r out).conn =
        { c with fileFd := none, fileOffset := 0, currSendBuf := 0, status := .ready } := by
      simp only [sendBody, if_neg more]
      exact finishSendfile_last out (by omega)
    have none := fileAccepted_none (r := r) (not_lt.mp more)
    refine ⟨by rw [sent], by rw [sent, none]; rfl, ?_, fun _ => by rw [sent]; exact ⟨rfl, rfl, rfl⟩⟩
    rw [sent]
    intro some
    exact absurd (by simpa using more) some

theorem bodyLog_accepted (c : ConnInfo) (r : IoResult) :
    accepted .sendfile (bodyLog c r) = fileAccepted c r ∧ accepted .send (bodyLog c r) = 0 := by
  unfold bodyLog
  split
  · simp
  · rename_i none
    simp [fileAccepted_none (not_lt.mp none)]

theorem bodyLog_advances {c : ConnInfo} {r : IoResult} {e : Event} (inside : e ∈ bodyLog c r) :
    Advances e ∧ e.after.sendBuf = c.currSendBuf := by
  unfold bodyLog at inside
  split at inside
  · rw [List.mem_singleton] at inside
    subst inside
    refine ⟨⟨le_rfl, le_rfl, Nat.sub_le _ _, ?_⟩, rfl⟩
    intro refused
    cases r with
    | done n => cases refused
    | _ => rfl
  · cases inside

/-! ## One call -/

/-- With the cursor at `k` before the first call, `h` header bytes and `b` file
bytes of `size - 12` have been accepted; the connection is reset with the last. -/
structure Sending (k size h b : Nat) (c : ConnInfo) : Prop where
  header : c.currSendSize + h = messageHeader
  body : c.fileRemaining + b = size - messageHeader
  phase : (c.currSendSize = 0 ∧ c.fileRemaining = 0 ∧ Reset c) ∨
    ((c.currSendSize ≠ 0 ∨ c.fileRemaining ≠ 0) ∧ c.fileFd ≠ none ∧ c.currSendBuf = k + h)

theorem Sending.reset_iff {k size h b : Nat} {c : ConnInfo} (s : Sending k size h b c) :
    Reset c ↔ h = messageHeader ∧ b = size - messageHeader := by
  have header := s.header
  have body := s.body
  rcases s.phase with ⟨none, nothing, reset⟩ | ⟨rest, file, -⟩
  · exact ⟨fun _ => ⟨by omega, by omega⟩, fun _ => reset⟩
  · constructor
    · intro reset
      exact absurd reset.noFile file
    · rintro ⟨all, every⟩
      omega

/-- What one call adds to the log. -/
structure CallRun (k h : Nat) (log : List Event) : Prop where
  advances : ∀ e ∈ log, Advances e
  bound : ∀ e ∈ log, e.after.sendBuf ≤ k + h + accepted .send log
  reached : 0 < accepted .send log → ∃ e ∈ log, e.after.sendBuf = k + h + accepted .send log
  whole : h + accepted .send log ≤ messageHeader

theorem accepted_headerLog {rs : List IoResult} {c : ConnInfo} (run : HeaderRun rs c) :
    accepted .sendfile (headerLog rs c) = 0 := by
  have calls := run.calls
  generalize headerLog rs c = log at calls
  induction log with
  | nil => rfl
  | cons e log ih =>
    rw [accepted_cons, calls e (List.mem_cons_self ..), ih fun e inside => calls e (List.mem_cons_of_mem _ inside)]
    rfl

theorem callLog_accepted {c : ConnInfo} {call : Call} :
    accepted .send (callLog c call) = accepted .send (headerLog call.sends c) := by
  unfold callLog
  rw [accepted_append]
  split
  · rw [(bodyLog_accepted _ _).2, Nat.add_zero]
  · rfl

theorem Sending.callRun {k size h b : Nat} {c : ConnInfo} (s : Sending k size h b c) {call : Call}
    (run : HeaderRun call.sends c) : CallRun k h (callLog c call) := by
  have header := s.header
  have size := run.size
  have buf := run.buf
  -- a connection that has been reset asks for nothing any more
  have idle : c.currSendSize = 0 → c.fileRemaining = 0 → callLog c call = [] := by
    intro none nothing
    simp [callLog, headerLog_drained none, sendHeader_drained none, bodyLog, nothing]
  have place : callLog c call ≠ [] → c.currSendBuf = k + h := by
    intro some
    rcases s.phase with ⟨none, nothing, -⟩ | ⟨-, -, place⟩
    · exact absurd (idle none nothing) some
    · exact place
  constructor
  · intro e inside
    rcases List.mem_append.mp inside with first | second
    · exact run.advances e first
    · split at second
      · exact (bodyLog_advances second).1
      · cases second
  · intro e inside
    have place := place (List.ne_nil_of_mem inside)
    rw [callLog_accepted]
    rcases List.mem_append.mp inside with first | second
    · have := run.bound e first
      omega
    · split at second
      · have := (bodyLog_advances second).2
        omega
      · cases second
  · rw [callLog_accepted]
    intro some
    obtain ⟨e, inside, last⟩ := run.reached some
    have member : e ∈ callLog c call := List.mem_append_left _ inside
    have place := place (List.ne_nil_of_mem member)
    exact ⟨e, member, by omega⟩
  · rw [callLog_accepted]
    omega

/-- A call that returns has moved the counts by what was accepted. -/
theorem Sending.call {k size h b : Nat} {files : Nat → Mem} {c d : ConnInfo} (s : Sending k size h b c)
    {call : Call} (run : HeaderRun call.sends c) (back : returned files c call = some d) :
    Sending k size (h + accepted .send (callLog c call)) (b + accepted .sendfile (callLog c call)) d := by
  have header := s.header
  have body := s.body
  have size := run.size
  have buf := run.buf
  have exit := run.exit
  simp only [returned, connSendV2] at back
  rw [callLog_accepted, callLog, accepted_append, accepted_headerLog run]
  cases left : (sendHeader call.sends c).2.2 with
  | drained =>
    simp only [left, Option.map_some, Option.some.injEq] at back
    subst back
    have drained := exit.2.mp left
    have sent := bodyRun files (sendHeader call.sends c).1 call.file (sendHeader call.sends c).2.1
    have moved := sent.size
    have remaining := sent.remaining
    have kept := run.file.1
    rw [if_pos rfl, (bodyLog_accepted _ _).1]
    refine ⟨by omega, by omega, ?_⟩
    by_cases last : (sendBody files (sendHeader call.sends c).1 call.file
        (sendHeader call.sends c).2.1).conn.fileRemaining = 0
    · exact Or.inl ⟨by omega, last, sent.last last⟩
    · obtain ⟨file, cursor⟩ := sent.rest last
      rcases s.phase with ⟨none, nothing, -⟩ | ⟨-, open_, place⟩
      · omega
      · exact Or.inr ⟨Or.inr last, by rw [file, run.file.2]; exact open_, by omega⟩
  | peerClosed =>
    simp only [left, Option.map_some, Option.some.injEq] at back
    subst back
    have more : (sendHeader call.sends c).1.currSendSize ≠ 0 := by
      intro none
      rw [exit.2.mpr none] at left
      cases left
    rw [if_neg (by decide), accepted_nil]
    refine ⟨by omega, by rw [run.file.1]; omega, Or.inr ⟨Or.inl more, ?_, ?_⟩⟩
    · rcases s.phase with ⟨none, -, -⟩ | ⟨-, open_, -⟩
      · omega
      · rw [run.file.2]
        exact open_
    · rcases s.phase with ⟨none, -, -⟩ | ⟨-, -, place⟩
      · omega
      · omega
  | spinning =>
    simp only [left, Option.map_none] at back
    cases back
  | underrun => exact absurd left exit.1

/-! ## Repeated calls -/

theorem bodyLog_linked (c : ConnInfo) (r : IoResult) : Linked (cursors c) (bodyLog c r)
    { cursors c with remaining := c.fileRemaining - fileAccepted c r } := by
  unfold bodyLog
  split
  · exact ⟨rfl, rfl⟩
  · rename_i none
    simp only [Linked, cursors, Cursors.mk.injEq, true_and]
    omega

/-- The log of a call ends at the cursors it leaves, unless it resets them. -/
theorem callLog_linked (files : Nat → Mem) {c : ConnInfo} {call : Call} (run : HeaderRun call.sends c) :
    ∃ last, Linked (cursors c) (callLog c call) last ∧
      ∀ d, returned files c call = some d → d.currSendSize ≠ 0 ∨ d.fileRemaining ≠ 0 → cursors d = last := by
  cases left : (sendHeader call.sends c).2.2 with
  | drained =>
    refine ⟨{ cursors (sendHeader call.sends c).1 with
      remaining := (sendHeader call.sends c).1.fileRemaining -
        fileAccepted (sendHeader call.sends c).1 call.file }, ?_, fun d back rest => ?_⟩
    · rw [callLog, if_pos left]
      exact run.linked.append (bodyLog_linked _ _)
    · simp only [returned, connSendV2, left, Option.map_some, Option.some.injEq] at back
      subst back
      have sent := bodyRun files (sendHeader call.sends c).1 call.file (sendHeader call.sends c).2.1
      have remaining := sent.remaining
      have moved := sent.size
      have drained := run.exit.2.mp left
      have more := rest.resolve_left fun some => some (moved.trans drained)
      simp only [cursors, (sent.rest more).2, moved, Cursors.mk.injEq, true_and]
      omega
  | peerClosed =>
    refine ⟨cursors (sendHeader call.sends c).1, ?_, fun d back rest => ?_⟩
    · rw [callLog, left, if_neg (by decide), List.append_nil]
      exact run.linked
    · simp only [returned, connSendV2, left, Option.map_some, Option.some.injEq] at back
      rw [← back]
  | spinning =>
    refine ⟨cursors (sendHeader call.sends c).1, ?_, fun d back rest => ?_⟩
    · rw [callLog, left, if_neg (by decide), List.append_nil]
      exact run.linked
    · simp only [returned, connSendV2, left, Option.map_none] at back
      cases back
  | underrun => exact absurd left run.exit.1

/-- A connection that has been reset is asked for nothing. -/
theorem runLog_idle {files : Nat → Mem} {c : ConnInfo} (none : c.currSendSize = 0)
    (nothing : c.fileRemaining = 0) (calls : List Call) : runLog files c calls = [] := by
  induction calls generalizing c with
  | nil => rfl
  | cons call rest ih =>
    have idle : callLog c call = [] := by
      simp [callLog, headerLog_drained none, sendHeader_drained none, bodyLog, nothing]
    have back : returned files c call =
        some { c with fileFd := Option.none, fileOffset := 0, currSendBuf := 0, status := .ready } := by
      simp [returned, connSendV2, sendHeader_drained none, sendBody, nothing, finishSendfile]
    rw [runLog, idle, back]
    exact ih none nothing

theorem CallRun.append {k h : Nat} {log rest : List Event} (first : CallRun k h log)
    (second : CallRun k (h + accepted .send log) rest) : CallRun k h (log ++ rest) := by
  constructor
  · intro e inside
    exact (List.mem_append.mp inside).elim (first.advances e) (second.advances e)
  · intro e inside
    rw [accepted_append]
    rcases List.mem_append.mp inside with early | late
    · have := first.bound e early
      omega
    · have := second.bound e late
      omega
  · intro some
    rw [accepted_append] at some ⊢
    by_cases more : 0 < accepted .send rest
    · obtain ⟨e, late, last⟩ := second.reached more
      exact ⟨e, List.mem_append_right _ late, by omega⟩
    · obtain ⟨e, early, last⟩ := first.reached (by omega)
      exact ⟨e, List.mem_append_left _ early, by omega⟩
  · have := second.whole
    rw [accepted_append]
    omega

theorem Unfailed.left {log rest : List Event} (h : Unfailed (log ++ rest)) : Unfailed log :=
  fun e inside => h e (List.mem_append_left _ inside)

theorem Unfailed.right {log rest : List Event} (h : Unfailed (log ++ rest)) : Unfailed rest :=
  fun e inside => h e (List.mem_append_right _ inside)

theorem Sending.nothing {k size h b : Nat} {c : ConnInfo} (s : Sending k size h b c) : CallRun k h [] := by
  have header := s.header
  refine ⟨fun _ no => (by cases no), fun _ no => (by cases no), fun no => (by cases no), ?_⟩
  rw [accepted_nil]
  omega

theorem Sending.run {k size h b : Nat} {files : Nat → Mem} {c : ConnInfo} (s : Sending k size h b c)
    {calls : List Call} (unfailed : Unfailed (runLog files c calls)) :
    CallRun k h (runLog files c calls) ∧ (∃ last, Linked (cursors c) (runLog files c calls) last) ∧
      ∀ d, after files c calls = some d → Sending k size (h + accepted .send (runLog files c calls))
        (b + accepted .sendfile (runLog files c calls)) d := by
  induction calls generalizing c h b with
  | nil =>
    refine ⟨s.nothing, ⟨_, rfl⟩, fun d back => ?_⟩
    cases back
    exact s
  | cons call rest ih =>
    simp only [runLog] at unfailed ⊢
    have first := headerRun call.sends c unfailed.left.left
    obtain ⟨last, linked, ends⟩ := callLog_linked files first
    cases back : returned files c call with
    | none =>
      simp only [List.append_nil, after, back, Option.bind_none]
      exact ⟨s.callRun first, ⟨last, linked⟩, fun d no => (by cases no)⟩
    | some d =>
      have next := s.call first back
      simp only [back] at unfailed
      obtain ⟨run, ⟨final, later⟩, reached⟩ := ih next unfailed.right
      refine ⟨(s.callRun first).append run, ?_, fun d' later => ?_⟩
      · rcases next.phase with ⟨none, nothing, -⟩ | ⟨more, -, -⟩
        · refine ⟨last, ?_⟩
          simp only
          rw [runLog_idle none nothing, List.append_nil]
          exact linked
        · rw [ends d back more] at later
          exact ⟨final, linked.append later⟩
      · simp only [after, back, Option.bind_some] at later
        simp only [accepted_append]
        rw [← Nat.add_assoc, ← Nat.add_assoc]
        exact reached d' later

theorem runLog_append (files : Nat → Mem) (c : ConnInfo) (calls rest : List Call) :
    runLog files c (calls ++ rest) = runLog files c calls ++
      match after files c calls with
      | none => []
      | some d => runLog files d rest := by
  induction calls generalizing c with
  | nil => rfl
  | cons call calls ih =>
    simp only [List.cons_append, runLog, after]
    cases returned files c call with
    | none => simp
    | some d =>
      simp only [Option.bind_some]
      rw [ih d, List.append_assoc]

/-- A `send` that fails otherwise takes the cursor back. -/
theorem headerLog_failed {rs : List IoResult} {c : ConnInfo} {e : Event} (inside : e ∈ headerLog rs c)
    (failed : e.answer = .failed) : e.after.sendBuf = e.before.sendBuf - 1 := by
  induction rs generalizing c with
  | nil => cases inside
  | cons r rest ih =>
    unfold headerLog at inside
    split at inside
    · cases inside
    · cases r with
      | done n =>
        rcases List.mem_cons.mp inside with rfl | later
        · cases failed
        · exact ih later
      | wouldBlock =>
        rcases List.mem_cons.mp inside with rfl | later
        · cases failed
        · exact ih later
      | peerClosed =>
        rw [List.mem_singleton] at inside
        subst inside
        cases failed
      | failed =>
        rcases List.mem_cons.mp inside with rfl | later
        · rfl
        · split at later
          · cases later
          · exact ih later

theorem runLog_failed {files : Nat → Mem} {c : ConnInfo} {calls : List Call} {e : Event}
    (inside : e ∈ runLog files c calls) (sends : e.call = .send) (failed : e.answer = .failed) :
    e.after.sendBuf = e.before.sendBuf - 1 := by
  induction calls generalizing c with
  | nil => cases inside
  | cons call rest ih =>
    simp only [runLog, callLog, List.mem_append] at inside
    rcases inside with (header | body) | later
    · exact headerLog_failed header failed
    · exfalso
      split at body
      · unfold bodyLog at body
        split at body
        · rw [List.mem_singleton] at body
          subst body
          cases sends
        · cases body
      · cases body
    · cases back : returned files c call with
      | none =>
        simp only [back] at later
        cases later
      | some d =>
        simp only [back] at later
        exact ih later

/-- `conn_start_sendfile` leaves the header and the file to be sent. -/
theorem sending_start (c : ConnInfo) (target : Addr) (fd offset size : Nat) (low : 16 ≤ size)
    (high : size ≤ bufSize) :
    Sending (startSendfile c target fd offset size).currSendBuf size 0 0
      (startSendfile c target fd offset size) where
  header := rfl
  body := by
    simp only [startSendfile, messageHeader]
    simp only [bufSize] at high
    omega
  phase := Or.inr ⟨Or.inl (Nat.succ_ne_zero 11), Option.some_ne_none fd, rfl⟩

/-- For every size and every sequence of answers to repeated calls, the first of
them made by `conn_start_sendfile` itself: the transmission is monotone and
complete exactly if no `send` fails with another error and the header starts at
the start of the buffer (or too few bytes are accepted to tell). -/
theorem transmits_iff (files : Nat → Mem) (c : ConnInfo) (target : Addr) (fd offset : Nat) {size : Nat}
    (low : 16 ≤ size) (high : size ≤ bufSize) (calls : List Call) :
    let start := startSendfile c target fd offset size
    Transmits files start size calls ↔ Unfailed (runLog files start calls) ∧
      (start.currSendBuf = 0 ∨
        start.currSendBuf + accepted .send (runLog files start calls) ≤ messageHeader) := by
  intro start
  have s : Sending start.currSendBuf size 0 0 start := sending_start c target fd offset size low high
  constructor
  · intro h
    have unfailed : Unfailed (runLog files start calls) := by
      intro e inside sends failed
      have back := runLog_failed inside sends failed
      have forward := (h.advances e inside).forward
      omega
    refine ⟨unfailed, ?_⟩
    obtain ⟨run, -, -⟩ := s.run unfailed
    right
    by_cases some : 0 < accepted .send (runLog files start calls)
    · obtain ⟨e, inside, last⟩ := run.reached some
      have := h.within e inside
      omega
    · have := h.start
      omega
  · rintro ⟨unfailed, fits⟩
    obtain ⟨run, linked, -⟩ := s.run unfailed
    have whole := run.whole
    refine ⟨by omega, linked, run.advances, fun e inside => ?_, ?_⟩
    · have := run.bound e inside
      omega
    · rintro done ⟨rest, rfl⟩ d back
      rw [runLog_append] at unfailed
      have reached := (s.run unfailed.left).2.2 d back
      simpa using reached.reset_iff

/-- A response of 64 bytes to an idle connection. -/
def response : ConnInfo := startSendfile ConnInfo.init [] 5 0 64

def noFile : Nat → Mem := fun _ _ => 0

/-- The header leaves in two parts, the file after an event. -/
theorem transmits_two_calls :
    Transmits noFile response 64 [⟨[.done 5, .wouldBlock, .done 7], .wouldBlock⟩, ⟨[], .done 52⟩] := by
  apply (transmits_iff noFile ConnInfo.init [] 5 0 (by decide) (by decide) _).mpr
  refine ⟨?_, Or.inl rfl⟩
  have log : runLog noFile response [⟨[.done 5, .wouldBlock, .done 7], .wouldBlock⟩, ⟨[], .done 52⟩] =
      [⟨.send, .done 5, ⟨0, 12, 52⟩, ⟨5, 7, 52⟩, 5⟩, ⟨.send, .wouldBlock, ⟨5, 7, 52⟩, ⟨5, 7, 52⟩, 0⟩,
        ⟨.send, .done 7, ⟨5, 7, 52⟩, ⟨12, 0, 52⟩, 7⟩, ⟨.sendfile, .wouldBlock, ⟨12, 0, 52⟩, ⟨12, 0, 52⟩, 0⟩,
        ⟨.sendfile, .done 52, ⟨12, 0, 52⟩, ⟨12, 0, 0⟩, 52⟩] := by
    decide
  unfold Unfailed
  change ∀ e ∈ runLog noFile response _, _
  rw [log]
  decide

/-- After five bytes of the header `send` fails with another error: the cursor
goes back to 4, and the connection is reset after 13 header bytes. As the first
answer the error takes the cursor before the buffer. -/
theorem failed_send_steps_back :
    ¬ Transmits noFile response 64 [⟨[.done 5, .failed, .done 8], .done 52⟩] ∧
    runLog noFile response [⟨[.done 5, .failed, .done 8], .done 52⟩] =
      [⟨.send, .done 5, ⟨0, 12, 52⟩, ⟨5, 7, 52⟩, 5⟩, ⟨.send, .failed, ⟨5, 7, 52⟩, ⟨4, 8, 52⟩, 0⟩,
        ⟨.send, .done 8, ⟨4, 8, 52⟩, ⟨12, 0, 52⟩, 8⟩, ⟨.sendfile, .done 52, ⟨12, 0, 52⟩, ⟨12, 0, 0⟩, 52⟩] ∧
    runLog noFile response [⟨[.failed], .done 52⟩] =
      [⟨.send, .failed, ⟨0, 12, 52⟩, ⟨-1, 13, 52⟩, 0⟩] := by
  have log : runLog noFile response [⟨[.done 5, .failed, .done 8], .done 52⟩] =
      [⟨.send, .done 5, ⟨0, 12, 52⟩, ⟨5, 7, 52⟩, 5⟩, ⟨.send, .failed, ⟨5, 7, 52⟩, ⟨4, 8, 52⟩, 0⟩,
        ⟨.send, .done 8, ⟨4, 8, 52⟩, ⟨12, 0, 52⟩, 8⟩, ⟨.sendfile, .done 52, ⟨12, 0, 52⟩, ⟨12, 0, 0⟩, 52⟩] := by
    decide
  refine ⟨?_, log, by decide⟩
  intro transmits
  have forward := (transmits.advances ⟨.send, .failed, ⟨5, 7, 52⟩, ⟨4, 8, 52⟩, 0⟩ (by
    rw [log]
    decide)).forward
  exact absurd forward (by decide)

end SendfileCursors
