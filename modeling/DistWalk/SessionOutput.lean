import DistWalk.EventRuns
import DistWalk.ReceiverSpace
import Mathlib.Data.List.Perm.Basic
import Mathlib.Logic.Function.Basic

/-!
# Output for each session

With `--per-session-output` the receiver prints the measurements of a session at `skip`,
where it takes the ids of its packets from the packet at the start of the round and the
increment. It starts one too high: the first packet of the session is never printed under
its own id, and the slot that it shares with the last id is printed under that. So a
session is labelled as it should be only if nothing of it has been recorded.
-/

namespace SessionOutput

open ClientReceiver SessionEnds EventRuns

/-- A line of the output; the thread is the same for all of them. -/
structure Line where
  sendTime : Int
  elapsed : Int
  reqId : Int
  sessId : Nat
  deriving DecidableEq

/-- The number of packets, and how many of them make a session. -/
structure Plan where
  numPkts : Nat
  pktsPerSession : Nat
  positive : 0 < pktsPerSession

/-- `pkt_id` is converted to an `unsigned long`. That the result is below `MAX_PKTS` is
checked when the options are parsed. -/
def Plan.idx (plan : Plan) (pktId : Int) : Nat := (pktId % 2 ^ 64).toNat % plan.pktsPerSession

/-- `unsigned` to `int`. -/
def toInt (v : Nat) : Int := if v < 2 ^ 31 then v else v - 2 ^ 32

/-- The counters of the receiver and the arrays that it shares with the sender. `pktI` is
there while a round is under way, `spawned` tells which sessions have had a sender, and
`record` is what has been recorded for a packet: when it was sent, and how long it took.
`due` are the lines that the completed sessions should have had, beside those printed. -/
structure World where
  accounted : Nat
  iIncr : Nat
  pktI : Option Nat
  spawned : Nat → Bool
  usecsSend : Nat → Int
  usecsElapsed : Nat → Int
  record : Nat → Option (Int × Int)
  printed : List Line
  due : List Line

def World.init : World := ⟨0, 0, none, fun _ => false, fun _ => 0, fun _ => 0, fun _ => none, [], []⟩

inductive Event
  /-- The next round begins. -/
  | next
  /-- The sender of a new session. -/
  | spawn
  /-- The sender records a packet. -/
  | sent (pktId : Nat) (usecs : Int)
  /-- A reply is processed. -/
  | reply (reqId : Nat) (v : Verdict) (usecs : Int)
  /-- No connection, or an error of `conn_recv`. -/
  | fail
  /-- The code at `skip`. -/
  | skip

/-! ## The end of a round -/

/-- The id that the loop takes for the first of the session. -/
def firstSessPkt (plan : Plan) (w : World) (pktI : Nat) : Int := pktI + w.iIncr - (plan.pktsPerSession - 1)

/-- The loop that prints a session. -/
def sessionLines (plan : Plan) (w : World) (pktI : Nat) : List Line :=
  if (pktI + w.iIncr) % plan.pktsPerSession = 0 then
    (List.range plan.pktsPerSession).filterMap fun (j : Nat) =>
      let pktId := firstSessPkt plan w pktI + j
      if w.usecsSend (plan.idx pktId) ≠ 0 then
        some ⟨w.usecsSend (plan.idx pktId), w.usecsElapsed (plan.idx pktId), pktId, pktI / plan.pktsPerSession⟩
      else none
  else []

/-- Both arrays are zeroed at the end of a session. -/
def resetArrays (plan : Plan) (w : World) (pktI : Nat) : World :=
  if (pktI + w.iIncr) % plan.pktsPerSession = 0 then
    { w with usecsSend := fun _ => 0, usecsElapsed := fun _ => 0 }
  else w

/-- What a session should print: a line for each packet that has been recorded. -/
def expectedLines (plan : Plan) (w : World) (s : Nat) : List Line :=
  (List.range plan.pktsPerSession).filterMap fun (j : Nat) =>
    (w.record (s * plan.pktsPerSession + j)).map fun r => ⟨r.1, r.2, (s * plan.pktsPerSession + j : Nat), s⟩

/-- The sessions whose last packet has been accounted since the start of the round. -/
def completedSessions (plan : Plan) (w : World) (pktI : Nat) : List Nat :=
  List.range' (pktI / plan.pktsPerSession) (w.accounted / plan.pktsPerSession - pktI / plan.pktsPerSession)

def dueLines (plan : Plan) (w : World) (pktI : Nat) : List Line :=
  (completedSessions plan w pktI).flatMap (expectedLines plan w)

/-! ## Runs -/

/-- `process_reply`, and the count of its result. -/
def processReply (plan : Plan) (w : World) (reqId : Nat) (v : Verdict) (usecs : Int) : World :=
  let w := { w with accounted := w.accounted + 1, iIncr := 1 }
  if v = .success then
    let i := plan.idx (toInt reqId)
    { w with
      usecsElapsed := Function.update w.usecsElapsed i (usecs - w.usecsSend i)
      record := Function.update w.record reqId ((w.record reqId).map fun r => (r.1, usecs - r.1)) }
  else w

/-- A sender takes the packets of its session in order. -/
def step (plan : Plan) (w : World) : Event → Option World
  | .next =>
    if w.pktI = none ∧ w.accounted < plan.numPkts then some { w with pktI := some w.accounted } else none
  | .spawn => do
    let pktI ← w.pktI
    if pktI % plan.pktsPerSession = 0 then
      some { w with spawned := Function.update w.spawned (pktI / plan.pktsPerSession) true }
    else none
  | .sent pktId usecs =>
    if w.spawned (pktId / plan.pktsPerSession) = true ∧
        (pktId % plan.pktsPerSession = 0 ∨ (w.record (pktId - 1)).isSome) then
      some { w with
        usecsSend := Function.update w.usecsSend (plan.idx pktId) usecs
        usecsElapsed := Function.update w.usecsElapsed (plan.idx pktId) 0
        record := Function.update w.record pktId (some (usecs, 0)) }
    else none
  | .reply reqId v usecs => do
    let _ ← w.pktI
    some (processReply plan w reqId v usecs)
  | .fail => do
    let pktI ← w.pktI
    let skipPkts := plan.pktsPerSession - pktI % plan.pktsPerSession
    some { w with accounted := w.accounted + skipPkts, iIncr := skipPkts }
  | .skip => do
    let pktI ← w.pktI
    some { resetArrays plan w pktI with
      pktI := none
      printed := w.printed ++ sessionLines plan w pktI
      due := w.due ++ dueLines plan w pktI }

/-- The worlds that events lead to, when every round that ends meets a condition. -/
def Reached (plan : Plan) (ok : World → Nat → Prop) : World → Prop :=
  Reaches (step plan) .init fun w e => e = .skip → ∀ pktI, w.pktI = some pktI → ok w pktI

/-- No packet of a completed session has been recorded, and the loop, if it runs, finds
only zeros. -/
structure Unsent (plan : Plan) (w : World) (pktI : Nat) : Prop where
  nothing : ∀ s ∈ completedSessions plan w pktI, ∀ j < plan.pktsPerSession,
    w.record (s * plan.pktsPerSession + j) = none
  cleared : (pktI + w.iIncr) % plan.pktsPerSession = 0 →
    ∀ j < plan.pktsPerSession, w.usecsSend (plan.idx (firstSessPkt plan w pktI + j)) = 0

/-! ## What every run keeps -/

/-- The first packet of a session is recorded before the others, and a round that accounts
packets sets the increment. -/
structure Kept (plan : Plan) (w : World) : Prop where
  first : ∀ p, (w.record p).isSome → (w.record (p / plan.pktsPerSession * plan.pktsPerSession)).isSome
  begun : ∀ pktI, w.pktI = some pktI → pktI ≤ w.accounted ∧ (pktI < w.accounted → 0 < w.iIncr)

section Runs

variable {plan : Plan} {w w' : World}

theorem kept_init : Kept plan .init where
  first p recorded := by cases recorded
  begun pktI here := by cases here

/-- The packet before another one of its session is of the same session. -/
theorem div_pred {n p : Nat} (inside : p % n ≠ 0) : (p - 1) / n = p / n := by
  obtain ⟨q, rfl⟩ : ∃ q, p = q + 1 := ⟨p - 1, by
    have : p ≠ 0 := by
      rintro rfl
      exact inside (Nat.zero_mod n)
    omega⟩
  rw [Nat.add_sub_cancel, Nat.succ_div]
  rw [if_neg]
  · rfl
  · intro divides
    exact inside (Nat.mod_eq_zero_of_dvd divides)

/-- Recording the next packet of a session. -/
theorem first_sent {record : Nat → Option (Int × Int)} {n p : Nat} (r : Int × Int)
    (first : ∀ q, (record q).isSome → (record (q / n * n)).isSome)
    (next : p % n = 0 ∨ (record (p - 1)).isSome) (q : Nat)
    (recorded : (Function.update record p (some r) q).isSome) :
    (Function.update record p (some r) (q / n * n)).isSome := by
  have kept : ∀ a, (record a).isSome → (Function.update record p (some r) a).isSome := by
    intro a some_
    by_cases same : a = p
    · rw [same, Function.update_self]
      rfl
    · rwa [Function.update_of_ne same]
  by_cases same : q = p
  · subst same
    by_cases start : q % n = 0
    · rwa [Nat.div_mul_cancel (Nat.dvd_of_mod_eq_zero start)]
    · have before := first (q - 1) (next.resolve_left start)
      rw [div_pred start] at before
      exact kept _ before
  · rw [Function.update_of_ne same] at recorded
    exact kept _ (first q recorded)

/-- A reply is recorded for packets that have been sent. -/
theorem isSome_reply (record : Nat → Option (Int × Int)) (p : Nat) (f : Int × Int → Int × Int) (q : Nat) :
    (Function.update record p ((record p).map f) q).isSome = (record q).isSome := by
  by_cases same : q = p
  · rw [same, Function.update_self, Option.isSome_map]
  · rw [Function.update_of_ne same]

theorem Kept.processReply (h : Kept plan w) (reqId : Nat) (v : Verdict) (usecs : Int) :
    Kept plan (processReply plan w reqId v usecs) ∧
      (processReply plan w reqId v usecs).printed = w.printed ∧
      (processReply plan w reqId v usecs).due = w.due := by
  have begun : ∀ pktI, w.pktI = some pktI →
      pktI ≤ w.accounted + 1 ∧ (pktI < w.accounted + 1 → 0 < 1) := by
    intro pktI here
    have order := (h.begun pktI here).1
    omega
  rw [SessionOutput.processReply]
  split
  · refine ⟨⟨?_, begun⟩, rfl, rfl⟩
    simp only [isSome_reply]
    exact h.first
  · exact ⟨⟨h.first, begun⟩, rfl, rfl⟩

/-- Only `skip` prints. -/
def Prints (plan : Plan) (w : World) (e : Event) (w' : World) : Prop :=
  (w'.printed = w.printed ∧ w'.due = w.due) ∨ ∃ pktI, e = .skip ∧ w.pktI = some pktI ∧
    w'.printed = w.printed ++ sessionLines plan w pktI ∧ w'.due = w.due ++ dueLines plan w pktI

theorem Kept.step (h : Kept plan w) {e : Event} (done : step plan w e = some w') :
    Kept plan w' ∧ Prints plan w e w' := by
  cases e with
  | next =>
    simp only [SessionOutput.step] at done
    split at done
    · cases done
      refine ⟨⟨h.first, ?_⟩, .inl ⟨rfl, rfl⟩⟩
      rintro pktI ⟨⟩
      exact ⟨Nat.le_refl _, fun less => absurd less (Nat.lt_irrefl _)⟩
    · cases done
  | spawn =>
    obtain ⟨pktI, here, done⟩ := Option.bind_eq_some_iff.mp done
    split at done
    · cases done
      exact ⟨⟨h.first, h.begun⟩, .inl ⟨rfl, rfl⟩⟩
    · cases done
  | sent pktId usecs =>
    simp only [SessionOutput.step] at done
    split at done
    · rename_i allowed
      cases done
      exact ⟨⟨first_sent _ h.first allowed.2, h.begun⟩, .inl ⟨rfl, rfl⟩⟩
    · cases done
  | reply reqId v usecs =>
    obtain ⟨pktI, here, done⟩ := Option.bind_eq_some_iff.mp done
    cases done
    obtain ⟨kept, same⟩ := h.processReply reqId v usecs
    exact ⟨kept, .inl same⟩
  | fail =>
    obtain ⟨pktI, here, done⟩ := Option.bind_eq_some_iff.mp done
    cases done
    refine ⟨⟨h.first, ?_⟩, .inl ⟨rfl, rfl⟩⟩
    intro pktI' here'
    have order := (h.begun pktI' here').1
    have small := Nat.mod_lt pktI plan.positive
    exact ⟨Nat.le_add_right_of_le order, fun _ => Nat.sub_pos_of_lt small⟩
  | skip =>
    obtain ⟨pktI, here, done⟩ := Option.bind_eq_some_iff.mp done
    cases done
    refine ⟨⟨?_, fun pktI' none => by cases none⟩, .inr ⟨pktI, rfl, here, rfl, rfl⟩⟩
    simp only [resetArrays]
    split
    · exact h.first
    · exact h.first

theorem Reached.kept {ok : World → Nat → Prop} (h : Reached plan ok w) : Kept plan w :=
  h.invariant kept_init fun _ _ _ kept _ done => (kept.step done).1

end Runs

/-! ## The lines of a session -/

section Lines

variable {plan : Plan} {w : World} {pktI : Nat}

theorem mem_sessionLines {l : Line} (inside : l ∈ sessionLines plan w pktI) :
    (pktI + w.iIncr) % plan.pktsPerSession = 0 ∧ l.sessId = pktI / plan.pktsPerSession ∧
      firstSessPkt plan w pktI ≤ l.reqId := by
  rw [sessionLines] at inside
  split at inside
  · rename_i ends
    obtain ⟨j, -, made⟩ := List.mem_filterMap.mp inside
    simp only at made
    split at made
    · cases made
      exact ⟨ends, rfl, by simp only; omega⟩
    · cases made
  · cases inside

/-- Nothing is printed exactly if the loop does not run, or finds only zeros. -/
theorem sessionLines_nil : sessionLines plan w pktI = [] ↔
    ((pktI + w.iIncr) % plan.pktsPerSession = 0 →
      ∀ j < plan.pktsPerSession, w.usecsSend (plan.idx (firstSessPkt plan w pktI + j)) = 0) := by
  rw [sessionLines]
  split
  · rename_i ends
    simp [ends, List.filterMap_eq_nil_iff]
  · rename_i goesOn
    simp [goesOn]

theorem expectedLines_nil {s : Nat} : expectedLines plan w s = [] ↔
    ∀ j < plan.pktsPerSession, w.record (s * plan.pktsPerSession + j) = none := by
  simp [expectedLines, List.filterMap_eq_nil_iff]

theorem dueLines_nil : dueLines plan w pktI = [] ↔
    ∀ s ∈ completedSessions plan w pktI, ∀ j < plan.pktsPerSession,
      w.record (s * plan.pktsPerSession + j) = none := by
  simp only [dueLines, List.flatMap_eq_nil_iff, expectedLines_nil]

/-- A session of which something has been recorded should print its first packet. -/
theorem first_expected (h : Kept plan w) {s j : Nat} (inside : j < plan.pktsPerSession)
    (recorded : (w.record (s * plan.pktsPerSession + j)).isSome) :
    ∃ l ∈ expectedLines plan w s, l.sessId = s ∧ l.reqId = (s * plan.pktsPerSession : Nat) := by
  have first := h.first _ recorded
  have sess : (s * plan.pktsPerSession + j) / plan.pktsPerSession = s := by
    rw [Nat.mul_comm, Nat.mul_add_div plan.positive, Nat.div_eq_of_lt inside, Nat.add_zero]
  rw [sess] at first
  obtain ⟨r, here⟩ := Option.isSome_iff_exists.mp first
  refine ⟨⟨r.1, r.2, (s * plan.pktsPerSession : Nat), s⟩, ?_, rfl, rfl⟩
  refine List.mem_filterMap.mpr ⟨0, List.mem_range.mpr plan.positive, ?_⟩
  simp only [Nat.add_zero, here, Option.map_some]

/-- At the end of a round the first id is beyond the first packet of the session. -/
theorem first_beyond {n a i : Nat} (divides : (a + i) % n = 0) (some_ : 0 < i) :
    ((a / n * n : Nat) : Int) < (a : Int) + i - (n - 1) := by
  have below := Nat.div_mul_le_self a n
  obtain ⟨k, whole⟩ := Nat.dvd_of_mod_eq_zero divides
  have more : a / n < k := by
    by_contra few
    have less := Nat.mul_le_mul_left n (Nat.not_lt.mp few)
    rw [Nat.mul_comm n (a / n)] at less
    omega
  have next : n * (a / n + 1) ≤ n * k := Nat.mul_le_mul_left n more
  rw [Nat.mul_add, Nat.mul_one, Nat.mul_comm n (a / n)] at next
  omega

theorem lines_due_iff (h : Kept plan w) (here : w.pktI = some pktI) :
    (sessionLines plan w pktI).Perm (dueLines plan w pktI) ↔ Unsent plan w pktI := by
  constructor
  · intro perm
    have nothing : ∀ s ∈ completedSessions plan w pktI, ∀ j < plan.pktsPerSession,
        w.record (s * plan.pktsPerSession + j) = none := by
      intro s completed j inside
      by_contra recorded
      obtain ⟨l, expected, sess, reqId⟩ := first_expected h inside (Option.isSome_iff_ne_none.mpr recorded)
      have printed := perm.mem_iff.mpr (List.mem_flatMap.mpr ⟨s, completed, expected⟩)
      obtain ⟨ends, same, beyond⟩ := mem_sessionLines printed
      -- something has been accounted in this round, so the increment is set
      obtain ⟨k, small, -⟩ := List.mem_range'.mp completed
      have accounted : pktI < w.accounted := by
        by_contra none
        have := Nat.div_le_div_right (c := plan.pktsPerSession) (Nat.not_lt.mp none)
        omega
      have after := first_beyond ends ((h.begun pktI here).2 accounted)
      rw [reqId, ← sess, same] at beyond
      rw [firstSessPkt] at beyond
      omega
    refine ⟨nothing, sessionLines_nil.mp ?_⟩
    rw [dueLines_nil.mpr nothing] at perm
    exact perm.eq_nil
  · rintro ⟨nothing, cleared⟩
    rw [sessionLines_nil.mpr cleared, dueLines_nil.mpr nothing]

end Lines

/-- In a run whose rounds all end without a recorded packet the lines are the ones that
are due. In any run, at the end of a round, they are so exactly if it ends so. -/
theorem session_lines_iff (plan : Plan) :
    (∀ w, Reached plan (Unsent plan) w → w.printed.Perm w.due) ∧
    ∀ w pktI, Reached plan (fun _ _ => True) w → w.pktI = some pktI →
      ((sessionLines plan w pktI).Perm (dueLines plan w pktI) ↔ Unsent plan w pktI) := by
  constructor
  · intro w reached
    induction reached with
    | init => exact List.Perm.refl _
    | step e before meets done ih =>
      have kept := Reached.kept before
      rcases (kept.step done).2 with ⟨printed, due⟩ | ⟨pktI, skips, here, printed, due⟩
      · rw [printed, due]
        exact ih
      · rw [printed, due]
        exact ih.append ((lines_due_iff kept here).mpr (meets skips pktI here))
  · intro w pktI reached here
    exact lines_due_iff reached.kept here

def twoSessions : Plan := ⟨2, 1, Nat.one_pos⟩

/-- Both connections are refused. -/
theorem session_lines_refused :
    ∃ w, run (step twoSessions) .init [.next, .fail, .skip, .next, .fail, .skip] = some w ∧ w.accounted = 2 ∧
      w.printed.Perm w.due := by
  have first : Reached twoSessions (Unsent twoSessions) .init := .init
  have unsent {w : World} {pktI : Nat} (none : w.record = fun _ => none) (zero : w.usecsSend = fun _ => 0) :
      Unsent twoSessions w pktI :=
    ⟨fun _ _ _ _ => congrFun none _, fun _ _ _ => congrFun zero _⟩
  have second := ((first.step .next nofun rfl).step .fail nofun rfl).step .skip (fun _ _ _ => unsent rfl rfl) rfl
  have reached := ((second.step .next nofun rfl).step .fail nofun rfl).step .skip (fun _ _ _ => unsent rfl rfl) rfl
  exact ⟨_, rfl, rfl, (session_lines_iff twoSessions).1 _ reached⟩

def onePacket : Plan := ⟨1, 1, Nat.one_pos⟩

/-- A session of one packet, which is answered. -/
def answered : List Event := [.next, .spawn, .sent 0 5, .reply 0 .success 9, .skip]

/-- Packet 0 is printed as packet 1. -/
theorem packet_zero_as_one : ∃ w, Reached onePacket (fun _ _ => True) w ∧
    w.printed = [⟨5, 4, 1, 0⟩] ∧ w.due = [⟨5, 4, 0, 0⟩] ∧ ¬ w.printed.Perm w.due := by
  obtain ⟨w, done, printed, due⟩ : ∃ w, run (step onePacket) .init answered = some w ∧
      w.printed = [⟨5, 4, 1, 0⟩] ∧ w.due = [⟨5, 4, 0, 0⟩] := ⟨_, rfl, rfl, rfl⟩
  refine ⟨w, Reaches.init.run (fun _ _ _ _ _ => trivial) done, printed, due, ?_⟩
  rw [printed, due]
  decide

/-! ## The rounds of the receiver -/

/-- Between two rounds, with the counters of the receiver. -/
structure Agrees (w : World) (r : Receiver) : Prop where
  accounted : w.accounted = r.accounted
  iIncr : w.iIncr = r.iIncr
  between : w.pktI = none

section Rounds

variable {cfg : Client} {plan : Plan} {w : World} {r r' : Receiver} {pktI : Nat}

theorem run_replies (plan : Plan) (here : w.pktI = some pktI) (verdicts : List Verdict) :
    ∃ w', run (step plan) w (verdicts.map fun v => .reply 0 v 0) = some w' ∧ w'.pktI = some pktI ∧
      w'.accounted = w.accounted + verdicts.length ∧
      w'.iIncr = if verdicts.length = 0 then w.iIncr else 1 := by
  induction verdicts generalizing w with
  | nil => exact ⟨w, rfl, here, rfl, rfl⟩
  | cons v verdicts ih =>
    have counted : (processReply plan w 0 v 0).pktI = some pktI ∧
        (processReply plan w 0 v 0).accounted = w.accounted + 1 ∧ (processReply plan w 0 v 0).iIncr = 1 := by
      simp only [processReply]
      split
      · exact ⟨here, rfl, rfl⟩
      · exact ⟨here, rfl, rfl⟩
    obtain ⟨w', done, here', accounted, iIncr⟩ := ih counted.1
    refine ⟨w', ?_, here', ?_, ?_⟩
    · rw [List.map_cons, run, step, here]
      exact done
    · rw [accounted, counted.2.1, List.length_cons]
      omega
    · rw [iIncr, counted.2.2, List.length_cons, if_neg (Nat.succ_ne_zero _)]
      split <;> rfl

/-- The end of a round. -/
theorem run_skip (plan : Plan) (cfg : Client) (here : w.pktI = some pktI) (accounted : w.accounted = r.accounted) (iIncr : w.iIncr = r.iIncr) :
    ∃ w', run (step plan) w [.skip] = some w' ∧ Agrees w' (endSession cfg r pktI) := by
  have same : (endSession cfg r pktI).accounted = r.accounted ∧ (endSession cfg r pktI).iIncr = r.iIncr := by
    rw [endSession]
    split
    · split
      · exact ⟨rfl, rfl⟩
      · exact ⟨rfl, rfl⟩
    · exact ⟨rfl, rfl⟩
  have kept : (resetArrays plan w pktI).accounted = w.accounted ∧ (resetArrays plan w pktI).iIncr = w.iIncr := by
    rw [resetArrays]
    split
    · exact ⟨rfl, rfl⟩
    · exact ⟨rfl, rfl⟩
  refine ⟨_, by rw [run, step, here]; rfl, ?_, ?_, rfl⟩
  · exact kept.1.trans (accounted.trans same.1.symm)
  · exact kept.2.trans (iIncr.trans same.2.symm)

/-- The packets left of the session count as errors. -/
theorem run_fail (sizes : plan.pktsPerSession = cfg.pktsPerSession) (here : w.pktI = some pktI)
    (accounted : w.accounted = r.accounted) :
    ∃ w', run (step plan) w [.fail, .skip] = some w' ∧ Agrees w' (endSession cfg (skipPkts cfg r pktI) pktI) := by
  let skipped := plan.pktsPerSession - pktI % plan.pktsPerSession
  have failed : step plan w .fail =
      some { w with accounted := w.accounted + skipped, iIncr := skipped } := by rw [step, here]; rfl
  have total : w.accounted + skipped = (skipPkts cfg r pktI).accounted := by
    simp only [accounted, skipped, sizes, skipPkts, Receiver.accounted]
    omega
  have incr : skipped = (skipPkts cfg r pktI).iIncr := by simp only [skipped, sizes, skipPkts]
  have here' : ({ w with accounted := w.accounted + skipped, iIncr := skipped } : World).pktI = some pktI := here
  obtain ⟨w', done, agrees⟩ := run_skip plan cfg here' total incr
  refine ⟨w', ?_, agrees⟩
  rw [run_cons _ failed]
  exact done

/-- What `receiveReplies` does, from the start of the round on. -/
theorem receiveReplies_followed (sizes : plan.pktsPerSession = cfg.pktsPerSession) (here : w.pktI = some pktI)
    (accounted : w.accounted = r.accounted) (iIncr : w.iIncr = r.iIncr) {o : Open} {given : List Answer}
    (done : receiveReplies cfg r o pktI given = .next r') :
    ∃ events w', run (step plan) w events = some w' ∧ Agrees w' r' := by
  rw [receiveReplies] at done
  split at done
  · cases done
  · cases done
  · cases done
    exact ⟨_, run_fail sizes here accounted⟩
  · cases done
    exact ⟨_, run_skip plan cfg here accounted iIncr⟩
  · split at done
    · cases done
    · rename_i c verdicts processed
      cases done
      rename_i o' _ _
      obtain ⟨w₁, replies, here₁, accounted₁, iIncr₁⟩ := run_replies plan here verdicts
      obtain ⟨total, -, -, incr⟩ := foldl_count verdicts { r with conn := some { o' with conn := c } }
      obtain ⟨w', ended, agrees⟩ := run_skip plan cfg here₁
        (by rw [accounted₁, total, accounted]; rfl) (by rw [iIncr₁, incr, iIncr])
      refine ⟨(verdicts.map fun v => .reply 0 v 0) ++ [.skip], w', ?_, agrees⟩
      rw [run_append, replies]
      exact ended

/-- The worlds follow the rounds of the receiver. -/
theorem round_followed (all : plan.numPkts = cfg.numPkts) (sizes : plan.pktsPerSession = cfg.pktsPerSession)
    (agrees : Agrees w r) (more : r.accounted < cfg.numPkts) {i : Input}
    (done : ClientReceiver.round cfg r i = .next r') :
    ∃ events w', run (step plan) w events = some w' ∧ Agrees w' r' := by
  have started : step plan w .next = some { w with pktI := some w.accounted } := by
    rw [step, if_pos ⟨agrees.between, by rw [agrees.accounted, all]; exact more⟩]
  have here : ({ w with pktI := some w.accounted } : World).pktI = some r.accounted :=
    congrArg some agrees.accounted
  have after : ∃ events w', run (step plan) { w with pktI := some w.accounted } events = some w' ∧ Agrees w' r' := by
    rw [ClientReceiver.round] at done
    split at done
    · split at done
      · cases done
        exact ⟨_, run_fail sizes here agrees.accounted⟩
      · split at done
        · cases done
        · refine receiveReplies_followed sizes here ?_ ?_ done
          · exact agrees.accounted
          · exact agrees.iIncr
    · split at done
      · cases done
      · exact receiveReplies_followed sizes here agrees.accounted agrees.iIncr done
  obtain ⟨events, w', later, agrees'⟩ := after
  refine ⟨.next :: events, w', ?_, agrees'⟩
  rw [run_cons _ started]
  exact later

end Rounds

end SessionOutput
