import DistWalk.ExistingConnections
import DistWalk.LayoutRuns

/-!
# Timer events and the connection of the descriptor's number

`conn_worker` registers its timer under the number of the timer's descriptor, and
`exec_request` takes that number for a connection id before it looks at the type of the
event. Where the connection with this number is in its SSL handshake, the event drives
the handshake, and the timeout has to wait for its end or is lost with the connection.
-/

namespace TimerEvents

open Message Connection Worker Timeout Node ExistingConnections

/-- What an event did: the connections that OpenSSL was called for, and the state after it. -/
structure Done where
  handshakes : List Nat
  result : Except Abort State

/-- `conn_do_ssl_handshake`, with the answer of OpenSSL and the call of it. -/
def connDoSslHandshake (w : State) (connId : Nat) (answer : Handshake) : State × Int × List Nat :=
  if (w.conns connId).status ≠ .sslHandshake then (w, 1, [])
  else
    match answer with
    | .inProgress => (w, 0, [connId])
    | .failed => (w, -1, [connId])
    | .complete => (w.setConn connId { w.conns connId with status := .ready }, 1, [connId])

/-- `exec_request`; `none` where `conn_id` is no index of `conns[]`. -/
def execEvent (w : State) (connId : Nat) (type : EventType) (r : Readiness) : Option Done :=
  if maxConns ≤ connId then none
  else if (w.conns connId).status = .sslHandshake then
    let (w, hs, calls) := connDoSslHandshake w connId r.handshake
    if hs < 0 then some ⟨calls, closeFailed w connId⟩
    else if hs = 0 then some ⟨calls, .ok w⟩
    else some ⟨calls, execReady w connId type r⟩
  else some ⟨[], execReady w connId type r⟩

/-- The event comes to what `Node` has for it. -/
theorem execEvent_result {w : State} {connId : Nat} {type : EventType} {r : Readiness} {d : Done}
    (done : execEvent w connId type r = some d) : d.result = execRequest w connId type r := by
  simp only [execEvent] at done
  split at done
  · cases done
  · by_cases handshaking : (w.conns connId).status = .sslHandshake
    · simp only [connDoSslHandshake, ne_eq, handshaking, not_true_eq_false, if_false, if_true] at done
      rw [execRequest, if_pos handshaking]
      cases answer : r.handshake with
      | complete =>
        simp [answer] at done
        rw [← done]
      | inProgress =>
        simp [answer] at done
        rw [← done]
      | failed =>
        simp [answer] at done
        rw [← done]
    · rw [if_neg handshaking] at done
      cases done
      rw [execRequest, if_neg handshaking]

/-- A connection in its handshake has OpenSSL called for it, whatever the event is. -/
theorem execEvent_handshakes {w : State} {connId : Nat} {type : EventType} {r : Readiness} {d : Done}
    (handshaking : (w.conns connId).status = .sslHandshake) (done : execEvent w connId type r = some d) :
    d.handshakes = [connId] := by
  simp only [execEvent, connDoSslHandshake, ne_eq, handshaking, not_true_eq_false, if_false, if_true] at done
  split at done
  · cases done
  · cases answer : r.handshake with
    | complete =>
      simp [answer] at done
      rw [← done]
    | inProgress =>
      simp [answer] at done
      rw [← done]
    | failed =>
      simp [answer] at done
      rw [← done]

/-- A TIMER event with the descriptor `fd` is `handle_timeout` and nothing else, whatever
the kernel answers. -/
def OnlyTimeouts (w : State) (fd : Nat) : Prop :=
  ∀ r, execEvent w fd .timer r = some ⟨[], handleTimeout w⟩

theorem not_only_of_handshaking {w : State} {fd : Nat} (handshaking : (w.conns fd).status = .sslHandshake) :
    ¬ OnlyTimeouts w fd := by
  intro only
  have called := execEvent_handshakes handshaking (only (received []))
  cases called

/-- The descriptor must number a connection that is not in its handshake. -/
theorem only_timeouts_iff (w : State) (fd : Nat) :
    OnlyTimeouts w fd ↔ fd < maxConns ∧ (w.conns fd).status ≠ .sslHandshake := by
  constructor
  · intro only
    constructor
    · by_contra outside
      have done := only (received [])
      rw [execEvent, if_pos (Nat.le_of_not_lt outside)] at done
      cases done
    · exact fun handshaking => not_only_of_handshaking handshaking only
  · rintro ⟨inside, settled⟩ r
    rw [execEvent, if_neg (Nat.not_le_of_lt inside), if_neg settled, execReady, if_pos rfl]

/-- With the handshake in progress the event does nothing. -/
theorem timer_suppressed {w : State} {fd : Nat} {r : Readiness} (inside : fd < maxConns)
    (handshaking : (w.conns fd).status = .sslHandshake) (waits : r.handshake = .inProgress) :
    execEvent w fd .timer r = some ⟨[fd], .ok w⟩ := by
  rw [execEvent, if_neg (Nat.not_le_of_lt inside), if_pos handshaking]
  simp [connDoSslHandshake, handshaking, waits]

/-- With a failing handshake the event closes the connection. -/
theorem timer_closes {w : State} {fd : Nat} {r : Readiness} (inside : fd < maxConns)
    (handshaking : (w.conns fd).status = .sslHandshake) (fails : r.handshake = .failed) :
    execEvent w fd .timer r = some ⟨[fd], closeFailed w fd⟩ := by
  rw [execEvent, if_neg (Nat.not_le_of_lt inside), if_pos handshaking]
  simp [connDoSslHandshake, handshaking, fails]

/-! ## Every number is reached -/

/-- The first `n` connections are in their handshake, and the others are free. -/
structure Handshaking (n : Nat) (w : State) : Prop where
  taken : ∀ i < n, (w.conns i).busy = true ∧ (w.conns i).status = .sslHandshake
  free : ∀ i, n ≤ i → (w.conns i).busy = false

/-- An accepted TLS connection takes the next slot and starts its handshake. -/
theorem Handshaking.accept {n : Nat} {w : State} (h : Handshaking n w) (room : n < maxConns) (addr : Addr) :
    ∃ w', step w .silent (.accept addr .tls) = .ok w' ∧ Handshaking (n + 1) w' := by
  have found : findIndex (fun i => !(w.conns i).busy) maxConns 0 = some n := by
    apply findIndex_eq_some.mpr
    refine ⟨Nat.zero_le _, by omega, ?_, ?_⟩
    · rw [h.free n le_rfl]
      rfl
    · intro k _ earlier
      rw [(h.taken k earlier).1]
      rfl
  simp only [step, acceptConn, connAlloc, found, connEnableSsl, takeSsl, Kernel.silent, if_true]
  refine ⟨_, rfl, ?_⟩
  constructor
  · intro i below
    by_cases here : i = n
    · subst here
      simp [State.emit, State.setConn, ConnInfo.claim]
    · have before := h.taken i (by omega)
      simpa [State.emit, State.setConn, here] using before
  · intro i above
    have other : i ≠ n := by omega
    have before := h.free i (by omega)
    simpa [State.emit, State.setConn, other] using before

theorem Handshaking.run {n m : Nat} {w : State} (h : Handshaking m w) (room : m + n ≤ maxConns) (addr : Addr) :
    ∃ w', Node.run w (List.replicate n (.silent, .accept addr .tls)) = .ok w' ∧ Handshaking (m + n) w' := by
  induction n generalizing m w with
  | zero => exact ⟨w, rfl, h⟩
  | succ n ih =>
    obtain ⟨w₁, accepted, next⟩ := h.accept (by omega) addr
    obtain ⟨w', later, all⟩ := ih next (by omega)
    refine ⟨w', ?_, by rwa [Nat.add_right_comm] at all⟩
    rw [List.replicate_succ, Node.run, accepted]
    exact later

/-- Whatever number the timer has, accepted TLS connections can bring the slot of that
number into its handshake. -/
theorem handshake_reached (fd : Nat) (inside : fd < maxConns) (addr : Addr) :
    ∃ w, Node.run (.init 0 id (fun _ _ => 0) false) (List.replicate (fd + 1) (.silent, .accept addr .tls)) =
      .ok w ∧ ¬ OnlyTimeouts w fd := by
  have start : Handshaking 0 (.init 0 id (fun _ _ => 0) false) :=
    ⟨fun i below => absurd below (Nat.not_lt_zero i), fun _ _ => rfl⟩
  obtain ⟨w, reached, h⟩ := start.run (n := fd + 1) (by omega) addr
  exact ⟨w, reached, not_only_of_handshaking (h.taken fd (by omega)).2⟩

/-- Six TLS clients that have not sent anything yet stop a timer with descriptor 5. -/
theorem timer_five : ∃ w,
    Node.run (.init 0 id (fun _ _ => 0) false) (List.replicate 6 (.silent, .accept [] .tls)) = .ok w ∧
      ¬ OnlyTimeouts w 5 :=
  handshake_reached 5 (by decide) []

end TimerEvents
