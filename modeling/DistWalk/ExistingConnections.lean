import DistWalk.ConnectionSlots

/-!
# Connections that a forward may reuse

`conn_find_existing` scans the table once for all protocols. For TCP it compares
protocol and peer. For UDP it takes the first open connection of the thread,
whatever its protocol, and for TLS it has no case: it finds a UDP connection
only where one comes before those of the other protocols, and a TLS connection
never.
-/

namespace ExistingConnections

open Message Connection Worker Node Transitions ConnectionSlots

/-- The first index that satisfies `p`. -/
theorem findIndex_eq_some {p : Nat → Bool} {fuel i j : Nat} :
    findIndex p fuel i = some j ↔
      i ≤ j ∧ j < i + fuel ∧ p j = true ∧ ∀ k, i ≤ k → k < j → p k = false := by
  induction fuel generalizing i with
  | zero =>
    simp only [findIndex]
    constructor
    · intro h
      cases h
    · rintro ⟨low, high, -⟩
      omega
  | succ fuel ih =>
    simp only [findIndex]
    split
    · rename_i here
      constructor
      · intro h
        cases h
        exact ⟨le_rfl, by omega, here, fun k low high => by omega⟩
      · rintro ⟨low, -, -, none⟩
        by_contra other
        have later : i < j := lt_of_le_of_ne low fun e => other (congrArg some e)
        rw [none i le_rfl later] at here
        cases here
    · rename_i other
      rw [ih]
      constructor
      · rintro ⟨low, high, holds, none⟩
        refine ⟨by omega, by omega, holds, fun k from_i before => ?_⟩
        by_cases first : k = i
        · rw [first]
          simpa using other
        · exact none k (by omega) before
      · rintro ⟨low, high, holds, none⟩
        have apart : i ≠ j := by
          rintro rfl
          exact other holds
        exact ⟨by omega, by omega, holds, fun k from_i before => none k (by omega) before⟩

/-- An open connection of the calling thread that does not listen. -/
structure Own (w : State) (i : Nat) : Prop where
  inTable : i < maxConns
  opened : (w.conns i).sock ≠ none
  connects : (w.conns i).isListen = false
  thread : (w.conns i).parentThread = w.thread

/-- An open connection of the protocol, to `target` unless it is UDP. -/
structure Usable (w : State) (target : Addr) (proto : Proto) (i : Nat) : Prop where
  inTable : i < maxConns
  opened : (w.conns i).sock ≠ none
  connects : (w.conns i).isListen = false
  kind : (w.conns i).proto = proto
  peer : proto ≠ .udp → (w.conns i).target = target

/-- What is found can be used, and what could be used by the thread is found:
a forward then goes out on a connection there is. -/
structure FindsExisting (w : State) (target : Addr) (proto : Proto) : Prop where
  sound : ∀ i, connFindExisting w target proto = some i → Usable w target proto i
  complete : ∀ i, Usable w target proto i → (w.conns i).parentThread = w.thread →
    connFindExisting w target proto ≠ none
  reuses : ∀ fwd : FwdOpts, fwd.fwdAddr = target → fwd.proto = proto →
    (∃ i, Usable w target proto i ∧ (w.conns i).parentThread = w.thread) →
    ∃ c, forwardConn w fwd = (w, some c) ∧ Usable w target proto c

/-- UDP: the first open connection of the thread is a UDP one. TLS: the thread
has no open TLS connection to the target. -/
def Searchable (w : State) (target : Addr) : Proto → Prop
  | .udp => ∀ i, Own w i → (w.conns i).proto ≠ .udp → ∃ j < i, Own w j ∧ (w.conns j).proto = .udp
  | .tls => ∀ i, Usable w target .tls i → (w.conns i).parentThread ≠ w.thread
  | _ => True

section Scan

variable {w : State} {target : Addr}

/-- What is found is the first that can be reused. -/
theorem connFindExisting_first {proto : Proto} {i : Nat} (found : connFindExisting w target proto = some i) :
    i < maxConns ∧ reusable w target proto i = true ∧ ∀ k < i, reusable w target proto k = false := by
  obtain ⟨-, high, first, before⟩ := findIndex_eq_some.mp found
  exact ⟨by omega, first, fun k earlier => before k (Nat.zero_le k) earlier⟩

theorem connFindExisting_missing {proto : Proto} {i : Nat} (missing : connFindExisting w target proto = none)
    (inTable : i < maxConns) : reusable w target proto i = false :=
  findIndex_eq_none.mp missing i (Nat.zero_le i) (by omega)

theorem reusable_udp {i : Nat} (inTable : i < maxConns) : reusable w target .udp i = true ↔ Own w i := by
  constructor
  · intro h
    simp only [reusable] at h
    split at h
    · rename_i dpdk
      cases dpdk.1
    · split at h
      · cases h
      · rename_i opened
        split at h
        · cases h
        · rename_i connects
          split at h
          · rename_i own
            exact ⟨inTable, opened, by simpa using connects, own.2⟩
          · simp at h
  · rintro ⟨-, opened, connects, thread⟩
    simp [reusable, opened, connects, thread]

theorem reusable_tcp {i : Nat} (inTable : i < maxConns) :
    reusable w target .tcp i = true ↔ Usable w target .tcp i := by
  constructor
  · intro h
    simp only [reusable] at h
    split at h
    · rename_i dpdk
      cases dpdk.1
    · split at h
      · cases h
      · rename_i opened
        split at h
        · cases h
        · rename_i connects
          split at h
          · rename_i udp
            cases udp.1
          · obtain ⟨-, peer, proto⟩ := of_decide_eq_true h
            exact ⟨inTable, opened, by simpa using connects, proto, fun _ => peer⟩
  · rintro ⟨-, opened, connects, proto, peer⟩
    have peer := peer (by decide)
    simp [reusable, opened, connects, proto, peer]

theorem reusable_tls (i : Nat) : reusable w target .tls i = false := by
  simp [reusable]

/-- An existing connection is taken as it is. -/
theorem forwardConn_existing {fwd : FwdOpts} {c : Nat}
    (found : connFindExisting w fwd.fwdAddr fwd.proto = some c) : forwardConn w fwd = (w, some c) := by
  simp only [forwardConn, found]

/-- Reuse is what finding the right connections is for. -/
theorem findsExisting_of {proto : Proto}
    (sound : ∀ i, connFindExisting w target proto = some i → Usable w target proto i)
    (complete : ∀ i, Usable w target proto i → (w.conns i).parentThread = w.thread →
      connFindExisting w target proto ≠ none) : FindsExisting w target proto where
  sound := sound
  complete := complete
  reuses := by
    rintro fwd rfl rfl ⟨i, usable, own⟩
    obtain ⟨c, found⟩ := Option.ne_none_iff_exists'.mp (complete i usable own)
    exact ⟨c, forwardConn_existing found, sound c found⟩

theorem findsExisting_tcp : FindsExisting w target .tcp := by
  apply findsExisting_of
  · intro i found
    obtain ⟨inTable, holds, -⟩ := connFindExisting_first found
    exact (reusable_tcp inTable).mp holds
  · intro i usable _ missing
    have none := connFindExisting_missing missing usable.inTable
    rw [(reusable_tcp usable.inTable).mpr usable] at none
    cases none

theorem findsExisting_udp_iff : FindsExisting w target .udp ↔ Searchable w target .udp := by
  constructor
  · -- the scan stops at the first connection of the thread
    intro finds i own other
    have holds : reusable w target .udp i = true := (reusable_udp own.inTable).mpr own
    cases found : connFindExisting w target .udp with
    | none =>
      have none := connFindExisting_missing found own.inTable
      rw [holds] at none
      cases none
    | some j =>
      obtain ⟨inTable, first, before⟩ := connFindExisting_first found
      have usable := finds.sound j found
      have ownFirst := (reusable_udp inTable).mp first
      refine ⟨j, ?_, ownFirst, usable.kind⟩
      rcases Nat.lt_trichotomy j i with earlier | same | later
      · exact earlier
      · exact absurd (same ▸ usable.kind) other
      · rw [before i later] at holds
        cases holds
  · intro searchable
    apply findsExisting_of
    · intro i found
      obtain ⟨inTable, first, before⟩ := connFindExisting_first found
      have own := (reusable_udp inTable).mp first
      refine ⟨own.inTable, own.opened, own.connects, ?_, fun udp => absurd rfl udp⟩
      by_contra other
      obtain ⟨j, earlier, ownEarlier, -⟩ := searchable i own other
      have none := before j earlier
      rw [(reusable_udp ownEarlier.inTable).mpr ownEarlier] at none
      cases none
    · intro i usable thread missing
      have none := connFindExisting_missing missing usable.inTable
      rw [(reusable_udp usable.inTable).mpr ⟨usable.inTable, usable.opened, usable.connects, thread⟩] at none
      cases none

theorem connFindExisting_tls : connFindExisting w target .tls = none :=
  findIndex_eq_none.mpr fun i _ _ => reusable_tls i

theorem findsExisting_tls_iff : FindsExisting w target .tls ↔ Searchable w target .tls := by
  constructor
  · intro finds i usable own
    exact finds.complete i usable own connFindExisting_tls
  · intro none
    apply findsExisting_of
    · intro i found
      rw [connFindExisting_tls] at found
      cases found
    · intro i usable own
      exact absurd own (none i usable)

end Scan

/-- For every table, address and protocol the search is right exactly if the
protocol is TCP, or UDP and the thread's first open connection is a UDP one, or
TLS and the thread has no TLS connection to the address. -/
theorem finds_existing_iff (w : State) (target : Addr) {proto : Proto}
    (kind : proto = .udp ∨ proto = .tcp ∨ proto = .tls) :
    FindsExisting w target proto ↔ Searchable w target proto := by
  rcases kind with rfl | rfl | rfl
  · exact findsExisting_udp_iff
  · exact ⟨fun _ => trivial, fun _ => findsExisting_tcp⟩
  · exact findsExisting_tls_iff

/-- The node after it has accepted one connection. -/
def accepted (peer : Addr) (proto : Proto) : Except Abort State :=
  acceptConn (State.init 0 (fun _ => 0) (fun _ _ => 0) true) peer proto

def peer : Addr := [10, 0, 0, 9, 0, 9]

/-- A second forward to a TCP peer finds the connection of the first. -/
theorem finds_existing_tcp :
    ∃ w, accepted peer .tcp = .ok w ∧ FindsExisting w peer .tcp ∧ connFindExisting w peer .tcp = some 0 :=
  ⟨_, rfl, (finds_existing_iff _ peer (Or.inr (Or.inl rfl))).mpr trivial, rfl⟩

/-- A UDP forward is given the TCP connection of a client, and the TLS
connection to a peer is not found. -/
theorem other_protocol_found :
    (∃ w, accepted peer .tcp = .ok w ∧ connFindExisting w [10, 0, 0, 1, 0, 1] .udp = some 0 ∧
      (w.conns 0).proto = .tcp ∧ ¬ FindsExisting w [10, 0, 0, 1, 0, 1] .udp) ∧
    ∃ w, accepted peer .tls = .ok w ∧ Usable w peer .tls 0 ∧ (w.conns 0).parentThread = w.thread ∧
      connFindExisting w peer .tls = none ∧ ¬ FindsExisting w peer .tls := by
  constructor
  · refine ⟨_, rfl, rfl, rfl, ?_⟩
    intro finds
    have kind := (finds.sound 0 rfl).kind
    cases kind
  · refine ⟨_, rfl, ?_, rfl, connFindExisting_tls, ?_⟩
    · exact ⟨by decide, Option.some_ne_none 3, rfl, rfl, fun _ => rfl⟩
    · intro finds
      apply finds.complete 0 _ rfl connFindExisting_tls
      exact ⟨by decide, Option.some_ne_none 3, rfl, rfl, fun _ => rfl⟩

end ExistingConnections
