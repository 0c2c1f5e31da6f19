import DistWalk.ThreadPlaces
import Mathlib.Data.List.FinRange
import Mathlib.Data.List.Nodup

/-!
# The workers before the first client

`main` fills the tables with the listening sockets, and every worker watches its own
descriptors.
-/

namespace ThreadStart

open ByteMemory Message Connection Worker Node PollBackends PollTable ConnThreads ThreadPlaces
open Segmentation (Request stream)

section Boot

variable {cfg : Config} {b b' : Boot cfg} {done : List (Fin cfg.binds × Fin cfg.threads)}

/-- The tables when the listening sockets of `done` have been set up. -/
structure Booted (b : Boot cfg) (done : List (Fin cfg.binds × Fin cfg.threads)) : Prop where
  socks : ∀ c fd, (b.node.conns c).sock = some fd → fd ∈ own cfg
  idle : ∀ c, (b.node.conns c).busy = false → (b.node.conns c).sock = none
  alone : ∀ c, (b.node.conns c).reqList = none
  free : ∀ slot, (b.node.reqs slot).reqId = noReq
  flag : b.node.enableDefrag = true
  silent : b.node.effects = []
  once : ∀ t, (b.listenSocks t).Nodup
  listens : ∀ t, ∀ fd ∈ b.listenSocks t, ∃ e ∈ done, fd = cfg.fd (.listen e.2 e.1)

theorem booted_init (devices : Nat) (storageFd : Nat → Nat) (files : Nat → Mem) :
    Booted (⟨State.init devices storageFd files true, fun _ => []⟩ : Boot cfg) [] :=
  ⟨fun _ _ sock => (by cases sock), fun _ _ => rfl, fun _ => rfl, fun _ => rfl, rfl, rfl, fun _ => List.nodup_nil,
    fun _ _ mem => (by cases mem)⟩

/-- The sockets of one worker change. -/
theorem Booted.listened (h : Booted b done) (e : Fin cfg.binds × Fin cfg.threads) {i : Fin cfg.threads}
    {socks : List Nat}
    (once : socks.Nodup) (listens : ∀ fd ∈ socks, ∃ e' ∈ e :: done, fd = cfg.fd (.listen e'.2 e'.1)) :
    Booted { b with listenSocks := Function.update b.listenSocks i socks } (e :: done) := by
  refine ⟨h.socks, h.idle, h.alone, h.free, h.flag, h.silent, fun t => ?_, fun t fd mem => ?_⟩
  · simp only [Function.update_apply]
    split
    · exact once
    · exact h.once t
  · simp only [Function.update_apply] at mem
    split at mem
    · exact listens fd mem
    · obtain ⟨e', inside, same⟩ := h.listens t fd mem
      exact ⟨e', List.mem_cons_of_mem _ inside, same⟩

theorem Booted.initListenSock (h : Booted b done) {e : Fin cfg.binds × Fin cfg.threads} (new : e ∉ done)
    (taken : ConnThreads.initListenSock b e = .ok b') : Booted b' (e :: done) := by
  obtain ⟨l, i⟩ := e
  have older {t : Fin cfg.threads} :
      ∀ fd ∈ b.listenSocks t, ∃ e' ∈ (l, i) :: done, fd = cfg.fd (.listen e'.2 e'.1) := by
    intro fd mem
    obtain ⟨e', inside, same⟩ := h.listens t fd mem
    exact ⟨e', List.mem_cons_of_mem _ inside, same⟩
  simp only [ConnThreads.initListenSock, connAlloc] at taken
  split at taken
  · cases found : findIndex (fun i => !(b.node.conns i).busy) maxConns 0 with
    | none =>
      rw [found] at taken
      cases taken
    | some c =>
      rw [found] at taken
      simp only [Except.ok.injEq] at taken
      have socks : (b.listenSocks i ++ [cfg.fd (.listen i l)]).Nodup := by
        refine List.nodup_append.mpr ⟨h.once i, List.nodup_singleton _, fun fd mem fd' last => ?_⟩
        rintro rfl
        obtain ⟨e', inside, same⟩ := h.listens i fd mem
        rw [List.mem_singleton.mp last] at same
        have equal := cfg.fd_injective same
        simp only [Own.listen.injEq] at equal
        exact new (by rw [equal.1, equal.2]; exact inside)
      have listened := h.listened (l, i) (i := i) socks fun fd mem => by
        rcases List.mem_append.mp mem with before | last
        · exact older fd before
        · exact ⟨(l, i), List.mem_cons_self, List.mem_singleton.mp last⟩
      have ours : cfg.fd (.listen i l) ∈ own cfg := Set.mem_range_self _
      subst taken
      refine ⟨fun d fd => ?_, fun d => ?_, fun d => ?_, h.free, h.flag, h.silent, listened.once, listened.listens⟩
      · simp only [State.setConn, Function.update_idem, Function.update_self]
        rw [Function.update_apply]
        split
        · intro same
          cases same
          exact ours
        · exact h.socks d fd
      · simp only [State.setConn, Function.update_idem, Function.update_self]
        rw [Function.update_apply]
        split
        · intro free
          cases free
        · exact h.idle d
      · simp only [State.setConn, Function.update_idem, Function.update_self]
        rw [Function.update_apply]
        split
        · exact h.alone c
        · exact h.alone d
  · split at taken
    · cases taken
      exact h.listened _ (h.once _) older
    · cases taken
      exact h.listened _ List.nodup_nil fun _ mem => by cases mem

theorem Booted.all (h : Booted b done) {es : List (Fin cfg.binds × Fin cfg.threads)} (once : es.Nodup)
    (new : ∀ e ∈ es, e ∉ done) (taken : es.foldlM ConnThreads.initListenSock b = .ok b') :
    ∃ done', Booted b' done' := by
  induction es generalizing b done with
  | nil =>
    cases taken
    exact ⟨done, h⟩
  | cons e es ih =>
    rw [List.foldlM_cons] at taken
    obtain ⟨first, later⟩ := List.nodup_cons.mp once
    cases ran : ConnThreads.initListenSock b e with
    | error error =>
      rw [ran] at taken
      cases taken
    | ok v =>
      rw [ran] at taken
      refine ih (h.initListenSock (new e List.mem_cons_self) ran) later (fun e' mem => ?_) taken
      rw [List.mem_cons, not_or]
      exact ⟨fun same => first (same ▸ mem), new e' (List.mem_cons_of_mem _ mem)⟩

theorem nodup_bindings (cfg : Config) : (bindings cfg).Nodup :=
  (List.nodup_finRange cfg.binds).product (List.nodup_finRange cfg.threads)

end Boot

/-! ## What a worker watches -/

/-- What is added comes to what is watched. -/
theorem addAll_watches {p p' : DwPoll} {es : List (Nat × EventKind)} (plain : p.Plain) (once : (es.map Prod.fst).Nodup)
    (free : ∀ e ∈ es, p.watches e.1 = none) (taken : addAll p es = .ok p') :
    p'.Plain ∧ ∀ fd aux, p'.watches fd = some aux ↔
      p.watches fd = some aux ∨ (fd, aux) ∈ es.map fun e => (e.1, i2l e.2.code e.1) := by
  induction es generalizing p with
  | nil =>
    cases taken
    exact ⟨plain, fun fd aux => by simp⟩
  | cons e es ih =>
    obtain ⟨fd, event⟩ := e
    obtain ⟨first, later⟩ := List.nodup_cons.mp once
    have missing : p.watches fd = none := free _ List.mem_cons_self
    simp only [addAll] at taken
    obtain ⟨plain', ⟨fits, view⟩ | ⟨failed, -⟩⟩ := dwPollAdd_spec plain missing (i2l event.code fd)
    · rw [if_pos fits] at taken
      have others : ∀ e' ∈ es, (dwPollAdd p fd dwPollIn (i2l event.code fd)).1.watches e'.1 = none := by
        intro e' mem
        have other : e'.1 ≠ fd := by
          rintro rfl
          exact first (List.mem_map.mpr ⟨e', mem, rfl⟩)
        rw [view, if_neg other]
        exact free e' (List.mem_cons_of_mem _ mem)
      obtain ⟨plain'', view'⟩ := ih plain' later others taken
      refine ⟨plain'', fun k aux => ?_⟩
      rw [view' k aux, view k, List.map_cons, List.mem_cons]
      by_cases same : k = fd
      · subst same
        simp [missing, eq_comm]
      · simp [same]
    · rw [if_neg failed] at taken
      cases taken

section Start

variable {cfg : Config}

theorem watchAll_each {listenSocks : Fin cfg.threads → List Nat} {is : List (Fin cfg.threads)}
    {polls : Fin cfg.threads → DwPoll} (taken : watchAll cfg listenSocks is = .ok polls) :
    ∀ i ∈ is, addAll (dwPollInit cfg.pollMode) (watchList cfg (listenSocks i) i) = .ok (polls i) := by
  induction is generalizing polls with
  | nil =>
    intro i mem
    cases mem
  | cons i is ih =>
    rw [watchAll] at taken
    split at taken
    · rename_i p polls' added rest
      cases taken
      intro i' mem
      by_cases same : i' = i
      · rw [same, Function.update_self]
        exact added
      · rw [Function.update_of_ne same]
        exact ih rest i' ((List.mem_cons.mp mem).resolve_left same)
    · cases taken
    · cases taken

/-- The descriptors that a worker adds are distinct. -/
theorem nodup_watchList {socks : List Nat} (once : socks.Nodup)
    (listens : ∀ fd ∈ socks, ∃ e : Fin cfg.binds × Fin cfg.threads, fd = cfg.fd (.listen e.2 e.1))
    (i : Fin cfg.threads) :
    ((watchList cfg socks i).map Prod.fst).Nodup := by
  let listen (e : Fin cfg.binds × Fin cfg.threads) : Own cfg.threads cfg.binds cfg.devices := .listen e.2 e.1
  obtain ⟨es, rfl⟩ : ∃ es : List (Fin cfg.binds × Fin cfg.threads), socks = es.map fun e => cfg.fd (listen e) := by
    have mem : socks ∈ Set.range (List.map fun e => cfg.fd (listen e)) := by
      rw [Set.range_list_map]
      intro fd inside
      obtain ⟨e, same⟩ := listens fd inside
      exact ⟨e, same.symm⟩
    obtain ⟨es, same⟩ := mem
    exact ⟨es, same.symm⟩
  have distinct : (es.map listen).Nodup := by
    refine List.Nodup.of_map cfg.fd ?_
    rwa [List.map_map]
  let ours : List (Own cfg.threads cfg.binds cfg.devices) :=
    (if cfg.acceptMode ≠ .parent ∨ i.val = 0 then es.map listen else []) ++ [.termination, .timer i] ++
      (if i.val = 0 then [.stat] else []) ++ (List.finRange cfg.devices).map (.storeReply i) ++
      (if cfg.acceptMode = .parent then [.dispatch i] else [])
  have names : (watchList cfg (es.map fun e => cfg.fd (listen e)) i).map Prod.fst = ours.map cfg.fd := by
    simp only [watchList, ours, List.map_append, List.map_map]
    congr 1
    · congr 1
      · congr 1
        · congr 1
          split <;> simp [Function.comp_def]
        · split <;> rfl
    · split <;> rfl
  rw [names]
  refine List.Nodup.map cfg.fd_injective ?_
  have stores :
      ((List.finRange cfg.devices).map fun d => (.storeReply i d : Own cfg.threads cfg.binds cfg.devices)).Nodup :=
    (List.nodup_finRange _).map fun d d' same => by cases same; rfl
  simp only [ours]
  split_ifs <;> simp [List.nodup_append, distinct, stores, listen] <;> grind

variable {storageFd : Nat → Nat} {files : Nat → Mem} {sent : Nat → List Request} {s : System cfg}

theorem start_cases (started : start cfg storageFd files sent = .ok s) :
    ∃ b done polls, Booted b done ∧ watchAll cfg b.listenSocks (List.finRange cfg.threads) = .ok polls ∧
      s = ⟨b.node, b.listenSocks, polls, fun _ => [], fun _ => .polling, 0, fun _ => none, 0, fun k => stream (sent k),
        [], [], []⟩ := by
  simp only [start] at started
  split at started
  · cases started
  · rename_i b bound
    obtain ⟨done, boot⟩ := (booted_init cfg.devices storageFd files).all
      (nodup_bindings cfg) (fun _ _ => List.not_mem_nil) bound
    cases watched : watchAll cfg b.listenSocks (List.finRange cfg.threads) with
    | error e =>
      rw [watched] at started
      cases started
    | ok polls =>
      rw [watched] at started
      cases started
      exact ⟨b, done, polls, boot, watched, rfl⟩

/-- At the start no client has a place. -/
theorem placed_start (started : start cfg storageFd files sent = .ok s) : Placed s fun _ => none := by
  obtain ⟨b, done, polls, boot, watched, rfl⟩ := start_cases started
  have table (t : Fin cfg.threads) : (polls t).Plain ∧ ∀ fd aux, (polls t).watches fd = some aux ↔
      (fd, aux) ∈ (watchList cfg (b.listenSocks t) t).map fun e => (e.1, i2l e.2.code e.1) := by
    obtain ⟨plain, empty⟩ := plain_init cfg.pollMode
    obtain ⟨plain', view⟩ := addAll_watches plain
      (nodup_watchList (boot.once t) (fun fd mem => (boot.listens t fd mem).imp fun _ => And.right) t)
      (fun e _ => empty e.1) (watchAll_each watched t (List.mem_finRange t))
    refine ⟨plain', fun fd aux => ?_⟩
    rw [view, empty]
    simp
  refine ⟨⟨fun _ => rfl, fun _ _ _ peer => (by cases peer), fun _ _ peer => (by cases peer), fun _ _ => rfl⟩,
    ⟨fun c fd sock => Or.inl (boot.socks c fd sock), fun _ _ slot => (by cases slot), boot.idle⟩, ?_,
    fun t => ⟨[], rfl, List.nodup_nil, fun c => ?_⟩, ⟨fun t => (table t).1, fun t fd aux => ?_⟩, ?_, fun c => ?_, ?_⟩
  · refine ⟨fun j fd x => ?_, fun _ _ _ _ at_ => (by cases at_), fun _ _ at_ => (by cases at_),
      fun _ _ busy => (by cases busy), fun _ => ⟨fun _ at_ => (by cases at_), fun _ _ at_ => (by cases at_)⟩⟩
    exact ⟨fun here => (by cases here), False.elim⟩
  · simp [view]
  · rw [(table t).2 fd aux]
    simp [view, registered]
  · refine ⟨fun a => ?_, List.nodup_nil, fun _ => ⟨rfl, fun _ _ here => (by cases here)⟩⟩
    simp [view]
  · simp [view]
  · intro t fd mem
    obtain ⟨e, -, same⟩ := boot.listens t fd mem
    exact same ▸ Set.mem_range_self _

end Start

end ThreadStart
