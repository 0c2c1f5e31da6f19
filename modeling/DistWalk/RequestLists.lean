import DistWalk.ReceiveQueue

/-!
# The request list of a connection

`req_list` heads the requests of a connection as long as every call that resets a
connection finds the list empty: `conn_reset` releases the requests and keeps the
pointer to the first of them. The id -1, which the counter of ids reaches once in
2^32 requests, marks its own slot as free.
-/

namespace RequestLists

open Message Connection Worker Node Requests Transitions ThreadedBlocks ReceiveQueue

/-- From `req_list` of connection `c` the requests `l` are reached, each once, and they are
the allocated requests of the connection. -/
structure Listed (w : State) (c : Nat) (l : List Nat) : Prop where
  head : (w.conns c).reqList = l.head?
  linked : Linked (fun s => (w.reqs s).next) (fun s => (w.reqs s).prev) none l
  nodup : l.Nodup
  members : ∀ s, s ∈ l ↔ (w.reqs s).reqId ≠ noReq ∧ (w.reqs s).connId = c

def Lists (w : State) : Prop := ∀ c, ∃ l, Listed w c l

/-! ## The calls -/

inductive Call
  | connReqAdd (c : Nat)
  | connReqRemove (c slot : Nat)
  | connDelId (c : Nat)
  | connFree (c : Nat)
  | connAlloc (sock : Nat) (target : Addr) (proto : Proto)

def Call.run (w : State) : Call → State
  | .connReqAdd c => (Worker.connReqAdd w c).1
  | .connReqRemove c slot => Worker.connReqRemove w c slot
  | .connDelId c => Worker.connDelId w c
  | .connFree c => Worker.connFree w c
  | .connAlloc sock target proto => (Worker.connAlloc w sock target proto).1

/-- What the lists consist of. -/
def links (r : ReqInfo) : Nat × Nat × Option Nat × Option Nat := (r.reqId, r.connId, r.prev, r.next)

/-- The two states differ in nothing that the five functions own. -/
structure SameLists (w w' : State) : Prop where
  links : ∀ s, links (w'.reqs s) = links (w.reqs s)
  list : ∀ c, (w'.conns c).reqList = (w.conns c).reqList
  busy : ∀ c, (w'.conns c).busy = (w.conns c).busy

/-- One of the calls, or whatever else happens between two of them. -/
inductive Event
  | call (k : Call)
  | other (w' : State)

def Event.next (w : State) : Event → State
  | .call k => k.run w
  | .other w' => w'

def run (w : State) (events : List Event) : State := events.foldl Event.next w

/-- Requests are added to allocated connections, and removed from the one they belong to. -/
def Event.Valid (w : State) : Event → Prop
  | .call (.connReqAdd c) => (w.conns c).busy = true
  | .call (.connReqRemove c slot) => (w.reqs slot).reqId ≠ noReq ∧ (w.reqs slot).connId = c
  | .call _ => True
  | .other w' => SameLists w w'

/-- The event does not leave a dangling head, and no request gets the id -1. -/
def Event.Conforms (w : State) : Event → Prop
  | .call (.connReqAdd _) => w.lastReqs = noReq → (w.reqs (slotOf w.lastReqs)).reqId ≠ noReq
  | .call (.connDelId c) => (w.conns c).reqList = none
  | .call (.connFree c) => (w.conns c).reqList = none
  | _ => True

/-- The list of a connection that was closed, freed or just allocated is empty. -/
def Event.Emptied (w : State) : Event → Prop
  | .call (.connDelId c) => ((Worker.connDelId w c).conns c).reqList = none
  | .call (.connFree c) => ((Worker.connFree w c).conns c).reqList = none
  | .call (.connAlloc sock target proto) => ∀ c, (Worker.connAlloc w sock target proto).2 = some c →
      ((Worker.connAlloc w sock target proto).1.conns c).reqList = none
  | _ => True

section Listed

variable {w w' : State} {c slot : Nat} {l : List Nat}

theorem links_eq {r : ReqInfo} {id c : Nat} {prev next : Option Nat} (h : links r = (id, c, prev, next)) :
    r.reqId = id ∧ r.connId = c ∧ r.prev = prev ∧ r.next = next := by
  simpa only [links, Prod.mk.injEq] using h

theorem Listed.congr (h : Listed w c l) (list : (w'.conns c).reqList = (w.conns c).reqList)
    (inside : ∀ s ∈ l, links (w'.reqs s) = links (w.reqs s))
    (members : ∀ s, (w'.reqs s).reqId ≠ noReq ∧ (w'.reqs s).connId = c ↔
      (w.reqs s).reqId ≠ noReq ∧ (w.reqs s).connId = c) : Listed w' c l where
  head := list.trans h.head
  linked := h.linked.congr fun s hs =>
    have e := links_eq (inside s hs)
    ⟨e.2.2.2, e.2.2.1⟩
  nodup := h.nodup
  members s := (h.members s).trans (members s).symm

theorem SameLists.listed (k : SameLists w w') (h : Listed w c l) : Listed w' c l :=
  h.congr (k.list c) (fun s _ => k.links s) fun s => by
    have e := links_eq (k.links s)
    rw [e.1, e.2.1]

/-- Lists of different connections share no request. -/
theorem Listed.apart {d : Nat} {l' : List Nat} (h : Listed w c l) (h' : Listed w d l') (other : c ≠ d)
    {s : Nat} (hs : s ∈ l) : s ∉ l' := fun hs' =>
  other (((h.members s).mp hs).2.symm.trans ((h'.members s).mp hs').2)

/-! ## Adding -/

/-- The request that `conn_req_add` takes is the new head. -/
theorem connReqAdd_reqs (free : (w.reqs (slotOf w.lastReqs)).reqId = noReq) (h : Listed w c l) (s : Nat) :
    links ((connReqAdd w c).1.reqs s) =
      if s = slotOf w.lastReqs then (w.lastReqs, c, none, l.head?)
      else if l.head? = some s then
        ((w.reqs s).reqId, (w.reqs s).connId, some (slotOf w.lastReqs), (w.reqs s).next)
      else links (w.reqs s) := by
  simp only [connReqAdd, reqAlloc, free, ne_eq, not_true_eq_false, if_false, setReq_self]
  simp only [State.setConn, State.setReq, h.head]
  cases l with
  | nil =>
    by_cases own : s = slotOf w.lastReqs
    · subst own
      simp [setPrev, links]
    · simp [setPrev, links, own]
  | cons y l =>
    have taken := ((h.members y).mp List.mem_cons_self).1
    have apart : y ≠ slotOf w.lastReqs := by
      rintro rfl
      exact taken free
    by_cases own : s = slotOf w.lastReqs
    · subst own
      simp [setPrev, links, State.setReq, apart, Ne.symm apart]
    · by_cases first : y = s
      · subst first
        simp [setPrev, links, State.setReq, own]
      · simp [setPrev, links, State.setReq, own, first, Ne.symm first]

theorem setPrev_conns (w : State) (slot prev : Option Nat) : (setPrev w slot prev).conns = w.conns := by
  cases slot <;> rfl

theorem connReqAdd_conns (free : (w.reqs (slotOf w.lastReqs)).reqId = noReq) (c : Nat) :
    (connReqAdd w c).1.conns =
      Function.update w.conns c { w.conns c with reqList := some (slotOf w.lastReqs) } := by
  simp only [connReqAdd, reqAlloc, free, ne_eq, not_true_eq_false, if_false, State.setConn, setPrev_conns]
  rfl

theorem Listed.added (h : Listed w c l) (free : (w.reqs (slotOf w.lastReqs)).reqId = noReq)
    (named : w.lastReqs ≠ noReq) : Listed (connReqAdd w c).1 c (slotOf w.lastReqs :: l) := by
  have reqs := connReqAdd_reqs free h
  have fresh : slotOf w.lastReqs ∉ l := fun inside => ((h.members _).mp inside).1 free
  have other : ∀ x ∈ l, x ≠ slotOf w.lastReqs := by
    rintro x hx rfl
    exact fresh hx
  have own : links ((connReqAdd w c).1.reqs (slotOf w.lastReqs)) = (w.lastReqs, c, none, l.head?) := by
    rw [reqs, if_pos rfl]
  have own := links_eq own
  refine ⟨?_, ?_, List.nodup_cons.mpr ⟨fresh, h.nodup⟩, fun s => ?_⟩
  · rw [connReqAdd_conns free, Function.update_self]
    rfl
  · refine h.linked.push fresh h.nodup own.2.2.2 own.2.2.1 (fun x hx => ?_) fun x hx => ?_
    · have here := reqs x
      rw [if_neg (other x hx)] at here
      split at here
      · rename_i first
        rw [if_pos first]
        exact (links_eq here).2.2.1
      · rename_i later
        rw [if_neg later]
        exact (links_eq here).2.2.1
    · have here := reqs x
      rw [if_neg (other x hx)] at here
      split at here <;> exact (links_eq here).2.2.2
  · by_cases at_slot : s = slotOf w.lastReqs
    · subst at_slot
      simp [own.1, own.2.1, named]
    · have here := reqs s
      rw [if_neg at_slot] at here
      have same : ((connReqAdd w c).1.reqs s).reqId = (w.reqs s).reqId ∧
          ((connReqAdd w c).1.reqs s).connId = (w.reqs s).connId := by
        split at here
        · exact ⟨(links_eq here).1, (links_eq here).2.1⟩
        · exact ⟨(links_eq here).1, (links_eq here).2.1⟩
      rw [List.mem_cons, same.1, same.2, ← h.members s]
      exact or_iff_right at_slot

/-- The lists of the other connections. -/
theorem Listed.added_other {d : Nat} {l' : List Nat} (h : Listed w c l) (h' : Listed w d l') (other : d ≠ c)
    (free : (w.reqs (slotOf w.lastReqs)).reqId = noReq) : Listed (connReqAdd w c).1 d l' := by
  have reqs := connReqAdd_reqs free h
  refine h'.congr ?_ (fun s hs => ?_) fun s => ?_
  · rw [connReqAdd_conns free, Function.update_of_ne other]
  · have elsewhere : ¬ l.head? = some s := fun first =>
      h'.apart h other hs (List.mem_of_mem_head? first)
    have taken : s ≠ slotOf w.lastReqs := by
      rintro rfl
      exact ((h'.members _).mp hs).1 free
    rw [reqs, if_neg taken, if_neg elsewhere]
  · have here := reqs s
    by_cases at_slot : s = slotOf w.lastReqs
    · subst at_slot
      rw [if_pos rfl] at here
      rw [(links_eq here).1, (links_eq here).2.1]
      simp [free, Ne.symm other]
    · rw [if_neg at_slot] at here
      have same : ((connReqAdd w c).1.reqs s).reqId = (w.reqs s).reqId ∧
          ((connReqAdd w c).1.reqs s).connId = (w.reqs s).connId := by
        split at here
        · exact ⟨(links_eq here).1, (links_eq here).2.1⟩
        · exact ⟨(links_eq here).1, (links_eq here).2.1⟩
      rw [same.1, same.2]

/-! ## Removing -/

theorem shiftNewer_links (size fuel : Nat) (w : State) (start : Option Nat) (s : Nat) :
    links ((shiftNewer size fuel w start).reqs s) = links (w.reqs s) := by
  induction fuel generalizing w start with
  | zero => rfl
  | succ fuel ih =>
    cases start with
    | none => rfl
    | some t => exact (ih _ _).trans (setReq_keeps links w (by rfl) s)

theorem reclaim_links (w : State) (c slot s : Nat) :
    links ((reclaim w c slot).reqs s) = links (w.reqs s) := by
  unfold reclaim
  split
  · rfl
  · split
    · exact shiftNewer_links _ _ _ _ _
    · rfl

theorem reclaim_conns (w : State) (c slot d : Nat) :
    ((reclaim w c slot).conns d).reqList = (w.conns d).reqList ∧
      ((reclaim w c slot).conns d).busy = (w.conns d).busy := by
  unfold reclaim
  split
  · exact ⟨rfl, rfl⟩
  · split
    · rw [shiftNewer_conns]
      by_cases own : d = c
      · subst own
        simp [State.setConn, defragment]
      · simp [State.setConn, own]
    · exact ⟨rfl, rfl⟩

theorem sameLists_reclaim (w : State) (c slot : Nat) : SameLists w (reclaim w c slot) :=
  ⟨reclaim_links w c slot, fun d => (reclaim_conns w c slot d).1, fun d => (reclaim_conns w c slot d).2⟩

/-- The neighbours of a request that is unlinked. -/
theorem reqUnlink_links {x : Nat} (other : x ≠ slot) :
    links ((reqUnlink w slot).1.reqs x) = ((w.reqs x).reqId, (w.reqs x).connId,
      if (w.reqs slot).next = some x then (w.reqs slot).prev else (w.reqs x).prev,
      if (w.reqs slot).prev = some x then (w.reqs slot).next else (w.reqs x).next) := by
  rw [reqUnlink_other w other]
  rfl

theorem reqUnlink_members (c x : Nat) :
    ((reqUnlink w slot).1.reqs x).reqId ≠ noReq ∧ ((reqUnlink w slot).1.reqs x).connId = c ↔
      x ≠ slot ∧ (w.reqs x).reqId ≠ noReq ∧ (w.reqs x).connId = c := by
  by_cases own : x = slot
  · subst own
    simp [reqUnlink_reqId]
  · have same := links_eq (reqUnlink_links (w := w) own)
    rw [same.1, same.2.1]
    simp [own]

/-- Unlinking a request of another list. -/
theorem Listed.unlinked_other {d : Nat} {l' : List Nat} (h' : Listed w d l')
    (linked : Linked (fun s => (w.reqs s).next) (fun s => (w.reqs s).prev) none l) (own : slot ∈ l)
    (apart : ∀ s ∈ l', s ∉ l) : Listed (reqUnlink w slot).1 d l' := by
  obtain ⟨a, t, rfl⟩ := List.append_of_mem own
  refine h'.congr (by rw [reqUnlink_conns]) (fun s hs => ?_) fun s => ?_
  · have here : s ≠ slot := by
      rintro rfl
      exact apart s hs own
    have forth : ¬ (w.reqs slot).next = some s := by
      intro e
      have first : t.head? = some s := linked.next_eq.symm.trans e
      exact apart s hs (List.mem_append_right _ (List.mem_cons_of_mem _ (List.mem_of_mem_head? first)))
    have back : ¬ (w.reqs slot).prev = some s := by
      intro e
      have last : a.getLast? = some s := by
        rw [← e]
        simpa using linked.prev_eq.symm
      exact apart s hs (List.mem_append_left _ (List.mem_of_getLast? last))
    rw [reqUnlink_links here, if_neg forth, if_neg back]
    rfl
  · rw [reqUnlink_members]
    refine and_iff_right_of_imp fun inside => ?_
    rintro rfl
    exact apart s ((h'.members s).mpr inside) own

theorem Listed.removed (h : Listed w c l) (own : slot ∈ l) :
    Listed (connReqRemove w c slot) c (l.erase slot) := by
  have h := (sameLists_reclaim w c slot).listed h
  rw [connReqRemove]
  generalize reclaim w c slot = v at h
  obtain ⟨a, t, rfl⟩ := List.append_of_mem own
  have fresh := (List.nodup_cons.mp (List.nodup_middle.mp h.nodup)).1
  have rest : (a ++ slot :: t).erase slot = a ++ t := by
    rw [List.erase_append_right _ fun inA => fresh (List.mem_append_left t inA), List.erase_cons_head]
  have reqs := dropHead_reqs v c slot
  rw [rest]
  refine ⟨?_, ?_, (List.nodup_cons.mp (List.nodup_middle.mp h.nodup)).2, fun s => ?_⟩
  · rw [reqUnlink_conns, dropHead_conn, Function.update_self]
    simp only [h.head]
    cases a with
    | nil =>
      rw [List.nil_append, List.head?_cons, if_pos rfl]
      exact h.linked.next_eq
    | cons x a =>
      have other : ¬ some x = some slot := by
        intro e
        cases e
        exact fresh (by simp)
      rw [List.cons_append, List.head?_cons, if_neg other]
      rfl
  · have other : ∀ x ∈ a ++ t, x ≠ slot := by
      rintro x hx rfl
      exact fresh hx
    refine h.linked.unlink h.nodup (fun x e => by cases e) ⟨fun x hx => ?_, fun x hx => ?_⟩
    · have links := links_eq (reqUnlink_links (w := dropHead v c slot) (other x hx))
      rw [links.2.2.2, reqs]
    · have links := links_eq (reqUnlink_links (w := dropHead v c slot) (other x hx))
      rw [links.2.2.1, reqs]
  · rw [reqUnlink_members, reqs, ← h.members s]
    simp only [List.mem_append, List.mem_cons]
    constructor
    · intro inside
      exact ⟨fun e => fresh (by rw [← e]; simpa using inside), by tauto⟩
    · rintro ⟨other, inside⟩
      tauto

theorem Listed.removed_other {d : Nat} {l' : List Nat} (h : Listed w c l) (h' : Listed w d l')
    (other : d ≠ c) (own : slot ∈ l) : Listed (connReqRemove w c slot) d l' := by
  have h := (sameLists_reclaim w c slot).listed h
  have h' := (sameLists_reclaim w c slot).listed h'
  rw [connReqRemove]
  generalize reclaim w c slot = v at h h'
  have reqs := dropHead_reqs v c slot
  have dropped : Listed (dropHead v c slot) d l' := by
    refine h'.congr ?_ (fun s _ => by rw [reqs]) fun s => by rw [reqs]
    rw [dropHead_conn, Function.update_of_ne other]
  exact dropped.unlinked_other (by rw [reqs]; exact h.linked) own fun s hs => h'.apart h other hs

end Listed

/-! ## A step and a run -/

/-- Besides the lists: a connection that is not allocated has none. -/
structure Kept (w : State) : Prop where
  lists : Lists w
  idle : ∀ c, (w.conns c).busy = false → (w.conns c).reqList = none

theorem kept_init (storageDevices : Nat) (storageFd : Nat → Nat) (files : Nat → ByteMemory.Mem)
    (enableDefrag : Bool) : Kept (.init storageDevices storageFd files enableDefrag) :=
  ⟨fun c => ⟨[], rfl, trivial, List.nodup_nil, fun s => by simp [State.init, ReqInfo.init]⟩,
    fun _ _ => rfl⟩

section Step

variable {w : State}

theorem SameLists.kept {w' : State} (k : SameLists w w') (h : Kept w) : Kept w' where
  lists c := (h.lists c).imp fun _ => k.listed
  idle c idle := (k.list c).trans (h.idle c ((k.busy c).symm.trans idle))

theorem connReqAdd_full {c : Nat} (full : (w.reqs (slotOf w.lastReqs)).reqId ≠ noReq) :
    (connReqAdd w c).1 = { w with lastReqs := (w.lastReqs + 1) % 2 ^ 32 } := by
  simp [connReqAdd, reqAlloc, full]

theorem Kept.connReqAdd {c : Nat} (h : Kept w) (busy : (w.conns c).busy = true)
    (named : w.lastReqs = noReq → (w.reqs (slotOf w.lastReqs)).reqId ≠ noReq) :
    Kept (connReqAdd w c).1 := by
  by_cases free : (w.reqs (slotOf w.lastReqs)).reqId = noReq
  · obtain ⟨l, listed⟩ := h.lists c
    refine ⟨fun d => ?_, fun d idle => ?_⟩
    · by_cases own : d = c
      · subst own
        exact ⟨_, listed.added free fun e => named e free⟩
      · exact (h.lists d).imp fun _ listed' => listed.added_other listed' own free
    · rw [connReqAdd_conns free] at idle ⊢
      by_cases own : d = c
      · subst own
        simp [busy] at idle
      · rw [Function.update_of_ne own] at idle ⊢
        exact h.idle d idle
  · rw [connReqAdd_full free]
    have same : SameLists w { w with lastReqs := (w.lastReqs + 1) % 2 ^ 32 } :=
      ⟨fun _ => rfl, fun _ => rfl, fun _ => rfl⟩
    exact same.kept h

theorem connReqRemove_busy (c slot d : Nat) :
    ((connReqRemove w c slot).conns d).busy = (w.conns d).busy := by
  rw [connReqRemove, reqUnlink_conns, dropHead_conn]
  by_cases own : d = c
  · subst own
    rw [Function.update_self]
    exact (reclaim_conns w d slot d).2
  · rw [Function.update_of_ne own]
    exact (reclaim_conns w c slot d).2

theorem Kept.connReqRemove {c slot : Nat} (h : Kept w) (live : (w.reqs slot).reqId ≠ noReq)
    (home : (w.reqs slot).connId = c) : Kept (connReqRemove w c slot) := by
  obtain ⟨l, listed⟩ := h.lists c
  have own := (listed.members slot).mpr ⟨live, home⟩
  refine ⟨fun d => ?_, fun d idle => ?_⟩
  · by_cases same : d = c
    · subst same
      exact ⟨_, listed.removed own⟩
    · exact (h.lists d).imp fun _ listed' => listed.removed_other listed' same own
  · rw [connReqRemove_busy] at idle
    have empty := h.idle d idle
    obtain ⟨l', listed'⟩ := h.lists d
    have nil : l' = [] := by
      rw [listed'.head] at empty
      exact List.head?_eq_none_iff.mp empty
    subst nil
    have other : d ≠ c := by
      rintro rfl
      exact absurd ((listed'.members slot).mpr ⟨live, home⟩) List.not_mem_nil
    exact (listed.removed_other listed' other own).head

/-- A connection changes in nothing but its socket and its buffers. -/
theorem Kept.setConn {c : Nat} {conn : ConnInfo} (h : Kept w) (list : conn.reqList = (w.conns c).reqList)
    (idle : conn.busy = false → conn.reqList = none) : Kept (w.setConn c conn) := by
  have same : ∀ d, ((w.setConn c conn).conns d).reqList = (w.conns d).reqList := by
    intro d
    by_cases own : d = c
    · subst own
      simpa [State.setConn] using list
    · simp [State.setConn, own]
  refine ⟨fun d => (h.lists d).imp fun _ listed => ?_, fun d free => ?_⟩
  · exact listed.congr (same d) (fun _ _ => rfl) fun _ => Iff.rfl
  · by_cases own : d = c
    · subst own
      simp only [State.setConn, Function.update_self] at free ⊢
      exact idle free
    · simp only [State.setConn, Function.update_of_ne own] at free ⊢
      exact h.idle d free

theorem Kept.next {e : Event} (h : Kept w) (valid : e.Valid w) (conforms : e.Conforms w) : Kept (e.next w) := by
  match e with
  | .other w' => exact SameLists.kept valid h
  | .call (.connReqAdd c) => exact h.connReqAdd valid conforms
  | .call (.connReqRemove c slot) => exact h.connReqRemove valid.1 valid.2
  | .call (.connDelId c) =>
    simp only [Event.next, Call.run, connDelId, connReset_empty conforms]
    exact h.setConn rfl fun idle => h.idle c idle
  | .call (.connFree c) =>
    simp only [Event.next, Call.run, connFree, connReset_empty conforms]
    exact h.setConn rfl fun _ => conforms
  | .call (.connAlloc sock target proto) =>
    simp only [Event.next, Call.run, connAlloc]
    split
    · exact h
    · exact h.setConn rfl fun idle => by simp [ConnInfo.claim] at idle

theorem Kept.emptied {e : Event} (h : Kept w) (conforms : e.Conforms w) : e.Emptied w := by
  match e with
  | .other w' => trivial
  | .call (.connReqAdd c) => trivial
  | .call (.connReqRemove c slot) => trivial
  | .call (.connDelId c) =>
    simp only [Event.Emptied, connDelId, connReset_empty conforms, State.setConn, Function.update_self]
    exact conforms
  | .call (.connFree c) =>
    simp only [Event.Emptied, connFree, connReset_empty conforms, State.setConn, Function.update_self]
    exact conforms
  | .call (.connAlloc sock target proto) =>
    simp only [Event.Emptied, connAlloc]
    split
    · simp
    · rename_i c found
      rintro d same
      cases same
      simp only [State.setConn, Function.update_self]
      exact h.idle c (by simpa using findIndex_holds found)

/-- The head of a list is an allocated request. -/
theorem Lists.head_live {c x : Nat} (h : Lists w) (head : (w.conns c).reqList = some x) :
    (w.reqs x).reqId ≠ noReq := by
  obtain ⟨l, listed⟩ := h c
  have inside : x ∈ l := List.mem_of_mem_head? (listed.head.symm.trans head)
  exact ((listed.members x).mp inside).1

/-- The requests of a list that is reset are free, and its head stays. -/
theorem connReset_head {c x : Nat} (head : (w.conns c).reqList = some x) :
    (((connReset w c).conns c).reqList = some x) ∧ ((connReset w c).reqs x).reqId = noReq := by
  refine ⟨by rw [connReset, connResetFrom_conns, head], ?_⟩
  rw [connReset, head]
  exact connResetFrom_releases _ _ _ (by simp [resetSlots])

/-- After a call that does not conform the head of some list is a free request. -/
theorem conforms_of_lists {e : Event} (h : Kept w) (lists : Lists (e.next w)) : e.Conforms w := by
  match e with
  | .other w' => trivial
  | .call (.connReqRemove c slot) => trivial
  | .call (.connAlloc sock target proto) => trivial
  | .call (.connReqAdd c) =>
    intro last free
    obtain ⟨l, listed⟩ := h.lists c
    have head : ((connReqAdd w c).1.conns c).reqList = some (slotOf w.lastReqs) := by
      rw [connReqAdd_conns free, Function.update_self]
    have own : links ((connReqAdd w c).1.reqs (slotOf w.lastReqs)) = (w.lastReqs, c, none, l.head?) := by
      rw [connReqAdd_reqs free listed, if_pos rfl]
    exact lists.head_live head ((links_eq own).1.trans last)
  | .call (.connDelId c) =>
    by_contra nonempty
    obtain ⟨x, head⟩ := Option.ne_none_iff_exists'.mp nonempty
    obtain ⟨kept, free⟩ := connReset_head head
    refine lists.head_live (c := c) (x := x) ?_ free
    simpa [Event.next, Call.run, connDelId, State.setConn] using kept
  | .call (.connFree c) =>
    by_contra nonempty
    obtain ⟨x, head⟩ := Option.ne_none_iff_exists'.mp nonempty
    obtain ⟨kept, free⟩ := connReset_head head
    refine lists.head_live (c := c) (x := x) ?_ free
    simpa [Event.next, Call.run, connFree, State.setConn] using kept

end Step

section Run

variable {w : State} {events : List Event}

theorem run_concat (w : State) (events : List Event) (e : Event) :
    run w (events ++ [e]) = e.next (run w events) := by
  rw [run, List.foldl_append]
  rfl

theorem kept_run (start : Kept w)
    (valid : ∀ done e, done ++ [e] <+: events → e.Valid (run w done))
    (conforms : ∀ done e, done ++ [e] <+: events → e.Conforms (run w done)) : Kept (run w events) := by
  induction events using List.reverseRecOn with
  | nil => exact start
  | append_singleton events e ih =>
    have before := ih (fun done e' h => valid done e' (h.trans (List.prefix_append _ _)))
      fun done e' h => conforms done e' (h.trans (List.prefix_append _ _))
    rw [run_concat]
    exact before.next (valid _ _ (List.prefix_refl _)) (conforms _ _ (List.prefix_refl _))

/-- As long as every list is right, every event has conformed. -/
theorem conforms_run (start : Kept w)
    (valid : ∀ done e, done ++ [e] <+: events → e.Valid (run w done))
    (lists : ∀ done, done <+: events → Lists (run w done)) :
    ∀ done e, done ++ [e] <+: events → e.Conforms (run w done) := by
  induction events using List.reverseRecOn with
  | nil =>
    intro done e first
    have := first.length_le
    simp at this
  | append_singleton events e ih =>
    have earlier := ih (fun done e' h => valid done e' (h.trans (List.prefix_append _ _)))
      fun done h => lists done (h.trans (List.prefix_append _ _))
    intro done e' part
    rcases List.prefix_concat_iff.mp part with same | before
    · obtain ⟨rfl, last⟩ := List.append_inj' same rfl
      cases last
      refine conforms_of_lists (kept_run start (fun d f h => ?_) earlier) ?_
      · exact valid d f (h.trans (List.prefix_append _ _))
      · rw [← run_concat]
        exact lists _ (List.prefix_refl _)
    · exact earlier done e' before

/-- In every run from the start the lists are those of the allocated requests, and empty
after closing, freeing and allocating a connection, exactly if every event conforms. -/
theorem lists_iff (storageDevices : Nat) (storageFd : Nat → Nat) (files : Nat → ByteMemory.Mem)
    (enableDefrag : Bool) (events : List Event)
    (valid : ∀ done e, done ++ [e] <+: events →
      e.Valid (run (.init storageDevices storageFd files enableDefrag) done)) :
    ((∀ done, done <+: events → Lists (run (.init storageDevices storageFd files enableDefrag) done)) ∧
      ∀ done e, done ++ [e] <+: events →
        e.Emptied (run (.init storageDevices storageFd files enableDefrag) done)) ↔
      ∀ done e, done ++ [e] <+: events →
        e.Conforms (run (.init storageDevices storageFd files enableDefrag) done) := by
  have start := kept_init storageDevices storageFd files enableDefrag
  refine ⟨fun right => conforms_run start valid right.1, fun conforms => ?_⟩
  have kept : ∀ done, done <+: events → Kept (run (.init storageDevices storageFd files enableDefrag) done) :=
    fun done part => kept_run start (fun d e h => valid d e (h.trans part))
      fun d e h => conforms d e (h.trans part)
  refine ⟨fun done part => (kept done part).lists, fun done e part => ?_⟩
  exact (kept done ((List.prefix_append done [e]).trans part)).emptied (conforms done e part)

end Run

/-! ## Closing a connection with a request -/

def noDevices : State := .init 0 (fun _ => 0) (fun _ _ => 0) false

/-- A request comes in and is answered before the connection is closed. -/
def answeredFirst : List Event :=
  [.call (.connAlloc 3 [] .tcp), .call (.connReqAdd 0), .call (.connReqRemove 0 0), .call (.connFree 0)]

/-- The connection is closed with the request on it, and its slot allocated again. -/
def closedFirst : List Event :=
  [.call (.connAlloc 3 [] .tcp), .call (.connReqAdd 0), .call (.connFree 0), .call (.connAlloc 4 [] .tcp)]

theorem each_of_four {P : List Event → Event → Prop} {a b c d : Event} (first : P [] a)
    (second : P [a] b) (third : P [a, b] c) (fourth : P [a, b, c] d) :
    ∀ done e, done ++ [e] <+: [a, b, c, d] → P done e := by
  intro done e part
  match done with
  | [] =>
    simp only [List.nil_append, List.cons_prefix_cons] at part
    rw [part.1]
    exact first
  | [x] =>
    simp only [List.cons_append, List.nil_append, List.cons_prefix_cons] at part
    rw [part.1, part.2.1]
    exact second
  | [x, y] =>
    simp only [List.cons_append, List.nil_append, List.cons_prefix_cons] at part
    rw [part.1, part.2.1, part.2.2.1]
    exact third
  | [x, y, z] =>
    simp only [List.cons_append, List.nil_append, List.cons_prefix_cons] at part
    rw [part.1, part.2.1, part.2.2.1, part.2.2.2.1]
    exact fourth
  | _ :: _ :: _ :: _ :: rest =>
    have short := part.length_le
    simp at short
    omega

theorem lists_iff_answered : Lists (run noDevices answeredFirst) := by
  have valid : ∀ done e, done ++ [e] <+: answeredFirst → e.Valid (run noDevices done) :=
    each_of_four trivial rfl ⟨by decide +kernel, rfl⟩ trivial
  have conforms : ∀ done e, done ++ [e] <+: answeredFirst → e.Conforms (run noDevices done) :=
    each_of_four trivial (by intro last; cases last) trivial rfl
  exact ((lists_iff 0 (fun _ => 0) (fun _ _ => 0) false answeredFirst valid).mpr conforms).1 _
    (List.prefix_refl _)

/-- The connection that is allocated again has a free request on its list. -/
theorem dangling_after_close :
    (∀ done e, done ++ [e] <+: closedFirst → e.Valid (run noDevices done)) ∧
    ((run noDevices closedFirst).conns 0).reqList = some 0 ∧
    ((run noDevices closedFirst).reqs 0).reqId = noReq ∧
    ¬ Event.Emptied (run noDevices (closedFirst.take 3)) (.call (.connAlloc 4 [] .tcp)) ∧
    ¬ Lists (run noDevices closedFirst) := by
  have head : ((run noDevices closedFirst).conns 0).reqList = some 0 := by decide +kernel
  have free : ((run noDevices closedFirst).reqs 0).reqId = noReq := by decide +kernel
  refine ⟨each_of_four trivial rfl trivial trivial, head, free, fun emptied => ?_,
    fun lists => lists.head_live head free⟩
  have again := emptied 0 (by decide +kernel)
  exact absurd (head.symm.trans again) (by simp)

end RequestLists
