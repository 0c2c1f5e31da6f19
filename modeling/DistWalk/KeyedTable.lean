import Mathlib

/-!
# Unordered tables with keys

A table is a list of entries with distinct keys, in no particular order: new
entries go to its end, and an entry is deleted by moving the last one into its
place. What can be looked up after each change depends on what could be looked
up before, not on the order. Nothing below depends on what the entries are.
-/

namespace KeyedTable

open scoped List

universe u v

variable {α : Type u} {κ : Type v} [DecidableEq κ] (key : α → κ)

/-- The first position of the key, or the length of the table. -/
def position (k : κ) (l : List α) : Nat := l.findIdx fun a => decide (key a = k)

/-- The entry of a key. -/
def lookup (l : List α) (k : κ) : Option α := l.find? fun a => decide (key a = k)

/-- No key stands twice. -/
def Keyed (l : List α) : Prop := (l.map key).Nodup

/-- Shorten the table by one, the last entry moved to position `i` unless it stands there. -/
def swapDelete (l : List α) (i : Nat) : List α :=
  match l.getLast? with
  | none => []
  | some last => if i < l.length - 1 then l.dropLast.set i last else l.dropLast

theorem swapDelete_perm (l : List α) {i : Nat} (hi : i < l.length) :
    (l[i] :: swapDelete l i).Perm l := by
  have nonempty : l ≠ [] := List.ne_nil_of_length_pos (by omega)
  have split := List.dropLast_append_getLast nonempty
  have front : l.dropLast.length = l.length - 1 := List.length_dropLast
  have ends : (l.dropLast ++ [l.getLast nonempty]).Perm (l.getLast nonempty :: l.dropLast) :=
    List.perm_append_singleton _ _
  rw [split] at ends
  rw [swapDelete, List.getLast?_eq_getLast_of_ne_nil nonempty]
  by_cases inner : i < l.length - 1
  · simp only [if_pos inner]
    have within : i < l.dropLast.length := by omega
    have here : l.dropLast[i] = l[i] := List.getElem_dropLast _
    have moved := List.set_perm_cons_eraseIdx within (l.getLast nonempty)
    have taken := List.getElem_cons_eraseIdx_perm within
    rw [here] at taken
    calc l[i] :: l.dropLast.set i (l.getLast nonempty)
        ~ l[i] :: l.getLast nonempty :: l.dropLast.eraseIdx i := moved.cons _
      _ ~ l.getLast nonempty :: l[i] :: l.dropLast.eraseIdx i := List.Perm.swap _ _ _
      _ ~ l.getLast nonempty :: l.dropLast := taken.cons _
      _ ~ l := ends.symm
  · simp only [if_neg inner]
    have last : l.getLast nonempty = l[i] := by
      rw [List.getLast_eq_getElem]
      congr 1
      omega
    rw [last] at ends
    exact ends.symm

section Keyed

variable {key} {l : List α}

theorem lookup_eq_some (h : Keyed key l) {k : κ} {a : α} :
    lookup key l k = some a ↔ a ∈ l ∧ key a = k := by
  rw [lookup]
  constructor
  · intro found
    have same := List.find?_some found
    exact ⟨List.mem_of_find?_eq_some found, of_decide_eq_true same⟩
  · rintro ⟨member, rfl⟩
    cases found : l.find? fun b => decide (key b = key a) with
    | none => simpa using List.find?_eq_none.mp found a member
    | some b =>
      have same := List.find?_some found
      have inside := List.mem_of_find?_eq_some found
      rw [List.inj_on_of_nodup_map h inside member (by simpa using same)]

theorem lookup_eq_none {k : κ} : lookup key l k = none ↔ ∀ a ∈ l, key a ≠ k := by
  simp [lookup]

/-- The order of the entries does not matter. -/
theorem lookup_perm {l' : List α} (h : Keyed key l) (perm : l.Perm l') (k : κ) :
    lookup key l' k = lookup key l k := by
  have h' : Keyed key l' := (perm.map key).nodup_iff.mp h
  ext a
  rw [lookup_eq_some h', lookup_eq_some h, perm.mem_iff]

theorem lookup_cons (a : α) (l : List α) (k : κ) :
    lookup key (a :: l) k = if key a = k then some a else lookup key l k := by
  simp only [lookup, List.find?_cons]
  by_cases same : key a = k
  · simp [same]
  · simp [same]

theorem position_lt {k : κ} : position key k l < l.length ↔ lookup key l k ≠ none := by
  rw [position, List.findIdx_lt_length, ne_eq, lookup_eq_none]
  simp

theorem position_le (k : κ) (l : List α) : position key k l ≤ l.length := List.findIdx_le_length

theorem key_position {k : κ} (h : position key k l < l.length) : key l[position key k l] = k := by
  have found := @List.findIdx_getElem α (fun a => decide (key a = k)) l h
  exact of_decide_eq_true found

theorem lookup_position (h : Keyed key l) {k : κ} (hi : position key k l < l.length) :
    lookup key l k = some l[position key k l] :=
  (lookup_eq_some h).mpr ⟨List.getElem_mem hi, key_position hi⟩

/-- An entry stands at the position of its key. -/
theorem position_getElem (h : Keyed key l) {i : Nat} (hi : i < l.length) :
    position key (key l[i]) l = i := by
  have found : position key (key l[i]) l < l.length :=
    position_lt.mpr (by rw [(lookup_eq_some h).mpr ⟨List.getElem_mem hi, rfl⟩]; simp)
  have same := key_position found
  have foundKey : position key (key l[i]) l < (l.map key).length := by simpa using found
  have hiKey : i < (l.map key).length := by simpa using hi
  have first : (l.map key)[position key (key l[i]) l] = (l.map key)[i] := by simpa using same
  exact (List.Nodup.getElem_inj_iff h).mp first

/-! ## Changes -/

theorem keyed_append {a : α} (h : Keyed key l) (fresh : lookup key l (key a) = none) :
    Keyed key (l ++ [a]) := by
  have other : key a ∉ l.map key := by
    rw [List.mem_map]
    rintro ⟨b, member, same⟩
    exact lookup_eq_none.mp fresh b member same
  have perm : ((l ++ [a]).map key).Perm (key a :: l.map key) := by
    rw [List.map_append]
    exact List.perm_append_singleton _ _
  exact perm.nodup_iff.mpr (List.nodup_cons.mpr ⟨other, h⟩)

theorem lookup_append {a : α} (h : Keyed key l) (fresh : lookup key l (key a) = none) (k : κ) :
    lookup key (l ++ [a]) k = if key a = k then some a else lookup key l k := by
  rw [← lookup_cons, ← lookup_perm (keyed_append h fresh) (List.perm_append_singleton a l)]

omit [DecidableEq κ] in
theorem keyed_swapDelete (h : Keyed key l) {i : Nat} (hi : i < l.length) :
    Keyed key (swapDelete l i) := by
  have all : ((l[i] :: swapDelete l i).map key).Nodup := ((swapDelete_perm l hi).map key).nodup_iff.mpr h
  exact (List.nodup_cons.mp all).2

theorem lookup_swapDelete (h : Keyed key l) {i : Nat} (hi : i < l.length) (k : κ) :
    lookup key (swapDelete l i) k = if key l[i] = k then none else lookup key l k := by
  have perm := swapDelete_perm l hi
  have keyed : Keyed key (l[i] :: swapDelete l i) := (perm.map key).nodup_iff.mpr h
  have before := lookup_perm keyed perm k
  rw [lookup_cons] at before
  rw [before]
  split
  · rename_i same
    rw [lookup_eq_none]
    intro a member e
    have out := (List.nodup_cons.mp keyed).1
    exact out (List.mem_map.mpr ⟨a, member, e.trans same.symm⟩)
  · rfl

omit [DecidableEq κ] in
theorem map_set {i : Nat} {a : α} (hi : i < l.length) (same : key a = key l[i]) :
    (l.set i a).map key = l.map key := by
  have hiKey : i < (l.map key).length := by simpa using hi
  have here : key l[i] = (l.map key)[i] := by simp
  rw [List.map_set, same, here, List.set_getElem_self]

omit [DecidableEq κ] in
theorem keyed_set (h : Keyed key l) {i : Nat} {a : α} (hi : i < l.length) (same : key a = key l[i]) :
    Keyed key (l.set i a) := by
  rw [Keyed, map_set hi same]
  exact h

theorem lookup_set (h : Keyed key l) {i : Nat} {a : α} (hi : i < l.length) (same : key a = key l[i])
    (k : κ) : lookup key (l.set i a) k = if key a = k then some a else lookup key l k := by
  have perm := List.set_perm_cons_eraseIdx hi a
  have before := List.getElem_cons_eraseIdx_perm hi
  rw [← lookup_perm (keyed_set h hi same) perm, lookup_cons]
  split
  · rfl
  · rename_i other
    have keyed : Keyed key (l[i] :: l.eraseIdx i) := (before.map key).nodup_iff.mpr h
    have whole := lookup_perm keyed before k
    rw [lookup_cons, if_neg (same ▸ other)] at whole
    exact whole.symm

end Keyed

end KeyedTable
