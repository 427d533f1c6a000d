import Mathlib.Logic.Function.Basic

/-!
# Tables changed in one place

A table of records is a list, and most steps change one record of it, by
`List.modify`, or add one at its end.  These are the forms in which the
invariants of such tables use it: every record afterwards comes from one
before, or is the new one, and every record before goes on, changed if it is
the one in question.  Records with different keys are told apart by them
(`mem_modify_key_cases`).

A table with gaps is a partial function, changed by `Function.update`; what it
has afterwards is the new entry or an old one (`update_eq_some_cases`).

This module names no program.
-/

namespace UnixHomework.Verified

universe u v

variable {α : Type u} {l : List α} {f : α → α} {i j : Nat} {a b : α}

/-- A record of the changed table, seen in the old one. -/
theorem getElem?_modify_eq_some (h : (l.modify i f)[j]? = some b) :
    ∃ a, l[j]? = some a ∧ b = if i = j then f a else a := by
  rw [List.getElem?_modify] at h
  obtain ⟨a, ha, rfl⟩ := Option.map_eq_some_iff.mp h
  exact ⟨a, ha, rfl⟩

/-- A record of the old table, seen in the changed one. -/
theorem getElem?_modify_of_some (h : l[j]? = some a) :
    (l.modify i f)[j]? = some (if i = j then f a else a) := by
  rw [List.getElem?_modify, h]
  rfl

/-- A record of the table with one more at its end. -/
theorem getElem?_concat_cases (h : (l ++ [a])[j]? = some b) :
    l[j]? = some b ∨ j = l.length ∧ b = a := by
  rw [List.getElem?_append] at h
  by_cases hj : j < l.length
  · rw [if_pos hj] at h
    exact Or.inl h
  · rw [if_neg hj] at h
    obtain ⟨hLast, rfl⟩ := List.getElem?_eq_some_iff.mp h
    rw [List.length_singleton] at hLast
    exact Or.inr ⟨by omega, List.getElem_singleton _⟩

theorem modify_eq_self (h : l[i]? = some a) (hf : f a = a) :
    l.modify i f = l := by
  apply List.ext_getElem?
  intro j
  by_cases hj : i = j
  · subst hj
    rw [getElem?_modify_of_some h, if_pos rfl, hf, h]
  · exact List.getElem?_modify_ne f l hj

/-- A record of the changed table was there before, or has been made from one
that was. -/
theorem mem_modify_cases (h : b ∈ l.modify i f) :
    b ∈ l ∨ ∃ a ∈ l, b = f a := by
  obtain ⟨j, hj⟩ := List.mem_iff_getElem?.mp h
  obtain ⟨a, ha, rfl⟩ := getElem?_modify_eq_some hj
  have hMem := List.mem_of_getElem? ha
  by_cases hij : i = j
  · exact Or.inr ⟨a, hMem, if_pos hij⟩
  · rw [if_neg hij]
    exact Or.inl hMem

section Keys

variable {κ : Type v} {key : α → κ}

/-- A change that leaves the keys alone. -/
theorem map_modify_key (h : ∀ a, key (f a) = key a) :
    (l.modify i f).map key = l.map key := by
  apply List.ext_getElem?
  intro j
  rw [List.getElem?_map, List.getElem?_map, List.getElem?_modify]
  cases l[j]? with
  | none => rfl
  | some a =>
      show some (key (if i = j then f a else a)) = some (key a)
      split
      · rw [h a]
      · rfl

/-- In a table of records with different keys, a record is the changed one or
has another key. -/
theorem mem_modify_key_cases (hOnce : (l.map key).Nodup) (h : l[i]? = some a)
    (hb : b ∈ l.modify i f) : b = f a ∨ b ∈ l ∧ key b ≠ key a := by
  obtain ⟨j, hj⟩ := List.mem_iff_getElem?.mp hb
  obtain ⟨old, hOld, rfl⟩ := getElem?_modify_eq_some hj
  by_cases hij : i = j
  · subst hij
    obtain rfl := Option.some.inj (h.symm.trans hOld)
    exact Or.inl (if_pos rfl)
  · rw [if_neg hij]
    refine Or.inr ⟨List.mem_of_getElem? hOld, fun hSame => hij ?_⟩
    have hi : i < (l.map key).length := by
      rw [List.length_map]
      exact (List.getElem?_eq_some_iff.mp h).1
    apply (List.getElem?_inj hi hOnce).mp
    rw [List.getElem?_map, List.getElem?_map, h, hOld, Option.map_some,
      Option.map_some, hSame]

end Keys

section Gaps

variable {κ : Type v} [DecidableEq κ] {g : κ → Option α} {x y : κ}
  {entry : Option α}

/-- An entry after the change. -/
theorem update_eq_some_cases (h : Function.update g x entry y = some b) :
    y = x ∧ entry = some b ∨ y ≠ x ∧ g y = some b := by
  by_cases hSame : y = x
  · subst hSame
    rw [Function.update_self] at h
    exact Or.inl ⟨rfl, h⟩
  · rw [Function.update_of_ne hSame] at h
    exact Or.inr ⟨hSame, h⟩

/-- An entry after one has been taken out. -/
theorem update_none_eq_some (h : Function.update g x none y = some b) :
    y ≠ x ∧ g y = some b := by
  rcases update_eq_some_cases h with ⟨-, hNone⟩ | hOld
  · contradiction
  · exact hOld

theorem update_some_iff {c : α} : Function.update g x (some b) y = some c ↔
    y = x ∧ b = c ∨ y ≠ x ∧ g y = some c := by
  by_cases hSame : y = x
  · subst hSame
    simp
  · simp [hSame]

theorem update_none_iff : Function.update g x none y = some b ↔
    y ≠ x ∧ g y = some b := by
  by_cases hSame : y = x
  · subst hSame
    simp
  · simp [hSame]

end Gaps

end UnixHomework.Verified
