import Mathlib.Data.List.Chain
import Mathlib.Data.List.Nodup
import Mathlib.Logic.Function.Basic

/-!
# Numbering the cells of a walk

A walk is a list of cells without repetitions, and `number` counts its cells
from 1 on.  What holds of the steps of the walk holds of cells with consecutive
numbers (`number_succ_rel`), and cells that are in order on the walk are in
order of their numbers (`number_lt`).
-/

namespace UnixHomework.Verified

universe u

variable {α : Type u} [DecidableEq α] {walk : List α} {p q : α} {v w : Nat}

/-- The number of a cell, from 1 on; cells off the walk have none. -/
def number (walk : List α) (p : α) : Option Nat :=
  (walk.idxOf? p).map (· + 1)

theorem number_eq_some_iff (hNodup : walk.Nodup) :
    number walk p = some v ↔ 0 < v ∧ walk[v - 1]? = some p := by
  rw [number, Option.map_eq_some_iff]
  constructor
  · rintro ⟨i, hIndex, rfl⟩
    rcases List.idxOf?_eq_some_iff.mp hIndex with ⟨hi, hCell, -⟩
    exact ⟨Nat.succ_pos i, List.getElem?_eq_some_iff.mpr ⟨hi, hCell⟩⟩
  · rintro ⟨hPos, hCell⟩
    refine ⟨v - 1, ?_, Nat.sub_add_cancel hPos⟩
    rcases List.getElem?_eq_some_iff.mp hCell with ⟨hi, hCell⟩
    rw [List.idxOf?_eq_some_iff]
    refine ⟨hi, hCell, fun j hj hSame => ?_⟩
    have hIndex := (hNodup.getElem_inj_iff).mp (hSame.trans hCell.symm)
    exact absurd hIndex (Nat.ne_of_lt hj)

/-- The cells of the walk have the numbers from 1 to its length. -/
theorem exists_number_iff (hNodup : walk.Nodup) :
    (∃ p, number walk p = some v) ↔ 0 < v ∧ v ≤ walk.length := by
  constructor
  · rintro ⟨p, hNumber⟩
    rcases (number_eq_some_iff hNodup).mp hNumber with ⟨hPos, hCell⟩
    have hLess := (List.getElem?_eq_some_iff.mp hCell).1
    exact ⟨hPos, by omega⟩
  · rintro ⟨hPos, hLe⟩
    have hLess : v - 1 < walk.length := by omega
    exact ⟨walk[v - 1], (number_eq_some_iff hNodup).mpr
      ⟨hPos, List.getElem?_eq_getElem hLess⟩⟩

theorem number_isSome_iff : (number walk p).isSome ↔ p ∈ walk := by
  rw [number, Option.isSome_map, List.isSome_idxOf?]

theorem number_eq_none (h : p ∉ walk) : number walk p = none := by
  rw [number, List.idxOf?_eq_none_iff.mpr h, Option.map_none]

/-- One cell more gets the next number, and the others keep theirs. -/
theorem number_concat (hNodup : (walk ++ [p]).Nodup) :
    number (walk ++ [p]) =
      Function.update (number walk) p (some (walk.length + 1)) := by
  have hNew : p ∉ walk := fun hMem =>
    List.disjoint_of_nodup_append hNodup hMem (List.mem_singleton_self p)
  funext q
  by_cases hSame : q = p
  · rw [hSame, Function.update_self, number_eq_some_iff hNodup]
    exact ⟨Nat.succ_pos _, List.getElem?_concat_length⟩
  · rw [Function.update_of_ne hSame]
    by_cases hOld : q ∈ walk
    · rcases Option.isSome_iff_exists.mp (number_isSome_iff.mpr hOld) with
        ⟨v, hNumber⟩
      rw [hNumber, number_eq_some_iff hNodup]
      rcases (number_eq_some_iff hNodup.of_append_left).mp hNumber with
        ⟨hPos, hCell⟩
      have hLess := (List.getElem?_eq_some_iff.mp hCell).1
      exact ⟨hPos, by rw [List.getElem?_append_left hLess, hCell]⟩
    · rw [number_eq_none hOld, number_eq_none]
      simp [hOld, hSame]

/-- **Consecutive numbers** are one step apart, since the numbers are the
places on the walk. -/
theorem number_succ_rel {R : α → α → Prop} (hNodup : walk.Nodup)
    (hSteps : walk.IsChain R) (hp : number walk p = some v)
    (hq : number walk q = some (v + 1)) : R p q := by
  rcases (number_eq_some_iff hNodup).mp hp with ⟨hPos, hp⟩
  rcases List.getElem?_eq_some_iff.mp hp with ⟨hFirst, hp⟩
  rcases List.getElem?_eq_some_iff.mp
    ((number_eq_some_iff hNodup).mp hq).2 with ⟨hLess, hq⟩
  have hStep := hSteps.getElem (v - 1) (by omega)
  simp only [Nat.sub_add_cancel hPos] at hStep
  rw [← hp, ← hq]
  exact hStep

/-- **Numbers grow** with a key that does not fall along the walk. -/
theorem number_lt {β : Type*} [Preorder β] {key : α → β}
    (hNodup : walk.Nodup)
    (hSorted : walk.Pairwise fun p q => key p ≤ key q)
    (hKey : key p < key q) (hp : number walk p = some v)
    (hq : number walk q = some w) : v < w := by
  rcases (number_eq_some_iff hNodup).mp hp with ⟨-, hp⟩
  rcases (number_eq_some_iff hNodup).mp hq with ⟨hPos, hq⟩
  rcases List.getElem?_eq_some_iff.mp hp with ⟨hpLess, hp⟩
  rcases List.getElem?_eq_some_iff.mp hq with ⟨hqLess, hq⟩
  by_contra hNot
  rcases Nat.lt_or_eq_of_le (Nat.le_of_not_lt hNot) with hLess | rfl
  · have hLe := List.pairwise_iff_getElem.mp hSorted (w - 1) (v - 1) hqLess
      hpLess (by omega)
    rw [hp, hq] at hLe
    exact absurd hKey (not_lt_of_ge hLe)
  · rw [← hp, ← hq] at hKey
    exact absurd hKey (lt_irrefl _)

end UnixHomework.Verified
