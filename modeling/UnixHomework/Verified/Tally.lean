import Mathlib.Algebra.BigOperators.Ring.Finset
import Mathlib.Algebra.Group.Int.Defs
import Mathlib.Algebra.Order.BigOperators.Group.Finset
import Mathlib.Data.Fintype.Basic

/-!
# Sums over a table of records

A finite table of records is a function, and a step changes one entry of it.
A sum over the table then changes by the difference that this entry makes, and
so does the number of entries with some property.
-/

namespace UnixHomework.Verified

universe u v

variable {ι : Type u} {α : Type v} [Fintype ι] [DecidableEq ι]

/-- What the changed entry contributes, instead of the old one. -/
theorem sum_update (g : α → Int) (f : ι → α) (i : ι) (a : α) :
    ∑ j, g (Function.update f i a j) = ∑ j, g (f j) + (g a - g (f i)) := by
  rw [← Finset.add_sum_erase _ _ (Finset.mem_univ i),
    ← Finset.add_sum_erase _ (fun j => g (f j)) (Finset.mem_univ i)]
  have hRest : ∑ j ∈ Finset.univ.erase i, g (Function.update f i a j) =
      ∑ j ∈ Finset.univ.erase i, g (f j) := by
    apply Finset.sum_congr rfl
    intro j hj
    rw [Function.update_of_ne (Finset.ne_of_mem_erase hj)]
  rw [hRest, Function.update_self]
  omega

omit [Fintype ι] in
/-- Two tables that differ in one entry at most. -/
theorem sum_add_of_others {M : Type v} [AddCommMonoid M] {S : Finset ι}
    {f g : ι → M} {i : ι} (hi : i ∈ S) (h : ∀ j, j ≠ i → g j = f j) :
    ∑ j ∈ S, g j + f i = ∑ j ∈ S, f j + g i := by
  rw [← Finset.add_sum_erase S f hi, ← Finset.add_sum_erase S g hi]
  have hRest : ∑ j ∈ S.erase i, g j = ∑ j ∈ S.erase i, f j := by
    apply Finset.sum_congr rfl
    intro j hj
    exact h j (Finset.ne_of_mem_erase hj)
  rw [hRest, add_comm (g i), add_right_comm, add_comm _ (f i)]

omit [DecidableEq ι] in
/-- Every entry grows by one at most. -/
theorem sum_le_add_card {f g : ι → Nat} (h : ∀ j, g j ≤ f j + 1) :
    ∑ j, g j ≤ ∑ j, f j + Fintype.card ι := by
  calc ∑ j, g j ≤ ∑ j, (f j + 1) := Finset.sum_le_sum fun j _ => h j
    _ = ∑ j, f j + Fintype.card ι := by
        rw [Finset.sum_add_distrib, Finset.sum_const, Finset.card_univ,
          Nat.nsmul_eq_mul, Nat.mul_one]

/-- How many entries have a property. -/
def tally (p : α → Prop) [DecidablePred p] (f : ι → α) : Nat :=
  (Finset.univ.filter fun j => p (f j)).card

section Tally

variable (p : α → Prop) [DecidablePred p] (f : ι → α) (i : ι) (a : α)

theorem tally_update :
    (tally p (Function.update f i a) : Int) =
      tally p f + ((if p a then 1 else 0) - if p (f i) then 1 else 0) := by
  simp only [tally, Finset.natCast_card_filter]
  exact sum_update (fun b => if p b then 1 else 0) f i a

/-- A property that the change does not touch. -/
theorem tally_update_of_iff (h : p a ↔ p (f i)) :
    tally p (Function.update f i a) = tally p f := by
  have hSum := tally_update p f i a
  simp only [h, Int.sub_self, Int.add_zero] at hSum
  exact Int.ofNat_inj.mp hSum

/-- An entry that gets the property. -/
theorem tally_update_succ (ha : p a) (hi : ¬p (f i)) :
    tally p (Function.update f i a) = tally p f + 1 := by
  have hSum := tally_update p f i a
  rw [if_pos ha, if_neg hi] at hSum
  omega

omit [DecidableEq ι] in
/-- All entries have the property once all are counted. -/
theorem tally_eq_card_iff :
    tally p f = Fintype.card ι ↔ ∀ j, p (f j) := by
  rw [tally, ← Finset.card_univ, Finset.card_filter_eq_iff]
  simp only [Finset.mem_univ, true_implies]

end Tally

end UnixHomework.Verified
