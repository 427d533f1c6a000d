import Mathlib.Data.List.Sort
import Mathlib.Data.Prod.Lex
import Mathlib.Algebra.Order.Group.Int

/-!
# Comparison functions

A comparison function of C returns a number whose sign says which of its
arguments comes first.  A sort may rely on the signs only if they fit together
(`TotalPreorderOn`), and may compare nothing but the elements it is given; so
all is asked for relative to a predicate.

The usual way to see that the signs fit together is a key in a linear order
that the function follows (`OrdersBy`), and a function that looks at one thing
after the other follows the pair of keys (`OrdersBy.andThen`).
-/

namespace UnixHomework.Verified

/-- A comparison function, as `qsort` takes one. -/
abbrev Comparator (α : Type) := α → α → Int

namespace Comparator

variable {α κ μ : Type} {cmp other : Comparator α} {P : α → Prop}

/-- The sign is antisymmetric, and not being after is transitive. -/
structure TotalPreorderOn (cmp : Comparator α) (P : α → Prop) : Prop where
  /-- With the arguments exchanged the sign is the other one. -/
  swap : ∀ a b, P a → P b → (cmp a b < 0 ↔ 0 < cmp b a)
  /-- What is not after something is not after what follows that. -/
  trans : ∀ a b c, P a → P b → P c →
    cmp a b ≤ 0 → cmp b c ≤ 0 → cmp a c ≤ 0

theorem TotalPreorderOn.mono {Q : α → Prop} (h : cmp.TotalPreorderOn P)
    (hSub : ∀ a, Q a → P a) : cmp.TotalPreorderOn Q where
  swap a b ha hb := h.swap a b (hSub a ha) (hSub b hb)
  trans a b c ha hb hc := h.trans a b c (hSub a ha) (hSub b hb) (hSub c hc)

theorem TotalPreorderOn.total (h : cmp.TotalPreorderOn P) {a b : α}
    (ha : P a) (hb : P b) : cmp a b ≤ 0 ∨ cmp b a ≤ 0 := by
  have hSwap := h.swap b a hb ha
  omega

/-- What a sort does with a comparison function that can be relied on: it puts
the elements in order, and is not asked to be stable. -/
def Sorts (sort : Comparator α → List α → List α) : Prop :=
  ∀ (cmp : Comparator α) l, cmp.TotalPreorderOn (· ∈ l) →
    (sort cmp l).Perm l ∧ (sort cmp l).Pairwise fun a b => cmp a b ≤ 0

/-! ## Keys -/

/-- The sign says how the keys are ordered. -/
def OrdersBy [LinearOrder κ] (cmp : Comparator α) (key : α → κ)
    (P : α → Prop) : Prop :=
  ∀ a b, P a → P b →
    (cmp a b < 0 ↔ key a < key b) ∧ (0 < cmp a b ↔ key b < key a)

section Keys

variable [LinearOrder κ] {key : α → κ}

theorem OrdersBy.nonpos_iff (h : cmp.OrdersBy key P) {a b : α} (ha : P a)
    (hb : P b) : cmp a b ≤ 0 ↔ key a ≤ key b := by
  rw [← not_lt, (h a b ha hb).2, not_lt]

theorem OrdersBy.eq_zero_iff (h : cmp.OrdersBy key P) {a b : α} (ha : P a)
    (hb : P b) : cmp a b = 0 ↔ key a = key b := by
  have hSigns : cmp a b = 0 ↔ ¬cmp a b < 0 ∧ ¬0 < cmp a b := by omega
  rw [hSigns, (h a b ha hb).1, (h a b ha hb).2, not_lt, not_lt, and_comm,
    ← le_antisymm_iff]

theorem OrdersBy.totalPreorderOn (h : cmp.OrdersBy key P) :
    cmp.TotalPreorderOn P where
  swap a b ha hb := (h a b ha hb).1.trans (h b a hb ha).2.symm
  trans a b c ha hb hc := by
    rw [h.nonpos_iff ha hb, h.nonpos_iff hb hc, h.nonpos_iff ha hc]
    exact le_trans

/-- First one comparison, then the other where the first sees no difference. -/
def andThen (cmp other : Comparator α) : Comparator α :=
  fun a b => if cmp a b ≠ 0 then cmp a b else other a b

theorem OrdersBy.andThen [LinearOrder μ] {second : α → μ}
    (h : cmp.OrdersBy key P) (hOther : other.OrdersBy second P) :
    (cmp.andThen other).OrdersBy (fun a => toLex (key a, second a)) P := by
  intro a b ha hb
  rw [Comparator.andThen]
  simp only [Prod.Lex.toLex_lt_toLex]
  by_cases hSame : cmp a b = 0
  · have hKeys := (h.eq_zero_iff ha hb).mp hSame
    rw [if_neg (not_not_intro hSame), hKeys, (hOther a b ha hb).1,
      (hOther a b ha hb).2]
    simp
  · have hKeys : key a ≠ key b := mt (h.eq_zero_iff ha hb).mpr hSame
    rw [if_pos hSame, (h a b ha hb).1, (h a b ha hb).2]
    simp [hKeys, hKeys.symm]

/-- A comparison of a part of the values. -/
theorem OrdersBy.comap {β : Type} {f : β → α} {Q : β → Prop}
    (h : cmp.OrdersBy key P) (hPart : ∀ b, Q b → P (f b)) :
    Comparator.OrdersBy (fun a b => cmp (f a) (f b)) (fun a => key (f a)) Q :=
  fun a b ha hb => h (f a) (f b) (hPart a ha) (hPart b hb)

end Keys

/-! ## A sort -/

/-- Insertion sort, as a sort for comparison functions. -/
def insertionSort (cmp : Comparator α) (l : List α) : List α :=
  l.insertionSort fun a b => cmp a b ≤ 0

theorem insertionSort_sorts : Sorts (@insertionSort α) := by
  intro cmp l hOrder
  refine ⟨List.perm_insertionSort _ l, ?_⟩
  -- the comparison is total and transitive on the elements only
  let below : {a // a ∈ l} → {a // a ∈ l} → Prop :=
    fun a b => cmp a.1 b.1 ≤ 0
  have hTotal : Std.Total below :=
    ⟨fun a b => hOrder.total a.2 b.2⟩
  have hTrans : IsTrans _ below :=
    ⟨fun a b c => hOrder.trans a.1 b.1 c.1 a.2 b.2 c.2⟩
  have hMap := List.map_insertionSort below (fun a b => cmp a b ≤ 0)
    Subtype.val l.attach fun _ _ _ _ => Iff.rfl
  rw [List.attach_map_subtype_val] at hMap
  rw [insertionSort, ← hMap, List.pairwise_map]
  exact List.pairwise_insertionSort below l.attach

end Comparator

end UnixHomework.Verified
