import Mathlib.Data.Int.Range
import Mathlib.Data.List.Chain
import Mathlib.Data.List.Nodup
import Mathlib.Data.List.Range

/-!
# Loops

A `while` loop is a condition and a body; the body is undefined (`none`) where
the program is.  `run` makes at most the given number of turns and is undefined
as well if these are not enough, so that a loop *ends* if some number is.

There is a rule for each of the two outcomes.  A loop ends if its body keeps an
invariant and makes a measure smaller (`endsIn_of_measure`), and then in a
state that has the invariant.  It does not end if it keeps an invariant under
which the condition holds (`not_ends_of_invariant`).

This module names no program.
-/

namespace UnixHomework.Verified

universe u

/-- `while (cond) body`. -/
structure Loop (σ : Type u) where
  /-- The condition, which is always defined. -/
  cond : σ → Bool
  /-- The body; `none` is undefined behaviour. -/
  body : σ → Option σ

namespace Loop

variable {σ : Type u} (l : Loop σ)

/-- The state behind the loop, if it ends within so many turns and nothing
undefined happens. -/
def run : Nat → σ → Option σ
  | 0, s => if l.cond s then none else some s
  | n + 1, s => if l.cond s then (l.body s).bind (run n) else some s

/-- The loop ends in this state, after some number of turns. -/
def EndsIn (s t : σ) : Prop :=
  ∃ n, l.run n s = some t

/-- The loop ends, and nothing undefined happens before. -/
def Ends (s : σ) : Prop :=
  ∃ t, l.EndsIn s t

/-- `do body while (cond)` ends. -/
def DoEnds (s : σ) : Prop :=
  ∃ next, l.body s = some next ∧ l.Ends next

variable {l}

/-! ## Turns -/

theorem run_of_not {s : σ} (h : l.cond s = false) (n : Nat) :
    l.run n s = some s := by
  cases n <;> simp [run, h]

theorem run_turn {s : σ} (h : l.cond s = true) (n : Nat) :
    l.run (n + 1) s = (l.body s).bind (l.run n) := by
  simp [run, h]

theorem run_zero {s : σ} (h : l.cond s = true) : l.run 0 s = none := by
  simp [run, h]

theorem endsIn_of_not {s : σ} (h : l.cond s = false) : l.EndsIn s s :=
  ⟨0, run_of_not h 0⟩

theorem ends_of_not {s : σ} (h : l.cond s = false) : l.Ends s :=
  ⟨s, endsIn_of_not h⟩

/-- **One turn** of a loop that goes on: the body is defined, and the loop ends
from the state behind it. -/
theorem endsIn_turn_iff {s t : σ} (h : l.cond s = true) :
    l.EndsIn s t ↔ ∃ next, l.body s = some next ∧ l.EndsIn next t := by
  constructor
  · rintro ⟨n, hRun⟩
    cases n with
    | zero =>
        rw [run_zero h] at hRun
        contradiction
    | succ n =>
        rw [run_turn h] at hRun
        rcases Option.bind_eq_some_iff.mp hRun with ⟨next, hBody, hRest⟩
        exact ⟨next, hBody, n, hRest⟩
  · rintro ⟨next, hBody, n, hRest⟩
    refine ⟨n + 1, ?_⟩
    rw [run_turn h, hBody]
    exact hRest

theorem ends_turn_iff {s : σ} (h : l.cond s = true) :
    l.Ends s ↔ l.DoEnds s := by
  constructor
  · rintro ⟨t, hEnds⟩
    rcases (endsIn_turn_iff h).mp hEnds with ⟨next, hBody, hRest⟩
    exact ⟨next, hBody, t, hRest⟩
  · rintro ⟨next, hBody, t, hRest⟩
    exact ⟨t, (endsIn_turn_iff h).mpr ⟨next, hBody, hRest⟩⟩

/-! ## Rules -/

section Rules

variable {I : σ → Prop}

/-- **A loop that ends.**  The body keeps the invariant and makes the measure
smaller; the measure then also says how many turns are enough. -/
theorem run_of_measure {m : σ → Nat}
    (hBody : ∀ s, I s → l.cond s = true →
      ∃ next, l.body s = some next ∧ I next ∧ m next < m s)
    {s : σ} (h : I s) {n : Nat} (hn : m s ≤ n) :
    ∃ t, l.run n s = some t ∧ I t ∧ l.cond t = false := by
  induction n generalizing s with
  | zero =>
      cases hCond : l.cond s with
      | true =>
          rcases hBody s h hCond with ⟨next, -, -, hLess⟩
          exact absurd (Nat.lt_of_lt_of_le hLess hn) (Nat.not_lt_zero _)
      | false => exact ⟨s, run_of_not hCond 0, h, hCond⟩
  | succ n ih =>
      cases hCond : l.cond s with
      | true =>
          rcases hBody s h hCond with ⟨next, hNext, hI, hLess⟩
          rcases ih hI (Nat.le_of_lt_succ (Nat.lt_of_lt_of_le hLess hn)) with
            ⟨t, hRun, hEnd⟩
          refine ⟨t, ?_, hEnd⟩
          rw [run_turn hCond, hNext]
          exact hRun
      | false => exact ⟨s, run_of_not hCond (n + 1), h, hCond⟩

theorem endsIn_of_measure {m : σ → Nat}
    (hBody : ∀ s, I s → l.cond s = true →
      ∃ next, l.body s = some next ∧ I next ∧ m next < m s)
    {s : σ} (h : I s) : ∃ t, l.EndsIn s t ∧ I t ∧ l.cond t = false := by
  rcases run_of_measure hBody h (Nat.le_refl _) with ⟨t, hRun, hEnd⟩
  exact ⟨t, ⟨_, hRun⟩, hEnd⟩

/-- What each turn keeps is there at the end, and the condition is false
then. -/
theorem EndsIn.invariant
    (hBody : ∀ s next, I s → l.cond s = true → l.body s = some next → I next)
    {s t : σ} (hEnds : l.EndsIn s t) (h : I s) : I t ∧ l.cond t = false := by
  rcases hEnds with ⟨n, hRun⟩
  induction n generalizing s with
  | zero =>
      cases hCond : l.cond s with
      | true =>
          rw [run_zero hCond] at hRun
          contradiction
      | false =>
          rw [run_of_not hCond] at hRun
          exact Option.some.inj hRun ▸ ⟨h, hCond⟩
  | succ n ih =>
      cases hCond : l.cond s with
      | true =>
          rw [run_turn hCond] at hRun
          rcases Option.bind_eq_some_iff.mp hRun with ⟨next, hNext, hRest⟩
          exact ih (hBody s next h hCond hNext) hRest
      | false =>
          rw [run_of_not hCond] at hRun
          exact Option.some.inj hRun ▸ ⟨h, hCond⟩

/-- **A loop that does not end**, undefined or not: as long as it goes on the
condition holds. -/
theorem not_ends_of_invariant (hCond : ∀ s, I s → l.cond s = true)
    (hBody : ∀ s next, I s → l.body s = some next → I next)
    {s : σ} (h : I s) : ¬l.Ends s := by
  rintro ⟨t, hEnds⟩
  have hLast := hEnds.invariant (fun s next hI _ => hBody s next hI) h
  rw [hCond t hLast.1] at hLast
  exact absurd hLast.2 (by simp)

end Rules

end Loop

/-! ## Counting -/

/-- The values of `i` in `for (i = a; i <= b; i++)`. -/
def upTo (a b : Int) : List Int :=
  Int.range a (b + 1)

/-- The values of `i` in `for (i = a; i >= b; i--)`. -/
def downTo (a b : Int) : List Int :=
  (upTo b a).reverse

section Counting

variable {a b i : Int}

@[simp] theorem mem_upTo : i ∈ upTo a b ↔ a ≤ i ∧ i ≤ b := by
  rw [upTo, Int.mem_range_iff, Int.lt_add_one_iff]

@[simp] theorem mem_downTo : i ∈ downTo a b ↔ b ≤ i ∧ i ≤ a := by
  rw [downTo, List.mem_reverse, mem_upTo]

theorem length_upTo (a b : Int) : (upTo a b).length = (b + 1 - a).toNat := by
  rw [upTo, Int.range, List.length_map, List.length_range]

theorem nodup_upTo (a b : Int) : (upTo a b).Nodup := by
  refine List.nodup_range.map fun i j h => ?_
  exact Int.ofNat.inj (Int.add_left_cancel h)

theorem nodup_downTo (a b : Int) : (downTo a b).Nodup :=
  List.nodup_reverse.mpr (nodup_upTo b a)

theorem upTo_isChain (a b : Int) :
    (upTo a b).IsChain fun i j => j = i + 1 := by
  rw [upTo, Int.range, List.isChain_map]
  cases (b + 1 - a).toNat with
  | zero => exact .nil
  | succ n =>
      rw [List.isChain_range_succ]
      intro m _
      omega

theorem downTo_isChain (a b : Int) :
    (downTo a b).IsChain fun i j => i = j + 1 :=
  List.isChain_reverse.mpr (upTo_isChain b a)

theorem upTo_of_lt (h : b < a) : upTo a b = [] := by
  rw [List.eq_nil_iff_forall_not_mem]
  intro i hi
  rw [mem_upTo] at hi
  omega

/-- The values before the last one. -/
theorem upTo_concat (h : a ≤ b) : upTo a b = upTo a (b - 1) ++ [b] := by
  have hCount : (b + 1 - a).toNat = (b - 1 + 1 - a).toNat + 1 := by omega
  rw [upTo, Int.range, hCount, List.range_succ, List.map_append]
  congr 1
  rw [List.map_singleton]
  congr 1
  omega

/-- The values after the first one. -/
theorem upTo_cons (h : a ≤ b) : upTo a b = a :: upTo (a + 1) b := by
  have hCount : (b + 1 - a).toNat = (b + 1 - (a + 1)).toNat + 1 := by omega
  rw [upTo, Int.range, hCount, List.range_succ_eq_map, List.map_cons,
    List.map_map]
  congr 1
  · exact Int.add_zero a
  · apply List.map_congr_left
    intro k _
    show a + (k + 1 : Int) = a + 1 + k
    omega

theorem mem_head?_upTo (h : i ∈ (upTo a b).head?) : i = a := by
  by_cases hLe : a ≤ b
  · rw [upTo_cons hLe] at h
    exact (Option.some.inj h).symm
  · rw [upTo_of_lt (Int.lt_of_not_ge hLe)] at h
    contradiction

theorem mem_getLast?_upTo (h : i ∈ (upTo a b).getLast?) : i = b := by
  by_cases hLe : a ≤ b
  · rw [upTo_concat hLe, List.getLast?_concat] at h
    exact (Option.some.inj h).symm
  · rw [upTo_of_lt (Int.lt_of_not_ge hLe)] at h
    contradiction

theorem mem_head?_downTo (h : i ∈ (downTo a b).head?) : i = a := by
  rw [downTo, List.head?_reverse] at h
  exact mem_getLast?_upTo h

theorem mem_getLast?_downTo (h : i ∈ (downTo a b).getLast?) : i = b := by
  rw [downTo, List.getLast?_reverse] at h
  exact mem_head?_upTo h

end Counting

end UnixHomework.Verified
