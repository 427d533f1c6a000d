import Mathlib.Data.Nat.ModEq
import Mathlib.Tactic.Common

/-!
# Addition with end-around carry

One's complement arithmetic in the numbers `1..m`.  A sum that exceeds `m`
has its carry added back at the low end, which subtracts `m`.  Zero has two
representations in `0..m`, but an accumulator that starts at `m` never leaves
`1..m`, and there every residue modulo `m` has one (`eq_of_modEq`).  What the
accumulator holds in the end is therefore determined by the sum of the words
modulo `m` (`foldl_endAround_modEq`).
-/

namespace UnixHomework.Verified

/-- One word added, with the carry added back. -/
def endAround (m acc word : Nat) : Nat :=
  if m < acc + word then acc + word - m else acc + word

variable {m acc word : Nat}

/-- The accumulator stays in its range. -/
theorem endAround_range (hAcc : 1 ≤ acc ∧ acc ≤ m) (hWord : word ≤ m) :
    1 ≤ endAround m acc word ∧ endAround m acc word ≤ m := by
  unfold endAround
  split <;> omega

/-- The carry changes nothing modulo `m`. -/
theorem endAround_modEq (m acc word : Nat) :
    endAround m acc word ≡ acc + word [MOD m] := by
  unfold endAround
  split
  · rename_i hCarry
    show (acc + word - m) % m = (acc + word) % m
    rw [← Nat.mod_eq_sub_mod (Nat.le_of_lt hCarry)]
  · exact Nat.ModEq.refl _

/-- In `1..m` every residue has one representation. -/
theorem eq_of_modEq {r s : Nat} (hr : 1 ≤ r ∧ r ≤ m) (hs : 1 ≤ s ∧ s ≤ m)
    (h : r ≡ s [MOD m]) : r = s := by
  have hShift : r - 1 ≡ s - 1 [MOD m] := by
    apply Nat.ModEq.add_right_cancel' 1
    rw [Nat.sub_add_cancel hr.1, Nat.sub_add_cancel hs.1]
    exact h
  have hEq := hShift.eq_of_lt_of_lt (by omega) (by omega)
  omega

section Words

variable {words : List Nat}

theorem foldl_endAround_range (hAcc : 1 ≤ acc ∧ acc ≤ m)
    (hWords : ∀ w ∈ words, w ≤ m) :
    1 ≤ words.foldl (endAround m) acc ∧ words.foldl (endAround m) acc ≤ m := by
  induction words generalizing acc with
  | nil => exact hAcc
  | cons w words ih =>
      rw [List.foldl_cons]
      apply ih
      · exact endAround_range hAcc (hWords w (List.mem_cons_self ..))
      · exact fun w' hw' => hWords w' (List.mem_cons_of_mem w hw')

/-- All values that the accumulator takes. -/
theorem scanl_endAround_range (hAcc : 1 ≤ acc ∧ acc ≤ m)
    (hWords : ∀ w ∈ words, w ≤ m) :
    ∀ a ∈ words.scanl (endAround m) acc, 1 ≤ a ∧ a ≤ m := by
  induction words generalizing acc with
  | nil =>
      intro a ha
      rw [List.scanl_nil, List.mem_singleton] at ha
      exact ha ▸ hAcc
  | cons w words ih =>
      intro a ha
      rw [List.scanl_cons, List.mem_cons] at ha
      rcases ha with rfl | ha
      · exact hAcc
      · exact ih (endAround_range hAcc (hWords w (List.mem_cons_self ..)))
          (fun w' hw' => hWords w' (List.mem_cons_of_mem w hw')) a ha

/-- **The sum.** -/
theorem foldl_endAround_modEq (m acc : Nat) (words : List Nat) :
    words.foldl (endAround m) acc ≡ acc + words.sum [MOD m] := by
  induction words generalizing acc with
  | nil => exact Nat.ModEq.refl _
  | cons w words ih =>
      rw [List.foldl_cons, List.sum_cons, ← Nat.add_assoc]
      exact (ih _).trans ((endAround_modEq m acc w).add_right _)

/-- An accumulator that starts at zero in the form `m` ends there exactly if
the sum is a multiple of `m`. -/
theorem foldl_endAround_eq_iff (hm : 1 ≤ m) (hWords : ∀ w ∈ words, w ≤ m) :
    words.foldl (endAround m) m = m ↔ words.sum ≡ 0 [MOD m] := by
  have hSum := foldl_endAround_modEq m m words
  have hRange : 1 ≤ words.foldl (endAround m) m ∧
      words.foldl (endAround m) m ≤ m :=
    foldl_endAround_range ⟨hm, Nat.le_refl m⟩ hWords
  have hZero : m ≡ 0 [MOD m] := Nat.mod_self m
  have hStart : m + words.sum ≡ words.sum [MOD m] := by
    show (m + words.sum) % m = words.sum % m
    exact Nat.add_mod_left m _
  constructor
  · intro hEnd
    rw [hEnd] at hSum
    exact hStart.symm.trans (hSum.symm.trans hZero)
  · intro hMultiple
    exact eq_of_modEq hRange ⟨hm, Nat.le_refl m⟩
      (hSum.trans (hStart.trans (hMultiple.trans hZero.symm)))

/-- One word replaced by another. -/
theorem sum_set_add {i : Nat} (w : Nat) (hi : i < words.length) :
    (words.set i w).sum + words[i] = words.sum + w := by
  induction words generalizing i with
  | nil => contradiction
  | cons v words ih =>
      cases i with
      | zero =>
          show w + words.sum + v = v + words.sum + w
          omega
      | succ i =>
          have hi' : i < words.length := Nat.lt_of_succ_lt_succ hi
          have hRest := ih hi'
          show v + (words.set i w).sum + words[i] = v + words.sum + w
          omega

theorem sum_set_modEq_iff {i w : Nat} (hi : i < words.length) :
    (words.set i w).sum ≡ words.sum [MOD m] ↔ w ≡ words[i] [MOD m] := by
  have hSum := sum_set_add w hi
  constructor
  · intro h
    have hShift := h.add_right words[i]
    rw [hSum] at hShift
    exact Nat.ModEq.add_left_cancel' words.sum hShift
  · intro h
    have hShift := h.add_left words.sum
    rw [← hSum] at hShift
    exact Nat.ModEq.add_right_cancel' words[i] hShift

end Words

end UnixHomework.Verified
