import UnixHomework.Verified.CharArray
import Mathlib.Data.Nat.Bitwise

/-!
# Bits and bytes of a number

`printBits` prints bits from the highest to the lowest, with a blank behind
each group, and `binaryValue` reads such a text back (`binaryValue_printBits`).

`toBytes` are the bytes of a number as they are in the memory of a
little-endian machine, and `ofBytes` makes a number of them.  A byte that is
overwritten there replaces its eight bits and no other
(`getLsbD_ofBytes_set`).
-/

namespace UnixHomework.Verified

/-! ## Printing -/

/-- The loop `for (i = k - 1; i >= 0; --i)` that prints a digit for each bit,
and a blank where a group ends. -/
def printBits (bit : Nat → Bool) (group : Nat) : Nat → List UInt8
  | 0 => []
  | i + 1 =>
      (if bit i then 49 else 48) ::
        ((if i % group = 0 ∧ i ≠ 0 then [32] else []) ++ printBits bit group i)

/-- A digit of a binary number; anything else is skipped. -/
def addDigit (n : Nat) (b : UInt8) : Nat :=
  if b = 49 then 2 * n + 1 else if b = 48 then 2 * n else n

/-- The number of which a text is the binary form. -/
def binaryValue (text : List UInt8) : Nat :=
  text.foldl addDigit 0

theorem printBits_congr {bit bit' : Nat → Bool} (group : Nat) {k : Nat}
    (h : ∀ i < k, bit i = bit' i) :
    printBits bit group k = printBits bit' group k := by
  induction k with
  | zero => rfl
  | succ k ih =>
      rw [printBits, printBits, h k (Nat.lt_succ_self k),
        ih fun i hi => h i (Nat.lt_succ_of_lt hi)]

/-- The lower bits of a number, added to the value of the higher ones. -/
theorem foldl_printBits (m group k : Nat) :
    (printBits m.testBit group k).foldl addDigit (m / 2 ^ k) = m := by
  induction k with
  | zero => exact Nat.div_one m
  | succ k ih =>
      have hDigit : addDigit (m / 2 ^ (k + 1))
          (if m.testBit k then 49 else 48) = m / 2 ^ k := by
        have hHalf : m / 2 ^ (k + 1) = m / 2 ^ k / 2 := by
          rw [Nat.pow_succ, Nat.div_div_eq_div_mul]
        rw [hHalf, Nat.testBit_eq_decide_div_mod_eq]
        by_cases hOdd : m / 2 ^ k % 2 = 1
        · rw [if_pos (decide_eq_true hOdd)]
          show 2 * (m / 2 ^ k / 2) + 1 = _
          omega
        · rw [if_neg (by simpa using hOdd)]
          show 2 * (m / 2 ^ k / 2) = _
          omega
      have hBlank : ∀ n, (if k % group = 0 ∧ k ≠ 0 then [(32 : UInt8)]
          else []).foldl addDigit n = n := by
        intro n
        split <;> rfl
      rw [printBits, List.foldl_cons, List.foldl_append, hDigit, hBlank, ih]

/-- **Reading back.** -/
theorem binaryValue_printBits {m k : Nat} (group : Nat) (h : m < 2 ^ k) :
    binaryValue (printBits m.testBit group k) = m := by
  have hFold := foldl_printBits m group k
  rw [Nat.div_eq_of_lt h] at hFold
  exact hFold

/-! ## Memory -/

section Memory

variable {w : Nat}

/-- The first bytes of a number in memory. -/
def toBytes (x : BitVec w) : Nat → List (BitVec 8)
  | 0 => []
  | k + 1 => x.setWidth 8 :: toBytes (x >>> 8) k

/-- The number with these bytes. -/
def ofBytes (w : Nat) : List (BitVec 8) → BitVec w
  | [] => 0
  | b :: bs => b.setWidth w ||| ofBytes w bs <<< 8

theorem getElem?_toBytes (x : BitVec w) {k j : Nat} (h : j < k) :
    (toBytes x k)[j]? = some ((x >>> (8 * j)).setWidth 8) := by
  induction k generalizing x j with
  | zero => exact absurd h (Nat.not_lt_zero j)
  | succ k ih =>
      cases j with
      | zero => rfl
      | succ j =>
          rw [toBytes, List.getElem?_cons_succ, ih _ (Nat.lt_of_succ_lt_succ h),
            ← BitVec.shiftRight_add, Nat.mul_succ, Nat.add_comm]

/-- Each byte has its bits. -/
theorem getLsbD_ofBytes (bs : List (BitVec 8)) {i : Nat} (h : i < w) :
    (ofBytes w bs).getLsbD i = ((bs[i / 8]?).getD 0).getLsbD (i % 8) := by
  induction bs generalizing i with
  | nil => simp [ofBytes]
  | cons b bs ih =>
      rw [ofBytes, BitVec.getLsbD_or, BitVec.getLsbD_setWidth,
        BitVec.getLsbD_shiftLeft, decide_eq_true h]
      by_cases hFirst : i < 8
      · have hIndex : i / 8 = 0 := Nat.div_eq_of_lt hFirst
        simp [hFirst, hIndex, Nat.mod_eq_of_lt hFirst]
      · have hIndex : i / 8 = (i - 8) / 8 + 1 := by omega
        have hMod : i % 8 = (i - 8) % 8 := by omega
        have hHigh : b.getLsbD i = false :=
          BitVec.getLsbD_of_ge b i (Nat.le_of_not_lt hFirst)
        simp [hFirst, hHigh, hIndex, hMod, ih (show i - 8 < w by omega)]

/-- **A byte that is overwritten.** -/
theorem getLsbD_ofBytes_set (x : BitVec w) (b : BitVec 8) {k j i : Nat}
    (hj : j < k) (hi : i < w) (hw : w ≤ 8 * k) :
    (ofBytes w ((toBytes x k).set j b)).getLsbD i =
      if i / 8 = j then b.getLsbD (i % 8) else x.getLsbD i := by
  have hLength : j < (toBytes x k).length := by
    have hSome := getElem?_toBytes x hj
    exact (List.getElem?_eq_some_iff.mp hSome).1
  rw [getLsbD_ofBytes _ hi]
  by_cases hSame : i / 8 = j
  · rw [if_pos hSame, hSame, List.getElem?_set_self hLength, Option.getD_some]
  · rw [if_neg hSame, List.getElem?_set_ne (Ne.symm hSame),
      getElem?_toBytes x (show i / 8 < k by omega), Option.getD_some,
      BitVec.getLsbD_setWidth, BitVec.getLsbD_ushiftRight,
      decide_eq_true (Nat.mod_lt i (by decide : 0 < 8)), Bool.true_and,
      Nat.div_add_mod]

end Memory

end UnixHomework.Verified
