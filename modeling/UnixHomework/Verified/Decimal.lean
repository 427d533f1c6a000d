import UnixHomework.Verified.CharArray
import Mathlib.Algebra.Group.Nat.Defs

/-!
# Decimal numbers in C strings

`printInt` is the conversion `%d` of `printf`, `scanInt` that of `sscanf`:
skip white space, take a sign and the longest run of digits, and fail if there
is no digit.  Scanning what was printed gives the number back, whatever
follows it.  A number that was cut off is never mistaken for the whole: a
proper piece of the digits has a smaller value.
-/

namespace UnixHomework.Verified

/-! ## Printing and scanning -/

/-- The decimal digits of a number, without leading zeros. -/
def printNat (n : Nat) : List UInt8 :=
  ascii (Nat.toDigits 10 n)

/-- `%d` of `printf`: a minus sign for negative numbers, and the digits. -/
def printInt (z : Int) : List UInt8 :=
  if z < 0 then 45 :: printNat z.natAbs else printNat z.natAbs

/-- `isspace` in the C locale. -/
def isSpace (b : UInt8) : Bool :=
  b == 32 || (9 ≤ b && b ≤ 13)

/-- `isdigit`. -/
def isDigit (b : UInt8) : Bool :=
  48 ≤ b && b ≤ 57

/-- The value of a run of digits, the first being the highest. -/
def digitsValue (digits : List UInt8) : Nat :=
  digits.foldl (fun n b => 10 * n + (b.toNat - 48)) 0

/-- The number at the start of a text, which begins with a digit.  What follows
the digits is not looked at. -/
def scanNat (text : List UInt8) : Option Nat :=
  let digits := text.takeWhile isDigit
  if digits = [] then none else some (digitsValue digits)

/-- `%d` of `sscanf`, for numbers of any size.  What is stored in an `int` is
for the program to say. -/
def scanInt (text : List UInt8) : Option Int :=
  match text.dropWhile isSpace with
  | 45 :: rest => (scanNat rest).map fun (n : Nat) => -(n : Int)
  | 43 :: rest => (scanNat rest).map fun (n : Nat) => (n : Int)
  | rest => (scanNat rest).map fun (n : Nat) => (n : Int)

/-! ## Digits -/

theorem printNat_ne_nil (n : Nat) : printNat n ≠ [] := by
  intro h
  exact Nat.toDigits_ne_nil (List.map_eq_nil_iff.mp h)

/-- The last digit, and the digits before it. -/
theorem printNat_of_lt {n : Nat} (h : n < 10) :
    printNat n = [(48 + n).toUInt8] := by
  rw [printNat, Nat.toDigits_of_lt_base h, ascii, List.map_singleton,
    Nat.toNat_digitChar_of_lt_ten h]

theorem printNat_of_le {n : Nat} (h : 10 ≤ n) :
    printNat n = printNat (n / 10) ++ [(48 + n % 10).toUInt8] := by
  have hMod : n % 10 < 10 := Nat.mod_lt _ (by decide)
  rw [printNat, Nat.toDigits_of_base_le (by decide) h, ascii, List.map_append,
    List.map_singleton, Nat.toNat_digitChar_of_lt_ten hMod]
  rfl

theorem toNat_digit {d : Nat} (h : d < 10) :
    ((48 + d).toUInt8).toNat = 48 + d := by
  simp only [Nat.toUInt8_eq, UInt8.toNat_ofNat']
  omega

theorem isDigit_iff (b : UInt8) :
    isDigit b = true ↔ 48 ≤ b.toNat ∧ b.toNat ≤ 57 := by
  simp [isDigit, UInt8.le_iff_toNat_le]

theorem digitsValue_concat (digits : List UInt8) (b : UInt8) :
    digitsValue (digits ++ [b]) = 10 * digitsValue digits + (b.toNat - 48) := by
  simp [digitsValue, List.foldl_append]

theorem isDigit_of_mem_printNat {n : Nat} :
    ∀ b ∈ printNat n, isDigit b = true := by
  induction n using Nat.strong_induction_on with
  | _ n ih =>
      intro b hb
      rcases Nat.lt_or_ge n 10 with h | h
      · rw [printNat_of_lt h, List.mem_singleton] at hb
        rw [hb, isDigit_iff, toNat_digit h]
        omega
      · rw [printNat_of_le h] at hb
        have hMod : n % 10 < 10 := Nat.mod_lt _ (by decide)
        rcases List.mem_append.mp hb with hb | hb
        · exact ih (n / 10) (by omega) b hb
        · rw [List.mem_singleton.mp hb, isDigit_iff, toNat_digit hMod]
          omega

theorem digitsValue_printNat (n : Nat) : digitsValue (printNat n) = n := by
  induction n using Nat.strong_induction_on with
  | _ n ih =>
      rcases Nat.lt_or_ge n 10 with h | h
      · have hConcat := digitsValue_concat [] (48 + n).toUInt8
        rw [printNat_of_lt h, ← List.nil_append [_], hConcat, toNat_digit h]
        simp [digitsValue]
      · have hMod : n % 10 < 10 := Nat.mod_lt _ (by decide)
        rw [printNat_of_le h, digitsValue_concat, ih (n / 10) (by omega),
          toNat_digit hMod]
        omega

/-- Part of the digits is a smaller number, because the first digit is not zero
and each further one multiplies by ten. -/
theorem digitsValue_lt_of_cut {n : Nat} {front rest : List UInt8}
    (h : printNat n = front ++ rest) (hFront : front ≠ [])
    (hRest : rest ≠ []) : digitsValue front < n := by
  induction n using Nat.strong_induction_on generalizing rest with
  | _ n ih =>
      rcases Nat.lt_or_ge n 10 with hn | hn
      · rw [printNat_of_lt hn] at h
        have hLength := congrArg List.length h
        have hF := List.length_pos_iff.mpr hFront
        have hR := List.length_pos_iff.mpr hRest
        rw [List.length_singleton, List.length_append] at hLength
        omega
      · rw [printNat_of_le hn, ← List.dropLast_concat_getLast hRest,
          ← List.append_assoc] at h
        have hInit := (List.append_inj_left' h rfl)
        by_cases hMore : rest.dropLast = []
        · rw [hMore, List.append_nil] at hInit
          rw [← hInit, digitsValue_printNat]
          omega
        · have hLess := ih (n / 10) (by omega) hInit hMore
          omega

/-- `k` digits are enough below `10 ^ k`. -/
theorem length_printNat_le {n k : Nat} (hk : 0 < k) (h : n < 10 ^ k) :
    (printNat n).length ≤ k := by
  rw [printNat, ascii, List.length_map]
  exact (Nat.length_toDigits_le_iff (by decide) hk).mpr h

theorem length_printInt_le {z : Int} {k : Nat} (hk : 0 < k)
    (h : z.natAbs < 10 ^ k) : (printInt z).length ≤ k + 1 := by
  have hNat := length_printNat_le hk h
  rw [printInt]
  split
  · rw [List.length_cons]
    omega
  · omega

/-- Only a sign and digits are printed, so any other byte ends the number. -/
theorem mem_printInt {z : Int} {b : UInt8} (h : b ∈ printInt z) :
    b = 45 ∨ isDigit b = true := by
  rw [printInt] at h
  split at h
  · rcases List.mem_cons.mp h with h | h
    · exact Or.inl h
    · exact Or.inr (isDigit_of_mem_printNat b h)
  · exact Or.inr (isDigit_of_mem_printNat b h)

/-! ## Scanning what was printed -/

theorem takeWhile_isDigit_printNat (n : Nat) {rest : List UInt8}
    (hRest : ∀ b ∈ rest.head?, isDigit b = false) :
    (printNat n ++ rest).takeWhile isDigit = printNat n := by
  rw [List.takeWhile_append_of_pos fun b hb => isDigit_of_mem_printNat b hb]
  cases rest with
  | nil => simp
  | cons b rest =>
      rw [List.takeWhile_cons_of_neg (by simp [hRest b rfl]), List.append_nil]

theorem scanNat_printNat (n : Nat) {rest : List UInt8}
    (hRest : ∀ b ∈ rest.head?, isDigit b = false) :
    scanNat (printNat n ++ rest) = some n := by
  rw [scanNat]
  simp only [takeWhile_isDigit_printNat n hRest, if_neg (printNat_ne_nil n),
    digitsValue_printNat]

/-- A digit is neither white space nor a sign. -/
theorem scanInt_of_digit {b : UInt8} {rest : List UInt8}
    (h : isDigit b = true) :
    scanInt (b :: rest) =
      (scanNat (b :: rest)).map fun (n : Nat) => (n : Int) := by
  have hb := (isDigit_iff b).mp h
  have hSpace : isSpace b = false := by
    have h32 : b ≠ 32 := by
      rintro rfl
      revert hb
      decide
    have h13 : ¬b ≤ 13 := by
      rw [UInt8.le_iff_toNat_le]
      simp only [UInt8.reduceToNat]
      omega
    simp [isSpace, h32, h13]
  have h45 : b ≠ 45 := by
    rintro rfl
    revert hb
    decide
  have h43 : b ≠ 43 := by
    rintro rfl
    revert hb
    decide
  rw [scanInt, List.dropWhile_cons_of_neg (by simp [hSpace])]
  split
  · rename_i hEq
    exact absurd (List.cons.inj hEq).1 h45
  · rename_i hEq
    exact absurd (List.cons.inj hEq).1 h43
  · rfl

theorem scanInt_minus (rest : List UInt8) :
    scanInt (45 :: rest) = (scanNat rest).map fun (n : Nat) => -(n : Int) := by
  rw [scanInt, List.dropWhile_cons_of_neg (by decide)]
  rfl

/-- **Round trip.**  What was printed is read back, if no digit follows. -/
theorem scanInt_printInt (z : Int) {rest : List UInt8}
    (hRest : ∀ b ∈ rest.head?, isDigit b = false) :
    scanInt (printInt z ++ rest) = some z := by
  rw [printInt]
  by_cases hz : z < 0
  · rw [if_pos hz, List.cons_append, scanInt_minus,
      scanNat_printNat _ hRest, Option.map_some]
    congr 1
    omega
  · have hNat := scanNat_printNat z.natAbs hRest
    rw [if_neg hz]
    cases hp : printNat z.natAbs with
    | nil => exact absurd hp (printNat_ne_nil _)
    | cons b digits =>
        have hb : isDigit b = true :=
          isDigit_of_mem_printNat b (hp ▸ List.mem_cons_self)
        rw [hp] at hNat
        rw [List.cons_append, scanInt_of_digit hb, ← List.cons_append, hNat,
          Option.map_some]
        congr 1
        omega

theorem takeWhile_isDigit_cut {n : Nat} {front rest : List UInt8}
    (h : printNat n = front ++ rest) : front.takeWhile isDigit = front := by
  rw [List.takeWhile_eq_self_iff]
  intro b hb
  exact isDigit_of_mem_printNat b (h ▸ List.mem_append_left _ hb)

/-- A number that was cut off is not read as the number, but as one with a
smaller absolute value. -/
theorem scanInt_cut {z v : Int} {front rest : List UInt8}
    (h : printInt z = front ++ rest) (hRest : rest ≠ [])
    (hScan : scanInt front = some v) : v.natAbs < z.natAbs := by
  rw [printInt] at h
  by_cases hz : z < 0
  · rw [if_pos hz] at h
    cases front with
    | nil => simp [scanInt, scanNat] at hScan
    | cons b front =>
        rw [List.cons_append, List.cons.injEq] at h
        rcases h with ⟨rfl, h⟩
        rw [scanInt_minus, scanNat, takeWhile_isDigit_cut h] at hScan
        by_cases hFront : front = []
        · simp [hFront] at hScan
        · simp only [if_neg hFront, Option.map_some, Option.some.injEq]
            at hScan
          have hLess := digitsValue_lt_of_cut h hFront hRest
          omega
  · rw [if_neg hz] at h
    cases front with
    | nil => simp [scanInt, scanNat] at hScan
    | cons b front =>
        have hb : isDigit b = true :=
          isDigit_of_mem_printNat b (h ▸ List.mem_append_left _
            List.mem_cons_self)
        rw [scanInt_of_digit hb, scanNat, takeWhile_isDigit_cut h,
          if_neg (List.cons_ne_nil _ _), Option.map_some,
          Option.some.injEq] at hScan
        have hLess := digitsValue_lt_of_cut h (List.cons_ne_nil _ _) hRest
        omega

end UnixHomework.Verified
