import UnixHomework.Verified.Hexadecimal
import Mathlib.Data.List.DropRight

/-!
# Conversions that read an input

A conversion of `scanf` skips white space and takes what fits it from the front
of the input.  Where nothing fits it fails, the variable keeps its value, and
only the white space has been read.  This is the convention for a sign without
digits as well, of which a C library may also take the sign.  So a second try
fails too, in the same place (`scanfInt_again`).

A result is paired with what is left of the input.
-/

namespace UnixHomework.Verified

/-- `%d`: white space, a sign and the digits, as far as they go.  Without a
digit the conversion fails and has taken nothing but the white space: a sign
alone is a word like another, and stays in the input. -/
def scanfInt (text : List UInt8) : Option Int × List UInt8 :=
  let signed := takeSign (text.dropWhile isSpace)
  match scanNat signed.2 with
  | none => (none, text.dropWhile isSpace)
  | some v => (some (if signed.1 then -v else v), signed.2.dropWhile isDigit)

/-- `scanf("%d", &x)`; `convert` says what is stored for a number.  Where there
is none, `x` keeps its value. -/
def scanfVar (convert : Int → Int) (x : Int) (text : List UInt8) :
    Int × List UInt8 :=
  match scanfInt text with
  | (none, rest) => (x, rest)
  | (some v, rest) => (convert v, rest)

/-- The characters up to the next white space, at most so many. -/
def nextWord (width : Option Nat) (text : List UInt8) : List UInt8 :=
  match width with
  | none => text.takeWhile fun b => !isSpace b
  | some k => (text.takeWhile fun b => !isSpace b).take k

/-- `%s`, or `%9s` with a width, which leaves the rest of a longer word in the
input. -/
def scanfWord (width : Option Nat) (text : List UInt8) :
    Option (List UInt8) × List UInt8 :=
  let start := text.dropWhile isSpace
  let word := nextWord width start
  if word = [] then (none, start) else (some word, start.drop word.length)

/-- `getchar`; `none` is `EOF`. -/
def getchar (text : List UInt8) : Option UInt8 × List UInt8 :=
  (text.head?, text.tail)

section

variable {text rest : List UInt8}

/-! ## What is left -/

theorem takeSign_suffix (text : List UInt8) : (takeSign text).2 <:+ text := by
  rcases takeSign_cases text with ⟨sign, -, hSplit⟩
  exact ⟨sign, hSplit.symm⟩

/-- A number is at least one digit. -/
theorem length_dropWhile_isDigit_lt {v : Nat} (h : scanNat text = some v) :
    (text.dropWhile isDigit).length < text.length := by
  have hSplit := congrArg List.length
    (List.takeWhile_append_dropWhile (p := isDigit) (l := text))
  rcases Option.ite_none_left_eq_some.mp h with ⟨hDigits, -⟩
  have hPos := List.length_pos_iff.mpr hDigits
  rw [List.length_append] at hSplit
  omega

theorem scanInt_eq_takeSign (text : List UInt8) :
    scanInt text =
      (scanNat (takeSign (text.dropWhile isSpace)).2).map fun n : Nat =>
        if (takeSign (text.dropWhile isSpace)).1 then -(n : Int) else n := by
  rw [scanInt]
  generalize text.dropWhile isSpace = start
  split
  · rfl
  · rfl
  · rename_i hMinus hPlus
    have hSign : takeSign start = (false, start) := by
      unfold takeSign
      split
      · exact absurd rfl (hMinus _)
      · exact absurd rfl (hPlus _)
      · rfl
    rw [hSign]
    rfl

/-- The number is that of `sscanf`. -/
theorem scanfInt_fst (text : List UInt8) :
    (scanfInt text).1 = scanInt text := by
  rw [scanInt_eq_takeSign, scanfInt]
  cases scanNat (takeSign (text.dropWhile isSpace)).2 <;> rfl

/-- A conversion that fails. -/
theorem scanfInt_eq_none (h : scanfInt text = (none, rest)) :
    rest = text.dropWhile isSpace ∧
      scanNat (takeSign (text.dropWhile isSpace)).2 = none := by
  rw [scanfInt] at h
  cases hScan : scanNat (takeSign (text.dropWhile isSpace)).2 with
  | none =>
      rw [hScan] at h
      exact ⟨(Prod.mk.inj h).2.symm, rfl⟩
  | some v =>
      rw [hScan] at h
      exact absurd (Prod.mk.inj h).1 (Option.some_ne_none _)

/-- **Another try** fails in the same place: only white space has been read. -/
theorem scanfInt_again (h : scanfInt text = (none, rest)) :
    scanfInt rest = (none, rest) := by
  rcases scanfInt_eq_none h with ⟨hRest, hScan⟩
  have hStart : rest.dropWhile isSpace = rest := by
    rw [hRest]
    exact List.dropWhile_idempotent isSpace text
  rw [← hRest] at hScan
  rw [scanfInt, hStart, hScan]

/-- A conversion that succeeds. -/
theorem scanfInt_eq_some {v : Int} (h : scanfInt text = (some v, rest)) :
    ∃ n : Nat, scanNat (takeSign (text.dropWhile isSpace)).2 = some n ∧
      (v = n ∨ v = -n) ∧
      rest = (takeSign (text.dropWhile isSpace)).2.dropWhile isDigit := by
  rw [scanfInt] at h
  cases hScan : scanNat (takeSign (text.dropWhile isSpace)).2 with
  | none =>
      rw [hScan] at h
      exact absurd (Prod.mk.inj h).1.symm (Option.some_ne_none _)
  | some n =>
      rw [hScan] at h
      rcases Prod.mk.inj h with ⟨hValue, hRest⟩
      refine ⟨n, rfl, ?_, hRest.symm⟩
      rw [← Option.some.inj hValue]
      cases (takeSign (text.dropWhile isSpace)).1
      · exact Or.inl rfl
      · exact Or.inr rfl

/-- Where the digits start. -/
theorem takeSign_dropWhile_suffix (text : List UInt8) :
    (takeSign (text.dropWhile isSpace)).2 <:+ text :=
  (takeSign_suffix _).trans (List.dropWhile_suffix _)

/-- A number is read, and the input is shorter by it. -/
theorem length_scanfInt_lt {v : Int} (h : scanfInt text = (some v, rest)) :
    rest.length < text.length := by
  rcases scanfInt_eq_some h with ⟨n, hScan, -, hRest⟩
  have hDigits := length_dropWhile_isDigit_lt hScan
  rw [← hRest] at hDigits
  exact Nat.lt_of_lt_of_le hDigits (takeSign_dropWhile_suffix text).length_le

theorem scanfInt_suffix (text : List UInt8) :
    (scanfInt text).2 <:+ text := by
  cases hScan : scanfInt text with
  | mk v rest =>
      cases v with
      | none =>
          rw [(scanfInt_eq_none hScan).1]
          exact List.dropWhile_suffix _
      | some v =>
          rcases scanfInt_eq_some hScan with ⟨-, -, -, hRest⟩
          rw [hRest]
          exact (List.dropWhile_suffix _).trans
            (takeSign_dropWhile_suffix text)

/-- The last digit of a number is in the text. -/
theorem mem_of_scanNat {n : Nat} (h : scanNat text = some n) :
    ∃ b ∈ text, b.toNat = 48 + n % 10 := by
  rcases Option.ite_none_left_eq_some.mp h with ⟨hDigits, hValue⟩
  have hLast := List.dropLast_concat_getLast hDigits
  have hMem := List.getLast_mem hDigits
  have hDigit := (isDigit_iff _).mp (List.mem_takeWhile_imp hMem)
  have hSplit := digitsValue_concat (text.takeWhile isDigit).dropLast
    ((text.takeWhile isDigit).getLast hDigits)
  rw [hLast, Option.some.inj hValue] at hSplit
  exact ⟨_, (List.takeWhile_sublist _).subset hMem, by omega⟩

theorem mem_of_scanfInt {v : Int} (h : scanfInt text = (some v, rest)) :
    ∃ b ∈ text, b.toNat = 48 + v.natAbs % 10 := by
  rcases scanfInt_eq_some h with ⟨n, hScan, hValue, -⟩
  rcases mem_of_scanNat hScan with ⟨b, hMem, hDigit⟩
  refine ⟨b, (takeSign_dropWhile_suffix text).subset hMem, ?_⟩
  rcases hValue with rfl | rfl
  · exact hDigit
  · rw [Int.natAbs_neg]
    exact hDigit

section Variable

variable {convert : Int → Int} {x : Int}

theorem scanfVar_of_some {v : Int} (h : scanfInt text = (some v, rest)) :
    scanfVar convert x text = (convert v, rest) := by
  rw [scanfVar, h]

theorem scanfVar_of_none (h : scanfInt text = (none, rest)) :
    scanfVar convert x text = (x, rest) := by
  rw [scanfVar, h]

theorem scanfVar_suffix (convert : Int → Int) (x : Int)
    (text : List UInt8) : (scanfVar convert x text).2 <:+ text := by
  have hSuffix := scanfInt_suffix text
  rw [scanfVar]
  split <;> rename_i hScan <;> rw [hScan] at hSuffix <;> exact hSuffix

end Variable

theorem getchar_suffix (text : List UInt8) : (getchar text).2 <:+ text :=
  List.tail_suffix text

theorem scanfWord_snd (width : Option Nat) (text : List UInt8) :
    (scanfWord width text).2 = (text.dropWhile isSpace).drop
      (nextWord width (text.dropWhile isSpace)).length := by
  rw [scanfWord]
  by_cases hWord : nextWord width (text.dropWhile isSpace) = []
  · rw [if_pos hWord, hWord]
    rfl
  · rw [if_neg hWord]

theorem scanfWord_suffix (width : Option Nat) (text : List UInt8) :
    (scanfWord width text).2 <:+ text := by
  rw [scanfWord_snd]
  exact (List.drop_suffix _ _).trans (List.dropWhile_suffix _)

@[simp] theorem scanfWord_nil (width : Option Nat) :
    scanfWord width [] = (none, []) := by
  cases width <;> simp [scanfWord, nextWord]

/-- Where no number is, the next character is no white space. -/
theorem dropWhile_isSpace_of_none (h : scanfInt text = (none, text)) :
    text.dropWhile isSpace = text :=
  (scanfInt_eq_none h).1.symm

/-- A word starts where no white space is. -/
theorem nextWord_ne_nil {width : Option Nat} (hWidth : width ≠ some 0)
    {b : UInt8} (hFirst : isSpace b = false) (rest : List UInt8) :
    nextWord width (b :: rest) ≠ [] := by
  have hRun : (b :: rest).takeWhile (fun b => !isSpace b) =
      b :: rest.takeWhile (fun b => !isSpace b) :=
    List.takeWhile_cons_of_pos (by rw [hFirst]; rfl)
  cases width with
  | none =>
      rw [nextWord, hRun]
      exact List.cons_ne_nil _ _
  | some k =>
      cases k with
      | zero => exact absurd rfl hWidth
      | succ k =>
          rw [nextWord, hRun, List.take_succ_cons]
          exact List.cons_ne_nil _ _

/-- A word is read, unless the input has ended. -/
theorem length_scanfWord_lt (width : Option Nat) (hWidth : width ≠ some 0)
    (hStart : text.dropWhile isSpace ≠ []) :
    (scanfWord width text).2.length < text.length := by
  have hSpaces := (List.dropWhile_suffix isSpace (l := text)).length_le
  have hFirst := head?_dropWhile isSpace text
  rw [scanfWord_snd, List.length_drop]
  cases hText : text.dropWhile isSpace with
  | nil => exact absurd hText hStart
  | cons b rest =>
      rw [hText] at hSpaces hFirst
      have hWord := List.length_pos_iff.mpr
        (nextWord_ne_nil hWidth (hFirst b rfl) rest)
      rw [List.length_cons] at hSpaces ⊢
      omega

end

end UnixHomework.Verified
