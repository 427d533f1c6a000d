import UnixHomework.Verified.Binary
import UnixHomework.Verified.Loops
import Mathlib.Data.Nat.Size

/-!
# Replacing the third byte

Two programs replace the third byte of a number.  The one of hw3 writes it into
memory, which is that of a little-endian machine.  The one of hw1 masks it, but
has shifted the number to zero before, when it counted its ones: what it prints
last is the new byte alone.  The two agree exactly on the numbers that have no
ones outside the third byte (`third_byte_agrees_iff`).
-/

namespace UnixHomework.Ports.ThirdByte

open UnixHomework.Verified

/-! ## hw1 -/

/-- The loops that print `num`.  `1 << 31` is the highest bit. -/
def showBinary (num : BitVec 32) : List UInt8 :=
  printBits (fun i => num &&& (1#32 <<< i) ≠ 0) 4 32

/-- `while (num > 0)`, with `count` as the second component. -/
def countLoop : Loop (BitVec 32 × Nat) where
  cond s := 0 < s.1
  body s := some (s.1 >>> 1, s.2 + (s.1 &&& 1).toNat)

/-- What hw1 prints; `changed` is missing if `new_byte` is refused. -/
structure Output where
  binary : List UInt8
  count : Nat
  changed : Option (List UInt8)
  deriving DecidableEq

/-- `main` of hw1, with the values of its two calls of `scanf`. -/
def hw1Main (num newByte : BitVec 32) : Option Output := do
  let binary := showBinary num
  let (num, count) ← countLoop.run 32 (num, 0)
  if newByte > 255 ∨ newByte ≤ 0 then some ⟨binary, count, none⟩
  else
    let num := (num &&& ~~~(0xFF#32 <<< 16)) ||| (newByte <<< 16)
    some ⟨binary, count, some (showBinary num)⟩

/-! ## hw3 -/

/-- `main` of hw3: the number that is printed. -/
def hw3Main (num : BitVec 32) (newByte : BitVec 8) : Int :=
  let bytePtr := toBytes num 4
  (ofBytes 32 (bytePtr.set 2 newByte)).toInt

/-! ## What is asked for -/

/-- An `int` that is not negative, and a byte other than zero. -/
structure Entered where
  num : Nat
  newByte : Nat
  num_lt : num < 2 ^ 31
  newByte_pos : 0 < newByte
  newByte_lt : newByte < 256

/-- Bits 16 to 23 are those of the byte, and the others those of the
number. -/
def Replaced (num newByte result : Nat) : Prop :=
  ∀ i, result.testBit i =
    if 16 ≤ i ∧ i < 24 then newByte.testBit (i - 16) else num.testBit i

/-- Both programs end with the number in which the byte is replaced, hw1 in
its binary form. -/
def Agree (e : Entered) : Prop :=
  ∃ out text result,
    hw1Main (.ofNat 32 e.num) (.ofNat 32 e.newByte) = some out ∧
      out.changed = some text ∧ binaryValue text = result ∧
        hw3Main (.ofNat 32 e.num) (.ofNat 8 e.newByte) = result ∧
          Replaced e.num e.newByte result

/-- There are no ones outside the third byte. -/
def OnlyThirdByte (num : Nat) : Prop :=
  ∀ i, num.testBit i = true → 16 ≤ i ∧ i < 24

/-! ## Printing and counting -/

theorem testBit_iff (num : BitVec 32) (i : Nat) :
    num &&& (1#32 <<< i) ≠ 0 ↔ num.toNat.testBit i = true := by
  constructor
  · intro hMask
    by_contra hBit
    apply hMask
    apply BitVec.eq_of_getLsbD_eq
    intro j hj
    rw [BitVec.getLsbD_and, BitVec.getLsbD_shiftLeft, BitVec.getLsbD_one]
    by_cases hSame : j = i
    · rw [hSame, BitVec.getLsbD, eq_false_of_ne_true hBit]
      simp
    · have hNone : ¬(¬j < i ∧ j - i = 0) := by omega
      simp
      omega
  · intro hBit hMask
    have hi : i < 32 := by
      by_contra hNot
      rw [Nat.testBit_lt_two_pow] at hBit
      · contradiction
      · exact Nat.lt_of_lt_of_le num.isLt
          (Nat.pow_le_pow_right (by decide) (Nat.le_of_not_lt hNot))
    have hZero : (num &&& (1#32 <<< i)).getLsbD i = false := by
      rw [hMask]
      exact BitVec.getLsbD_zero
    rw [BitVec.getLsbD_and, BitVec.getLsbD_shiftLeft, decide_eq_true hi,
      Nat.sub_self, show num.getLsbD i = true from hBit] at hZero
    simp at hZero

theorem showBinary_eq (num : BitVec 32) :
    showBinary num = printBits num.toNat.testBit 4 32 := by
  apply printBits_congr
  intro i _
  rw [Bool.eq_iff_iff, decide_eq_true_iff]
  exact testBit_iff num i

theorem binaryValue_showBinary (num : BitVec 32) :
    binaryValue (showBinary num) = num.toNat := by
  rw [showBinary_eq, binaryValue_printBits 4 num.isLt]

/-- The ones of a number. -/
def ones (num : BitVec 32) : Nat :=
  (List.range 32).countP num.getLsbD

theorem toNat_and_one (num : BitVec 32) :
    (num &&& 1).toNat = if num.getLsbD 0 then 1 else 0 := by
  have hAnd : (num &&& 1).toNat = num.toNat % 2 := by
    rw [BitVec.toNat_and]
    exact Nat.and_one_is_mod _
  rw [hAnd, BitVec.getLsbD, Nat.testBit_zero]
  by_cases hOdd : num.toNat % 2 = 1
  · rw [if_pos (decide_eq_true hOdd), hOdd]
  · rw [if_neg (by simpa using hOdd)]
    omega

/-- The last bit, and the others, which are shifted down. -/
theorem ones_step (num : BitVec 32) :
    ones num = ones (num >>> 1) + (num &&& 1).toNat := by
  have hBits : ∀ i, (num >>> 1).getLsbD i = num.getLsbD (i + 1) := by
    intro i
    rw [BitVec.getLsbD_ushiftRight, Nat.add_comm]
  have hTop : num.getLsbD (31 + 1) = false :=
    BitVec.getLsbD_of_ge num 32 (Nat.le_refl _)
  have hShifted : ones (num >>> 1) =
      (List.range 31).countP fun i => num.getLsbD (i + 1) := by
    rw [ones, List.range_succ, List.countP_append, funext hBits,
      List.countP_singleton, hTop]
    rfl
  have hWhole : ones num =
      (List.range 31).countP (fun i => num.getLsbD (i + 1)) +
        if num.getLsbD 0 then 1 else 0 := by
    rw [ones, List.range_succ_eq_map, List.countP_cons, List.countP_map]
    rfl
  rw [hWhole, hShifted, toNat_and_one]

/-- **The counting loop** ends, and leaves nothing of the number. -/
theorem countLoop_run (num : BitVec 32) :
    countLoop.run 32 (num, 0) = some (0, ones num) := by
  have hTurn : ∀ s : BitVec 32 × Nat, ones s.1 + s.2 = ones num →
      countLoop.cond s = true → ∃ next, countLoop.body s = some next ∧
        ones next.1 + next.2 = ones num ∧
          Nat.size next.1.toNat < Nat.size s.1.toNat := by
    rintro ⟨rest, count⟩ hOnes hCond
    have hPos : 0 < rest.toNat := of_decide_eq_true hCond
    refine ⟨_, rfl, ?_, ?_⟩
    · have hStep := ones_step rest
      show ones (rest >>> 1) + (count + (rest &&& 1).toNat) = _
      simp only at hOnes
      omega
    · show Nat.size (rest >>> 1).toNat < Nat.size rest.toNat
      have hSize := Nat.lt_size_self rest.toNat
      have hSome : 0 < Nat.size rest.toNat := Nat.size_pos.mpr hPos
      have hHalf : (rest >>> 1).toNat = rest.toNat / 2 := by
        rw [BitVec.toNat_ushiftRight, Nat.shiftRight_eq_div_pow, Nat.pow_one]
      rcases hBits : Nat.size rest.toNat with _ | k
      · omega
      · rw [hBits, Nat.pow_succ] at hSize
        rw [Nat.lt_succ_iff, Nat.size_le, hHalf]
        omega
  rcases Loop.run_of_measure hTurn (s := (num, 0)) rfl
    (Nat.size_le.mpr num.isLt) with ⟨⟨rest, count⟩, hRun, hOnes, hCond⟩
  have hZero : rest = 0 := by
    have hNot : ¬0 < rest.toNat := of_decide_eq_false hCond
    apply BitVec.eq_of_toNat_eq
    exact Nat.eq_zero_of_not_pos hNot
  subst hZero
  have hNone : ones 0 = 0 := by decide
  have hCount : count = ones num := by
    rw [← hOnes]
    show count = ones 0 + count
    rw [hNone, Nat.zero_add]
  rw [hRun, hCount]

/-! ## The two results -/

section Results

variable (e : Entered)

/-- The memory of hw3's number with the byte written. -/
def written : BitVec 32 :=
  ofBytes 32 ((toBytes (.ofNat 32 e.num) 4).set 2 (.ofNat 8 e.newByte))

theorem written_replaced : Replaced e.num e.newByte (written e).toNat := by
  intro i
  have hNum : e.num < 2 ^ 32 := Nat.lt_trans e.num_lt (by decide)
  by_cases hi : i < 32
  · have hByte := getLsbD_ofBytes_set (.ofNat 32 e.num) (.ofNat 8 e.newByte)
      (by decide : 2 < 4) hi (by decide : 32 ≤ 8 * 4)
    rw [BitVec.testBit_toNat, written, hByte, BitVec.getLsbD_ofNat,
      BitVec.getLsbD_ofNat, decide_eq_true hi,
      decide_eq_true (Nat.mod_lt i (by decide : 0 < 8)), Bool.true_and,
      Bool.true_and]
    by_cases hThird : i / 8 = 2
    · rw [if_pos hThird, if_pos (by omega),
        show i % 8 = i - 16 by omega]
    · rw [if_neg hThird, if_neg (by omega)]
  · have hHigh : ∀ {m : Nat}, m < 2 ^ 32 → m.testBit i = false := by
      intro m hm
      exact Nat.testBit_lt_two_pow (Nat.lt_of_lt_of_le hm
        (Nat.pow_le_pow_right (by decide) (Nat.le_of_not_lt hi)))
    rw [hHigh (written e).isLt, if_neg (by omega), hHigh hNum]

/-- **hw3** prints the number with the byte replaced. -/
theorem hw3Main_eq :
    hw3Main (.ofNat 32 e.num) (.ofNat 8 e.newByte) = (written e).toNat := by
  have hSmall : (written e).toNat < 2 ^ 31 := by
    apply Nat.lt_pow_two_of_testBit
    intro i hi
    rw [written_replaced e i, if_neg (by omega)]
    exact Nat.testBit_lt_two_pow (Nat.lt_of_lt_of_le e.num_lt
      (Nat.pow_le_pow_right (by decide) hi))
  show (written e).toInt = _
  exact BitVec.toInt_eq_toNat_of_lt (by omega)

/-- **hw1** prints the byte, shifted to its place. -/
theorem hw1Main_eq :
    hw1Main (.ofNat 32 e.num) (.ofNat 32 e.newByte) =
      some ⟨showBinary (.ofNat 32 e.num), ones (.ofNat 32 e.num),
        some (showBinary (BitVec.ofNat 32 e.newByte <<< 16))⟩ := by
  have hValue : (BitVec.ofNat 32 e.newByte).toNat = e.newByte := by
    rw [BitVec.toNat_ofNat]
    exact Nat.mod_eq_of_lt (Nat.lt_trans e.newByte_lt (by decide))
  have hAccepted : ¬(BitVec.ofNat 32 e.newByte > 255 ∨
      BitVec.ofNat 32 e.newByte ≤ 0) := by
    have hPos := e.newByte_pos
    have hLt := e.newByte_lt
    rw [gt_iff_lt, BitVec.lt_def, BitVec.le_def, hValue]
    simp
    omega
  simp only [hw1Main, countLoop_run, Option.bind_eq_bind, Option.bind_some,
    if_neg hAccepted]
  simp

theorem binaryValue_hw1 :
    binaryValue (showBinary (BitVec.ofNat 32 e.newByte <<< 16)) =
      e.newByte <<< 16 := by
  have hLt := e.newByte_lt
  rw [binaryValue_showBinary, BitVec.toNat_shiftLeft, BitVec.toNat_ofNat,
    Nat.mod_eq_of_lt (Nat.lt_trans hLt (by decide)), Nat.shiftLeft_eq]
  omega

/-- The byte alone is the result for a number without other ones. -/
theorem shifted_eq_written_iff :
    e.newByte <<< 16 = (written e).toNat ↔ OnlyThirdByte e.num := by
  have hByte : ∀ i, ¬(16 ≤ i ∧ i < 24) →
      (e.newByte <<< 16).testBit i = false := by
    intro i hi
    rw [Nat.testBit_shiftLeft]
    by_cases hLow : i < 16
    · rw [decide_eq_false (by omega), Bool.false_and]
    · have hHigh : e.newByte.testBit (i - 16) = false :=
        Nat.testBit_lt_two_pow (Nat.lt_of_lt_of_le e.newByte_lt
          (Nat.pow_le_pow_right (by decide : 2 > 0) (by omega : 8 ≤ i - 16)))
      rw [hHigh, Bool.and_false]
  constructor
  · intro hSame i hBit
    by_contra hOutside
    have hZero := hByte i hOutside
    rw [hSame, written_replaced e i, if_neg hOutside, hBit] at hZero
    contradiction
  · intro hOnly
    apply Nat.eq_of_testBit_eq
    intro i
    rw [written_replaced e i]
    by_cases hThird : 16 ≤ i ∧ i < 24
    · rw [if_pos hThird, Nat.testBit_shiftLeft, decide_eq_true hThird.1,
        Bool.true_and]
    · rw [if_neg hThird, hByte i hThird]
      exact (eq_false_of_ne_true fun hBit => hThird (hOnly i hBit)).symm

/-- The result can only be the byte that hw1 prints. -/
theorem Agree.shifted {e : Entered} (h : Agree e) :
    e.newByte <<< 16 = (written e).toNat := by
  rcases h with ⟨out, text, result, hOut, hText, hValue, hPrinted, -⟩
  rw [hw1Main_eq, Option.some.injEq] at hOut
  subst hOut
  rw [Option.some.injEq] at hText
  subst hText
  rw [hw3Main_eq, Int.ofNat_inj] at hPrinted
  rw [← binaryValue_hw1, hValue, hPrinted]

/-- **The programs agree** exactly on the numbers whose ones are all in the
byte that is replaced. -/
theorem third_byte_agrees_iff : Agree e ↔ OnlyThirdByte e.num := by
  rw [← shifted_eq_written_iff e]
  constructor
  · exact Agree.shifted
  · intro hSame
    refine ⟨_, _, (written e).toNat, hw1Main_eq e, rfl, ?_, hw3Main_eq e,
      written_replaced e⟩
    rw [binaryValue_hw1, hSame]

end Results

/-- The number 1 and the byte 1: hw1 prints 65536 in its binary form, and hw3
prints 65537. -/
theorem one_replaced_differently :
    (hw1Main 1 1).map (fun out => out.changed.map binaryValue) =
        some (some 65536) ∧
      hw3Main 1 1 = 65537 ∧ ¬∀ e, Agree e := by
  refine ⟨by decide, by decide, fun hAll => ?_⟩
  have hSame := (hAll ⟨1, 1, by decide, by decide, by decide⟩).shifted
  exact absurd hSame (by decide)

end UnixHomework.Ports.ThirdByte
