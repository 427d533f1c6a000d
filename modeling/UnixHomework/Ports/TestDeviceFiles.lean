import UnixHomework.Ports.TestDevice
import Mathlib.Algebra.Group.Int.Defs
import Mathlib.Algebra.Group.Nat.Defs

/-!
# The files of the test device

The device once more, with the offsets of its open files and with writes that
fail.  `fixed_size_llseek` is the kernel's; what it is relied on for is
`KeepsWithin`.  A call of `test_read` has three steps here: the kernel copies
the offset of the file, `size` is computed, and the range is copied.

The last byte of the string is zero, and stays so whatever a failing write has
stored, since no write has more than 15 bytes (`files_in_bounds`).  With that
every range is inside the array, though the string may be another one by the
time it is copied.

What a failing write has stored stays (`failing_write_unchanged_iff`).
-/

namespace UnixHomework.Ports.TestDevice

open UnixHomework.Verified

/-! ## Offsets -/

/-- `fixed_size_llseek` on the offset of a file: the offset asked for, whence,
and the size; the new offset, if it is accepted. -/
abbrev Llseek := Int → Int → Nat → Int → Option Int

/-- No offset outside the size is accepted. -/
def KeepsWithin (fixedSizeLlseek : Llseek) : Prop :=
  ∀ pos off whence size next,
    fixedSizeLlseek pos off whence size = some next →
      0 ≤ next ∧ next ≤ size

/-- The offset of the file after `test_llseek`. -/
def testLlseek (fixedSizeLlseek : Llseek) (pos off : Int) (whence : Nat) :
    Int :=
  (fixedSizeLlseek pos off whence 15).getD pos

theorem testLlseek_within {fixedSizeLlseek : Llseek}
    (hSeek : KeepsWithin fixedSizeLlseek) {pos : Int} (off : Int)
    (whence : Nat) (hPos : 0 ≤ pos ∧ pos ≤ 15) :
    0 ≤ testLlseek fixedSizeLlseek pos off whence ∧
      testLlseek fixedSizeLlseek pos off whence ≤ 15 := by
  unfold testLlseek
  cases hNext : fixedSizeLlseek pos off whence 15 with
  | none => exact hPos
  | some next => exact hSeek pos off whence 15 next hNext

/-! ## Reading -/

/-- `readSize` as computed: the offset is a `loff_t`, and what is left behind
it is compared with `size` as a `size_t`. -/
def readSizeAt (len size : Nat) (off : Int) : Option Nat :=
  if (len : Int) ≤ off then none
  else
    let rest := ((len - off) % 2 ^ 64).toNat
    some (if rest < size then rest else size)

/-- The first half of `test_read`. -/
def readLength (testString : CharArray 16) (size : Nat) (off : Int) :
    Option (Option Nat) := do
  let len ← strlen testString
  some (readSizeAt len size off)

/-- `copy_to_user` of a range of the string. -/
def copyToUser (testString : CharArray 16) (off : Int) (size : Nat) :
    Option (List UInt8) :=
  if 0 ≤ off then testString.read? off.toNat size else none

/-- The second half of `test_read`, under the lock: what it returns, and the
offset. -/
def readCopy (testString : CharArray 16) (size : Nat) (off : Int) (ok : Bool) :
    Option (Except Errno (List UInt8) × Int) := do
  let bytes ← copyToUser testString off size
  if ok then some (.ok bytes, Int.bmod (off + size) (2 ^ 64))
  else some (.error .efault, off)

/-- `test_read` with nothing between its halves. -/
def testRead (testString : CharArray 16) (size : Nat) (off : Int) (ok : Bool) :
    Option (Except Errno (List UInt8) × Int) := do
  match ← readLength testString size off with
  | none => some (.ok [], off)
  | some size => readCopy testString size off ok

/-- No `size_t` wraps when the offset is that of a file. -/
theorem readSizeAt_eq (len size : Nat) {off : Int} (hLen : len ≤ 15)
    (hOff : 0 ≤ off) :
    readSizeAt len size off = readSize len size off.toNat := by
  have hCast : (len : Int) ≤ off ↔ len ≤ off.toNat := by omega
  unfold readSizeAt readSize
  by_cases hBehind : len ≤ off.toNat
  · rw [if_pos (hCast.mpr hBehind), if_pos hBehind]
  · have hRest : (((len : Int) - off) % 2 ^ 64).toNat = len - off.toNat := by
      rw [Int.emod_eq_of_lt (by omega) (by omega)]
      omega
    rw [if_neg (fun h => hBehind (hCast.mp h)), if_neg hBehind]
    simp only [hRest]

theorem readCopy_eq (testString : CharArray 16) {size : Nat} {off : Int}
    (hLow : 0 ≤ off) (hHigh : off + size ≤ 15) (ok : Bool) :
    readCopy testString size off ok = some (
      if ok then (.ok (testString.slice off.toNat size), off + size)
      else (.error .efault, off)) := by
  have hAdd : Int.bmod (off + size) (2 ^ 64) = off + size :=
    Int.bmod_eq_of_le (by omega) (by omega)
  have hRead : copyToUser testString off size =
      some (testString.slice off.toNat size) := by
    rw [copyToUser, if_pos hLow, testString.read?_of_fits (by omega)]
  rw [readCopy, hRead, Option.bind_eq_bind, Option.bind_some, hAdd]
  cases ok <;> rfl

/-- `test_string[15]` is zero. -/
def Ended (testString : CharArray 16) : Prop :=
  testString.slice 15 1 = [0]

instance (testString : CharArray 16) : Decidable (Ended testString) := by
  unfold Ended
  infer_instance

theorem Ended.terminated {testString : CharArray 16} (h : Ended testString) :
    testString.Terminated :=
  terminated_of_slice h

theorem length_str_le {testString : CharArray 16}
    (h : testString.Terminated) : testString.str.length ≤ 15 :=
  Nat.le_of_lt_succ h.length_str_lt

/-- What the first half of `test_read` computes is inside the array. -/
theorem readLength_eq {testString : CharArray 16}
    (h : testString.Terminated) (size : Nat) {off : Int} (hOff : 0 ≤ off) :
    readLength testString size off =
      some (readSize testString.str.length size off.toNat) := by
  rw [readLength, strlen_eq h, Option.bind_eq_bind, Option.bind_some,
    readSizeAt_eq _ _ (length_str_le h) hOff]

/-! ## Writing -/

/-- All bytes of a write have been stored, or at most so many. -/
def Copied.Within (size : Nat) : Copied → Prop
  | .all bytes => bytes.length = size
  | .fault bytes => bytes.length ≤ size

/-- A call of `test_write`, with what `copy_from_user` does in it. -/
structure Input where
  size : Nat
  copied : Copied
  within : copied.Within size

/-- **A write**, also one that fails, is inside the array and leaves its last
byte zero. -/
theorem Ended.testWrite {testString : CharArray 16} (h : Ended testString)
    (input : Input) :
    ∃ written result, testWrite testString input.size input.copied =
      some (written, result) ∧ Ended written := by
  obtain ⟨size, copied, hWithin⟩ := input
  by_cases hLong : 15 < size
  · exact ⟨testString, .error .einval, if_pos hLong, h⟩
  · cases copied with
    | all bytes =>
        obtain ⟨written, hWritten, -, hEnd, hFrame⟩ :=
          testWrite_all testString hWithin (by omega)
        refine ⟨written, .ok size, hWritten, ?_⟩
        show written.slice 15 1 = [0]
        by_cases hFull : size = 15
        · rw [← hFull]
          exact hEnd
        · rw [hFrame 15 1 (by omega)]
          exact h
    | fault bytes =>
        have hBytes : bytes.length ≤ size := hWithin
        obtain ⟨written, hWritten, -, hFrame⟩ :=
          testString.exists_write? 0 bytes bytes.length rfl (by omega)
        refine ⟨written, .error .efault, ?_, ?_⟩
        · simp only [TestDevice.testWrite, if_neg hLong, hWritten,
            Option.bind_eq_bind, Option.bind_some]
        · show written.slice 15 1 = [0]
          rw [hFrame 15 1 (by omega)]
          exact h

/-- What a failing `copy_from_user` of `size` bytes stores: the first `n`, and
zeros in place of the rest if it fills the destination. -/
def faultBytes (buff : List UInt8) (size n : Nat) (zeroFill : Bool) :
    List UInt8 :=
  buff.take n ++ if zeroFill then List.replicate (size - n) 0 else []

theorem length_faultBytes_le (buff : List UInt8) {size n : Nat} (h : n ≤ size)
    (zeroFill : Bool) : (faultBytes buff size n zeroFill).length ≤ size := by
  rw [faultBytes, List.length_append, List.length_take]
  cases zeroFill with
  | false =>
      show min n buff.length + 0 ≤ size
      omega
  | true =>
      rw [if_pos rfl, List.length_replicate]
      omega

/-- **A failing write** leaves the string unchanged if what it has stored was
there before, and only then. -/
theorem failing_write_unchanged_iff (testString : CharArray 16)
    (buff : List UInt8) (size n : Nat) (zeroFill : Bool) (hSize : size ≤ 15)
    (hStored : n ≤ size) :
    ∃ after, testWrite testString size
        (.fault (faultBytes buff size n zeroFill)) =
          some (after, .error .efault) ∧
      (after = testString ↔
        faultBytes buff size n zeroFill <+: testString.bytes) := by
  have hLength := length_faultBytes_le buff hStored zeroFill
  have hFits : 0 + (faultBytes buff size n zeroFill).length ≤ 16 := by omega
  refine ⟨testString.splice 0 (faultBytes buff size n zeroFill) hFits, ?_, ?_⟩
  · simp only [testWrite, if_neg (Nat.not_lt.mpr hSize),
      testString.write?_of_fits hFits, Option.bind_eq_bind, Option.bind_some]
  · rw [testString.splice_zero_eq_self_iff]

/-- The write of a text whose second byte cannot be read. -/
theorem failing_write_leaves_trace :
    (testWrite initialString 2 (.fault (faultBytes (ascii ['a', 'b']) 2 1
        false))).map (fun w => w.1.str) =
      some (ascii ['a', 'e', 'l', 'l', 'o', ',', ' ', 'W', 'o', 'r', 'l', 'd',
        '!', '\n']) := by
  decide +kernel

theorem failing_write_of_same_bytes :
    ∃ after, testWrite initialString 2
        (.fault (faultBytes (ascii ['H', 'i']) 2 1 false)) =
          some (after, .error .efault) ∧
      (after = initialString ↔
        faultBytes (ascii ['H', 'i']) 2 1 false <+: initialString.bytes) :=
  failing_write_unchanged_iff initialString _ 2 1 false (by decide) (by decide)

/-! ## The files -/

/-- A call of `test_read`: it has its own copy of the offset of its file, and
then its range. -/
inductive FileCall (φ : Type) where
  | entered (file : φ) (off : Int) (size : Nat)
  | sized (file : φ) (off : Int) (size : Nat)

/-- The string, the offsets of the files and the calls of the readers. -/
structure Files (φ ρ : Type) where
  /-- The one buffer of the module. -/
  testString : CharArray 16
  /-- The offset of each open file. -/
  pos : φ → Int
  /-- The calls of `test_read` in progress. -/
  calls : ρ → Option (FileCall φ)

inductive FileLabel (φ ρ : Type) where
  | llseek (file : φ) (off : Int) (whence : Nat)
  | enter (r : ρ) (file : φ) (size : Nat)
  | compute (r : ρ)
  | copy (r : ρ) (ok : Bool)
  | write (input : Input)

section FileSteps

variable {φ ρ : Type} [DecidableEq φ] [DecidableEq ρ]

/-- One step.  The offset of the file is stored when `test_read` returns,
unless it fails.  `none` is a step that its reader cannot take, or an access
outside the string. -/
def fileStep (fixedSizeLlseek : Llseek) (s : Files φ ρ) :
    FileLabel φ ρ → Option (Files φ ρ)
  | .llseek file off whence =>
      some { s with
        pos := Function.update s.pos file
          (testLlseek fixedSizeLlseek (s.pos file) off whence) }
  | .enter r file size =>
      match s.calls r with
      | some _ => none
      | none =>
          some { s with
            calls := Function.update s.calls r
              (some (.entered file (s.pos file) size)) }
  | .compute r =>
      match s.calls r with
      | some (.entered file off size) => do
          match ← readLength s.testString size off with
          | none =>
              some { s with
                pos := Function.update s.pos file off
                calls := Function.update s.calls r none }
          | some size =>
              some { s with
                calls := Function.update s.calls r
                  (some (.sized file off size)) }
      | _ => none
  | .copy r ok =>
      match s.calls r with
      | some (.sized file off size) => do
          let (_, next) ← readCopy s.testString size off ok
          some { s with
            pos := if ok then Function.update s.pos file next else s.pos
            calls := Function.update s.calls r none }
      | _ => none
  | .write input => do
      let (testString, _) ← testWrite s.testString input.size input.copied
      some { s with testString := testString }

/-- The files after the module has been loaded. -/
def Files.start : Files φ ρ where
  testString := initialString
  pos _ := 0
  calls _ := none

def deviceFiles (fixedSizeLlseek : Llseek) :
    Machine (Files φ ρ) (FileLabel φ ρ) where
  init s := s = Files.start
  step := fileStep fixedSizeLlseek

end FileSteps

section FileRuns

variable {φ ρ : Type} {s next : Files φ ρ}

/-- The steps that a reader can take. -/
def CanTake (s : Files φ ρ) : FileLabel φ ρ → Prop
  | .enter r _ _ => s.calls r = none
  | .compute r => ∃ file off size, s.calls r = some (.entered file off size)
  | .copy r _ => ∃ file off size, s.calls r = some (.sized file off size)
  | _ => True

/-- The offset of a call, and the end of its range. -/
def FileCall.Inside : FileCall φ → Prop
  | .entered _ off _ => 0 ≤ off ∧ off ≤ 15
  | .sized _ off size => 0 ≤ off ∧ off + size ≤ 15

/-- **The invariant**: the last byte is zero, and all offsets and ranges are in
front of it. -/
structure Bounded (s : Files φ ρ) : Prop where
  /-- The last byte is zero, -/
  ended : Ended s.testString
  /-- an offset is at it or before it, -/
  pos : ∀ file, 0 ≤ s.pos file ∧ s.pos file ≤ 15
  /-- and a call that has computed its size reads in front of it. -/
  calls : ∀ r call, s.calls r = some call → call.Inside

theorem bounded_start : Bounded (Files.start : Files φ ρ) where
  ended := by
    show Ended initialString
    decide
  pos file := ⟨Int.le_refl 0, Int.zero_le_ofNat 15⟩
  calls r call hCall := by contradiction

variable [DecidableEq φ] [DecidableEq ρ]

omit [DecidableEq ρ] in
theorem Bounded.pos_update (h : Bounded s) (file : φ) {off : Int}
    (hOff : 0 ≤ off ∧ off ≤ 15) (other : φ) :
    0 ≤ Function.update s.pos file off other ∧
      Function.update s.pos file off other ≤ 15 := by
  by_cases hSame : other = file
  · rw [hSame, Function.update_self]
    exact hOff
  · rw [Function.update_of_ne hSame]
    exact h.pos other

omit [DecidableEq φ] in
theorem Bounded.calls_update (h : Bounded s) (r : ρ)
    {entry : Option (FileCall φ)} (hEntry : ∀ c, entry = some c → c.Inside)
    (other : ρ) (c : FileCall φ)
    (hCall : Function.update s.calls r entry other = some c) : c.Inside := by
  rcases update_eq_some_cases hCall with ⟨-, hNew⟩ | ⟨-, hOld⟩
  · exact hEntry c hNew
  · exact h.calls other c hOld

/-- **One step** that can be taken is inside the array, and keeps the
bounds. -/
theorem Bounded.step {fixedSizeLlseek : Llseek}
    (hSeek : KeepsWithin fixedSizeLlseek) (h : Bounded s)
    {label : FileLabel φ ρ} (hCan : CanTake s label) :
    ∃ next, fileStep fixedSizeLlseek s label = some next ∧ Bounded next := by
  cases label with
  | llseek file off whence =>
      have hPos := testLlseek_within hSeek off whence (h.pos file)
      exact ⟨_, rfl, h.ended, h.pos_update file hPos, h.calls⟩
  | enter r file size =>
      have hIdle : s.calls r = none := hCan
      refine ⟨{ s with
        calls := Function.update s.calls r
          (some (.entered file (s.pos file) size)) }, ?_, h.ended, h.pos, ?_⟩
      · simp only [fileStep, hIdle]
      · apply h.calls_update
        intro c hNew
        obtain rfl := Option.some.inj hNew
        exact h.pos file
  | compute r =>
      obtain ⟨file, off, size, hCall⟩ := hCan
      have hOff : 0 ≤ off ∧ off ≤ 15 := h.calls r _ hCall
      have hEnd := h.ended.terminated
      have hLength := length_str_le hEnd
      simp only [fileStep, hCall, readLength_eq hEnd size hOff.1,
        Option.bind_eq_bind, Option.bind_some]
      cases hSize : readSize s.testString.str.length size off.toNat with
      | none =>
          refine ⟨_, rfl, h.ended, h.pos_update file hOff, ?_⟩
          apply h.calls_update
          intro c hNew
          contradiction
      | some cut =>
          have hCut := readSize_bounds hSize
          refine ⟨_, rfl, h.ended, h.pos, ?_⟩
          apply h.calls_update
          intro c hNew
          obtain rfl := Option.some.inj hNew
          show 0 ≤ off ∧ off + cut ≤ 15
          omega
  | copy r ok =>
      obtain ⟨file, off, size, hCall⟩ := hCan
      have hRange : 0 ≤ off ∧ off + size ≤ 15 := h.calls r _ hCall
      have hClosed : ∀ c, (none : Option (FileCall φ)) = some c → c.Inside := by
        intro c hNew
        contradiction
      simp only [fileStep, hCall, readCopy_eq _ hRange.1 hRange.2,
        Option.bind_eq_bind, Option.bind_some]
      cases ok with
      | false =>
          exact ⟨_, rfl, h.ended, h.pos, h.calls_update r hClosed⟩
      | true =>
          refine ⟨_, rfl, h.ended, ?_, h.calls_update r hClosed⟩
          apply h.pos_update
          show 0 ≤ off + size ∧ off + size ≤ 15
          omega
  | write input =>
      obtain ⟨written, result, hWritten, hEnded⟩ := h.ended.testWrite input
      refine ⟨{ s with testString := written }, ?_, hEnded, h.pos, h.calls⟩
      simp only [fileStep, hWritten, Option.bind_eq_bind, Option.bind_some]

theorem canTake_of_fileStep {fixedSizeLlseek : Llseek} {label : FileLabel φ ρ}
    (hStep : fileStep fixedSizeLlseek s label = some next) :
    CanTake s label := by
  cases label with
  | llseek file off whence => trivial
  | enter r file size =>
      show s.calls r = none
      cases hCall : s.calls r with
      | none => rfl
      | some call => simp [fileStep, hCall] at hStep
  | compute r =>
      show ∃ file off size, s.calls r = some (.entered file off size)
      cases hCall : s.calls r with
      | none => simp [fileStep, hCall] at hStep
      | some call =>
          cases call with
          | entered file off size => exact ⟨file, off, size, rfl⟩
          | sized file off size => simp [fileStep, hCall] at hStep
  | copy r ok =>
      show ∃ file off size, s.calls r = some (.sized file off size)
      cases hCall : s.calls r with
      | none => simp [fileStep, hCall] at hStep
      | some call =>
          cases call with
          | entered file off size => simp [fileStep, hCall] at hStep
          | sized file off size => exact ⟨file, off, size, rfl⟩
  | write input => trivial

/-- **A read alone**: the steps of one call, one after the other, return what
`testRead` computes. -/
theorem run_read (fixedSizeLlseek : Llseek) {r : ρ} (hIdle : s.calls r = none)
    (file : φ) (size : Nat) (ok : Bool)
    {result : Except Errno (List UInt8)} {off : Int}
    (hRead : testRead s.testString size (s.pos file) ok = some (result, off)) :
    ∃ labels, (deviceFiles fixedSizeLlseek).run s
      (.enter r file size :: labels) =
      some { s with pos := Function.update s.pos file off } := by
  have hRestore : ∀ call, Function.update (Function.update s.calls r call) r
      none = s.calls := by
    intro call
    rw [Function.update_idem, ← hIdle, Function.update_eq_self]
  rw [testRead] at hRead
  obtain ⟨length, hLength, hRead⟩ := Option.bind_eq_some_iff.mp hRead
  cases length with
  | none =>
      obtain ⟨rfl, rfl⟩ := Prod.mk.inj (Option.some.inj hRead)
      refine ⟨[.compute r], ?_⟩
      simp [Machine.run_cons, deviceFiles, fileStep, hIdle, hLength,
        hRestore]
  | some cut =>
      refine ⟨[.compute r, .copy r ok], ?_⟩
      have hOff : ok = false → off = s.pos file := by
        rintro rfl
        obtain ⟨bytes, -, hFault⟩ := Option.bind_eq_some_iff.mp hRead
        exact (Prod.mk.inj (Option.some.inj hFault)).2.symm
      have hCopy : readCopy s.testString cut (s.pos file) ok =
          some (result, off) := hRead
      cases ok with
      | false =>
          simp [Machine.run_cons, deviceFiles, fileStep, hIdle, hLength,
            hRestore, hCopy, hOff]
      | true =>
          simp [Machine.run_cons, deviceFiles, fileStep, hIdle, hLength,
            hRestore, hCopy]

/-- **The bounds in every state reached**: the terminator, the offsets, and
that whatever is done next is inside the array. -/
theorem files_in_bounds {fixedSizeLlseek : Llseek}
    (hSeek : KeepsWithin fixedSizeLlseek)
    (h : (deviceFiles fixedSizeLlseek).Reachable s) :
    s.testString.slice 15 1 = [0] ∧
      (∀ file, 0 ≤ s.pos file ∧ s.pos file ≤ 15) ∧
      ∀ label, CanTake s label →
        (fileStep fixedSizeLlseek s label).isSome := by
  have hBounded : Bounded s := by
    apply h.invariant
    · rintro start rfl
      exact bounded_start
    · intro s label next hBounded _ hStep
      obtain ⟨next', hStep', hNext⟩ :=
        hBounded.step hSeek (canTake_of_fileStep hStep)
      obtain rfl := Option.some.inj (hStep'.symm.trans hStep)
      exact hNext
  refine ⟨hBounded.ended, hBounded.pos, ?_⟩
  intro label hCan
  obtain ⟨next, hStep, -⟩ := hBounded.step hSeek hCan
  rw [hStep]
  rfl

end FileRuns

/-- `SEEK_SET`, `SEEK_CUR` and `SEEK_END`. -/
def seekWithin : Llseek := fun pos off whence size =>
  let next := match whence with
    | 0 => off
    | 1 => pos + off
    | _ => size + off
  if whence ≤ 2 ∧ 0 ≤ next ∧ next ≤ size then some next else none

theorem seekWithin_keepsWithin : KeepsWithin seekWithin := by
  intro pos off whence size next h
  obtain ⟨hWithin, hNext⟩ := Option.ite_none_right_eq_some.mp h
  rw [← Option.some.inj hNext]
  exact hWithin.2

/-- A failing write of 15 bytes while a reader has its range. -/
theorem files_in_bounds_of_fault :
    ∃ s : Files Bool Bool, (deviceFiles seekWithin).Reachable s ∧
      (s.pos true = 15 ∧ s.testString.slice 0 2 = [1, 1]) ∧
      s.testString.slice 15 1 = [0] ∧
      (∀ file, 0 ≤ s.pos file ∧ s.pos file ≤ 15) ∧
      ∀ label, CanTake s label → (fileStep seekWithin s label).isSome := by
  have hRun : ((deviceFiles seekWithin).run (Files.start : Files Bool Bool)
      [.llseek true 14 0, .enter false false 100, .compute false,
        .write ⟨15, .fault (List.replicate 15 1), Nat.le_refl 15⟩,
        .copy false true, .enter true true 9, .compute true, .copy true true,
        .llseek true 90 0]).any
          (fun s => s.pos true = 15 ∧ s.testString.slice 0 2 = [1, 1]) =
      true := by
    decide +kernel
  obtain ⟨s, hReach, hEnd⟩ := Machine.exists_reachable_of_run rfl hRun
  exact ⟨s, hReach, of_decide_eq_true hEnd,
    files_in_bounds seekWithin_keepsWithin hReach⟩

/-! ## Reading back what was written -/

/-- What is done on one file: `test_llseek` and `test_read`, where
`copy_to_user` may fail. -/
inductive Op where
  | llseek (off : Int) (whence : Nat)
  | read (size : Nat) (ok : Bool)

/-- What the reads return, from an offset on, with nothing written between
them. -/
def fileOps (fixedSizeLlseek : Llseek) (testString : CharArray 16) :
    Int → List Op → Option (List (Except Errno (List UInt8)))
  | _, [] => some []
  | pos, .llseek off whence :: ops =>
      fileOps fixedSizeLlseek testString
        (testLlseek fixedSizeLlseek pos off whence) ops
  | pos, .read size ok :: ops => do
      let (result, next) ← testRead testString size pos ok
      let results ← fileOps fixedSizeLlseek testString next ops
      some (result :: results)

/-- The same of a file that has `data` in it.  A read returns what there is at
the offset, and moves it by that; one that fails does not move it, and does
not fail behind the end. -/
def dataOps (fixedSizeLlseek : Llseek) (data : List UInt8) :
    Int → List Op → List (Except Errno (List UInt8))
  | _, [] => []
  | pos, .llseek off whence :: ops =>
      dataOps fixedSizeLlseek data
        (testLlseek fixedSizeLlseek pos off whence) ops
  | pos, .read size ok :: ops =>
      let bytes := (data.drop pos.toNat).take size
      if ok then
        .ok bytes :: dataOps fixedSizeLlseek data (pos + bytes.length) ops
      else
        (if data.length ≤ pos then .ok [] else .error .efault) ::
          dataOps fixedSizeLlseek data pos ops

/-- The bytes that a read has returned. -/
def returned : Except Errno (List UInt8) → List UInt8
  | .ok bytes => bytes
  | .error _ => []

/-- **One read** of a device that has a text. -/
theorem testRead_eq {testString : CharArray 16}
    (h : testString.Terminated) (size : Nat) {off : Int} (hOff : 0 ≤ off)
    (ok : Bool) :
    testRead testString size off ok = some (
      let bytes := (testString.str.drop off.toNat).take size
      if ok then (.ok bytes, off + bytes.length)
      else (if testString.str.length ≤ off then .ok [] else .error .efault,
        off)) := by
  have hLength := length_str_le h
  simp only [testRead, readLength_eq h size hOff, Option.bind_eq_bind,
    Option.bind_some]
  by_cases hBehind : testString.str.length ≤ off.toNat
  · have hEnd : (testString.str.length : Int) ≤ off := by omega
    rw [readSize, if_pos hBehind, if_pos hEnd,
      List.drop_eq_nil_of_le hBehind, List.take_nil]
    cases ok with
    | false => rfl
    | true => simp
  · have hEnd : ¬(testString.str.length : Int) ≤ off := by omega
    have hCut : (if testString.str.length - off.toNat < size then
        testString.str.length - off.toNat else size) =
        min (testString.str.length - off.toNat) size := by
      split <;> omega
    rw [readSize, if_neg hBehind, if_neg hEnd, hCut]
    simp only [readCopy_eq testString hOff
      (show off + ((min (testString.str.length - off.toNat) size : Nat) : Int)
        ≤ 15 by omega)]
    have hBytes : testString.slice off.toNat
        (min (testString.str.length - off.toNat) size) =
        (testString.str.drop off.toNat).take size := by
      rw [testString.slice_eq_str (by omega), List.take_eq_take_iff,
        List.length_drop]
      omega
    rw [hBytes, List.length_take, List.length_drop,
      Nat.min_comm size (testString.str.length - off.toNat)]

/-- **Reads and seeks** on a device that has a text: induction over the
operations, with the offset inside the array. -/
theorem fileOps_eq {fixedSizeLlseek : Llseek}
    (hSeek : KeepsWithin fixedSizeLlseek) {testString : CharArray 16}
    (h : testString.Terminated) {pos : Int} (hPos : 0 ≤ pos ∧ pos ≤ 15)
    (ops : List Op) :
    fileOps fixedSizeLlseek testString pos ops =
      some (dataOps fixedSizeLlseek testString.str pos ops) := by
  induction ops generalizing pos with
  | nil => rfl
  | cons op ops ih =>
      cases op with
      | llseek off whence => exact ih (testLlseek_within hSeek off whence hPos)
      | read size ok =>
          have hLength := length_str_le h
          rw [fileOps, testRead_eq h size hPos.1, dataOps, Option.bind_eq_bind,
            Option.bind_some]
          cases ok with
          | false =>
              show (fileOps fixedSizeLlseek testString pos ops).bind _ = _
              rw [ih hPos]
              rfl
          | true =>
              have hNext : 0 ≤ pos + (((testString.str.drop pos.toNat).take
                    size).length : Nat) ∧
                  pos + (((testString.str.drop pos.toNat).take
                    size).length : Nat) ≤ 15 := by
                rw [List.length_take, List.length_drop]
                omega
              show (fileOps fixedSizeLlseek testString
                (pos + (((testString.str.drop pos.toNat).take
                  size).length : Nat)) ops).bind _ = _
              rw [ih hNext]
              rfl

/-- **Chunks** of any sizes, the last of at least one byte, which has returned
nothing. -/
theorem flatten_chunks (fixedSizeLlseek : Llseek) (data : List UInt8)
    (sizes : List Nat) {last : Nat} (hLast : 0 < last) (off : Nat)
    (hEnd : (dataOps fixedSizeLlseek data off
      ((sizes ++ [last]).map (Op.read · true))).getLast? = some (.ok [])) :
    ((dataOps fixedSizeLlseek data off
      ((sizes ++ [last]).map (Op.read · true))).map returned).flatten =
        data.drop off := by
  induction sizes generalizing off with
  | nil =>
      have hNone : (data.drop off).take last = [] := by
        simpa [dataOps] using hEnd
      have hRest : data.drop off = [] := by
        rcases List.take_eq_nil_iff.mp hNone with hZero | hNil
        · omega
        · exact hNil
      simp [dataOps, returned, hRest]
  | cons size sizes ih =>
      have hMove : (off : Int) + (((data.drop off).take size).length : Nat) =
          ((off + ((data.drop off).take size).length : Nat) : Int) := by
        omega
      have hCons : dataOps fixedSizeLlseek data off
          ((size :: sizes ++ [last]).map (Op.read · true)) =
          .ok ((data.drop off).take size) ::
            dataOps fixedSizeLlseek data
              ((off + ((data.drop off).take size).length : Nat) : Int)
              ((sizes ++ [last]).map (Op.read · true)) := by
        rw [← hMove]
        rfl
      have hMore : dataOps fixedSizeLlseek data
          ((off + ((data.drop off).take size).length : Nat) : Int)
          ((sizes ++ [last]).map (Op.read · true)) ≠ [] := by
        cases sizes <;> simp [dataOps]
      rw [hCons, List.getLast?_cons_of_ne_nil hMore] at hEnd
      rw [hCons, List.map_cons, List.flatten_cons, ih _ hEnd, ← List.drop_drop]
      show (data.drop off).take size ++ _ = data.drop off
      rw [List.length_take, ← List.drop_eq_drop_min, List.take_append_drop]

/-- **What was written is read back**: by every sequence of seeks and reads as
from a file that has it, and in chunks as a whole. -/
theorem write_read_round_trip {fixedSizeLlseek : Llseek}
    (hSeek : KeepsWithin fixedSizeLlseek) (testString : CharArray 16)
    (text : Text) :
    ∃ written, testWrite testString text.bytes.length (.all text.bytes) =
        some (written, .ok text.bytes.length) ∧
      (∀ pos ops, 0 ≤ pos → pos ≤ 15 →
        fileOps fixedSizeLlseek written pos ops =
          some (dataOps fixedSizeLlseek text.bytes pos ops)) ∧
      ∀ sizes last results, 0 < last →
        fileOps fixedSizeLlseek written 0
          ((sizes ++ [last]).map (Op.read · true)) = some results →
        results.getLast? = some (.ok []) →
          (results.map returned).flatten = text.bytes := by
  obtain ⟨written, hWritten, hEnd, hText⟩ := testWrite_text testString text
  have hOps : ∀ pos ops, 0 ≤ pos → pos ≤ 15 →
      fileOps fixedSizeLlseek written pos ops =
        some (dataOps fixedSizeLlseek text.bytes pos ops) := by
    intro pos ops hLow hHigh
    rw [← hText]
    exact fileOps_eq hSeek hEnd ⟨hLow, hHigh⟩ ops
  refine ⟨written, hWritten, hOps, ?_⟩
  intro sizes last results hLast hResults hNone
  rw [hOps 0 _ (Int.le_refl 0) (Int.zero_le_ofNat 15)] at hResults
  obtain rfl := Option.some.inj hResults
  exact flatten_chunks fixedSizeLlseek text.bytes sizes hLast 0 hNone

/-- The first string is overwritten by a shorter one, and read around its
end. -/
theorem short_text_read_back :
    ∃ written, testWrite initialString 1 (.all shortText.bytes) =
        some (written, .ok 1) ∧
      (∀ pos ops, 0 ≤ pos → pos ≤ 15 →
        fileOps seekWithin written pos ops =
          some (dataOps seekWithin shortText.bytes pos ops)) ∧
      ∀ sizes last results, 0 < last →
        fileOps seekWithin written 0
          ((sizes ++ [last]).map (Op.read · true)) = some results →
        results.getLast? = some (.ok []) →
          (results.map returned).flatten = shortText.bytes :=
  write_read_round_trip seekWithin_keepsWithin initialString shortText

/-- A read of no bytes returns zero at any offset, also before the end. -/
theorem empty_read_ends_early :
    ¬∀ (testString : CharArray 16) (text : Text) written,
      testWrite testString text.bytes.length (.all text.bytes) =
          some (written, .ok text.bytes.length) →
        ∀ (sizes : List Nat) results,
          fileOps seekWithin written 0 (sizes.map (Op.read · true)) =
              some results →
            results.getLast? = some (.ok []) →
              (results.map returned).flatten = text.bytes := by
  intro h
  obtain ⟨written, hWritten, hEnd, -⟩ := testWrite_text initialString shortText
  have hEmpty := h initialString shortText written hWritten [0] [.ok []] ?_ rfl
  · exact absurd hEmpty (by decide)
  · rw [List.map_singleton, fileOps, testRead_eq hEnd 0 (Int.le_refl 0) true]
    rfl

end UnixHomework.Ports.TestDevice
