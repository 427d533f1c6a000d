import UnixHomework.Verified.Fields
import UnixHomework.Verified.Table
import UnixHomework.Verified.Traces

/-!
# The test device

A character device with one string.  `test_write` replaces the string under
the write lock.  `test_read` copies under the read lock, but takes the length
of the string before that.  A call of `test_read` is therefore two steps, and
any number of writes may come between them.

What is returned is a slice of one stored string as long as the string still
reaches to the end of the range when it is copied (`reads_not_torn`).  After a
write of something shorter the copy goes on behind its terminator, to what is
left of an older string.
-/

namespace UnixHomework.Ports.TestDevice

open UnixHomework.Verified

/-! ## The string -/

/-- `"Hello, World!\n"`. -/
def hello : List UInt8 :=
  ascii ['H', 'e', 'l', 'l', 'o', ',', ' ', 'W', 'o', 'r', 'l', 'd', '!', '\n']

/-- `test_string` when the module is loaded. -/
def initialString : CharArray 16 := ⟨hello ++ [0, 0], by decide⟩

inductive Errno where
  | einval
  | efault
  deriving DecidableEq

/-- What `copy_from_user` stores: all bytes, or any, with some not copied. -/
inductive Copied where
  | all (bytes : List UInt8)
  | fault (bytes : List UInt8)

/-- `test_write` of `size` bytes. -/
def testWrite (testString : CharArray 16) (size : Nat) (copied : Copied) :
    Option (CharArray 16 × Except Errno Nat) :=
  if 15 < size then some (testString, .error .einval)
  else
    match copied with
    | .all bytes => do
        let testString ← testString.write? 0 bytes
        let testString ← testString.write? size [0]
        some (testString, .ok size)
    | .fault bytes => do
        let testString ← testString.write? 0 bytes
        some (testString, .error .efault)

/-- `strlen(test_string)`. -/
def strlen (testString : CharArray 16) : Option Nat :=
  (testString.readString? 0).map List.length

/-- `size` in `test_read`, cut to what is behind the offset, or `none` where
it returns zero at once. -/
def readSize (len size off : Nat) : Option Nat :=
  if len ≤ off then none
  else some (if len - off < size then len - off else size)

/-! ## The device -/

/-- A call of `test_read` that has computed `size` and not taken the lock. -/
structure Call where
  off : Nat
  size : Nat

/-- The bytes that a call of `test_read` has returned. -/
structure Answer where
  off : Nat
  bytes : List UInt8

/-- The string and the calls of the readers, with all strings that have been
stored and all answers. -/
structure Device (ρ : Type) where
  testString : CharArray 16
  /-- The calls of `test_read` in progress. -/
  calls : ρ → Option Call
  /-- All strings that have been stored, -/
  versions : List (List UInt8)
  /-- and all that has been read. -/
  answers : List Answer

/-- Something to write. -/
structure Text where
  bytes : List UInt8
  noNul : (0 : UInt8) ∉ bytes
  length_le : bytes.length ≤ 15

/-- The two steps of `test_read`, where `copy_to_user` may fail, and
`test_write`. -/
inductive Label (ρ : Type) where
  | compute (r : ρ) (size off : Nat)
  | copy (r : ρ) (ok : Bool)
  | write (text : Text)

section Steps

variable {ρ : Type} [DecidableEq ρ]

def deviceStep (s : Device ρ) : Label ρ → Option (Device ρ)
  | .compute r size off =>
      match s.calls r with
      | some _ => none
      | none => do
          let len ← strlen s.testString
          match readSize len size off with
          | none => some { s with answers := ⟨off, []⟩ :: s.answers }
          | some size =>
              some { s with
                calls := Function.update s.calls r (some ⟨off, size⟩) }
  | .copy r ok => do
      let call ← s.calls r
      let bytes ← s.testString.read? call.off call.size
      some { s with
        calls := Function.update s.calls r none
        answers := if ok then ⟨call.off, bytes⟩ :: s.answers else s.answers }
  | .write text => do
      let written ← testWrite s.testString text.bytes.length (.all text.bytes)
      some { s with
        testString := written.1
        versions := text.bytes :: s.versions }

/-- The device after the module has been loaded. -/
def Device.start : Device ρ where
  testString := initialString
  calls _ := none
  versions := [hello]
  answers := []

def testDevice : Machine (Device ρ) (Label ρ) where
  init s := s = Device.start
  step := deviceStep

end Steps

/-! ## Torn reads -/

/-- Every answer is a slice, at its offset, of a string that was stored. -/
def Whole {ρ : Type} (s : Device ρ) : Prop :=
  ∀ answer ∈ s.answers, ∃ version ∈ s.versions,
    answer.bytes <+: version.drop answer.off

/-- When a range is copied, the string still reaches to its end. -/
def Reaches {ρ : Type} (s : Device ρ) : Label ρ → Prop
  | .copy r true => ∀ call, s.calls r = some call → 0 < call.size →
      call.off + call.size ≤ s.testString.str.length
  | _ => True

/-- A reader computes if it has no call open, and copies if it has. -/
def Enabled {ρ : Type} (s : Device ρ) : Label ρ → Prop
  | .compute r _ _ => s.calls r = none
  | .copy r _ => s.calls r ≠ none
  | .write _ => True

/-- `test_string` is the string that was stored last, and nothing is read
behind its last byte but one. -/
structure Sound {ρ : Type} (s : Device ρ) : Prop where
  /-- There is a NUL in the buffer. -/
  terminated : s.testString.Terminated
  /-- The string was stored whole. -/
  stored : s.testString.str ∈ s.versions
  noNul : ∀ version ∈ s.versions, (0 : UInt8) ∉ version
  /-- A call that has computed its size reads in front of the last byte. -/
  inside : ∀ r call, s.calls r = some call → call.off + call.size ≤ 15

/-- A write that copies all its bytes: they are followed by a NUL, and what is
behind it stays. -/
theorem testWrite_all (testString : CharArray 16) {bytes : List UInt8}
    {size : Nat} (hBytes : bytes.length = size) (hSize : size ≤ 15) :
    ∃ written, testWrite testString size (.all bytes) =
        some (written, .ok size) ∧
      written.slice 0 size = bytes ∧ written.slice size 1 = [0] ∧
      ∀ o j, size < o → written.slice o j = testString.slice o j := by
  obtain ⟨copied, hCopied, hText, hBehind⟩ := testString.exists_write? 0 bytes
    size hBytes (by omega)
  obtain ⟨written, hWritten, hEnd, hFrame⟩ := copied.exists_write?
    size [0] 1 rfl (by omega)
  refine ⟨written, ?_, ?_, hEnd, ?_⟩
  · simp only [testWrite, if_neg (Nat.not_lt.mpr hSize), hCopied, hWritten,
      Option.bind_eq_bind, Option.bind_some]
  · rw [hFrame 0 size (by omega), hText]
  · intro o j hBeyond
    rw [hFrame o j (by omega), hBehind o j (by omega)]

/-- A NUL somewhere in the array ends the string. -/
theorem terminated_of_slice {testString : CharArray 16} {off : Nat}
    (h : testString.slice off 1 = [0]) : testString.Terminated := by
  have hMem : (0 : UInt8) ∈ testString.slice off 1 := by
    rw [h]
    exact List.mem_singleton_self 0
  exact List.mem_of_mem_drop (List.mem_of_mem_take hMem)

/-- **Writing** a text: it is the stored string afterwards. -/
theorem testWrite_text (testString : CharArray 16) (text : Text) :
    ∃ written, testWrite testString text.bytes.length (.all text.bytes) =
        some (written, .ok text.bytes.length) ∧
      written.Terminated ∧ written.str = text.bytes := by
  obtain ⟨written, hWrite, hText, hEnd, -⟩ :=
    testWrite_all testString rfl text.length_le
  refine ⟨written, hWrite, terminated_of_slice hEnd, ?_⟩
  show written.strAt 0 = text.bytes
  apply written.strAt_eq hText
  · rw [Nat.zero_add, hEnd]
  · exact text.noNul

theorem strlen_eq {testString : CharArray 16} (h : testString.Terminated) :
    strlen testString = some testString.str.length := by
  have hEnd : (0 : UInt8) ∈ testString.bytes.drop 0 := h
  rw [strlen, CharArray.readString?, if_pos hEnd]
  rfl

/-- The size of a read that does not return at once. -/
theorem readSize_bounds {len size off cut : Nat}
    (h : readSize len size off = some cut) : off < len ∧ off + cut ≤ len := by
  obtain ⟨hOff, hCut⟩ := Option.ite_none_left_eq_some.mp h
  have hEq := Option.some.inj hCut
  split at hEq <;> omega

section Runs

variable {ρ : Type} [DecidableEq ρ] {s next : Device ρ}

omit [DecidableEq ρ] in
theorem sound_start : Sound (Device.start : Device ρ) where
  terminated := by
    show initialString.Terminated
    decide
  stored := by
    show initialString.str ∈ [hello]
    decide
  noNul := by
    show ∀ version ∈ [hello], (0 : UInt8) ∉ version
    decide
  inside r call hCall := by contradiction

/-- The calls after a step that touches one reader. -/
theorem inside_update {r : ρ} {call : Option Call} (h : Sound s)
    (hNew : ∀ c, call = some c → c.off + c.size ≤ 15) :
    ∀ r' c, Function.update s.calls r call r' = some c →
      c.off + c.size ≤ 15 := by
  intro r' c hCall
  rcases update_eq_some_cases hCall with ⟨-, hOpened⟩ | ⟨-, hBefore⟩
  · exact hNew c hOpened
  · exact h.inside r' c hBefore

/-- Taking the length, and returning at once or opening a call. -/
theorem compute_cases (h : Sound s) {r : ρ} (hIdle : s.calls r = none)
    (size off : Nat) :
    deviceStep s (.compute r size off) =
        some { s with answers := ⟨off, []⟩ :: s.answers } ∨
      ∃ cut, off + cut ≤ s.testString.str.length ∧
        deviceStep s (.compute r size off) = some { s with
          calls := Function.update s.calls r (some ⟨off, cut⟩) } := by
  simp only [deviceStep, hIdle, strlen_eq h.terminated, Option.bind_eq_bind,
    Option.bind_some]
  cases hSize : readSize s.testString.str.length size off with
  | none => exact Or.inl rfl
  | some cut => exact Or.inr ⟨cut, (readSize_bounds hSize).2, rfl⟩

theorem copy_eq (h : Sound s) {r : ρ} {call : Call}
    (hCall : s.calls r = some call) (ok : Bool) :
    deviceStep s (.copy r ok) = some { s with
      calls := Function.update s.calls r none
      answers :=
        if ok then
          ⟨call.off, s.testString.slice call.off call.size⟩ :: s.answers
        else s.answers } := by
  have hInside := h.inside r call hCall
  have hRead : s.testString.read? call.off call.size =
      some (s.testString.slice call.off call.size) :=
    s.testString.read?_of_fits (by omega)
  simp only [deviceStep, hCall, hRead, Option.bind_eq_bind, Option.bind_some]

/-- **Calls are defined**, and leave the device sound. -/
theorem Sound.step (h : Sound s) {label : Label ρ}
    (hEnabled : Enabled s label) :
    ∃ next, deviceStep s label = some next ∧ Sound next := by
  cases label with
  | compute r size off =>
      rcases compute_cases h hEnabled size off with hStep | ⟨cut, hCut, hStep⟩
      · exact ⟨_, hStep, h.terminated, h.stored, h.noNul, h.inside⟩
      · refine ⟨_, hStep, h.terminated, h.stored, h.noNul, ?_⟩
        apply inside_update h
        rintro c ⟨⟩
        have hLength := h.terminated.length_str_lt
        show off + cut ≤ 15
        omega
  | copy r ok =>
      obtain ⟨call, hCall⟩ := Option.ne_none_iff_exists'.mp hEnabled
      refine ⟨_, copy_eq h hCall ok, h.terminated, h.stored, h.noNul, ?_⟩
      apply inside_update h
      rintro c ⟨⟩
  | write text =>
      obtain ⟨written, hWritten, hEnd, hText⟩ :=
        testWrite_text s.testString text
      refine ⟨{ s with
        testString := written
        versions := text.bytes :: s.versions }, ?_, hEnd, ?_, ?_, h.inside⟩
      · simp only [deviceStep, hWritten, Option.bind_eq_bind, Option.bind_some]
      · rw [hText]
        exact List.mem_cons_self ..
      · exact List.forall_mem_cons.mpr ⟨text.noNul, h.noNul⟩

theorem enabled_of_step {label : Label ρ}
    (hStep : deviceStep s label = some next) : Enabled s label := by
  cases label with
  | compute r size off =>
      show s.calls r = none
      cases hCall : s.calls r with
      | none => rfl
      | some call => simp [deviceStep, hCall] at hStep
  | copy r ok =>
      intro hCall
      simp [deviceStep, hCall] at hStep
  | write text => trivial

omit [DecidableEq ρ] in
/-- One more answer. -/
theorem Whole.answered (h : Whole s) {version bytes : List UInt8} {off : Nat}
    (hStored : version ∈ s.versions) (hBytes : bytes <+: version.drop off)
    (calls : ρ → Option Call) :
    Whole { s with calls := calls, answers := ⟨off, bytes⟩ :: s.answers } := by
  intro answer hAnswer
  rcases List.mem_cons.mp hAnswer with rfl | hOld
  · exact ⟨version, hStored, hBytes⟩
  · exact h answer hOld

/-- **One step.**  An answer is whole if the string reaches to its end. -/
theorem Whole.step (hSound : Sound s) (h : Whole s) {label : Label ρ}
    (hReaches : Reaches s label) (hStep : deviceStep s label = some next) :
    Whole next := by
  have hEnabled := enabled_of_step hStep
  cases label with
  | compute r size off =>
      rcases compute_cases hSound hEnabled size off with
        hStep' | ⟨cut, hCut, hStep'⟩
      · obtain rfl := Option.some.inj (hStep'.symm.trans hStep)
        exact h.answered hSound.stored List.nil_prefix s.calls
      · obtain rfl := Option.some.inj (hStep'.symm.trans hStep)
        exact h
  | copy r ok =>
      obtain ⟨call, hCall⟩ := Option.ne_none_iff_exists'.mp hEnabled
      obtain rfl := Option.some.inj ((copy_eq hSound hCall ok).symm.trans hStep)
      cases ok with
      | false => exact h
      | true =>
          apply h.answered hSound.stored
          rcases Nat.eq_zero_or_pos call.size with hZero | hPos
          · rw [hZero, CharArray.slice, List.take_zero]
            exact List.nil_prefix
          · exact s.testString.slice_prefix_str (hReaches call hCall hPos)
  | write text =>
      obtain ⟨written, hWritten, -⟩ := testWrite_text s.testString text
      simp only [deviceStep, hWritten, Option.bind_eq_bind,
        Option.bind_some] at hStep
      obtain rfl := Option.some.inj hStep
      intro answer hAnswer
      obtain ⟨version, hVersion, hPrefix⟩ := h answer hAnswer
      exact ⟨version, List.mem_cons_of_mem _ hVersion, hPrefix⟩

/-- A string that ends inside the range tears the read. -/
theorem torn_of_ends_inside (hSound : Sound s) {r : ρ} {call : Call}
    (hCall : s.calls r = some call)
    (hLow : call.off ≤ s.testString.str.length)
    (hHigh : s.testString.str.length < call.off + call.size)
    (hStep : deviceStep s (.copy r true) = some next) : ¬Whole next := by
  intro hWhole
  obtain rfl := Option.some.inj ((copy_eq hSound hCall true).symm.trans hStep)
  obtain ⟨version, hVersion, hPrefix⟩ := hWhole _ (List.mem_cons_self ..)
  apply hSound.noNul version hVersion
  apply List.mem_of_mem_drop
  apply hPrefix.subset
  exact CharArray.zero_mem_slice hSound.terminated hLow hHigh

/-- **Reads are not torn** in a run in which, whenever a range is copied, the
string still reaches to its end. -/
theorem reads_not_torn {labels : List (Label ρ)} (hInit : testDevice.init s)
    (hReaches : testDevice.EachStep Reaches s labels) :
    testDevice.EachState Whole s labels := by
  obtain rfl : s = Device.start := hInit
  have hWhole : Whole (Device.start : Device ρ) := by
    rintro answer ⟨⟩
  apply Machine.eachState_of_eachStep (I := fun s => Sound s ∧ Whole s)
    ?_ (fun s h => h.2) ⟨sound_start, hWhole⟩ hReaches
  intro s label next hI hReaches hStep
  obtain ⟨next', hStep', hSound⟩ := hI.1.step (enabled_of_step hStep)
  obtain rfl := Option.some.inj (hStep'.symm.trans hStep)
  exact ⟨hSound, hI.2.step hI.1 hReaches hStep⟩

end Runs

instance {ρ : Type} (s : Device ρ) : Decidable (Whole s) := by
  unfold Whole
  infer_instance

instance {ρ : Type} (s : Device ρ) (label : Label ρ) :
    Decidable (Reaches s label) :=
  match label with
  | .compute .. => .isTrue trivial
  | .copy _ false => .isTrue trivial
  | .copy r true =>
      match hCall : s.calls r with
      | none => .isTrue fun call h => by simp [hCall] at h
      | some call =>
          decidable_of_iff (0 < call.size →
              call.off + call.size ≤ s.testString.str.length)
            ⟨fun h c hc => Option.some.inj (hCall.symm.trans hc) ▸ h,
              fun h => h call hCall⟩
  | .write _ => .isTrue trivial

def shortText : Text := ⟨ascii ['a'], by decide, by decide⟩

def longText : Text := ⟨ascii ['H', 'e', 'l', 'l', 'o', '\n'], by decide,
  by decide⟩

/-- Two readers, and writes while the first reads. -/
theorem reads_whole_of_writes_between :
    (testDevice : Machine (Device Bool) (Label Bool)).EachState Whole
      Device.start
      [.compute false 4 2, .write shortText, .write longText,
        .compute true 100 1, .copy false true, .copy true true,
        .write shortText, .compute false 100 1] :=
  reads_not_torn rfl (by decide +kernel)

/-- A short text is written after the length has been taken.  The answer has
its terminator and what is left of the first string. -/
theorem read_torn_by_short_write :
    ¬(testDevice : Machine (Device Bool) (Label Bool)).EachState Whole
        Device.start
        [.compute false 100 0, .write shortText, .copy false true] ∧
      ((testDevice : Machine (Device Bool) (Label Bool)).run Device.start
        [.compute false 100 0, .write shortText, .copy false true]).map
          (fun s => s.answers.map Answer.bytes) =
        some [shortText.bytes ++ [0] ++ hello.drop 2] := by
  decide +kernel

end UnixHomework.Ports.TestDevice
