import UnixHomework.Verified.Decimal
import UnixHomework.Verified.Fields
import UnixHomework.Verified.Table
import UnixHomework.Verified.Traces
import Mathlib.Data.List.Induction

/-!
# The phone book in an array

`call_book` is 100 records of three fields of 10 bytes, one behind the other.
`addAbonent` reads the fields of the next record with `scanf("%s", ..)`, which
writes as many bytes as the word has, and `deleteAbonent` moves the records
behind the deleted one down, up to and including the one behind the last.

Words of at most 9 bytes stay in their fields, and the book then shows what
was entered (`book_shows_entered`).  A longer word runs on into the next field
or record, which is then overwritten by the next word; and a deletion from a
full book reads a record behind the array (`deleteAbonent_full`).  `find` in
`findAbonent` is of the same size and read with `%9s`.
-/

namespace UnixHomework.Ports.PhoneArray

open UnixHomework.Verified

def maxRecords : Nat := 100

/-- `sizeof(struct abonent)`. -/
def recordSize : Nat := 30

/-- The size of a field. -/
def fieldSize : Nat := 10

/-- A word as `%s` reads it. -/
structure Word where
  bytes : List UInt8
  nonempty : bytes ≠ []
  noNul : (0 : UInt8) ∉ bytes
  noSpace : ∀ b ∈ bytes, isSpace b = false

/-- What a user enters for a subscriber. -/
structure Entry where
  name : Word
  secondName : Word
  tel : Word

/-- `call_book` and `count`; `entered` records the words for the subscribers
that have not been deleted. -/
structure Book where
  callBook : CharArray (maxRecords * recordSize)
  count : Nat
  /-- The words for the subscribers that have not been deleted, in order; for
  the record. -/
  entered : List Entry

/-! ## The functions of the program -/

/-- Where the fields of a record start. -/
def nameAt (i : Nat) : Nat := recordSize * i

def secondNameAt (i : Nat) : Nat := recordSize * i + 10

def telAt (i : Nat) : Nat := recordSize * i + 20

/-- `addAbonent`. -/
def addAbonent (s : Book) (e : Entry) : Option Book :=
  if maxRecords ≤ s.count then some s
  else do
    let b ← s.callBook.writeString? (nameAt s.count) e.name.bytes
    let b ← b.writeString? (secondNameAt s.count) e.secondName.bytes
    let b ← b.writeString? (telAt s.count) e.tel.bytes
    some { callBook := b, count := s.count + 1, entered := s.entered ++ [e] }

/-- The loop that clears a record. -/
def clearRecord (b : CharArray (maxRecords * recordSize)) (i : Nat) :
    Option (CharArray (maxRecords * recordSize)) := do
  let b ← b.write? (nameAt i) (List.replicate fieldSize 0)
  let b ← b.write? (secondNameAt i) (List.replicate fieldSize 0)
  b.write? (telAt i) (List.replicate fieldSize 0)

/-- `call_book[i] = call_book[i + 1]`, for so many `i`. -/
def moveDown (b : CharArray (maxRecords * recordSize)) (i : Nat) :
    Nat → Option (CharArray (maxRecords * recordSize))
  | 0 => some b
  | steps + 1 => do
      let record ← b.read? (recordSize * (i + 1)) recordSize
      let b ← b.write? (recordSize * i) record
      moveDown b (i + 1) steps

/-- `deleteAbonent`. -/
def deleteAbonent (s : Book) (deleteNumber : Int) : Option Book :=
  if deleteNumber ≤ 0 ∨ s.count < deleteNumber then some s
  else do
    let i := deleteNumber.toNat - 1
    let b ← clearRecord s.callBook i
    let b ← moveDown b i (s.count - i)
    some
      { callBook := b
        count := s.count - 1
        entered := s.entered.eraseIdx i }

/-- The three strings of a record. -/
def showRecord (b : CharArray (maxRecords * recordSize)) (i : Nat) :
    Option (List (List UInt8)) := do
  let name ← b.readString? (nameAt i)
  let secondName ← b.readString? (secondNameAt i)
  let tel ← b.readString? (telAt i)
  some [name, secondName, tel]

/-- `showAllAbonent`. -/
def showAllAbonent (s : Book) : Option (List (List (List UInt8))) :=
  (List.range s.count).mapM (showRecord s.callBook)

/-! ## Calls -/

/-- A call with its input. -/
inductive Call where
  | add (e : Entry)
  | delete (deleteNumber : Int)

def bookStep (s : Book) : Call → Option Book
  | .add e => addAbonent s e
  | .delete deleteNumber => deleteAbonent s deleteNumber

def Book.start : Book where
  callBook := .zeros _
  count := 0
  entered := []

def phoneBook : Machine Book Call where
  init s := s = Book.start
  step := bookStep

def Entry.words (e : Entry) : List (List UInt8) :=
  [e.name.bytes, e.secondName.bytes, e.tel.bytes]

/-- The book shows what was entered. -/
def ShowsEntered (s : Book) : Prop :=
  showAllAbonent s = some (s.entered.map Entry.words)

instance (s : Book) : Decidable (ShowsEntered s) := by
  unfold ShowsEntered
  infer_instance

/-- A word and its NUL fit a field. -/
def Entry.Fits (e : Entry) : Prop :=
  ∀ word ∈ e.words, word.length < fieldSize

/-- The condition on a call: words that fit their fields, and no deletion from
a full book. -/
def Bounded (s : Book) : Call → Prop
  | .add e => s.count < maxRecords → e.Fits
  | .delete deleteNumber =>
      0 < deleteNumber → deleteNumber ≤ s.count → s.count < maxRecords

/-! ## The invariant -/

/-- Record `i` has the words of `e` in its fields. -/
structure StoredRecord (b : CharArray (maxRecords * recordSize)) (i : Nat)
    (e : Entry) : Prop where
  name : b.Stored (nameAt i) fieldSize e.name.bytes
  secondName : b.Stored (secondNameAt i) fieldSize e.secondName.bytes
  tel : b.Stored (telAt i) fieldSize e.tel.bytes

/-- The records up to `count` are those of the entries. -/
structure StoresEntered (s : Book) : Prop where
  /-- There are as many records as entries, -/
  count : s.count = s.entered.length
  /-- no more than fit, -/
  bounded : s.count ≤ maxRecords
  /-- and each has the words of its entry. -/
  records : ∀ i e, s.entered[i]? = some e → StoredRecord s.callBook i e

section Invariant

variable {b b' : CharArray (maxRecords * recordSize)} {i j : Nat} {e : Entry}

/-- A record is moved as a whole. -/
theorem StoredRecord.copy (h : StoredRecord b i e) (hj : j < maxRecords)
    (hSame : b'.slice (recordSize * j) recordSize =
      b.slice (recordSize * i) recordSize) :
    StoredRecord b' j e := by
  have hPart : ∀ o, o + fieldSize ≤ recordSize →
      b'.slice (recordSize * j + o) fieldSize =
        b.slice (recordSize * i + o) fieldSize := by
    intro o ho
    rw [CharArray.slice_of_slice b' ho, CharArray.slice_of_slice b ho, hSame]
  have hInside : ∀ o, o + fieldSize ≤ recordSize →
      recordSize * j + o + fieldSize ≤ maxRecords * recordSize := by
    simp only [fieldSize, recordSize, maxRecords] at hj ⊢
    omega
  exact ⟨h.name.copy (hInside 0 (by decide)) (hPart 0 (by decide)),
    h.secondName.copy (hInside 10 (by decide)) (hPart 10 (by decide)),
    h.tel.copy (hInside 20 (by decide)) (hPart 20 (by decide))⟩

theorem StoredRecord.showRecord_eq (h : StoredRecord b i e) :
    showRecord b i = some e.words := by
  simp only [showRecord, h.name.readString?_eq, h.secondName.readString?_eq,
    h.tel.readString?_eq, Option.bind_eq_bind, Option.bind_some]
  rfl

end Invariant

/-! ## What is shown -/

/-- A loop that succeeds on every element of a list. -/
theorem mapM_range_eq {β γ : Type} {f : Nat → Option γ} {g : β → γ}
    {l : List β} (h : ∀ i e, l[i]? = some e → f i = some (g e)) :
    (List.range l.length).mapM f = some (l.map g) := by
  induction l using List.reverseRecOn with
  | nil => rfl
  | append_singleton l e ih =>
      have hFront : (List.range l.length).mapM f = some (l.map g) := by
        apply ih
        intro i e' hi
        apply h
        have hLess : i < l.length := (List.getElem?_eq_some_iff.mp hi).1
        rw [List.getElem?_append_left hLess, hi]
      have hLast : f l.length = some (g e) := by
        apply h
        simp
      rw [List.length_append, List.length_singleton, List.range_succ,
        List.mapM_append, hFront]
      simp [hLast]

theorem StoresEntered.showsEntered {s : Book} (h : StoresEntered s) :
    ShowsEntered s := by
  rw [ShowsEntered, showAllAbonent, h.count]
  apply mapM_range_eq
  intro i e hEntry
  exact (h.records i e hEntry).showRecord_eq

/-! ## Calls -/

section Calls

variable {s : Book}

/-- A new record leaves those before it alone. -/
theorem StoresEntered.add (h : StoresEntered s) {e : Entry}
    (hFits : s.count < maxRecords → e.Fits) :
    ∃ s', addAbonent s e = some s' ∧ StoresEntered s' := by
  by_cases hFull : maxRecords ≤ s.count
  · exact ⟨s, if_pos hFull, h⟩
  · have hRoom : s.count < maxRecords := Nat.lt_of_not_le hFull
    have hWords := hFits hRoom
    have hInside : nameAt s.count + fieldSize ≤ maxRecords * recordSize ∧
        secondNameAt s.count + fieldSize ≤ maxRecords * recordSize ∧
          telAt s.count + fieldSize ≤ maxRecords * recordSize := by
      simp only [nameAt, secondNameAt, telAt, fieldSize, recordSize,
        maxRecords] at hRoom ⊢
      omega
    obtain ⟨b1, h1, w1, s1⟩ := s.callBook.writeString?_stored
      (hWords _ (by simp [Entry.words])) hInside.1 e.name.noNul
    obtain ⟨b2, h2, w2, s2⟩ := b1.writeString?_stored
      (hWords _ (by simp [Entry.words])) hInside.2.1 e.secondName.noNul
    obtain ⟨b3, h3, w3, s3⟩ := b2.writeString?_stored
      (hWords _ (by simp [Entry.words])) hInside.2.2 e.tel.noNul
    have hNew : StoredRecord b3 s.count e := by
      refine ⟨w1.copy hInside.1 ?_, w2.copy hInside.2.1 ?_, w3⟩
      · rw [s3 _ _ (Or.inl (by simp only [nameAt, telAt, fieldSize]; omega)),
          s2 _ _ (Or.inl (by simp only [nameAt, secondNameAt, fieldSize];
                             omega))]
      · rw [s3 _ _ (Or.inl (by simp only [secondNameAt, telAt, fieldSize];
                               omega))]
    have hOld : ∀ i, i < s.count → b3.slice (recordSize * i) recordSize =
        s.callBook.slice (recordSize * i) recordSize := by
      intro i hi
      have hEnd : recordSize * i + recordSize ≤ recordSize * s.count := by
        simp only [recordSize]
        omega
      rw [s3 _ _ (Or.inl (by simp only [telAt]; omega)),
        s2 _ _ (Or.inl (by simp only [secondNameAt]; omega)),
        s1 _ _ (Or.inl hEnd)]
    refine ⟨⟨b3, s.count + 1, s.entered ++ [e]⟩, ?_, ?_, hRoom, ?_⟩
    · simp only [addAbonent, if_neg hFull, h1, h2, h3, Option.bind_eq_bind,
        Option.bind_some]
    · simp only [List.length_append, List.length_singleton, h.count]
    · intro i e' hEntry
      rcases getElem?_concat_cases hEntry with hEarlier | ⟨hLast, rfl⟩
      · have hi : i < s.count := by
          rw [h.count]
          exact (List.getElem?_eq_some_iff.mp hEarlier).1
        exact (h.records i e' hEarlier).copy
          (Nat.lt_of_lt_of_le hi h.bounded) (hOld i hi)
      · rw [hLast, ← h.count]
        exact hNew

theorem clearRecord_eq (b : CharArray (maxRecords * recordSize)) {i : Nat}
    (hi : i < maxRecords) :
    ∃ b', clearRecord b i = some b' ∧
      ∀ o k, o + k ≤ recordSize * i ∨ recordSize * (i + 1) ≤ o →
        b'.slice o k = b.slice o k := by
  have hZeros : (List.replicate fieldSize (0 : UInt8)).length = fieldSize :=
    List.length_replicate
  have hInside : recordSize * i + recordSize ≤ maxRecords * recordSize := by
    simp only [recordSize, maxRecords] at hi ⊢
    omega
  simp only [recordSize] at hInside
  obtain ⟨b1, h1, -, s1⟩ := b.exists_write? (nameAt i) _ fieldSize hZeros
    (by simp only [nameAt, fieldSize, recordSize]; omega)
  obtain ⟨b2, h2, -, s2⟩ := b1.exists_write? (secondNameAt i) _ fieldSize
    hZeros (by simp only [secondNameAt, fieldSize, recordSize]; omega)
  obtain ⟨b3, h3, -, s3⟩ := b2.exists_write? (telAt i) _ fieldSize
    hZeros (by simp only [telAt, fieldSize, recordSize]; omega)
  refine ⟨b3, ?_, fun o k h => ?_⟩
  · simp only [clearRecord, h1, h2, h3, Option.bind_eq_bind,
      Option.bind_some]
  · simp only [recordSize] at h
    rw [s3 o k (by simp only [telAt, fieldSize, recordSize]; omega),
      s2 o k (by simp only [secondNameAt, fieldSize, recordSize]; omega),
      s1 o k (by simp only [nameAt, fieldSize, recordSize]; omega)]

/-- The records behind `i` have moved down by one. -/
theorem moveDown_eq (b : CharArray (maxRecords * recordSize)) (i : Nat)
    {steps : Nat} (hInside : i + steps < maxRecords) :
    ∃ b', moveDown b i steps = some b' ∧
      (∀ o k, o + k ≤ recordSize * i → b'.slice o k = b.slice o k) ∧
        ∀ j, i ≤ j → j < i + steps →
          b'.slice (recordSize * j) recordSize =
            b.slice (recordSize * (j + 1)) recordSize := by
  induction steps generalizing b i with
  | zero => exact ⟨b, rfl, fun _ _ _ => rfl, fun j h1 h2 => by omega⟩
  | succ steps ih =>
      have hRead : recordSize * (i + 1) + recordSize ≤
          maxRecords * recordSize := by
        simp only [recordSize, maxRecords] at hInside ⊢
        omega
      have hWrite : recordSize * i + recordSize ≤ maxRecords * recordSize := by
        simp only [recordSize, maxRecords] at hInside ⊢
        omega
      obtain ⟨b1, h1, w1, s1⟩ := b.exists_write? (recordSize * i)
        (b.slice (recordSize * (i + 1)) recordSize) recordSize
        (b.length_slice hRead) hWrite
      obtain ⟨b2, h2, hBefore, hMoved⟩ := ih b1 (i + 1) (by omega)
      refine ⟨b2, ?_, fun o k h => ?_, fun j hLo hHi => ?_⟩
      · simp only [moveDown, b.read?_of_fits hRead, h1, Option.bind_eq_bind,
          Option.bind_some]
        exact h2
      · rw [hBefore o k (by simp only [recordSize] at h ⊢; omega),
          s1 o k (Or.inl h)]
      · by_cases hj : j = i
        · subst hj
          rw [hBefore _ _ (Nat.le_of_eq (Nat.mul_succ _ _).symm), w1]
        · rw [hMoved j (by omega) (by omega), s1 _ _ (Or.inr ?_)]
          simp only [recordSize]
          omega

/-- The records behind the deleted one take each the place of the one
before. -/
theorem StoresEntered.delete (h : StoresEntered s) {deleteNumber : Int}
    (hRoom : 0 < deleteNumber → deleteNumber ≤ s.count →
      s.count < maxRecords) :
    ∃ s', deleteAbonent s deleteNumber = some s' ∧ StoresEntered s' := by
  by_cases hInvalid : deleteNumber ≤ 0 ∨ s.count < deleteNumber
  · exact ⟨s, if_pos hInvalid, h⟩
  · have hCount := hRoom (by omega) (by omega)
    generalize hI : deleteNumber.toNat - 1 = i
    have hi : i < s.count := by omega
    obtain ⟨b1, h1, s1⟩ := clearRecord_eq s.callBook (Nat.lt_trans hi hCount)
    obtain ⟨b2, h2, hBefore, hMoved⟩ := moveDown_eq b1 i
      (by omega : i + (s.count - i) < maxRecords)
    refine ⟨⟨b2, s.count - 1, s.entered.eraseIdx i⟩, ?_, ?_, ?_, ?_⟩
    · simp only [deleteAbonent, if_neg hInvalid, hI, h1, h2,
        Option.bind_eq_bind, Option.bind_some]
    · rw [List.length_eraseIdx_of_lt (h.count ▸ hi), h.count]
    · exact Nat.le_trans (Nat.sub_le _ _) h.bounded
    · intro j e hEntry
      rw [List.getElem?_eraseIdx] at hEntry
      by_cases hj : j < i
      · rw [if_pos hj] at hEntry
        apply (h.records j e hEntry).copy (by omega)
        rw [hBefore _ _ (by simp only [recordSize]; omega),
          s1 _ _ (Or.inl (by simp only [recordSize]; omega))]
      · rw [if_neg hj] at hEntry
        have hLess : j + 1 < s.count := by
          rw [h.count]
          exact (List.getElem?_eq_some_iff.mp hEntry).1
        apply (h.records (j + 1) e hEntry).copy (by omega)
        rw [hMoved j (by omega) (by omega),
          s1 _ _ (Or.inr (Nat.mul_le_mul_left _ (by omega)))]

/-- The last step of the loop reads the record behind the array. -/
theorem moveDown_full (b : CharArray (maxRecords * recordSize)) (i : Nat)
    {steps : Nat} (hSome : 0 < steps) (hFull : i + steps = maxRecords) :
    moveDown b i steps = none := by
  induction steps generalizing b i with
  | zero => omega
  | succ steps ih =>
      simp only [moveDown, Option.bind_eq_bind]
      by_cases hLast : steps = 0
      · have hRead : b.read? (recordSize * (i + 1)) recordSize = none := by
          apply if_neg
          simp only [recordSize, maxRecords] at hFull ⊢
          omega
        rw [hRead, Option.bind_none]
      · apply Option.bind_eq_none_iff.mpr
        intro record _
        apply Option.bind_eq_none_iff.mpr
        intro b1 _
        exact ih b1 (i + 1) (by omega) (by omega)

/-- **A full book** allows no deletion. -/
theorem deleteAbonent_full (hFull : s.count = maxRecords)
    {deleteNumber : Int} (hLow : 0 < deleteNumber)
    (hHigh : deleteNumber ≤ s.count) :
    deleteAbonent s deleteNumber = none := by
  rw [deleteAbonent, if_neg (by omega)]
  apply Option.bind_eq_none_iff.mpr
  intro b _
  rw [Option.bind_eq_bind, moveDown_full b _ (by omega) (by omega),
    Option.bind_none]

end Calls

/-! ## Whole runs -/

theorem storesEntered_start : StoresEntered Book.start where
  count := rfl
  bounded := Nat.zero_le _
  records i e hEntry := by simp [Book.start] at hEntry

theorem bookStep_storesEntered {s : Book} (h : StoresEntered s) {call : Call}
    (hBounded : Bounded s call) :
    ∃ s', bookStep s call = some s' ∧ StoresEntered s' := by
  cases call with
  | add e => exact h.add hBounded
  | delete deleteNumber => exact h.delete hBounded

/-- **The book shows what was entered**, and no call is undefined, as long as
the words fit their fields and nothing is deleted from a full book. -/
theorem book_shows_entered {s : Book} {calls : List Call}
    (hInit : phoneBook.init s) (hBounded : phoneBook.EachStep Bounded s calls) :
    (∃ last, phoneBook.run s calls = some last) ∧
      phoneBook.EachState ShowsEntered s calls := by
  obtain rfl : s = Book.start := hInit
  exact Machine.exists_run_of_eachStep
    (fun s call hStores hOk => bookStep_storesEntered hStores hOk)
    (fun s hStores => hStores.showsEntered) storesEntered_start hBounded

instance (s : Book) (call : Call) : Decidable (Bounded s call) := by
  cases call <;> unfold Bounded <;> unfold Entry.Fits <;> infer_instance

/-- A number of nine digits, and one of ten. -/
def nineDigits : Word where
  bytes := ascii ['1', '2', '3', '4', '5', '6', '7', '8', '9']
  nonempty := by decide
  noNul := by decide
  noSpace := by decide +kernel

def tenDigits : Word where
  bytes := ascii ['1', '2', '3', '4', '5', '6', '7', '8', '9', '0']
  nonempty := by decide
  noNul := by decide
  noSpace := by decide +kernel

/-- A subscriber with the same word in the first two fields. -/
def subscriber (tel : Word) : Entry :=
  ⟨nineDigits, nineDigits, tel⟩

/-- Two subscribers, the first of whom is deleted. -/
theorem short_words_shown :
    phoneBook.EachState ShowsEntered Book.start
      [.add (subscriber nineDigits), .add (subscriber nineDigits),
        .delete 1] :=
  (book_shows_entered rfl (by decide +kernel)).2

/-- A number of ten digits runs into the name of the next subscriber.  It is
shown as entered until there is one. -/
theorem long_word_altered :
    phoneBook.EachState ShowsEntered Book.start
        [.add (subscriber tenDigits)] ∧
      ¬phoneBook.EachState ShowsEntered Book.start
        [.add (subscriber tenDigits), .add (subscriber nineDigits)] ∧
      ((phoneBook.run Book.start
        [.add (subscriber tenDigits), .add (subscriber nineDigits)]).bind
          fun s => s.callBook.readString? (telAt 0)) =
        some (tenDigits.bytes ++ nineDigits.bytes) := by
  decide +kernel

end UnixHomework.Ports.PhoneArray
