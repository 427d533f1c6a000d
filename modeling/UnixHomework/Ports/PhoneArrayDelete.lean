import UnixHomework.Ports.PhoneArray

/-!
# Deleting from the phone book

The code that deletes is there twice, in hw4's `main` and in hw5's
`deleteAbonent`.  Whatever the records hold, it leaves exactly the others, in
their order, and stays in the array, unless the book is full: the loop that
moves the records down then reads `call_book[100]` (`record_deleted_iff`).

A record is the bytes of its three fields, whatever they are; it need not hold
names.  It is cleared first, and then the records behind it are moved down one
by one, with the one behind the last among them.
-/

namespace UnixHomework.Ports.PhoneArray

open UnixHomework.Verified

/-- `call_book` and `count`. -/
structure Records where
  callBook : CharArray (maxRecords * recordSize)
  count : Nat

/-- `case 2` of hw4's `main`, after `scanf`. -/
def mainCase2 (s : Records) (deleteNumber : Int) : Option Records :=
  if deleteNumber ≤ 0 ∨ s.count < deleteNumber then some s
  else do
    let i := deleteNumber.toNat - 1
    let b ← clearRecord s.callBook i
    let b ← moveDown b i (s.count - i)
    some { callBook := b, count := s.count - 1 }

/-- The records of hw5's book. -/
def Book.records (s : Book) : Records :=
  ⟨s.callBook, s.count⟩

/-- The bytes of a record. -/
def Records.record (s : Records) (i : Nat) : List UInt8 :=
  s.callBook.slice (recordSize * i) recordSize

/-- The records in use. -/
def Records.toList (s : Records) : List (List UInt8) :=
  (List.range s.count).map s.record

/-- The number is one that is shown. -/
def Records.Has (s : Records) (deleteNumber : Int) : Prop :=
  0 < deleteNumber ∧ deleteNumber ≤ s.count

instance (s : Records) (deleteNumber : Int) :
    Decidable (s.Has deleteNumber) :=
  inferInstanceAs (Decidable (_ ∧ _))

/-- The record with this number, if there is one, and nothing else has been
deleted; and all accesses were inside the array. -/
def Deleted (s : Records) (deleteNumber : Int) (result : Option Records) :
    Prop :=
  ∃ s', result = some s' ∧
    if s.Has deleteNumber then
      s'.count + 1 = s.count ∧
        s'.toList = s.toList.eraseIdx (deleteNumber.toNat - 1)
    else s' = s

section Deleting

variable {s : Records}

/-- The two copies are the same. -/
theorem deleteAbonent_records (s : Book) (deleteNumber : Int) :
    (deleteAbonent s deleteNumber).map Book.records =
      mainCase2 s.records deleteNumber := by
  by_cases hInvalid : deleteNumber ≤ 0 ∨ s.count < deleteNumber
  · rw [deleteAbonent, if_pos hInvalid]
    exact (if_pos hInvalid).symm
  · rw [deleteAbonent, if_neg hInvalid]
    refine Eq.trans ?_ (if_neg hInvalid).symm
    simp only [Option.bind_eq_bind, Option.map_bind]
    exact congrArg (Option.bind _) (funext fun b => Option.map_bind ..)

theorem toList_getElem? (s : Records) (j : Nat) :
    s.toList[j]? = if j < s.count then some (s.record j) else none := by
  rw [Records.toList, List.getElem?_map]
  split
  · rename_i hj
    rw [List.getElem?_range hj, Option.map_some]
  · rename_i hj
    rw [List.getElem?_eq_none (by rw [List.length_range]; omega),
      Option.map_none]

/-- **The records** in front of the deleted one stay, and those behind it move
down by one. -/
theorem mainCase2_valid (hRoom : s.count < maxRecords) {deleteNumber : Int}
    (hHas : s.Has deleteNumber) :
    ∃ s', mainCase2 s deleteNumber = some s' ∧ s'.count + 1 = s.count ∧
      ∀ j, j < s'.count →
        s'.record j =
          s.record (if j < deleteNumber.toNat - 1 then j else j + 1) := by
  rcases hHas with ⟨hLow, hHigh⟩
  generalize hI : deleteNumber.toNat - 1 = i
  have hi : i < s.count := by omega
  rcases clearRecord_eq s.callBook (Nat.lt_trans hi hRoom) with
    ⟨b1, hClear, hCleared⟩
  rcases moveDown_eq b1 i (by omega : i + (s.count - i) < maxRecords) with
    ⟨b2, hMove, hBefore, hMoved⟩
  refine ⟨⟨b2, s.count - 1⟩, ?_, Nat.sub_add_cancel (by omega), ?_⟩
  · simp only [mainCase2, if_neg (show ¬(deleteNumber ≤ 0 ∨
      (s.count : Int) < deleteNumber) by omega), hI, hClear, hMove,
      Option.bind_eq_bind, Option.bind_some]
  · intro j hj
    by_cases hFront : j < i
    · rw [if_pos hFront]
      have hEnd : recordSize * j + recordSize ≤ recordSize * i := by
        rw [← Nat.mul_succ]
        exact Nat.mul_le_mul_left recordSize hFront
      exact (hBefore _ _ hEnd).trans (hCleared _ _ (Or.inl hEnd))
    · rw [if_neg hFront]
      have hStart : recordSize * (i + 1) ≤ recordSize * (j + 1) :=
        Nat.mul_le_mul_left recordSize (by omega)
      have hLess : j < i + (s.count - i) := by
        have hCount : j < s.count - 1 := hj
        omega
      exact (hMoved j (by omega) hLess).trans
        (hCleared _ _ (Or.inr hStart))

theorem mainCase2_deleted (hRoom : s.count < maxRecords) {deleteNumber : Int}
    (hHas : s.Has deleteNumber) :
    Deleted s deleteNumber (mainCase2 s deleteNumber) := by
  rcases mainCase2_valid hRoom hHas with ⟨s', hResult, hCount, hRecord⟩
  refine ⟨s', hResult, ?_⟩
  rw [if_pos hHas]
  refine ⟨hCount, List.ext_getElem? fun j => ?_⟩
  rw [List.getElem?_eraseIdx]
  simp only [toList_getElem?]
  rcases hHas with ⟨hLow, hHigh⟩
  by_cases hj : j < s'.count
  · rw [if_pos hj, hRecord j hj]
    split
    · rw [if_pos (by omega)]
    · rw [if_pos (by omega)]
  · rw [if_neg hj]
    split
    · omega
    · rw [if_neg (by omega)]

/-- **A full book**: the loop leaves the array. -/
theorem mainCase2_full (hFull : s.count = maxRecords) {deleteNumber : Int}
    (hHas : s.Has deleteNumber) : mainCase2 s deleteNumber = none := by
  have hBook := deleteAbonent_full (s := ⟨s.callBook, s.count, []⟩) hFull
    hHas.1 hHas.2
  have hSame := deleteAbonent_records ⟨s.callBook, s.count, []⟩ deleteNumber
  rw [hBook] at hSame
  exact hSame.symm

theorem mainCase2_deleted_iff (hCount : s.count ≤ maxRecords)
    (deleteNumber : Int) :
    Deleted s deleteNumber (mainCase2 s deleteNumber) ↔
      (s.count = maxRecords → ¬s.Has deleteNumber) := by
  by_cases hHas : s.Has deleteNumber
  · constructor
    · intro hDeleted hFull
      rcases hDeleted with ⟨s', hResult, -⟩
      rw [mainCase2_full hFull hHas] at hResult
      contradiction
    · intro hOk
      exact mainCase2_deleted
        (Nat.lt_of_le_of_ne hCount fun hFull => hOk hFull hHas) hHas
  · refine iff_of_true ⟨s, if_pos ?_, ?_⟩ fun _ => hHas
    · rw [Records.Has] at hHas
      omega
    · rw [if_neg hHas]

/-- **Deleting**, in both copies: the record with the number is deleted and
nothing else, all accesses inside the array, exactly if the book is not full
or does not have the number. -/
theorem record_deleted_iff (s : Book) (hCount : s.count ≤ maxRecords)
    (deleteNumber : Int) :
    (Deleted s.records deleteNumber (mainCase2 s.records deleteNumber) ↔
        (s.count = maxRecords → ¬s.records.Has deleteNumber)) ∧
      (Deleted s.records deleteNumber
          ((deleteAbonent s deleteNumber).map Book.records) ↔
        (s.count = maxRecords → ¬s.records.Has deleteNumber)) := by
  rw [deleteAbonent_records]
  have hIff := mainCase2_deleted_iff (s := s.records) hCount deleteNumber
  exact ⟨hIff, hIff⟩

end Deleting

/-- A hundred records, each with its index in all of its bytes. -/
def numberedBytes : List UInt8 :=
  (List.range maxRecords).flatMap fun i => List.replicate recordSize i.toUInt8

theorem length_numberedBytes :
    numberedBytes.length = maxRecords * recordSize := by
  rw [numberedBytes, List.length_flatMap]
  simp only [List.length_replicate]
  decide

/-- A book with so many of these records. -/
def numberedRecords (count : Nat) : Book where
  callBook := ⟨numberedBytes, length_numberedBytes⟩
  count := count
  entered := []

/-- The fiftieth of 99 different records is deleted by both copies. -/
theorem record_deleted_numbered :
    Deleted (numberedRecords 99).records 50
        (mainCase2 (numberedRecords 99).records 50) ∧
      Deleted (numberedRecords 99).records 50
        ((deleteAbonent (numberedRecords 99) 50).map Book.records) := by
  obtain ⟨hMain, hDelete⟩ :=
    record_deleted_iff (numberedRecords 99) (by decide) 50
  have hRoom : (99 : Nat) = maxRecords →
      ¬(numberedRecords 99).records.Has 50 := fun h => absurd h (by decide)
  exact ⟨hMain.mpr hRoom, hDelete.mpr hRoom⟩

/-- The first of 100 is deleted. -/
theorem full_book_not_deleted :
    ¬∀ (s : Book) (deleteNumber : Int), s.count ≤ maxRecords →
      Deleted s.records deleteNumber (mainCase2 s.records deleteNumber) ∧
        Deleted s.records deleteNumber
          ((deleteAbonent s deleteNumber).map Book.records) := by
  intro hAll
  have hHas : (numberedRecords 100).records.Has 1 := by decide
  rcases (hAll (numberedRecords 100) 1 (by decide)).1 with ⟨s', hResult, -⟩
  rw [mainCase2_full rfl hHas] at hResult
  contradiction

end UnixHomework.Ports.PhoneArray
