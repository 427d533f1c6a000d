import UnixHomework.Ports.PhoneArray
import UnixHomework.Ports.PhoneList

/-!
# Two phone books that find the same

The book in an array looks for a name with a loop of its own, `searchName`, and
the linked book with `strcmp`.  Both read what is looked for with `%9s` into a
local array, whose bytes behind the NUL are whatever they were before.

As long as the words that are entered fit their fields and the array is not
full, the two programs are the same program: after the same commands they show
the same lines, and a search for any word finds the same subscribers, with the
same numbers (`books_agree`).
-/

namespace UnixHomework.Ports.PhoneSearch

open UnixHomework.Verified
open UnixHomework.Ports
open UnixHomework.Ports.PhoneArray (Word Entry StoresEntered)

/-- A line that is printed: the number of a subscriber and the strings of its
fields. -/
abbrev Line := Nat × List (List UInt8)

/-! ## The functions of the programs -/

/-- `searchName`, from index `i` on; `s2` starts at the first byte of its
array.  `none` is a byte read outside one of the arrays. -/
def searchName {n m : Nat} (s1 : CharArray n) (off : Nat)
    (s2 : CharArray m) : Nat → Nat → Option Bool
  | 0, _ => none
  | fuel + 1, i => do
      let c1 ← s1.bytes[off + i]?
      let c2 ← s2.bytes[i]?
      if c1 ≠ 0 ∨ c2 ≠ 0 then
        if c1 ≠ c2 then some false
        else searchName s1 off s2 fuel (i + 1)
      else some true

/-- `scanf("%9s", field)` with a field that has these bytes before. -/
def scanField (field : CharArray 10) (word : Word) : Option (CharArray 10) :=
  field.writeString? 0 (word.bytes.take 9)

/-- `findAbonent`: the lines that it prints.  `find` is what the local array
holds at first. -/
def findAbonent (s : PhoneArray.Book) (find : CharArray 10) (word : Word) :
    Option (List Line) := do
  let find ← scanField find word
  let lines ← (List.range s.count).mapM fun i => do
    if ← searchName s.callBook (PhoneArray.nameAt i) find 10 0 then
      let record ← PhoneArray.showRecord s.callBook i
      some (some (i + 1, record))
    else some none
  some (lines.filterMap id)

/-- `CreateNode`: the three words are read into the fields of a new block. -/
def createNode (block : PhoneList.Abonent) (e : Entry) :
    Option PhoneList.Abonent := do
  let name ← scanField block.name e.name
  let secondName ← scanField block.secondName e.secondName
  let tel ← scanField block.tel e.tel
  some { name, secondName, tel }

/-- `strcmp (..) == 0`, which reads both strings up to their NUL. -/
def sameString {n m : Nat} (s1 : CharArray n) (s2 : CharArray m) :
    Option Bool := do
  let text1 ← s1.readString? 0
  let text2 ← s2.readString? 0
  some (decide (text1 = text2))

/-- The three strings of a node. -/
def showNode (a : PhoneList.Abonent) : Option (List (List UInt8)) := do
  let name ← a.name.readString? 0
  let secondName ← a.secondName.readString? 0
  let tel ← a.tel.readString? 0
  some [name, secondName, tel]

/-- The loop of `SearchByName`, which counts the nodes and follows `next`. -/
def searchNodes (h : Heap PhoneList.Abonent) (searched : CharArray 10) :
    Nat → Option Addr → Nat → Option (List Line)
  | _, none, _ => some []
  | 0, some _, _ => none
  | fuel + 1, some current, index => do
      let c ← h.cells current
      if ← sameString c.data.name searched then
        let strings ← showNode c.data
        let lines ← searchNodes h searched fuel c.next (index + 1)
        some ((index, strings) :: lines)
      else searchNodes h searched fuel c.next (index + 1)

/-- `SearchByName`. -/
def searchByName (s : PhoneList.Book) (searched : CharArray 10)
    (word : Word) : Option (List Line) := do
  let searched ← scanField searched word
  searchNodes s.heap searched s.heap.live.length s.head 1

/-- The loop of `ShowAll`. -/
def showNodes (h : Heap PhoneList.Abonent) :
    Nat → Option Addr → Nat → Option (List Line)
  | _, none, _ => some []
  | 0, some _, _ => none
  | fuel + 1, some head, i => do
      let c ← h.cells head
      let strings ← showNode c.data
      let lines ← showNodes h fuel c.next (i + 1)
      some ((i, strings) :: lines)

/-- `ShowAll`. -/
def showAll (s : PhoneList.Book) : Option (List Line) :=
  showNodes s.heap s.heap.live.length s.head 1

/-! ## Both programs -/

inductive Command where
  | add (e : Entry)
  | delete (number : Int)

/-- A command with what the linked book gets from `malloc`: the address of a
block and what is in it. -/
structure Typed where
  command : Command
  newNode : Addr
  block : PhoneList.Abonent

/-- The same command, given to both programs. -/
def bothStep (s : PhoneArray.Book × PhoneList.Book) (t : Typed) :
    Option (PhoneArray.Book × PhoneList.Book) :=
  match t.command with
  | .add e => do
      let array ← PhoneArray.addAbonent s.1 e
      let data ← createNode t.block e
      let list ← PhoneList.append s.2 t.newNode data
      some (array, list)
  | .delete number => do
      let array ← PhoneArray.deleteAbonent s.1 number
      let list ← PhoneList.deleteAbonent s.2 number
      some (array, list)

def bothBooks : Machine (PhoneArray.Book × PhoneList.Book) Typed where
  init s := s = (PhoneArray.Book.start, PhoneList.Book.start)
  step := bothStep

/-- Words that fit, an array with room, and a block that is not in use. -/
def Usual (s : PhoneArray.Book × PhoneList.Book) (t : Typed) : Prop :=
  match t.command with
  | .add e => s.1.count < PhoneArray.maxRecords ∧ e.Fits ∧
      t.newNode ∉ s.2.heap.live
  | .delete number =>
      0 < number → number ≤ s.1.count → s.1.count < PhoneArray.maxRecords

/-! ## What they show -/

/-- Records with their numbers, from 1 on. -/
def numbered (records : List (List (List UInt8))) : List Line :=
  records.zipIdx.map fun r => (r.2 + 1, r.1)

/-- The records whose name is the word, as far as it was read: nine characters
of it. -/
def found (records : List (List (List UInt8))) (word : Word) : List Line :=
  (numbered records).filter fun line =>
    decide (line.2.head? = some (word.bytes.take 9))

/-- Both programs show the subscribers entered and not deleted, and find the
same among them. -/
structure Agree (s : PhoneArray.Book × PhoneList.Book) : Prop where
  /-- The book in the array shows all subscribers, -/
  array : PhoneArray.showAllAbonent s.1 =
    some (s.1.entered.map Entry.words)
  /-- and so does the linked one, with numbers. -/
  list : showAll s.2 = some (numbered (s.1.entered.map Entry.words))
  /-- A search in the array finds those with the name, -/
  findAbonent : ∀ find word, findAbonent s.1 find word =
    some (found (s.1.entered.map Entry.words) word)
  /-- and one in the list the same. -/
  searchByName : ∀ searched word, searchByName s.2 searched word =
    some (found (s.1.entered.map Entry.words) word)

/-! ## Comparing -/

section Comparing

variable {n m : Nat} {s1 : CharArray n} {s2 : CharArray m} {off room i : Nat}
  {text text1 text2 : List UInt8}

/-- The bytes of a string and its NUL. -/
theorem getElem?_of_stored {a : CharArray n} (h : a.Stored off room text)
    {k : Nat} (hk : k ≤ text.length) :
    a.bytes[off + k]? = (text ++ [0])[k]? := by
  rw [← h.bytes, CharArray.slice, List.getElem?_take_of_lt (by omega),
    List.getElem?_drop]

/-- The loop, with these bytes before it up to the NUL.  It is given as many
turns as there can be bytes. -/
theorem searchName_from {fuel : Nat}
    (h1 : ∀ k ≤ text1.length, s1.bytes[off + (i + k)]? = (text1 ++ [0])[k]?)
    (h2 : ∀ k ≤ text2.length, s2.bytes[i + k]? = (text2 ++ [0])[k]?)
    (hNul1 : (0 : UInt8) ∉ text1) (hNul2 : (0 : UInt8) ∉ text2)
    (hFuel : text2.length < fuel) :
    searchName s1 off s2 fuel i = some (decide (text1 = text2)) := by
  induction text1 generalizing text2 fuel i with
  | nil =>
      obtain ⟨fuel, rfl⟩ := Nat.exists_eq_succ_of_ne_zero
        (Nat.ne_of_gt (Nat.zero_lt_of_lt hFuel))
      have hc1 : s1.bytes[off + i]? = some 0 := h1 0 (Nat.zero_le _)
      cases text2 with
      | nil =>
          have hc2 : s2.bytes[i]? = some 0 := h2 0 (Nat.zero_le _)
          simp only [searchName, hc1, hc2, Option.bind_eq_bind,
            Option.bind_some]
          rfl
      | cons b text2 =>
          have hc2 : s2.bytes[i]? = some b := h2 0 (Nat.zero_le _)
          have hb : b ≠ 0 := fun h => hNul2 (h ▸ List.mem_cons_self)
          simp only [searchName, hc1, hc2, Option.bind_eq_bind,
            Option.bind_some, if_pos (Or.inr hb), if_pos hb.symm]
          rfl
  | cons a text1 ih =>
      obtain ⟨fuel, rfl⟩ := Nat.exists_eq_succ_of_ne_zero
        (Nat.ne_of_gt (Nat.zero_lt_of_lt hFuel))
      have hc1 : s1.bytes[off + i]? = some a := h1 0 (Nat.zero_le _)
      have ha : a ≠ 0 := fun h => hNul1 (h ▸ List.mem_cons_self)
      cases text2 with
      | nil =>
          have hc2 : s2.bytes[i]? = some 0 := h2 0 (Nat.zero_le _)
          simp only [searchName, hc1, hc2, Option.bind_eq_bind,
            Option.bind_some, if_pos (Or.inl ha), if_pos ha]
          rfl
      | cons b text2 =>
          have hc2 : s2.bytes[i]? = some b := h2 0 (Nat.zero_le _)
          simp only [searchName, hc1, hc2, Option.bind_eq_bind,
            Option.bind_some, if_pos (Or.inl ha)]
          by_cases hab : a = b
          · subst hab
            rw [if_neg (not_not_intro rfl)]
            have hRest : searchName s1 off s2 fuel (i + 1) =
                some (decide (text1 = text2)) := by
              apply ih
              · intro k hk
                rw [Nat.add_assoc, Nat.add_comm 1 k]
                exact h1 (k + 1) (Nat.succ_le_succ hk)
              · intro k hk
                rw [Nat.add_assoc, Nat.add_comm 1 k]
                exact h2 (k + 1) (Nat.succ_le_succ hk)
              · exact fun h => hNul1 (List.mem_cons_of_mem _ h)
              · exact fun h => hNul2 (List.mem_cons_of_mem _ h)
              · exact Nat.lt_of_succ_lt_succ hFuel
            rw [hRest]
            simp
          · rw [if_pos hab]
            simp [hab]

/-- **`searchName` compares strings**: it returns 1 exactly if they are the
same up to the NUL, and reads nothing behind it. -/
theorem searchName_eq {room2 : Nat} (h1 : s1.Stored off room text1)
    (h2 : s2.Stored 0 room2 text2) {fuel : Nat}
    (hFuel : text2.length < fuel) :
    searchName s1 off s2 fuel 0 = some (decide (text1 = text2)) := by
  refine searchName_from ?_ ?_ h1.noNul h2.noNul hFuel
  · intro k hk
    rw [Nat.zero_add]
    exact getElem?_of_stored h1 hk
  · intro k hk
    exact getElem?_of_stored h2 hk

/-- The word that was read, whatever was there before. -/
theorem scanField_stored (field : CharArray 10) (word : Word) :
    ∃ field', scanField field word = some field' ∧
      field'.Stored 0 10 (word.bytes.take 9) := by
  have hShort : (word.bytes.take 9).length < 10 :=
    Nat.lt_succ_of_le (List.length_take_le _ _)
  obtain ⟨field', hWrite, hStored, -⟩ := field.writeString?_stored hShort
    (Nat.le_refl _) (fun h => word.noNul (List.mem_of_mem_take h))
  exact ⟨field', hWrite, hStored⟩

end Comparing

/-! ## Lines -/

section Lines

theorem zipIdx_map {β γ : Type} (f : β → γ) (l : List β) (k : Nat) :
    (l.map f).zipIdx k = (l.zipIdx k).map fun x => (f x.1, x.2) := by
  rw [List.zipIdx_map]
  rfl

theorem filter_map_eq {β γ : Type} (f : β → γ) (keep : γ → Bool)
    (l : List β) :
    (l.map f).filter keep =
      l.filterMap fun x => if keep (f x) then some (f x) else none := by
  induction l with
  | nil => rfl
  | cons x l ih =>
      rw [List.map_cons, List.filter_cons, List.filterMap_cons, ih]
      by_cases hx : keep (f x) = true
      · rw [if_pos hx, if_pos hx]
      · rw [if_neg hx, if_neg hx]

/-- What is found, record by record. -/
theorem found_eq (records : List (List (List UInt8))) (word : Word) :
    found records word = records.zipIdx.filterMap fun r =>
      if r.1.head? = some (word.bytes.take 9) then some (r.2 + 1, r.1)
      else none := by
  rw [found, numbered, filter_map_eq]
  simp only [decide_eq_true_eq]

end Lines

/-! ## The book in the array -/

section ArrayBook

variable {s : PhoneArray.Book}

/-- One turn of the loop: the record is printed if its name is the word. -/
theorem findLine_eq (h : StoresEntered s) {find : CharArray 10} {word : Word}
    (hFind : find.Stored 0 10 (word.bytes.take 9)) {i : Nat} {e : Entry}
    (he : s.entered[i]? = some e) :
    (do
      if ← searchName s.callBook (PhoneArray.nameAt i) find 10 0 then
        let record ← PhoneArray.showRecord s.callBook i
        some (some (i + 1, record))
      else some none : Option (Option Line)) =
    some (if e.words.head? = some (word.bytes.take 9) then
        some (i + 1, e.words)
      else none) := by
  have hRecord := h.records i e he
  have hSame : searchName s.callBook (PhoneArray.nameAt i) find 10 0 =
      some (decide (e.name.bytes = word.bytes.take 9)) :=
    searchName_eq hRecord.name hFind
      (Nat.lt_succ_of_le (List.length_take_le _ _))
  have hHead : e.words.head? = some e.name.bytes := rfl
  rw [hSame, Option.bind_eq_bind, Option.bind_some, hHead]
  by_cases hWord : e.name.bytes = word.bytes.take 9
  · rw [if_pos (decide_eq_true hWord), if_pos (congrArg some hWord),
      hRecord.showRecord_eq]
    rfl
  · rw [if_neg (by simpa using hWord),
      if_neg fun h => hWord (Option.some.inj h)]

/-- `findAbonent` finds the subscribers with the name. -/
theorem findAbonent_eq (h : StoresEntered s) (find : CharArray 10)
    (word : Word) :
    findAbonent s find word =
      some (found (s.entered.map Entry.words) word) := by
  obtain ⟨find', hScan, hFind⟩ := scanField_stored find word
  have hLines : (List.range s.count).mapM (fun i => (do
      if ← searchName s.callBook (PhoneArray.nameAt i) find' 10 0 then
        let record ← PhoneArray.showRecord s.callBook i
        some (some (i + 1, record))
      else some none : Option (Option Line))) =
      some (s.entered.zipIdx.map fun x =>
        if x.1.words.head? = some (word.bytes.take 9) then
          some (x.2 + 1, x.1.words)
        else none) := by
    rw [h.count, ← List.length_zipIdx (l := s.entered) (i := 0)]
    apply PhoneArray.mapM_range_eq
    intro i x hx
    rw [List.getElem?_zipIdx] at hx
    obtain ⟨e, he, rfl⟩ := Option.map_eq_some_iff.mp hx
    rw [Nat.zero_add]
    exact findLine_eq h hFind he
  rw [findAbonent, hScan, Option.bind_eq_bind, Option.bind_some, hLines,
    found_eq, zipIdx_map, List.filterMap_map, Option.bind_eq_bind,
    Option.bind_some, List.filterMap_map]
  rfl

end ArrayBook

/-! ## The linked book -/

section LinkedBook

variable {h : Heap PhoneList.Abonent} {prev head last : Option Addr}
  {nodes : List (Addr × PhoneList.Abonent)}
  {records : List (List (List UInt8))}

/-- What the nodes hold, as it is printed. -/
def Shows (nodes : List (Addr × PhoneList.Abonent))
    (records : List (List (List UInt8))) : Prop :=
  nodes.map (fun node => showNode node.2) = records.map some

theorem sameString_eq {a : PhoneList.Abonent} {strings : List (List UInt8)}
    {searched : CharArray 10} {text : List UInt8}
    (hShow : showNode a = some strings)
    (hSearched : searched.readString? 0 = some text) :
    sameString a.name searched =
      some (decide (strings.head? = some text)) := by
  simp only [showNode, Option.bind_eq_bind] at hShow
  obtain ⟨name, hName, hShow⟩ := Option.bind_eq_some_iff.mp hShow
  obtain ⟨secondName, -, hShow⟩ := Option.bind_eq_some_iff.mp hShow
  obtain ⟨tel, -, hShow⟩ := Option.bind_eq_some_iff.mp hShow
  obtain rfl := Option.some.inj hShow
  simp only [sameString, hName, hSearched, Option.bind_eq_bind,
    Option.bind_some, List.head?_cons, Option.some.injEq]

theorem showNodes_eq (hSeg : h.Segment prev head nodes last none)
    (hShows : Shows nodes records) {fuel : Nat}
    (hFuel : nodes.length ≤ fuel) (i : Nat) :
    showNodes h fuel head i =
      some ((records.zipIdx i).map fun r => (r.2, r.1)) := by
  induction nodes generalizing prev head records fuel i with
  | nil =>
      obtain ⟨rfl, -⟩ := hSeg
      obtain rfl : records = [] := List.map_eq_nil_iff.mp hShows.symm
      cases fuel <;> rfl
  | cons node nodes ih =>
      obtain ⟨rfl, c, hCell, hData, -, hRest⟩ := hSeg
      cases records with
      | nil => contradiction
      | cons strings records =>
          obtain ⟨hFirst, hShows⟩ := List.cons.inj hShows
          cases fuel with
          | zero => simp at hFuel
          | succ fuel =>
              simp only [showNodes, hCell, hData, hFirst,
                ih hRest hShows (Nat.le_of_succ_le_succ hFuel) (i + 1),
                Option.bind_eq_bind, Option.bind_some]
              rfl

theorem searchNodes_eq (hSeg : h.Segment prev head nodes last none)
    (hShows : Shows nodes records) {searched : CharArray 10}
    {text : List UInt8} (hSearched : searched.readString? 0 = some text)
    {fuel : Nat} (hFuel : nodes.length ≤ fuel) (index : Nat) :
    searchNodes h searched fuel head index =
      some ((records.zipIdx index).filterMap fun r =>
        if r.1.head? = some text then some (r.2, r.1) else none) := by
  induction nodes generalizing prev head records fuel index with
  | nil =>
      obtain ⟨rfl, -⟩ := hSeg
      obtain rfl : records = [] := List.map_eq_nil_iff.mp hShows.symm
      cases fuel <;> rfl
  | cons node nodes ih =>
      obtain ⟨rfl, c, hCell, hData, -, hRest⟩ := hSeg
      cases records with
      | nil => contradiction
      | cons strings records =>
          obtain ⟨hFirst, hShows⟩ := List.cons.inj hShows
          cases fuel with
          | zero => simp at hFuel
          | succ fuel =>
              have hLines := ih hRest hShows (Nat.le_of_succ_le_succ hFuel)
                (index + 1)
              simp only [searchNodes, hCell, hData,
                sameString_eq hFirst hSearched, hFirst, hLines,
                Option.bind_eq_bind, Option.bind_some, List.zipIdx_cons]
              by_cases hName : strings.head? = some text
              · rw [if_pos (decide_eq_true hName), List.filterMap_cons,
                  if_pos hName]
              · rw [if_neg (by simpa using hName), List.filterMap_cons,
                  if_neg hName]

variable {s : PhoneList.Book}

theorem showAll_eq (hHolds : PhoneList.HoldsNodes s nodes)
    (hShows : Shows nodes records) :
    showAll s = some (numbered records) := by
  have hHolds' : s.heap.Holds s.head nodes := hHolds
  obtain ⟨last, hSeg⟩ := hHolds'.linked
  rw [showAll, showNodes_eq hSeg hShows (Nat.le_of_eq
    hHolds'.length_live.symm), numbered, List.zipIdx_succ, List.map_map]
  rfl

theorem searchByName_eq (hHolds : PhoneList.HoldsNodes s nodes)
    (hShows : Shows nodes records) (searched : CharArray 10) (word : Word) :
    searchByName s searched word = some (found records word) := by
  have hHolds' : s.heap.Holds s.head nodes := hHolds
  obtain ⟨last, hSeg⟩ := hHolds'.linked
  obtain ⟨searched', hScan, hStored⟩ := scanField_stored searched word
  rw [searchByName, hScan, Option.bind_eq_bind, Option.bind_some,
    searchNodes_eq hSeg hShows hStored.readString?_eq (Nat.le_of_eq
      hHolds'.length_live.symm), found_eq, List.zipIdx_succ,
    List.filterMap_map]
  rfl

end LinkedBook

/-! ## Commands -/

section Commands

/-- A word that fits is read whole. -/
theorem createNode_eq (block : PhoneList.Abonent) {e : Entry}
    (hFits : e.Fits) :
    ∃ data, createNode block e = some data ∧
      showNode data = some e.words := by
  have hWhole : ∀ w : Word, w.bytes ∈ e.words → w.bytes.take 9 = w.bytes :=
    fun w hw => List.take_of_length_le (Nat.le_of_lt_succ (hFits _ hw))
  have hName := hWhole e.name (by simp [Entry.words])
  have hSecondName := hWhole e.secondName (by simp [Entry.words])
  have hTel := hWhole e.tel (by simp [Entry.words])
  obtain ⟨name, h1, s1⟩ := scanField_stored block.name e.name
  obtain ⟨secondName, h2, s2⟩ :=
    scanField_stored block.secondName e.secondName
  obtain ⟨tel, h3, s3⟩ := scanField_stored block.tel e.tel
  refine ⟨⟨name, secondName, tel⟩, ?_, ?_⟩
  · simp only [createNode, h1, h2, h3, Option.bind_eq_bind, Option.bind_some]
  · simp only [showNode, s1.readString?_eq, s2.readString?_eq,
      s3.readString?_eq, hName, hSecondName, hTel, Option.bind_eq_bind,
      Option.bind_some, Entry.words]

theorem addAbonent_entered {s s' : PhoneArray.Book} {e : Entry}
    (hRoom : s.count < PhoneArray.maxRecords)
    (h : PhoneArray.addAbonent s e = some s') :
    s'.entered = s.entered ++ [e] := by
  rw [PhoneArray.addAbonent, if_neg (Nat.not_le.mpr hRoom)] at h
  obtain ⟨b1, -, h⟩ := Option.bind_eq_some_iff.mp h
  obtain ⟨b2, -, h⟩ := Option.bind_eq_some_iff.mp h
  obtain ⟨b3, -, h⟩ := Option.bind_eq_some_iff.mp h
  obtain rfl := Option.some.inj h
  rfl

/-- The array deletes at the position at which the list does. -/
theorem deleteAbonent_entered {s s' : PhoneArray.Book} {number : Int}
    (hStores : StoresEntered s)
    (h : PhoneArray.deleteAbonent s number = some s') :
    s'.entered = PhoneList.eraseAt s.entered number := by
  have hCount := hStores.count
  rw [PhoneArray.deleteAbonent] at h
  rw [PhoneList.eraseAt]
  by_cases hInvalid : number ≤ 0 ∨ s.count < number
  · rw [if_pos hInvalid] at h
    obtain rfl := Option.some.inj h
    rw [if_neg (by omega)]
  · rw [if_neg hInvalid] at h
    obtain ⟨b1, -, h⟩ := Option.bind_eq_some_iff.mp h
    obtain ⟨b2, -, h⟩ := Option.bind_eq_some_iff.mp h
    obtain rfl := Option.some.inj h
    rw [if_pos (by omega)]

/-- Both books hold what was entered. -/
structure HoldBoth (s : PhoneArray.Book × PhoneList.Book) : Prop where
  /-- The array has the subscribers one behind the other. -/
  array : StoresEntered s.1
  /-- The list has a node for each, in the same order. -/
  list : ∃ nodes, PhoneList.HoldsNodes s.2 nodes ∧
    Shows nodes (s.1.entered.map Entry.words)

theorem HoldBoth.agree {s : PhoneArray.Book × PhoneList.Book}
    (h : HoldBoth s) : Agree s := by
  obtain ⟨nodes, hHolds, hShows⟩ := h.list
  exact ⟨h.array.showsEntered, showAll_eq hHolds hShows,
    findAbonent_eq h.array, searchByName_eq hHolds hShows⟩

/-- **One command, in both programs.**  Neither does anything undefined, and
both still hold the same. -/
theorem HoldBoth.step {s : PhoneArray.Book × PhoneList.Book} (h : HoldBoth s)
    {t : Typed} (hUsual : Usual s t) :
    ∃ next, bothStep s t = some next ∧ HoldBoth next := by
  obtain ⟨nodes, hHolds, hShows⟩ := h.list
  obtain ⟨command, newNode, block⟩ := t
  cases command with
  | add e =>
      obtain ⟨hRoom, hFits, hFresh⟩ := hUsual
      obtain ⟨array, hArray, hStores⟩ := h.array.add fun _ => hFits
      obtain ⟨data, hData, hText⟩ := createNode_eq block hFits
      obtain ⟨list, hList, hNodes⟩ :=
        PhoneList.append_eq hHolds data hFresh
      refine ⟨(array, list), ?_, hStores, _, hNodes, ?_⟩
      · simp only [bothStep, hArray, hData, hList, Option.bind_eq_bind,
          Option.bind_some]
      · rw [addAbonent_entered hRoom hArray, Shows, List.map_append, hShows,
          List.map_append, List.map_append, List.map_singleton, hText]
        rfl
  | delete number =>
      obtain ⟨array, hArray, hStores⟩ := h.array.delete hUsual
      obtain ⟨list, hList, hNodes⟩ :=
        PhoneList.deleteAbonent_eq hHolds number
      refine ⟨(array, list), ?_, hStores, _, hNodes, ?_⟩
      · simp only [bothStep, hArray, hList, Option.bind_eq_bind,
          Option.bind_some]
      · rw [deleteAbonent_entered h.array hArray, Shows,
          ← PhoneList.eraseAt_map, hShows, PhoneList.eraseAt_map,
          PhoneList.eraseAt_map]

/-- **The two phone books are one.**  Given the same commands, with words that
fit and room in the array, neither program does anything undefined, and at
every moment both show the subscribers entered and not deleted, and find the
same ones under the same numbers, whatever is looked for. -/
theorem books_agree {s : PhoneArray.Book × PhoneList.Book}
    {typed : List Typed} (hInit : bothBooks.init s)
    (hUsual : bothBooks.EachStep Usual s typed) :
    (∃ last, bothBooks.run s typed = some last) ∧
      bothBooks.EachState Agree s typed := by
  obtain rfl : s = (PhoneArray.Book.start, PhoneList.Book.start) := hInit
  have hStart : HoldBoth (PhoneArray.Book.start, PhoneList.Book.start) :=
    ⟨PhoneArray.storesEntered_start, [], Heap.holds_empty, rfl⟩
  exact Machine.exists_run_of_eachStep
    (fun s t hHold hOk => hHold.step hOk) (fun s hHold => hHold.agree)
    hStart hUsual

end Commands

instance (s : PhoneArray.Book × PhoneList.Book) (t : Typed) :
    Decidable (Usual s t) := by
  rcases t with ⟨command, newNode, block⟩
  cases command <;> unfold Usual <;> unfold Entry.Fits <;> infer_instance

/-- A block with something in it. -/
def usedBlock : PhoneList.Abonent where
  name := (CharArray.zeros 10).set 3 65
  secondName := (CharArray.zeros 10).set 0 66
  tel := (CharArray.zeros 10).set 9 67

/-- Two subscribers with one name, of whom the first is deleted. -/
theorem books_agree_namesakes :
    bothBooks.EachState Agree (PhoneArray.Book.start, PhoneList.Book.start)
      [⟨.add (PhoneArray.subscriber PhoneArray.nineDigits), 16, usedBlock⟩,
        ⟨.add (PhoneArray.subscriber PhoneArray.nineDigits), 48, usedBlock⟩,
        ⟨.delete 1, 0, usedBlock⟩] :=
  (books_agree rfl (by decide +kernel)).2

end UnixHomework.Ports.PhoneSearch
