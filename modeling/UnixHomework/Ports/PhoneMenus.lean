import UnixHomework.Ports.PhoneArray
import UnixHomework.Verified.Lexemes
import UnixHomework.Verified.Menus

/-!
# The menus of the phone books

`main` of hw5 and of hw6 asks for a choice, carries it out and asks again,
until the choice is 5.  Neither looks at what `scanf` returns.  At the end of
the input, or where a word is not a number, `choice` keeps its value and
nothing is read but white space; the branch for wrong choices then asks for
another one in the same place.

What the functions read depends on the choice, on whether the array is full,
and in hw6 on `malloc`.  So that is what the model keeps of a book, beside the
input.  A deletion without a number takes what was in its variable, which is
not initialised.

On which inputs the loops end is said by two grammars, `ArrayInput` and
`ListInput`.  They know numerals, words and white space, the number of records
or allocations so far and the last choice, and nothing of what the functions
do; `menus_end_iff` is that the inputs with a derivation are those on which the
programs end.
-/

namespace UnixHomework.Ports.PhoneMenus

open UnixHomework.Verified
open PhoneArray (maxRecords)

/-- What the sources leave open: two variables that are read before they are
set, a conversion out of range, and the memory. -/
structure Environment where
  /-- `choice`, which is not initialised. -/
  choice : Int
  /-- The variable for the number in that deletion, before `scanf`. -/
  number : Nat → Int
  /-- What `%d` stores for a number that is not an `int`. -/
  outOfRange : Int → Int
  /-- Whether that call of `malloc` succeeds. -/
  malloc : Nat → Bool

/-- What `%d` stores: the number, if it is an `int`. -/
def Environment.convert (k : Environment) (v : Int) : Int :=
  if -2147483648 ≤ v ∧ v ≤ 2147483647 then v else k.outOfRange v

/-! ## The program with the array -/

/-- `count`, and the calls of `deleteAbonent` so far.  Nothing else of the book
decides about what is read. -/
structure ArrayBook where
  count : Nat
  deletions : Nat

/-- `addAbonent`: three words, with a `getchar` behind the first two, or
nothing if the array is full. -/
def addAbonent (s : ArrayBook) (stdin : List UInt8) : ArrayBook × List UInt8 :=
  if maxRecords ≤ s.count then (s, stdin)
  else
    let (_, stdin) := scanfWord none stdin
    let (_, stdin) := getchar stdin
    let (_, stdin) := scanfWord none stdin
    let (_, stdin) := getchar stdin
    let (_, stdin) := scanfWord none stdin
    ({ s with count := s.count + 1 }, stdin)

/-- `deleteAbonent`: a number, which is not looked at further unless it is that
of a record. -/
def deleteAbonent (k : Environment) (s : ArrayBook) (stdin : List UInt8) :
    ArrayBook × List UInt8 :=
  let (deleteNumber, stdin) :=
    scanfVar k.convert (k.number s.deletions) stdin
  if deleteNumber ≤ 0 ∨ s.count < deleteNumber then
    ({ s with deletions := s.deletions + 1 }, stdin)
  else (⟨s.count - 1, s.deletions + 1⟩, stdin)

/-- `findAbonent`: a word of at most nine characters, and one character
more. -/
def findAbonent (stdin : List UInt8) : List UInt8 :=
  let (_, stdin) := scanfWord (some 9) stdin
  let (_, stdin) := getchar stdin
  stdin

/-- `main` of hw5.  A choice that is none of the first three reads nothing. -/
def arrayMenu (k : Environment) : Menu ArrayBook where
  convert := k.convert
  last := 5
  act choice s stdin :=
    match choice with
    | 1 => some (addAbonent s stdin)
    | 2 => some (deleteAbonent k s stdin)
    | 3 => some (s, findAbonent stdin)
    | _ => some (s, stdin)

/-! ## The program with the list -/

/-- The length of the list, and the calls of `malloc` and `DeleteAbonent` so
far. -/
structure ListBook where
  nodes : Nat
  allocations : Nat
  deletions : Nat

/-- `Append`; without memory, `CreateNode` calls `exit`. -/
def append (k : Environment) (s : ListBook) (stdin : List UInt8) :
    Option (ListBook × List UInt8) :=
  if k.malloc s.allocations then
    let (_, stdin) := scanfWord (some 9) stdin
    let (_, stdin) := scanfWord (some 9) stdin
    let (_, stdin) := scanfWord (some 9) stdin
    some (⟨s.nodes + 1, s.allocations + 1, s.deletions⟩, stdin)
  else none

/-- `DeleteAbonent`. -/
def deleteNode (k : Environment) (s : ListBook) (stdin : List UInt8) :
    ListBook × List UInt8 :=
  let (index, stdin) :=
    scanfVar k.convert (k.number s.deletions) stdin
  if s.nodes = 0 ∨ index ≤ 0 ∨ s.nodes < index then
    ({ s with deletions := s.deletions + 1 }, stdin)
  else (⟨s.nodes - 1, s.allocations, s.deletions + 1⟩, stdin)

/-- `SearchByName`. -/
def searchByName (stdin : List UInt8) : List UInt8 :=
  (scanfWord (some 9) stdin).2

/-- `main` of hw6; `ExitProgram` calls `exit`, and so does an addition for
which there is no memory. -/
def listMenu (k : Environment) : Menu ListBook where
  convert := k.convert
  last := 5
  act choice s stdin :=
    match choice with
    | 1 => append k s stdin
    | 2 => some (deleteNode k s stdin)
    | 3 => some (s, searchByName stdin)
    | 5 => none
    | _ => some (s, stdin)

/-! ## Both programs -/

/-- The loops of both programs end on this input. -/
def MenusEnd (k : Environment) (stdin : List UInt8) : Prop :=
  (arrayMenu k).Ends ⟨0, 0⟩ k.choice stdin ∧
    (listMenu k).Ends ⟨0, 0, 0⟩ k.choice stdin

/-! ## The inputs -/

/-- The choice that an input begins with: a numeral or, where there is none,
the choice before once more. -/
inductive Chooses (k : Environment) (choice : Int) (text : List UInt8) :
    Int → List UInt8 → Prop where
  /-- `scanf` stores the number. -/
  | number {v : Int} {rest : List UInt8} (hNumeral : Numeral v text rest) :
      Chooses k choice text (k.convert v) rest
  /-- `scanf` stores nothing, and has skipped the white space. -/
  | same {rest : List UInt8} (hNone : NoNumeral text)
      (hRest : Trims text rest) : Chooses k choice text choice rest

/-- The inputs on which the loop of hw5 ends, with so many records in the book
and this choice before.  After a choice 5 anything may follow.  A choice 1 is
followed by three words, or by nothing if the book is full, when it must be a
numeral; a choice 2 by a numeral; a choice 3 by a word of at most nine
characters and one more character; and any other numeral by nothing.  Then the
next choice comes, and there is no derivation from an input that has ended. -/
inductive ArrayInput (k : Environment) : Nat → Int → List UInt8 → Prop where
  | five {n : Nat} {choice : Int} {text rest : List UInt8}
      (hChoice : Chooses k choice text 5 rest) : ArrayInput k n choice text
  | add {n : Nat} {choice : Int} {text rest behind : List UInt8}
      (hChoice : Chooses k choice text 1 rest) (hRoom : n < maxRecords)
      (hWords : Words none 3 rest behind)
      (hNext : ArrayInput k (n + 1) 1 behind) : ArrayInput k n choice text
  | full {n : Nat} {choice v : Int} {text rest : List UInt8}
      (hNumeral : Numeral v text rest) (hOne : k.convert v = 1)
      (hFull : maxRecords ≤ n) (hNext : ArrayInput k n 1 rest) :
      ArrayInput k n choice text
  | delete {n : Nat} {choice v : Int} {text rest behind : List UInt8}
      (hChoice : Chooses k choice text 2 rest) (hNumber : Numeral v rest behind)
      (hNext : ArrayInput k
        (if 1 ≤ k.convert v ∧ k.convert v ≤ n then n - 1 else n) 2 behind) :
      ArrayInput k n choice text
  | find {n : Nat} {choice : Int} {text rest behind : List UInt8} {b : UInt8}
      (hChoice : Chooses k choice text 3 rest)
      (hWord : Word (some 9) rest (b :: behind))
      (hNext : ArrayInput k n 3 behind) : ArrayInput k n choice text
  | other {n : Nat} {choice v : Int} {text rest : List UInt8}
      (hNumeral : Numeral v text rest) (hOne : k.convert v ≠ 1)
      (hTwo : k.convert v ≠ 2) (hThree : k.convert v ≠ 3)
      (hNext : ArrayInput k n (k.convert v) rest) : ArrayInput k n choice text

/-- The inputs on which the loop of hw6 ends, after so many allocations and
with this choice before.  A choice 1 ends the program if there is no memory;
else it is followed by three words of at most nine characters each, so that a
longer one counts as several, or the input ends before and there is no memory
for one of the additions that follow.  A choice 2 is followed by a numeral, a
choice 3 by a word, and a choice 5 by anything. -/
inductive ListInput (k : Environment) : Nat → Int → List UInt8 → Prop where
  | five {i : Nat} {choice : Int} {text rest : List UInt8}
      (hChoice : Chooses k choice text 5 rest) : ListInput k i choice text
  | noMemory {i : Nat} {choice : Int} {text rest : List UInt8}
      (hChoice : Chooses k choice text 1 rest) (hMalloc : k.malloc i = false) :
      ListInput k i choice text
  | add {i : Nat} {choice : Int} {text rest behind : List UInt8}
      (hChoice : Chooses k choice text 1 rest) (hMalloc : k.malloc i = true)
      (hWords : Words (some 9) 3 rest behind)
      (hNext : ListInput k (i + 1) 1 behind) : ListInput k i choice text
  | runsOut {i j : Nat} {choice : Int} {text rest : List UInt8}
      (hChoice : Chooses k choice text 1 rest)
      (hFew : ∀ behind, ¬Words (some 9) 3 rest behind) (hLater : i ≤ j)
      (hMalloc : k.malloc j = false) : ListInput k i choice text
  | delete {i : Nat} {choice v : Int} {text rest behind : List UInt8}
      (hChoice : Chooses k choice text 2 rest) (hNumber : Numeral v rest behind)
      (hNext : ListInput k i 2 behind) : ListInput k i choice text
  | find {i : Nat} {choice : Int} {text rest behind : List UInt8}
      (hChoice : Chooses k choice text 3 rest)
      (hWord : Word (some 9) rest behind)
      (hNext : ListInput k i 3 behind) : ListInput k i choice text
  | other {i : Nat} {choice v : Int} {text rest : List UInt8}
      (hNumeral : Numeral v text rest) (hOne : k.convert v ≠ 1)
      (hTwo : k.convert v ≠ 2) (hThree : k.convert v ≠ 3)
      (hNext : ListInput k i (k.convert v) rest) : ListInput k i choice text

/-- Where there is no number, the choice in hw5 reads nothing: it asks for no
word, or the input has ended. -/
def ArrayIdle (s : ArrayBook) (choice : Int) (stdin : List UInt8) : Prop :=
  (choice = 1 → maxRecords ≤ s.count ∨ stdin = []) ∧
    (choice = 3 → stdin = [])

/-- The same in hw6, where an addition at the end of the input goes on as long
as there is memory. -/
def ListIdle (k : Environment) (s : ListBook) (choice : Int)
    (stdin : List UInt8) : Prop :=
  (choice = 1 → stdin = [] ∧ ∀ i, s.allocations ≤ i → k.malloc i = true) ∧
    (choice = 3 → stdin = [])

section Idle

variable {k : Environment} {choice : Int} {stdin : List UInt8}

@[simp] theorem arrayIdle_one {s : ArrayBook} :
    ArrayIdle s 1 stdin ↔ maxRecords ≤ s.count ∨ stdin = [] := by
  simp [ArrayIdle]

@[simp] theorem arrayIdle_three {s : ArrayBook} :
    ArrayIdle s 3 stdin ↔ stdin = [] := by
  simp [ArrayIdle]

/-- The other choices ask for no word, so they read nothing behind a choice
that was not a numeral. -/
theorem arrayIdle_of_ne {s : ArrayBook} (h1 : choice ≠ 1) (h3 : choice ≠ 3) :
    ArrayIdle s choice stdin :=
  ⟨fun h => absurd h h1, fun h => absurd h h3⟩

@[simp] theorem listIdle_one {s : ListBook} :
    ListIdle k s 1 stdin ↔
      stdin = [] ∧ ∀ i, s.allocations ≤ i → k.malloc i = true := by
  simp [ListIdle]

@[simp] theorem listIdle_three {s : ListBook} :
    ListIdle k s 3 stdin ↔ stdin = [] := by
  simp [ListIdle]

theorem listIdle_of_ne {s : ListBook} (h1 : choice ≠ 1) (h3 : choice ≠ 3) :
    ListIdle k s choice stdin :=
  ⟨fun h => absurd h h1, fun h => absurd h h3⟩

end Idle

section Reading

variable {k : Environment} {stdin : List UInt8}

/-! ## What the functions read -/

theorem addAbonent_suffix (s : ArrayBook) (stdin : List UInt8) :
    (addAbonent s stdin).2 <:+ stdin := by
  rw [addAbonent]
  split
  · exact List.suffix_refl _
  · exact (scanfWord_suffix none _).trans <| (getchar_suffix _).trans <|
      (scanfWord_suffix none _).trans <| (getchar_suffix _).trans <|
        scanfWord_suffix none _

theorem length_addAbonent_lt {s : ArrayBook} (hRoom : s.count < maxRecords)
    (hStart : stdin.dropWhile isSpace ≠ []) :
    (addAbonent s stdin).2.length < stdin.length := by
  rw [addAbonent, if_neg (Nat.not_le.mpr hRoom)]
  have hName : (scanfWord none stdin).2.length < stdin.length :=
    length_scanfWord_lt none (by simp) hStart
  have hRest := (scanfWord_suffix none _).trans <| (getchar_suffix _).trans <|
    (scanfWord_suffix none _).trans <|
      getchar_suffix (scanfWord none stdin).2
  exact Nat.lt_of_le_of_lt hRest.length_le hName

theorem addAbonent_nil (s : ArrayBook) : (addAbonent s []).2 = [] := by
  rw [addAbonent]
  split
  · rfl
  · simp [getchar]

theorem deleteAbonent_snd (k : Environment) (s : ArrayBook)
    (stdin : List UInt8) :
    (deleteAbonent k s stdin).2 =
      (scanfVar k.convert (k.number s.deletions) stdin).2 := by
  simp only [deleteAbonent]
  split <;> rfl

/-- `count` is that of the book. -/
theorem addAbonent_count {b next : PhoneArray.Book} {e : PhoneArray.Entry}
    (h : PhoneArray.addAbonent b e = some next) (deletions : Nat)
    (stdin : List UInt8) :
    (addAbonent ⟨b.count, deletions⟩ stdin).1.count = next.count := by
  rw [PhoneArray.addAbonent] at h
  rw [addAbonent]
  split at h <;> rename_i hFull
  · rw [if_pos hFull, Option.some.inj h]
  · rw [if_neg hFull]
    rcases Option.bind_eq_some_iff.mp h with ⟨_, -, h⟩
    rcases Option.bind_eq_some_iff.mp h with ⟨_, -, h⟩
    rcases Option.bind_eq_some_iff.mp h with ⟨_, -, h⟩
    rw [← Option.some.inj h]

theorem deleteAbonent_count {b next : PhoneArray.Book} {s : ArrayBook}
    (hCount : s.count = b.count)
    (h : PhoneArray.deleteAbonent b
      (scanfVar k.convert (k.number s.deletions) stdin).1 = some next) :
    (deleteAbonent k s stdin).1.count = next.count := by
  simp only [deleteAbonent, hCount]
  rw [PhoneArray.deleteAbonent] at h
  split at h <;> rename_i hNumber
  · rw [if_pos hNumber, ← Option.some.inj h]
  · rw [if_neg hNumber]
    rcases Option.bind_eq_some_iff.mp h with ⟨_, -, h⟩
    rcases Option.bind_eq_some_iff.mp h with ⟨_, -, h⟩
    rw [← Option.some.inj h]

theorem findAbonent_suffix (stdin : List UInt8) :
    findAbonent stdin <:+ (scanfWord (some 9) stdin).2 :=
  getchar_suffix _

theorem append_snd {s next : ListBook} {rest : List UInt8}
    (h : append k s stdin = some (next, rest)) :
    rest = (scanfWord (some 9) (scanfWord (some 9)
      (scanfWord (some 9) stdin).2).2).2 := by
  rcases Option.ite_none_right_eq_some.mp h with ⟨-, hNext⟩
  exact (Prod.mk.inj (Option.some.inj hNext)).2.symm

theorem deleteNode_snd (k : Environment) (s : ListBook)
    (stdin : List UInt8) :
    (deleteNode k s stdin).2 =
      (scanfVar k.convert (k.number s.deletions) stdin).2 := by
  simp only [deleteNode]
  split <;> rfl

/-! ## The menu of the array -/

/-- What each choice does in hw5. -/
theorem arrayMenu_act_cases (k : Environment) (choice : Int) (s : ArrayBook)
    (stdin : List UInt8) :
    (choice = 1 ∧
      (arrayMenu k).act choice s stdin = some (addAbonent s stdin)) ∨
    (choice = 2 ∧
      (arrayMenu k).act choice s stdin = some (deleteAbonent k s stdin)) ∨
    (choice = 3 ∧
      (arrayMenu k).act choice s stdin = some (s, findAbonent stdin)) ∨
    (choice ≠ 1 ∧ choice ≠ 2 ∧ choice ≠ 3 ∧
      (arrayMenu k).act choice s stdin = some (s, stdin)) := by
  by_cases h1 : choice = 1
  · exact Or.inl ⟨h1, by rw [h1]; rfl⟩
  by_cases h2 : choice = 2
  · exact Or.inr (Or.inl ⟨h2, by rw [h2]; rfl⟩)
  by_cases h3 : choice = 3
  · exact Or.inr (Or.inr (Or.inl ⟨h3, by rw [h3]; rfl⟩))
  refine Or.inr (Or.inr (Or.inr ⟨h1, h2, h3, ?_⟩))
  show (match choice with | 1 => _ | 2 => _ | 3 => _ | _ => _) = _
  split
  · exact absurd rfl h1
  · exact absurd rfl h2
  · exact absurd rfl h3
  · rfl

theorem arrayMenu_idles (k : Environment) :
    (arrayMenu k).Idles ArrayIdle where
  act_eq s choice rest _ hScan hIdle := by
    rcases arrayMenu_act_cases k choice s rest with
      ⟨rfl, hAct⟩ | ⟨rfl, hAct⟩ | ⟨rfl, hAct⟩ | ⟨-, -, -, hAct⟩
    · rcases arrayIdle_one.mp hIdle with hFull | hNil
      · rw [addAbonent, if_pos hFull] at hAct
        exact ⟨s, hAct, hIdle⟩
      · rw [hNil] at hAct ⊢
        refine ⟨(addAbonent s []).1, ?_, arrayIdle_one.mpr (Or.inr rfl)⟩
        rw [hAct]
        exact congrArg some (Prod.ext rfl (addAbonent_nil s))
    · have hRest := deleteAbonent_snd k s rest
      rw [scanfVar_of_none hScan] at hRest
      refine ⟨(deleteAbonent k s rest).1, ?_,
        arrayIdle_of_ne (by decide) (by decide)⟩
      rw [hAct]
      exact congrArg some (Prod.ext rfl hRest)
    · have hNil := arrayIdle_three.mp hIdle
      rw [hNil] at hAct hIdle ⊢
      exact ⟨s, hAct, hIdle⟩
    · exact ⟨s, hAct, hIdle⟩

theorem arrayMenu_reads (k : Environment) :
    (arrayMenu k).Reads ArrayIdle where
  suffix s choice rest next behind h := by
    rcases arrayMenu_act_cases k choice s rest with
      ⟨-, hAct⟩ | ⟨-, hAct⟩ | ⟨-, hAct⟩ | ⟨-, -, -, hAct⟩ <;>
      have hNext := Option.some.inj (hAct.symm.trans h)
    · have hSuffix := addAbonent_suffix s rest
      rw [hNext] at hSuffix
      exact hSuffix
    · have hSuffix := scanfVar_suffix k.convert (k.number s.deletions) rest
      rw [← deleteAbonent_snd, hNext] at hSuffix
      exact hSuffix
    · rw [← (Prod.mk.inj hNext).2]
      exact (findAbonent_suffix rest).trans (scanfWord_suffix _ rest)
    · exact (Prod.mk.inj hNext).2 ▸ List.suffix_refl rest
  lt s choice rest next behind hMore hScan h := by
    have hStart := dropWhile_isSpace_of_none hScan
    rcases arrayMenu_act_cases k choice s rest with
      ⟨rfl, hAct⟩ | ⟨rfl, -⟩ | ⟨rfl, hAct⟩ | ⟨h1, -, h3, -⟩
    · rw [arrayIdle_one, not_or, Nat.not_le] at hMore
      rcases hMore with ⟨hRoom, hText⟩
      rw [← hStart] at hText
      have hLess := length_addAbonent_lt hRoom hText
      rw [Option.some.inj (hAct.symm.trans h)] at hLess
      exact hLess
    · exact absurd (arrayIdle_of_ne (by decide) (by decide)) hMore
    · rw [arrayIdle_three, ← hStart] at hMore
      rw [← (Prod.mk.inj (Option.some.inj (hAct.symm.trans h))).2]
      exact Nat.lt_of_le_of_lt (findAbonent_suffix rest).length_le
        (length_scanfWord_lt (some 9) (by decide) hMore)
    · exact absurd (arrayIdle_of_ne h1 h3) hMore

/-! ## The menu of the list -/

/-- What each choice does in hw6, where 5 is a choice like the others. -/
theorem listMenu_act_cases (k : Environment) (choice : Int) (s : ListBook)
    (stdin : List UInt8) :
    (choice = 1 ∧ (listMenu k).act choice s stdin = append k s stdin) ∨
    (choice = 2 ∧
      (listMenu k).act choice s stdin = some (deleteNode k s stdin)) ∨
    (choice = 3 ∧
      (listMenu k).act choice s stdin = some (s, searchByName stdin)) ∨
    (choice = 5 ∧ (listMenu k).act choice s stdin = none) ∨
    (choice ≠ 1 ∧ choice ≠ 2 ∧ choice ≠ 3 ∧
      (listMenu k).act choice s stdin = some (s, stdin)) := by
  by_cases h1 : choice = 1
  · exact Or.inl ⟨h1, by rw [h1]; rfl⟩
  by_cases h2 : choice = 2
  · exact Or.inr (Or.inl ⟨h2, by rw [h2]; rfl⟩)
  by_cases h3 : choice = 3
  · exact Or.inr (Or.inr (Or.inl ⟨h3, by rw [h3]; rfl⟩))
  by_cases h5 : choice = 5
  · exact Or.inr (Or.inr (Or.inr (Or.inl ⟨h5, by rw [h5]; rfl⟩)))
  refine Or.inr (Or.inr (Or.inr (Or.inr ⟨h1, h2, h3, ?_⟩)))
  show (match choice with | 1 => _ | 2 => _ | 3 => _ | 5 => _ | _ => _) = _
  split
  · exact absurd rfl h1
  · exact absurd rfl h2
  · exact absurd rfl h3
  · exact absurd rfl h5
  · rfl

theorem listMenu_idles (k : Environment) :
    (listMenu k).Idles (ListIdle k) where
  act_eq s choice rest hLast hScan hIdle := by
    rcases listMenu_act_cases k choice s rest with
      ⟨rfl, hAct⟩ | ⟨rfl, hAct⟩ | ⟨rfl, hAct⟩ | ⟨rfl, -⟩ | ⟨-, -, -, hAct⟩
    · rcases listIdle_one.mp hIdle with ⟨hNil, hMalloc⟩
      rw [hNil] at hAct ⊢
      rw [append, if_pos (hMalloc _ (Nat.le_refl _))] at hAct
      simp only [scanfWord_nil] at hAct
      exact ⟨_, hAct, listIdle_one.mpr ⟨rfl, fun i hi =>
        hMalloc i (Nat.le_of_succ_le hi)⟩⟩
    · have hRest := deleteNode_snd k s rest
      rw [scanfVar_of_none hScan] at hRest
      refine ⟨(deleteNode k s rest).1, ?_,
        listIdle_of_ne (by decide) (by decide)⟩
      rw [hAct]
      exact congrArg some (Prod.ext rfl hRest)
    · have hNil := listIdle_three.mp hIdle
      rw [hNil] at hAct hIdle ⊢
      exact ⟨s, hAct, hIdle⟩
    · exact absurd rfl hLast
    · exact ⟨s, hAct, hIdle⟩

/-- With enough memory, each turn reads something or is idle. -/
theorem listMenu_reads {k : Environment} (hMalloc : ∀ i, k.malloc i = true) :
    (listMenu k).Reads (ListIdle k) where
  suffix s choice rest next behind h := by
    rcases listMenu_act_cases k choice s rest with
      ⟨-, hAct⟩ | ⟨-, hAct⟩ | ⟨-, hAct⟩ | ⟨-, hAct⟩ | ⟨-, -, -, hAct⟩ <;>
      rw [hAct] at h
    · rw [append_snd h]
      exact (scanfWord_suffix _ _).trans <|
        (scanfWord_suffix _ _).trans <| scanfWord_suffix _ _
    · have hSuffix := scanfVar_suffix k.convert (k.number s.deletions) rest
      rw [← deleteNode_snd, Option.some.inj h] at hSuffix
      exact hSuffix
    · rw [← (Prod.mk.inj (Option.some.inj h)).2]
      exact scanfWord_suffix _ rest
    · contradiction
    · exact (Prod.mk.inj (Option.some.inj h)).2 ▸ List.suffix_refl rest
  lt s choice rest next behind hMore hScan h := by
    have hStart := dropWhile_isSpace_of_none hScan
    rcases listMenu_act_cases k choice s rest with
      ⟨rfl, hAct⟩ | ⟨rfl, -⟩ | ⟨rfl, hAct⟩ | ⟨rfl, hAct⟩ | ⟨h1, -, h3, -⟩
    · have hText : rest ≠ [] := fun hNil =>
        hMore (listIdle_one.mpr ⟨hNil, fun i _ => hMalloc i⟩)
      rw [← hStart] at hText
      rw [hAct] at h
      rw [append_snd h]
      exact Nat.lt_of_le_of_lt
        ((scanfWord_suffix _ _).trans (scanfWord_suffix _ _)).length_le
        (length_scanfWord_lt (some 9) (by decide) hText)
    · exact absurd (listIdle_of_ne (by decide) (by decide)) hMore
    · rw [listIdle_three, ← hStart] at hMore
      rw [← (Prod.mk.inj (Option.some.inj (hAct.symm.trans h))).2]
      exact length_scanfWord_lt (some 9) (by decide) hMore
    · rw [hAct] at h
      contradiction
    · exact absurd (listIdle_of_ne h1 h3) hMore

end Reading

/-! ## Reading a choice -/

section Choices

variable {k : Environment} {choice c : Int} {text rest : List UInt8}

theorem chooses_iff :
    Chooses k choice text c rest ↔
      scanfVar k.convert choice text = (c, rest) := by
  constructor
  · rintro (hNumeral | ⟨hNone, hRest⟩)
    · exact scanfVar_of_some (numeral_iff.mp hNumeral)
    · exact scanfVar_of_none (noNumeral_trims_iff.mp ⟨hNone, hRest⟩)
  · intro h
    cases hScan : scanfInt text with
    | mk found behind =>
        cases found with
        | none =>
            rw [scanfVar_of_none hScan] at h
            obtain ⟨rfl, rfl⟩ := Prod.mk.inj h
            obtain ⟨hNone, hRest⟩ := noNumeral_trims_iff.mpr hScan
            exact .same hNone hRest
        | some v =>
            rw [scanfVar_of_some hScan] at h
            obtain ⟨rfl, rfl⟩ := Prod.mk.inj h
            exact .number (numeral_iff.mpr hScan)

theorem Chooses.of_noNumeral (h : Chooses k choice text c rest)
    (hNone : NoNumeral text) : c = choice ∧ Trims text rest := by
  cases h with
  | number hNumeral => exact absurd hNumeral (hNone _ _)
  | same _ hRest => exact ⟨rfl, hRest⟩

theorem Chooses.of_nil (h : Chooses k choice [] c rest) :
    c = choice ∧ rest = [] := by
  obtain ⟨hSame, hRest⟩ := h.of_noNumeral noNumeral_nil
  exact ⟨hSame, (trims_iff.mp hRest).symm⟩

end Choices

/-! ## The input of the array's menu -/

section ArrayInput

variable {k : Environment} {choice c : Int} {text rest behind : List UInt8}
  {n : Nat} {s next : ArrayBook}

/-- The two characters that are skipped between the words are white space. -/
theorem addAbonent_of_room (hRoom : s.count < maxRecords)
    (text : List UInt8) :
    addAbonent s text =
      ({ s with count := s.count + 1 }, skipWords none 3 text) := by
  rw [addAbonent, if_neg (Nat.not_le.mpr hRoom)]
  simp only [getchar, scanfWord_tail none (head?_scanfWord_none _)]
  rfl

theorem deleteAbonent_of_numeral {v : Int} (h : Numeral v text rest) :
    deleteAbonent k s text =
      (⟨if 1 ≤ k.convert v ∧ k.convert v ≤ s.count then s.count - 1
        else s.count, s.deletions + 1⟩, rest) := by
  have hRead : scanfVar k.convert (k.number s.deletions) text =
    (k.convert v, rest) := scanfVar_of_some (numeral_iff.mp h)
  simp only [deleteAbonent, hRead]
  by_cases hIn : 1 ≤ k.convert v ∧ k.convert v ≤ s.count
  · rw [if_neg (by omega), if_pos hIn]
  · rw [if_pos (by omega), if_neg hIn]

/-- Choice 2 is made for ever where there is no numeral: the number and the
next choice are asked for in the same place. -/
theorem not_arrayInput_two (hNone : NoNumeral text) :
    ¬ArrayInput k n 2 text := by
  intro h
  cases h with
  | five hChoice | add hChoice | find hChoice =>
      exact absurd (hChoice.of_noNumeral hNone).1 (by decide)
  | full hNumeral | other hNumeral => exact hNone _ _ hNumeral
  | delete hChoice hNumber =>
      exact hNone.trims (hChoice.of_noNumeral hNone).2 _ _ hNumber

/-- At the end of the input a choice other than 5 is made for ever, since
`scanf` keeps the old one. -/
theorem not_arrayInput_nil (hChoice : choice ≠ 5) :
    ¬ArrayInput k n choice [] := by
  intro h
  cases h with
  | five hFive => exact hChoice hFive.of_nil.1.symm
  | add hOne _ hWords =>
      rw [hOne.of_nil.2] at hWords
      exact not_words_nil hWords
  | full hNumeral | other hNumeral => exact noNumeral_nil _ _ hNumeral
  | delete hTwo hNumber =>
      rw [hTwo.of_nil.2] at hNumber
      exact noNumeral_nil _ _ hNumber
  | find hThree hWord =>
      rw [hThree.of_nil.2] at hWord
      exact not_word_nil hWord

/-- **A derivation** is followed turn by turn: each of its rules is a turn of
the loop, with the same input behind it. -/
theorem ArrayInput.ends (h : ArrayInput k n choice text)
    (hCount : s.count = n) : (arrayMenu k).Ends s choice text := by
  induction h generalizing s with
  | five hChoice =>
      exact Menu.ends_of_last (congrArg Prod.fst (chooses_iff.mp hChoice))
  | @add _ _ _ rest _ hChoice hRoom hWords _ ih =>
      have hAct := addAbonent_of_room (hCount.symm ▸ hRoom) rest
      rw [hWords.skipWords_eq] at hAct
      exact Menu.ends_of_turn (chooses_iff.mp hChoice) (congrArg some hAct)
        (ih (congrArg (· + 1) hCount))
  | @full n choice v text rest hNumeral hOne hFull _ ih =>
      have hRead : (arrayMenu k).read choice text = (k.convert v, rest) :=
        scanfVar_of_some (numeral_iff.mp hNumeral)
      rw [hOne] at hRead
      have hAct : addAbonent s rest = (s, rest) :=
        if_pos (hCount.symm ▸ hFull)
      exact Menu.ends_of_turn hRead (congrArg some hAct) (ih hCount)
  | delete hChoice hNumber _ ih =>
      exact Menu.ends_of_turn (chooses_iff.mp hChoice)
        (congrArg some (deleteAbonent_of_numeral hNumber))
        (ih (by rw [hCount]))
  | @find n choice text rest behind b hChoice hWord _ ih =>
      rcases word_iff.mp hWord with ⟨word, hScan⟩
      have hAct : findAbonent rest = behind := by
        rw [findAbonent, hScan]
        rfl
      exact Menu.ends_of_turn (chooses_iff.mp hChoice)
        (congrArg (fun t => some (s, t)) hAct) (ih hCount)
  | @other n choice v text rest hNumeral hOne hTwo hThree _ ih =>
      have hRead : (arrayMenu k).read choice text = (k.convert v, rest) :=
        scanfVar_of_some (numeral_iff.mp hNumeral)
      rcases arrayMenu_act_cases k (k.convert v) s rest with
        ⟨h1, -⟩ | ⟨h2, -⟩ | ⟨h3, -⟩ | ⟨-, -, -, hAct⟩
      · exact absurd h1 hOne
      · exact absurd h2 hTwo
      · exact absurd h3 hThree
      · exact Menu.ends_of_turn hRead hAct (ih hCount)

/-- An addition with what follows it: three words, or a full book and a choice
that was a numeral. -/
theorem ArrayInput.of_add (hChoice : Chooses k choice text 1 rest)
    (hMoves : (∃ v, Numeral v text rest ∧ k.convert v = 1) ∨
      ¬ArrayIdle s 1 rest)
    (hNext : ArrayInput k (addAbonent s rest).1.count 1
      (addAbonent s rest).2) : ArrayInput k s.count choice text := by
  by_cases hRoom : s.count < maxRecords
  · rw [addAbonent_of_room hRoom] at hNext
    rcases words_or_nil (Option.some_ne_none 0).symm 3 rest with hWords | hNil
    · exact .add hChoice hRoom hWords hNext
    · rw [hNil] at hNext
      exact absurd hNext (not_arrayInput_nil (by decide))
  · have hFull := Nat.not_lt.mp hRoom
    rw [addAbonent, if_pos hFull] at hNext
    rcases hMoves with ⟨v, hNumeral, hOne⟩ | hMore
    · exact .full hNumeral hOne hFull hNext
    · exact absurd (arrayIdle_one.mpr (Or.inl hFull)) hMore

/-- A deletion with what follows it, which must have found its number. -/
theorem ArrayInput.of_delete (hChoice : Chooses k choice text 2 rest)
    (hNext : ArrayInput k (deleteAbonent k s rest).1.count 2
      (deleteAbonent k s rest).2) : ArrayInput k s.count choice text := by
  by_cases hNumber : NoNumeral rest
  · rw [deleteAbonent_snd] at hNext
    exact absurd hNext (not_arrayInput_two (hNumber.behind_scanfVar _ _))
  · simp only [NoNumeral, not_forall, not_not] at hNumber
    rcases hNumber with ⟨v, tail, hNumber⟩
    rw [deleteAbonent_of_numeral hNumber] at hNext
    exact .delete hChoice hNumber hNext

/-- A search with what follows it.  Since the input goes on behind it, it has
found its word and the character behind the word. -/
theorem ArrayInput.of_find (hChoice : Chooses k choice text 3 rest)
    (hNext : ArrayInput k n 3 (findAbonent rest)) :
    ArrayInput k n choice text := by
  have hEnded : findAbonent rest ≠ [] := by
    intro hNil
    rw [hNil] at hNext
    exact not_arrayInput_nil (by decide) hNext
  have hMore : (scanfWord (some 9) rest).2 ≠ [] := fun hNil =>
    hEnded (congrArg List.tail hNil)
  have hWord : ∃ mid, Word (some 9) rest mid := by
    by_contra hNone
    exact hMore (scanfWord_of_noWord nofun (not_exists.mp hNone))
  rcases hWord with ⟨mid, hWord⟩
  rcases word_iff.mp hWord with ⟨word, hScan⟩
  rw [hScan] at hMore
  rcases List.exists_cons_of_ne_nil hMore with ⟨b, tail, rfl⟩
  have hLeft : findAbonent rest = tail := by
    rw [findAbonent, hScan]
    rfl
  rw [hLeft] at hNext
  exact .find hChoice hWord hNext

/-- A turn that is not the last, with what follows it.  A turn that neither
reads a numeral nor moves on in the input is no rule; it would be repeated. -/
theorem ArrayInput.of_turn (hChoice : Chooses k choice text c rest)
    (hMoves : (∃ v, Numeral v text rest ∧ k.convert v = c) ∨
      ¬ArrayIdle s c rest)
    (hAct : (arrayMenu k).act c s rest = some (next, behind))
    (hNext : ArrayInput k next.count c behind) :
    ArrayInput k s.count choice text := by
  rcases arrayMenu_act_cases k c s rest with
    ⟨rfl, hDoes⟩ | ⟨rfl, hDoes⟩ | ⟨rfl, hDoes⟩ | ⟨h1, h2, h3, hDoes⟩ <;>
    have hSame := Option.some.inj (hDoes.symm.trans hAct)
  · apply ArrayInput.of_add hChoice hMoves
    rw [hSame]
    exact hNext
  · apply ArrayInput.of_delete hChoice
    rw [hSame]
    exact hNext
  · obtain ⟨rfl, rfl⟩ := Prod.mk.inj hSame
    exact .of_find hChoice hNext
  · obtain ⟨rfl, rfl⟩ := Prod.mk.inj hSame
    rcases hMoves with ⟨v, hNumeral, rfl⟩ | hMore
    · exact .other hNumeral h1 h2 h3 hNext
    · exact absurd (arrayIdle_of_ne h1 h3) hMore

/-- **The loop of hw5** ends on the inputs of its grammar, and on no others.
From left to right the induction is on the turns up to the end. -/
theorem arrayMenu_ends_iff :
    (arrayMenu k).Ends s choice text ↔ ArrayInput k s.count choice text := by
  refine ⟨fun h => ?_, fun h => h.ends rfl⟩
  have hLeaves := (Menu.ends_iff (arrayMenu_idles k)).mp h
  clear h
  induction hLeaves with
  | @last s choice text hLast =>
      exact .five (chooses_iff.mpr (Prod.ext hLast rfl))
  | @exit s choice text hExit =>
      rcases arrayMenu_act_cases k ((arrayMenu k).read choice text).1 s
        ((arrayMenu k).read choice text).2 with
        ⟨-, h⟩ | ⟨-, h⟩ | ⟨-, h⟩ | ⟨-, -, -, h⟩ <;>
        exact absurd (h.symm.trans hExit) (Option.some_ne_none _)
  | command hScan hAct _ ih =>
      have hNumeral := numeral_iff.mpr hScan
      exact .of_turn (.number hNumeral) (Or.inl ⟨_, hNumeral, rfl⟩) hAct ih
  | again hScan hMore hAct _ ih =>
      obtain ⟨hNone, hRest⟩ := noNumeral_trims_iff.mpr hScan
      exact .of_turn (.same hNone hRest) (Or.inr hMore) hAct ih

end ArrayInput

/-! ## The input of the list's menu -/

section ListInput

variable {k : Environment} {choice c : Int} {text rest behind : List UInt8}
  {i : Nat} {s next : ListBook}

theorem append_of_malloc (h : k.malloc s.allocations = true)
    (text : List UInt8) :
    append k s text = some (⟨s.nodes + 1, s.allocations + 1, s.deletions⟩,
      skipWords (some 9) 3 text) :=
  if_pos h

theorem append_of_no_malloc (h : k.malloc s.allocations = false)
    (text : List UInt8) : append k s text = none :=
  if_neg (by rw [h]; exact Bool.false_ne_true)

@[simp] theorem deleteNode_allocations (k : Environment) (s : ListBook)
    (text : List UInt8) :
    (deleteNode k s text).1.allocations = s.allocations := by
  simp only [deleteNode]
  split <;> rfl

theorem not_listInput_two (hNone : NoNumeral text) :
    ¬ListInput k i 2 text := by
  intro h
  cases h with
  | five hChoice | noMemory hChoice | add hChoice | runsOut hChoice
  | find hChoice =>
      exact absurd (hChoice.of_noNumeral hNone).1 (by decide)
  | other hNumeral => exact hNone _ _ hNumeral
  | delete hChoice hNumber =>
      exact hNone.trims (hChoice.of_noNumeral hNone).2 _ _ hNumber

theorem not_listInput_three : ¬ListInput k i 3 [] := by
  intro h
  cases h with
  | five hChoice | noMemory hChoice | add hChoice | runsOut hChoice
  | delete hChoice => exact absurd hChoice.of_nil.1 (by decide)
  | other hNumeral => exact noNumeral_nil _ _ hNumeral
  | find hThree hWord =>
      rw [hThree.of_nil.2] at hWord
      exact not_word_nil hWord

/-- At the end of the input additions go on until there is no memory. -/
theorem listInput_one_nil (h : ListInput k i 1 []) :
    ∃ j, i ≤ j ∧ k.malloc j = false := by
  cases h with
  | five hChoice | delete hChoice | find hChoice =>
      exact absurd hChoice.of_nil.1 (by decide)
  | other hNumeral => exact absurd hNumeral (noNumeral_nil _ _)
  | noMemory _ hMalloc => exact ⟨i, Nat.le_refl i, hMalloc⟩
  | add hOne _ hWords =>
      rw [hOne.of_nil.2] at hWords
      exact absurd hWords not_words_nil
  | runsOut _ _ hLater hMalloc => exact ⟨_, hLater, hMalloc⟩

/-- The additions at the end of the input; the induction is on the number of
those for which there is memory. -/
theorem listMenu_ends_nil {d : Nat}
    (hMalloc : k.malloc (s.allocations + d) = false) :
    (listMenu k).Ends s 1 [] := by
  have hRead : (listMenu k).read 1 [] = (1, []) :=
    scanfVar_of_none (noNumeral_trims_iff.mp ⟨noNumeral_nil, trims_iff.mpr rfl⟩)
  induction d generalizing s with
  | zero =>
      apply Menu.ends_of_exit
      rw [hRead]
      exact append_of_no_malloc hMalloc []
  | succ d ih =>
      cases hNow : k.malloc s.allocations with
      | false =>
          apply Menu.ends_of_exit
          rw [hRead]
          exact append_of_no_malloc hNow []
      | true =>
          have hAct := append_of_malloc hNow []
          rw [skipWords_nil] at hAct
          refine Menu.ends_of_turn hRead hAct (ih ?_)
          rw [Nat.add_assoc, Nat.add_comm 1 d]
          exact hMalloc

/-- **A derivation** is followed turn by turn, as for the array. -/
theorem ListInput.ends (h : ListInput k i choice text)
    (hCount : s.allocations = i) : (listMenu k).Ends s choice text := by
  induction h generalizing s with
  | five hChoice =>
      exact Menu.ends_of_last (congrArg Prod.fst (chooses_iff.mp hChoice))
  | @noMemory i choice text rest hChoice hMalloc =>
      have hRead : (listMenu k).read choice text = (1, rest) :=
        chooses_iff.mp hChoice
      apply Menu.ends_of_exit
      rw [hRead]
      exact append_of_no_malloc (hCount.symm ▸ hMalloc) rest
  | @add i choice text rest behind hChoice hMalloc hWords _ ih =>
      have hAct := append_of_malloc (hCount.symm ▸ hMalloc) rest
      rw [hWords.skipWords_eq] at hAct
      exact Menu.ends_of_turn (chooses_iff.mp hChoice) hAct
        (ih (congrArg (· + 1) hCount))
  | @runsOut i j choice text rest hChoice hFew hLater hMalloc =>
      have hRead : (listMenu k).read choice text = (1, rest) :=
        chooses_iff.mp hChoice
      obtain ⟨d, rfl⟩ := Nat.exists_eq_add_of_le hLater
      rw [← hCount] at hMalloc
      cases hNow : k.malloc s.allocations with
      | false =>
          apply Menu.ends_of_exit
          rw [hRead]
          exact append_of_no_malloc hNow rest
      | true =>
          have hEnded : skipWords (some 9) 3 rest = [] :=
            (words_or_nil (by decide) 3 rest).resolve_left (hFew _)
          have hAct := append_of_malloc hNow rest
          rw [hEnded] at hAct
          cases d with
          | zero =>
              rw [Nat.add_zero, hNow] at hMalloc
              contradiction
          | succ d =>
              have hBehind : k.malloc (s.allocations + 1 + d) = false := by
                rw [Nat.add_assoc, Nat.add_comm 1 d]
                exact hMalloc
              exact Menu.ends_of_turn hRead hAct (listMenu_ends_nil hBehind)
  | @delete i choice v text rest behind hChoice hNumber _ ih =>
      have hLeft : (deleteNode k s rest).2 = behind := by
        rw [deleteNode_snd, scanfVar_of_some (numeral_iff.mp hNumber)]
      have hAct : deleteNode k s rest = ((deleteNode k s rest).1, behind) :=
        Prod.ext rfl hLeft
      exact Menu.ends_of_turn (chooses_iff.mp hChoice) (congrArg some hAct)
        (ih ((deleteNode_allocations k s rest).trans hCount))
  | find hChoice hWord _ ih =>
      rcases word_iff.mp hWord with ⟨word, hScan⟩
      exact Menu.ends_of_turn (chooses_iff.mp hChoice)
        (congrArg (fun t => some (s, t)) (congrArg Prod.snd hScan)) (ih hCount)
  | @other i choice v text rest hNumeral hOne hTwo hThree _ ih =>
      have hRead : (listMenu k).read choice text = (k.convert v, rest) :=
        scanfVar_of_some (numeral_iff.mp hNumeral)
      rcases listMenu_act_cases k (k.convert v) s rest with
        ⟨h1, -⟩ | ⟨h2, -⟩ | ⟨h3, -⟩ | ⟨h5, -⟩ | ⟨-, -, -, hAct⟩
      · exact absurd h1 hOne
      · exact absurd h2 hTwo
      · exact absurd h3 hThree
      · exact Menu.ends_of_last ((congrArg Prod.fst hRead).trans h5)
      · exact Menu.ends_of_turn hRead hAct (ih hCount)

/-- An addition with what follows it, if there is memory for it.  Where the
words run out, the additions that follow end for want of memory. -/
theorem ListInput.of_append (hChoice : Chooses k choice text 1 rest)
    (hNext : k.malloc i = true →
      ListInput k (i + 1) 1 (skipWords (some 9) 3 rest)) :
    ListInput k i choice text := by
  cases hMalloc : k.malloc i with
  | false => exact .noMemory hChoice hMalloc
  | true =>
      have hBehind := hNext hMalloc
      by_cases hWords : ∃ behind, Words (some 9) 3 rest behind
      · rcases hWords with ⟨behind, hWords⟩
        rw [hWords.skipWords_eq] at hBehind
        exact .add hChoice hMalloc hWords hBehind
      · have hFew := not_exists.mp hWords
        rw [(words_or_nil (by decide) 3 rest).resolve_left (hFew _)]
          at hBehind
        rcases listInput_one_nil hBehind with ⟨j, hLater, hNoMemory⟩
        exact .runsOut hChoice hFew (Nat.le_of_succ_le hLater) hNoMemory

/-- A deletion with what follows it, as for the array. -/
theorem ListInput.of_delete (hChoice : Chooses k choice text 2 rest)
    (hNext : ListInput k i 2 (deleteNode k s rest).2) :
    ListInput k i choice text := by
  rw [deleteNode_snd] at hNext
  by_cases hNumber : NoNumeral rest
  · exact absurd hNext (not_listInput_two (hNumber.behind_scanfVar _ _))
  · simp only [NoNumeral, not_forall, not_not] at hNumber
    rcases hNumber with ⟨v, tail, hNumber⟩
    rw [scanfVar_of_some (numeral_iff.mp hNumber)] at hNext
    exact .delete hChoice hNumber hNext

/-- A search with what follows it, which must have found its word. -/
theorem ListInput.of_search (hChoice : Chooses k choice text 3 rest)
    (hNext : ListInput k i 3 (searchByName rest)) :
    ListInput k i choice text := by
  by_cases hWord : ∃ mid, Word (some 9) rest mid
  · rcases hWord with ⟨mid, hWord⟩
    rcases word_iff.mp hWord with ⟨word, hScan⟩
    rw [searchByName, hScan] at hNext
    exact .find hChoice hWord hNext
  · rw [searchByName, scanfWord_of_noWord (by decide)
      (not_exists.mp hWord)] at hNext
    exact absurd hNext not_listInput_three

/-- A turn that is not the last, with what follows it. -/
theorem ListInput.of_turn (hChoice : Chooses k choice text c rest)
    (hMoves : (∃ v, Numeral v text rest ∧ k.convert v = c) ∨
      ¬ListIdle k s c rest)
    (hAct : (listMenu k).act c s rest = some (next, behind))
    (hNext : ListInput k next.allocations c behind) :
    ListInput k s.allocations choice text := by
  rcases listMenu_act_cases k c s rest with
    ⟨rfl, hDoes⟩ | ⟨rfl, hDoes⟩ | ⟨rfl, hDoes⟩ | ⟨rfl, hDoes⟩ |
      ⟨h1, h2, h3, hDoes⟩ <;> rw [hDoes] at hAct
  · apply ListInput.of_append hChoice
    intro hMalloc
    rw [append_of_malloc hMalloc] at hAct
    obtain ⟨rfl, rfl⟩ := Prod.mk.inj (Option.some.inj hAct)
    exact hNext
  · have hSame := Option.some.inj hAct
    have hCount : next.allocations = s.allocations := by
      rw [← deleteNode_allocations k s rest, hSame]
    rw [hCount] at hNext
    apply ListInput.of_delete (s := s) hChoice
    rw [hSame]
    exact hNext
  · obtain ⟨rfl, rfl⟩ := Prod.mk.inj (Option.some.inj hAct)
    exact .of_search hChoice hNext
  · contradiction
  · obtain ⟨rfl, rfl⟩ := Prod.mk.inj (Option.some.inj hAct)
    rcases hMoves with ⟨v, hNumeral, rfl⟩ | hMore
    · exact .other hNumeral h1 h2 h3 hNext
    · exact absurd (listIdle_of_ne h1 h3) hMore

/-- **The loop of hw6** ends on the inputs of its grammar, and on no
others. -/
theorem listMenu_ends_iff :
    (listMenu k).Ends s choice text ↔
      ListInput k s.allocations choice text := by
  refine ⟨fun h => ?_, fun h => h.ends rfl⟩
  have hLeaves := (Menu.ends_iff (listMenu_idles k)).mp h
  clear h
  induction hLeaves with
  | @last s choice text hLast =>
      exact .five (chooses_iff.mpr (Prod.ext hLast rfl))
  | @exit s choice text hExit =>
      obtain ⟨c, rest, hRead⟩ :
          ∃ c rest, (listMenu k).read choice text = (c, rest) := ⟨_, _, rfl⟩
      have hChoice : Chooses k choice text c rest := chooses_iff.mpr hRead
      rw [hRead] at hExit
      rcases listMenu_act_cases k c s rest with
        ⟨rfl, h⟩ | ⟨-, h⟩ | ⟨-, h⟩ | ⟨rfl, -⟩ | ⟨-, -, -, h⟩
      · cases hMalloc : k.malloc s.allocations with
        | false => exact .noMemory hChoice hMalloc
        | true =>
            rw [append_of_malloc hMalloc] at h
            exact absurd (h.symm.trans hExit) (Option.some_ne_none _)
      · exact absurd (h.symm.trans hExit) (Option.some_ne_none _)
      · exact absurd (h.symm.trans hExit) (Option.some_ne_none _)
      · exact .five hChoice
      · exact absurd (h.symm.trans hExit) (Option.some_ne_none _)
  | command hScan hAct _ ih =>
      have hNumeral := numeral_iff.mpr hScan
      exact .of_turn (.number hNumeral) (Or.inl ⟨_, hNumeral, rfl⟩) hAct ih
  | again hScan hMore hAct _ ih =>
      obtain ⟨hNone, hRest⟩ := noNumeral_trims_iff.mpr hScan
      exact .of_turn (.same hNone hRest) (Or.inr hMore) hAct ih

end ListInput

/-! ## Which input makes them end -/

/-- **The menus end** exactly on the inputs that have a derivation in both
grammars. -/
theorem menus_end_iff (k : Environment) (stdin : List UInt8) :
    MenusEnd k stdin ↔
      ArrayInput k 0 k.choice stdin ∧ ListInput k 0 k.choice stdin :=
  and_congr arrayMenu_ends_iff listMenu_ends_iff

section Consequences

variable {k : Environment} {stdin : List UInt8}

/-- The array's menu ends within one turn more than there are bytes, or
never. -/
theorem arrayMenu_turns (h : (arrayMenu k).Ends ⟨0, 0⟩ k.choice stdin) :
    ∃ next last,
      (arrayMenu k).loop.body ⟨⟨0, 0⟩, k.choice, stdin, true⟩ = some next ∧
        (arrayMenu k).loop.run stdin.length next = some last :=
  ((Menu.ends_iff (arrayMenu_idles k)).mp h).turns (arrayMenu_reads k)
    (Nat.le_refl _)

theorem listMenu_turns (hMalloc : ∀ i, k.malloc i = true)
    (h : (listMenu k).Ends ⟨0, 0, 0⟩ k.choice stdin) :
    ∃ next last,
      (listMenu k).loop.body ⟨⟨0, 0, 0⟩, k.choice, stdin, true⟩ =
        some next ∧
      (listMenu k).loop.run stdin.length next = some last :=
  ((Menu.ends_iff (listMenu_idles k)).mp h).turns (listMenu_reads hMalloc)
    (Nat.le_refl _)

/-- Where no byte is the digit 5, no number is 5: the decimal digits of 5 are
that digit, with zeros before it. -/
theorem convert_ne_five (hOut : ∀ v, k.outOfRange v ≠ 5)
    (hStdin : (53 : UInt8) ∉ stdin) {text rest : List UInt8} {v : Int}
    (hText : text <:+ stdin) (hScan : scanfInt text = (some v, rest)) :
    k.convert v ≠ 5 := by
  intro h
  rw [Environment.convert] at h
  split at h
  · rcases mem_of_scanfInt hScan with ⟨b, hMem, hDigit⟩
    rw [h] at hDigit
    have hFive : b = 53 := UInt8.toNat_inj.mp hDigit
    exact hStdin (hText.subset (hFive ▸ hMem))
  · exact hOut v h

/-- **Without the digit 5** neither menu ends, unless the variable holds a 5 at
first or memory runs out. -/
theorem not_ends_of_noFive (hChoice : k.choice ≠ 5)
    (hOut : ∀ v, k.outOfRange v ≠ 5) (hMalloc : ∀ i, k.malloc i = true)
    (hStdin : (53 : UInt8) ∉ stdin) :
    ¬(arrayMenu k).Ends ⟨0, 0⟩ k.choice stdin ∧
      ¬(listMenu k).Ends ⟨0, 0, 0⟩ k.choice stdin := by
  constructor
  · apply Menu.not_ends_of_noLast _ _ hChoice
    · intro c d rest _
      rcases arrayMenu_act_cases k c d rest with
        ⟨-, h⟩ | ⟨-, h⟩ | ⟨-, h⟩ | ⟨-, -, -, h⟩ <;>
        exact ⟨_, _, h, (arrayMenu_reads k).suffix _ _ _ _ _ h⟩
    · exact fun text v rest hText hScan =>
        convert_ne_five hOut hStdin hText hScan
  · apply Menu.not_ends_of_noLast _ _ hChoice
    · intro c d rest hLast
      have hAdd : append k d rest = some (_, _) := if_pos (hMalloc _)
      rcases listMenu_act_cases k c d rest with
        ⟨-, h⟩ | ⟨-, h⟩ | ⟨-, h⟩ | ⟨h5, -⟩ | ⟨-, -, -, h⟩
      · rw [hAdd] at h
        exact ⟨_, _, h, (listMenu_reads hMalloc).suffix _ _ _ _ _ h⟩
      · exact ⟨_, _, h, (listMenu_reads hMalloc).suffix _ _ _ _ _ h⟩
      · exact ⟨_, _, h, (listMenu_reads hMalloc).suffix _ _ _ _ _ h⟩
      · exact absurd h5 hLast
      · exact ⟨_, _, h, (listMenu_reads hMalloc).suffix _ _ _ _ _ h⟩
    · exact fun text v rest hText hScan =>
        convert_ne_five hOut hStdin hText hScan

/-- Nothing is out of order. -/
def Environment.usual : Environment where
  choice := 0
  number _ := 0
  outOfRange _ := 0
  malloc _ := true

/-- `1`, the three words of a subscriber, and `5`. -/
example : ArrayInput .usual 0 0 [49, 10, 97, 32, 98, 32, 99, 10, 53, 10] :=
  have hWords : Words none 3 [10, 97, 32, 98, 32, 99, 10, 53, 10]
      [10, 53, 10] :=
    ⟨_, word_iff.mpr ⟨_, rfl⟩, _, word_iff.mpr ⟨_, rfl⟩, _,
      word_iff.mpr ⟨_, rfl⟩, rfl⟩
  .add (chooses_iff.mpr rfl) (by decide) hWords (.five (chooses_iff.mpr rfl))

/-- The choice 4, and the end of the input. -/
theorem four_goes_on :
    ¬(arrayMenu .usual).Ends ⟨0, 0⟩ 0 [52, 10] ∧
      ¬(listMenu .usual).Ends ⟨0, 0, 0⟩ 0 [52, 10] :=
  not_ends_of_noFive (k := .usual) (by decide)
    (fun _ => show (0 : Int) ≠ 5 by decide) (fun _ => rfl) (by decide)

end Consequences

end UnixHomework.Ports.PhoneMenus
