import Mathlib.Data.List.Basic
import Mathlib.Tactic.Common

/-!
# Finding a substring

`find_substr` tries every position of the string up to its terminator.  The
counters are of type `int`, so an index that exceeds `INT_MAX` is undefined,
and so is a read behind a terminator.

What it returns is the first occurrence, except that the loop over the string
is not entered for an empty one: the empty string is not found in the empty
string (`find_substr_first_iff`).  No read is ever behind a terminator, and an
index can be too large in strings of more than 2147483647 bytes only.
-/

namespace UnixHomework.Ports.FindSubstr

/-- A string, without its terminator. -/
structure Text where
  bytes : List UInt8
  noNul : 0 ∉ bytes

/-- `INT_MAX`. -/
def intMax : Nat := 2147483647

/-- The sum of two `int` values that are not negative. -/
def addInt (a b : Nat) : Option Nat :=
  if a + b ≤ intMax then some (a + b) else none

/-- `s[i]`, which is the terminator behind the last byte. -/
def Text.read (s : Text) (i : Nat) : Option UInt8 :=
  (s.bytes ++ [0])[i]?

/-- The loop over `j`; the list is what is left of `sub` with its terminator,
from `sub[j]` on.  The result says whether it is left by `return`. -/
def innerLoop (str : Text) (i : Nat) : List UInt8 → Nat → Option Bool
  | [], _ => none
  | c :: rest, j =>
      if c = 0 then some true
      else do
        let index ← addInt i j
        let d ← str.read index
        if d ≠ c then some false
        else do
          let next ← addInt j 1
          innerLoop str i rest next

/-- The loop over `i`; the list is what is left of `str` with its
terminator. -/
def outerLoop (str sub : Text) : List UInt8 → Nat → Option (Option Nat)
  | [], _ => none
  | c :: rest, i =>
      if c = 0 then some none
      else do
        let found ← innerLoop str i (sub.bytes ++ [0]) 0
        if found then some (some i)
        else do
          let next ← addInt i 1
          outerLoop str sub rest next

/-- `find_substr`: the position of the pointer that is returned, if it is not
`NULL`. -/
def findSubstr (str sub : Text) : Option (Option Nat) :=
  outerLoop str sub (str.bytes ++ [0]) 0

/-! ## What is asked for -/

/-- `sub` is in `str` at this position. -/
def Occurs (str sub : Text) (k : Nat) : Prop :=
  k ≤ str.bytes.length ∧ sub.bytes <+: str.bytes.drop k

/-- The first occurrence, or none. -/
def IsFirst (str sub : Text) : Option Nat → Prop
  | some k => Occurs str sub k ∧ ∀ k' < k, ¬Occurs str sub k'
  | none => ∀ k, ¬Occurs str sub k

/-- `find_substr` returns the first occurrence, without a read behind a
terminator. -/
def FindsFirst (str sub : Text) : Prop :=
  ∃ result, findSubstr str sub = some result ∧ IsFirst str sub result

/-- The first `j` bytes of `sub` are in `str` from position `i` on. -/
def Agrees (str sub : Text) (i j : Nat) : Prop :=
  ∀ m < j, str.bytes[i + m]? = sub.bytes[m]?

/-- The counters stay in their type: at every position up to the first
occurrence, or up to the end if there is none, and for every byte that is
compared there. -/
def InInt (str sub : Text) : Prop :=
  ∀ i ≤ str.bytes.length, (∀ k < i, ¬Occurs str sub k) →
    i ≤ intMax ∧ (i < str.bytes.length →
      ∀ j ≤ sub.bytes.length, Agrees str sub i j →
        j ≤ intMax ∧ (j < sub.bytes.length → i + j ≤ intMax))

/-! ## Reading and comparing -/

section Loops

variable {str sub : Text} {i j : Nat}

theorem addInt_of_le {a b : Nat} (h : a + b ≤ intMax) :
    addInt a b = some (a + b) :=
  if_pos h

theorem addInt_of_lt {a b : Nat} (h : intMax < a + b) : addInt a b = none :=
  if_neg (Nat.not_le.mpr h)

/-- **A read** up to the terminator tells whether a byte is there. -/
theorem Text.read_eq (s : Text) {k : Nat} (h : k ≤ s.bytes.length) :
    ∃ d, s.read k = some d ∧ ∀ c, c ≠ 0 → (d = c ↔ s.bytes[k]? = some c) := by
  rw [Text.read]
  by_cases hInside : k < s.bytes.length
  · refine ⟨s.bytes[k], ?_, fun c _ => ?_⟩
    · rw [List.getElem?_append_left hInside, List.getElem?_eq_getElem hInside]
    · rw [List.getElem?_eq_getElem hInside, Option.some.injEq]
  · obtain rfl : k = s.bytes.length := by omega
    refine ⟨0, List.getElem?_concat_length, fun c hc => ?_⟩
    rw [List.getElem?_eq_none (Nat.le_refl _)]
    exact iff_of_false hc.symm nofun

/-- The next byte of a string that is not at its end. -/
theorem Text.next_of_drop (s : Text) {k : Nat} {c : UInt8} {rest : List UInt8}
    (h : s.bytes.drop k = c :: rest) :
    k < s.bytes.length ∧ s.bytes[k]? = some c ∧ c ≠ 0 ∧
      s.bytes.drop (k + 1) = rest := by
  have hByte : s.bytes[k]? = some c := by
    rw [← List.head?_drop, h]
    rfl
  refine ⟨(List.getElem?_eq_some_iff.mp hByte).1, hByte, ?_, ?_⟩
  · rintro rfl
    exact s.noNul (List.mem_of_getElem? hByte)
  · rw [← List.drop_drop, h]
    rfl

theorem Agrees.mono (h : Agrees str sub i j) {j' : Nat} (hj : j' ≤ j) :
    Agrees str sub i j' :=
  fun m hm => h m (Nat.lt_of_lt_of_le hm hj)

theorem agrees_succ_iff :
    Agrees str sub i (j + 1) ↔
      Agrees str sub i j ∧ str.bytes[i + j]? = sub.bytes[j]? := by
  constructor
  · intro h
    exact ⟨h.mono (Nat.le_succ j), h j (Nat.lt_succ_self j)⟩
  · rintro ⟨h, hLast⟩ m hm
    rcases Nat.lt_succ_iff_lt_or_eq.mp hm with hLess | rfl
    · exact h m hLess
    · exact hLast

/-- What has been compared is in the string. -/
theorem Agrees.le_length (h : Agrees str sub i j)
    (hi : i ≤ str.bytes.length) (hj : j ≤ sub.bytes.length) :
    i + j ≤ str.bytes.length := by
  cases j with
  | zero => exact hi
  | succ m =>
      have hSome := h m (Nat.lt_succ_self m)
      rw [List.getElem?_eq_getElem hj] at hSome
      have hLess := (List.getElem?_eq_some_iff.mp hSome).1
      omega

theorem occurs_iff (hi : i ≤ str.bytes.length) :
    Occurs str sub i ↔ Agrees str sub i sub.bytes.length := by
  rw [Occurs, and_iff_right hi, List.prefix_iff_getElem?]
  constructor
  · intro h m hm
    have hGet := h m hm
    rw [List.getElem?_drop] at hGet
    rw [hGet, List.getElem?_eq_getElem hm]
  · intro h m hm
    rw [List.getElem?_drop, h m hm, List.getElem?_eq_getElem hm]

/-- The counters stay in their type from `sub[j]` on. -/
def ComparesInInt (str sub : Text) (i j : Nat) : Prop :=
  ∀ m, j ≤ m → m ≤ sub.bytes.length → Agrees str sub i m →
    m ≤ intMax ∧ (m < sub.bytes.length → i + m ≤ intMax)

/-- One byte more, when it is the same in both strings. -/
theorem comparesInInt_succ_iff (hMax : i + j ≤ intMax) :
    ComparesInInt str sub i j ↔ ComparesInInt str sub i (j + 1) := by
  constructor
  · intro h m hm
    exact h m (Nat.le_of_succ_le hm)
  · intro h m hm hEnd hAgrees
    rcases Nat.eq_or_lt_of_le hm with rfl | hLess
    · exact ⟨by omega, fun _ => hMax⟩
    · exact h m hLess hEnd hAgrees

/-- **The loop over `j`** says whether the rest of `sub` follows, if its
counters stay in their type. -/
theorem innerLoop_spec (rest : List UInt8) (hRest : sub.bytes.drop j = rest)
    (hi : i ≤ str.bytes.length) (hj : j ≤ sub.bytes.length)
    (hMax : j ≤ intMax) (hAgrees : Agrees str sub i j) :
    (ComparesInInt str sub i j →
      ∃ found, innerLoop str i (rest ++ [0]) j = some found ∧
        (found = true ↔ Occurs str sub i)) ∧
    (¬ComparesInInt str sub i j →
      innerLoop str i (rest ++ [0]) j = none) := by
  induction rest generalizing j with
  | nil =>
      have hEnd : j = sub.bytes.length :=
        Nat.le_antisymm hj (List.drop_eq_nil_iff.mp hRest)
      constructor
      · intro _
        exact ⟨true, rfl, iff_of_true rfl
          ((occurs_iff hi).mpr (hEnd ▸ hAgrees))⟩
      · intro hNot
        refine absurd (fun m hm hm' _ => ?_) hNot
        have hSame : m = j := by omega
        exact ⟨hSame ▸ hMax, fun hLess => by omega⟩
  | cons c rest ih =>
      rcases sub.next_of_drop hRest with ⟨hLess, hByte, hc, hDrop⟩
      rw [List.cons_append, innerLoop, if_neg hc]
      by_cases hIndex : i + j ≤ intMax
      · rcases str.read_eq (hAgrees.le_length hi hj) with ⟨d, hRead, hd⟩
        simp only [addInt_of_le hIndex, hRead, Option.bind_eq_bind,
          Option.bind_some]
        by_cases hSame : d = c
        · have hNext : Agrees str sub i (j + 1) :=
            agrees_succ_iff.mpr ⟨hAgrees, by rw [(hd c hc).mp hSame, hByte]⟩
          rw [if_neg (not_not_intro hSame), comparesInInt_succ_iff hIndex]
          by_cases hStep : j + 1 ≤ intMax
          · rw [addInt_of_le hStep, Option.bind_some]
            exact ih hDrop hLess hStep hNext
          · rw [addInt_of_lt (Nat.lt_of_not_le hStep), Option.bind_none]
            constructor
            · intro hInt
              exact absurd (hInt _ (Nat.le_refl _) hLess hNext).1 hStep
            · exact fun _ => rfl
        · have hOther : ∀ m, j < m → ¬Agrees str sub i m := by
            intro m hm hMore
            have hHere := hMore j hm
            rw [hByte] at hHere
            exact hSame ((hd c hc).mpr hHere)
          rw [if_pos hSame]
          constructor
          · intro _
            refine ⟨false, rfl, iff_of_false Bool.false_ne_true ?_⟩
            rw [occurs_iff hi]
            exact hOther _ hLess
          · intro hNot
            refine absurd (fun m hm hm' hMore => ?_) hNot
            rcases Nat.eq_or_lt_of_le hm with rfl | hm
            · exact ⟨hMax, fun _ => hIndex⟩
            · exact absurd hMore (hOther m hm)
      · rw [addInt_of_lt (Nat.lt_of_not_le hIndex)]
        constructor
        · intro hInt
          exact absurd ((hInt j (Nat.le_refl j) hj hAgrees).2 hLess) hIndex
        · exact fun _ => rfl

/-- The counters stay in their type from `str[i]` on. -/
def SearchesInInt (str sub : Text) (i : Nat) : Prop :=
  ∀ k, i ≤ k → k ≤ str.bytes.length → (∀ k' < k, ¬Occurs str sub k') →
    k ≤ intMax ∧ (k < str.bytes.length → ComparesInInt str sub k 0)

/-- One position more, when `sub` is not there. -/
theorem searchesInInt_succ_iff (hMax : i ≤ intMax)
    (hInt : ComparesInInt str sub i 0) :
    SearchesInInt str sub i ↔ SearchesInInt str sub (i + 1) := by
  constructor
  · intro h k hk
    exact h k (Nat.le_of_succ_le hk)
  · intro h k hk hEnd hBefore
    rcases Nat.eq_or_lt_of_le hk with rfl | hLess
    · exact ⟨hMax, fun _ => hInt⟩
    · exact h k hLess hEnd hBefore

/-- What the loop over `i` finds: a position inside the string. -/
def FirstInside (str sub : Text) : Option Nat → Prop
  | some k => Occurs str sub k ∧ ∀ k' < k, ¬Occurs str sub k'
  | none => ∀ k < str.bytes.length, ¬Occurs str sub k

/-- **The loop over `i`** finds the first position inside the string, if its
counters stay in their type. -/
theorem outerLoop_spec (rest : List UInt8) (hRest : str.bytes.drop i = rest)
    (hi : i ≤ str.bytes.length) (hMax : i ≤ intMax)
    (hBefore : ∀ k < i, ¬Occurs str sub k) :
    (SearchesInInt str sub i →
      ∃ result, outerLoop str sub (rest ++ [0]) i = some result ∧
        FirstInside str sub result) ∧
    (¬SearchesInInt str sub i →
      outerLoop str sub (rest ++ [0]) i = none) := by
  induction rest generalizing i with
  | nil =>
      have hEnd : str.bytes.length ≤ i := List.drop_eq_nil_iff.mp hRest
      constructor
      · intro _
        exact ⟨none, rfl, fun k hk => hBefore k (Nat.lt_of_lt_of_le hk hEnd)⟩
      · intro hNot
        refine absurd (fun k hk hk' _ => ?_) hNot
        have hSame : k = i := by omega
        exact ⟨hSame ▸ hMax, fun hLess => by omega⟩
  | cons c rest ih =>
      rcases str.next_of_drop hRest with ⟨hLess, -, hc, hDrop⟩
      rcases innerLoop_spec sub.bytes rfl hi (Nat.zero_le _) (Nat.zero_le _)
        (fun m hm => absurd hm (Nat.not_lt_zero m)) with ⟨hInner, hInnerNone⟩
      rw [List.cons_append, outerLoop, if_neg hc]
      by_cases hInt : ComparesInInt str sub i 0
      · rcases hInner hInt with ⟨found, hFound, hOccurs⟩
        simp only [hFound, Option.bind_eq_bind, Option.bind_some]
        by_cases hHere : found = true
        · rw [if_pos hHere]
          constructor
          · intro _
            exact ⟨some i, rfl, hOccurs.mp hHere, hBefore⟩
          · intro hNot
            refine absurd (fun k hk hk' hFirst => ?_) hNot
            rcases Nat.eq_or_lt_of_le hk with rfl | hk
            · exact ⟨hMax, fun _ => hInt⟩
            · exact absurd (hOccurs.mp hHere) (hFirst i hk)
        · have hNext : ∀ k < i + 1, ¬Occurs str sub k := by
            intro k hk
            rcases Nat.lt_succ_iff_lt_or_eq.mp hk with hk | rfl
            · exact hBefore k hk
            · exact mt hOccurs.mpr hHere
          rw [if_neg hHere, searchesInInt_succ_iff hMax hInt]
          by_cases hStep : i + 1 ≤ intMax
          · rw [addInt_of_le hStep, Option.bind_some]
            exact ih hDrop hLess hStep hNext
          · rw [addInt_of_lt (Nat.lt_of_not_le hStep), Option.bind_none]
            constructor
            · intro hSearch
              exact absurd (hSearch _ (Nat.le_refl _) hLess hNext).1 hStep
            · exact fun _ => rfl
      · rw [hInnerNone hInt]
        constructor
        · intro hSearch
          exact absurd ((hSearch i (Nat.le_refl i) hi hBefore).2 hLess) hInt
        · exact fun _ => rfl

theorem searchesInInt_zero_iff :
    SearchesInInt str sub 0 ↔ InInt str sub := by
  constructor
  · intro h i hi hBefore
    rcases h i (Nat.zero_le i) hi hBefore with ⟨hMax, hCompares⟩
    exact ⟨hMax, fun hLess j hj hAgrees =>
      hCompares hLess j (Nat.zero_le j) hj hAgrees⟩
  · intro h i _ hi hBefore
    rcases h i hi hBefore with ⟨hMax, hCompares⟩
    exact ⟨hMax, fun hLess j _ hj hAgrees => hCompares hLess j hj hAgrees⟩

/-- At its end the string has the empty string only, which is then found at
its start. -/
theorem FirstInside.isFirst {result : Option Nat}
    (hSome : str.bytes ≠ [] ∨ sub.bytes ≠ [])
    (h : FirstInside str sub result) : IsFirst str sub result := by
  cases result with
  | some k => exact h
  | none =>
      intro k hOccurs
      rcases Nat.eq_or_lt_of_le hOccurs.1 with rfl | hLess
      · have hSub : sub.bytes = [] := by
          rw [← List.prefix_nil, ← List.drop_length (l := str.bytes)]
          exact hOccurs.2
        have hStr : str.bytes ≠ [] := hSome.resolve_right (not_not_intro hSub)
        exact h 0 (List.length_pos_iff.mpr hStr)
          ⟨Nat.zero_le _, hSub ▸ List.nil_prefix⟩
      · exact h k hLess hOccurs

end Loops

/-! ## The function -/

/-- **`find_substr`** returns the first occurrence, or `NULL` if there is
none, and stays inside its strings, exactly if not both strings are empty and
its counters stay in their type. -/
theorem find_substr_first_iff (str sub : Text) :
    FindsFirst str sub ↔
      (str.bytes ≠ [] ∨ sub.bytes ≠ []) ∧ InInt str sub := by
  have hBefore : ∀ k < 0, ¬Occurs str sub k :=
    fun k hk => absurd hk (Nat.not_lt_zero k)
  rcases outerLoop_spec str.bytes rfl (Nat.zero_le _) (Nat.zero_le _) hBefore
    with ⟨hFound, hNone⟩
  rw [← searchesInInt_zero_iff]
  constructor
  · rintro ⟨result, hResult, hFirst⟩
    constructor
    · by_contra hEmpty
      rw [not_or, not_not, not_not] at hEmpty
      rw [findSubstr, hEmpty.1] at hResult
      obtain rfl : none = result := Option.some.inj hResult
      exact hFirst 0 ⟨Nat.zero_le _, hEmpty.2 ▸ List.nil_prefix⟩
    · by_contra hNot
      exact absurd (hResult.symm.trans (hNone hNot)) nofun
  · rintro ⟨hSome, hInt⟩
    rcases hFound hInt with ⟨result, hResult, hFirst⟩
    exact ⟨result, hResult, hFirst.isFirst hSome⟩

/-- Strings shorter than 2147483648 bytes keep the counters in their type. -/
theorem inInt_of_length_le {str : Text} (sub : Text)
    (h : str.bytes.length ≤ intMax) : InInt str sub := by
  intro i hi _
  refine ⟨Nat.le_trans hi h, fun _ j hj hAgrees => ?_⟩
  have hEnd := hAgrees.le_length hi hj
  exact ⟨by omega, fun _ => by omega⟩

/-- The empty string. -/
def emptyText : Text := ⟨[], List.not_mem_nil⟩

/-- It is not found in itself. -/
theorem empty_not_found :
    findSubstr emptyText emptyText = some none ∧
      Occurs emptyText emptyText 0 ∧ ¬∀ str sub, FindsFirst str sub := by
  refine ⟨rfl, ⟨Nat.le_refl 0, List.prefix_refl _⟩, fun hAll => ?_⟩
  rcases hAll emptyText emptyText with ⟨result, hResult, hFirst⟩
  obtain rfl : none = result := Option.some.inj hResult
  exact hFirst 0 ⟨Nat.le_refl 0, List.prefix_refl _⟩

end UnixHomework.Ports.FindSubstr
