import UnixHomework.Verified.Stdin

/-!
# What a conversion takes off the input

`Stdin` computes what a conversion of `scanf` reads.  Here the same is said by
the shape of the input: an input is white space, a numeral and a rest, or white
space, a word and a rest, where numeral and word are as long as they can be.
A condition on the input of a program can be stated with these relations
without running any of its conversions, and `numeral_iff` and `word_iff` say
that they are what the conversions read.

All relations are between an input and what is left of it.  This module names
no program.
-/

namespace UnixHomework.Verified

/-- White space, and a rest that does not start with any. -/
def Trims (text rest : List UInt8) : Prop :=
  ∃ white, text = white ++ rest ∧ (∀ b ∈ white, isSpace b = true) ∧
    ∀ b ∈ rest.head?, isSpace b = false

/-- White space, an optional sign, all digits that follow, and the rest. -/
def Numeral (v : Int) (text rest : List UInt8) : Prop :=
  ∃ sign digits, Trims text (sign ++ digits ++ rest) ∧
    (sign = [] ∨ sign = [45] ∨ sign = [43]) ∧
    digits ≠ [] ∧ (∀ b ∈ digits, isDigit b = true) ∧
    (∀ b ∈ rest.head?, isDigit b = false) ∧
    v = if sign = [45] then -(digitsValue digits : Int) else digitsValue digits

/-- There is no numeral at the front of the input. -/
def NoNumeral (text : List UInt8) : Prop :=
  ∀ v rest, ¬Numeral v text rest

/-- White space, this word, and the rest.  The word has all the characters up
to the next white space, or the first ones if `width` bounds their number. -/
structure IsWord (width : Option Nat) (word text rest : List UInt8) :
    Prop where
  /-- The word comes behind white space, if there is any, -/
  trims : Trims text (word ++ rest)
  /-- and is not empty. -/
  nonempty : word ≠ []
  /-- There is no white space in it, -/
  plain : ∀ b ∈ word, isSpace b = false
  /-- it is no longer than its bound, -/
  bounded : ∀ k ∈ width, word.length ≤ k
  /-- and it is as long as it can be. -/
  stops : width = some word.length ∨ ∀ b ∈ rest.head?, isSpace b = true

/-- White space, some word, and the rest. -/
def Word (width : Option Nat) (text rest : List UInt8) : Prop :=
  ∃ word, IsWord width word text rest

/-- So many words, one behind the other. -/
def Words (width : Option Nat) : Nat → List UInt8 → List UInt8 → Prop
  | 0, text, rest => rest = text
  | n + 1, text, rest => ∃ mid, Word width text mid ∧ Words width n mid rest

section

variable {text rest : List UInt8}

/-! ## Runs of characters -/

/-- A run that cannot be longer is the longest one, and what follows is what is
left. -/
theorem takeWhile_append_of_head {p : UInt8 → Bool} {run rest : List UInt8}
    (hRun : ∀ b ∈ run, p b = true) (hRest : ∀ b ∈ rest.head?, p b = false) :
    (run ++ rest).takeWhile p = run ∧ (run ++ rest).dropWhile p = rest := by
  rw [List.takeWhile_append_of_pos hRun, List.dropWhile_append_of_pos hRun]
  cases rest with
  | nil => exact ⟨List.append_nil run, rfl⟩
  | cons b rest =>
      have hFirst := hRest b rfl
      rw [List.takeWhile_cons_of_neg (by rw [hFirst]; exact Bool.false_ne_true),
        List.dropWhile_cons_of_neg (by rw [hFirst]; exact Bool.false_ne_true)]
      exact ⟨List.append_nil run, rfl⟩

theorem trims_iff : Trims text rest ↔ text.dropWhile isSpace = rest := by
  constructor
  · rintro ⟨white, rfl, hWhite, hRest⟩
    exact (takeWhile_append_of_head hWhite hRest).2
  · rintro rfl
    exact ⟨_, List.takeWhile_append_dropWhile.symm,
      fun b hb => List.mem_takeWhile_imp hb, head?_dropWhile isSpace text⟩

/-! ## Numerals -/

/-- A digit is no sign. -/
theorem head?_ne_sign {digits : List UInt8} (hNil : digits ≠ [])
    (hDigits : ∀ b ∈ digits, isDigit b = true) (rest : List UInt8) :
    ∀ b ∈ (digits ++ rest).head?, b ≠ 45 ∧ b ≠ 43 := by
  rcases List.exists_cons_of_ne_nil hNil with ⟨d, digits, rfl⟩
  intro b hb
  obtain rfl : d = b := Option.some.inj hb
  have hDigit := hDigits d List.mem_cons_self
  constructor
  · rintro rfl
    exact absurd hDigit (by decide)
  · rintro rfl
    exact absurd hDigit (by decide)

/-- **A numeral** is what `%d` reads, with the rest that it leaves. -/
theorem numeral_iff {v : Int} :
    Numeral v text rest ↔ scanfInt text = (some v, rest) := by
  constructor
  · rintro ⟨sign, digits, hTrims, hSign, hNil, hDigits, hRest, hValue⟩
    have hTaken := takeSign_append hSign (head?_ne_sign hNil hDigits rest)
    rw [← List.append_assoc] at hTaken
    obtain ⟨hRun, hBehind⟩ := takeWhile_append_of_head hDigits hRest
    have hScan : scanNat (digits ++ rest) = some (digitsValue digits) := by
      rw [scanNat, hRun, if_neg hNil]
    rw [scanfInt, trims_iff.mp hTrims, hTaken, hScan, hBehind, hValue]
    simp only [decide_eq_true_eq]
  · intro h
    rcases takeSign_cases (text.dropWhile isSpace) with ⟨sign, hSign, hSplit⟩
    rw [scanfInt] at h
    cases hScan : scanNat (takeSign (text.dropWhile isSpace)).2 with
    | none =>
        rw [hScan] at h
        exact absurd (Prod.mk.inj h).1.symm (Option.some_ne_none v)
    | some n =>
        rw [hScan] at h
        obtain ⟨hValue, rfl⟩ := Prod.mk.inj h
        rcases Option.ite_none_left_eq_some.mp hScan with ⟨hNil, hDigits⟩
        have hRun : ∀ b ∈ (takeSign (text.dropWhile isSpace)).2.takeWhile
            isDigit, isDigit b = true := fun b hb => List.mem_takeWhile_imp hb
        have hText : text.dropWhile isSpace =
            sign ++ (takeSign (text.dropWhile isSpace)).2.takeWhile isDigit ++
              (takeSign (text.dropWhile isSpace)).2.dropWhile isDigit := by
          rw [List.append_assoc, List.takeWhile_append_dropWhile]
          exact hSplit
        refine ⟨sign, _, trims_iff.mpr hText, hSign, hNil, hRun,
          head?_dropWhile isDigit _, ?_⟩
        have hTaken := takeSign_append hSign
          (head?_ne_sign hNil hRun
            ((takeSign (text.dropWhile isSpace)).2.dropWhile isDigit))
        rw [← List.append_assoc, ← hText] at hTaken
        have hSigned : (takeSign (text.dropWhile isSpace)).1 =
            decide (sign = [45]) := congrArg Prod.fst hTaken
        rw [← Option.some.inj hValue, ← Option.some.inj hDigits, hSigned]
        simp only [decide_eq_true_eq]

theorem noNumeral_iff : NoNumeral text ↔ (scanfInt text).1 = none := by
  rw [Option.eq_none_iff_forall_ne_some]
  constructor
  · intro h v hv
    exact h v (scanfInt text).2 (numeral_iff.mpr (Prod.ext hv rfl))
  · intro h v rest hNumeral
    exact h v (congrArg Prod.fst (numeral_iff.mp hNumeral))

/-- Without a numeral `%d` reads the white space only, so what it leaves is the
input behind it. -/
theorem noNumeral_trims_iff :
    NoNumeral text ∧ Trims text rest ↔ scanfInt text = (none, rest) := by
  rw [noNumeral_iff, trims_iff]
  constructor
  · rintro ⟨hNone, hRest⟩
    have hScan : scanfInt text = (none, (scanfInt text).2) := Prod.ext hNone rfl
    rw [hScan, (scanfInt_eq_none hScan).1, hRest]
  · intro h
    exact ⟨congrArg Prod.fst h, (scanfInt_eq_none h).1.symm⟩

/-- Where there is no numeral, there is none behind the white space either. -/
theorem NoNumeral.trims (hNone : NoNumeral text) (hRest : Trims text rest) :
    NoNumeral rest := by
  have hScan := noNumeral_trims_iff.mp ⟨hNone, hRest⟩
  exact (noNumeral_trims_iff.mpr (scanfInt_again hScan)).1

/-- Nor is there one in what `scanf` leaves when it has failed. -/
theorem NoNumeral.behind_scanfVar (hNone : NoNumeral text)
    (convert : Int → Int) (x : Int) :
    NoNumeral (scanfVar convert x text).2 := by
  have hScan : scanfInt text = (none, (scanfInt text).2) :=
    Prod.ext (noNumeral_iff.mp hNone) rfl
  rw [scanfVar_of_none hScan, noNumeral_iff, scanfInt_again hScan]

/-- Something is left out of what follows a numeral. -/
theorem Numeral.length_lt {v : Int} (h : Numeral v text rest) :
    rest.length < text.length :=
  length_scanfInt_lt (numeral_iff.mp h)

theorem noNumeral_nil : NoNumeral [] :=
  fun _ _ h => Nat.not_lt_zero _ h.length_lt

/-! ## Words -/

theorem nextWord_eq_of {width : Option Nat} {word : List UInt8}
    (hWord : ∀ b ∈ word, isSpace b = false)
    (hWidth : ∀ k ∈ width, word.length ≤ k)
    (hEnd : width = some word.length ∨ ∀ b ∈ rest.head?, isSpace b = true) :
    nextWord width (word ++ rest) = word := by
  have hAll : ∀ b ∈ word, (!isSpace b) = true := fun b hb => by
    rw [hWord b hb]
    rfl
  rcases hEnd with rfl | hEnd
  · rw [nextWord, List.takeWhile_append_of_pos hAll, List.take_left']
    rfl
  · have hRun := (takeWhile_append_of_head (p := fun b => !isSpace b) hAll
      fun b hb => by rw [hEnd b hb]; rfl).1
    cases width with
    | none => exact hRun
    | some k =>
        rw [nextWord, hRun]
        exact List.take_of_length_le (hWidth k rfl)

/-- The next word has no white space in it, is no longer than `width`, and ends
there or before white space. -/
theorem nextWord_spec (width : Option Nat) (text : List UInt8) :
    (∀ b ∈ nextWord width text, isSpace b = false) ∧
      (∀ k ∈ width, (nextWord width text).length ≤ k) ∧
      text = nextWord width text ++ text.drop (nextWord width text).length ∧
      (width = some (nextWord width text).length ∨
        ∀ b ∈ (text.drop (nextWord width text).length).head?,
          isSpace b = true) := by
  have hRun : ∀ b ∈ text.takeWhile fun b => !isSpace b, isSpace b = false :=
    fun b hb => by simpa using List.mem_takeWhile_imp hb
  have hSplit := List.takeWhile_append_dropWhile (p := fun b => !isSpace b)
    (l := text)
  have hWhole : text.drop (text.takeWhile fun b => !isSpace b).length =
      text.dropWhile fun b => !isSpace b := by
    have hDrop := congrArg
      (List.drop (text.takeWhile fun b => !isSpace b).length) hSplit
    rw [List.drop_left' rfl] at hDrop
    exact hDrop.symm
  have hBehind : ∀ b ∈ (text.dropWhile fun b => !isSpace b).head?,
      isSpace b = true := fun b hb => by
    simpa using head?_dropWhile (fun b => !isSpace b) text b hb
  cases width with
  | none =>
      refine ⟨hRun, nofun, ?_, Or.inr ?_⟩
      · rw [nextWord, hWhole, hSplit]
      · rw [nextWord, hWhole]
        exact hBehind
  | some k =>
      refine ⟨fun b hb => hRun b (List.mem_of_mem_take hb), ?_, ?_, ?_⟩
      · intro j hj
        obtain rfl : k = j := Option.some.inj hj
        exact List.length_take_le _ _
      · have hPrefix : nextWord (some k) text <+: text :=
          (List.take_prefix _ _).trans (List.takeWhile_prefix _)
        conv_lhs => rw [← List.take_append_drop
          (nextWord (some k) text).length text]
        rw [← List.prefix_iff_eq_take.mp hPrefix]
      · by_cases hLong : k ≤ (text.takeWhile fun b => !isSpace b).length
        · left
          rw [nextWord, List.length_take, Nat.min_eq_left hLong]
        · right
          rw [nextWord, List.take_of_length_le (by omega), hWhole]
          exact hBehind

/-- **This word** is the one that `%s` reads. -/
theorem isWord_iff {width : Option Nat} {word : List UInt8} :
    IsWord width word text rest ↔
      scanfWord width text = (some word, rest) := by
  constructor
  · intro h
    rw [scanfWord, trims_iff.mp h.trims,
      nextWord_eq_of h.plain h.bounded h.stops]
    simp only [if_neg h.nonempty]
    rw [List.drop_left']
    rfl
  · intro h
    obtain ⟨hWord, hWidth, hSplit, hEnd⟩ :=
      nextWord_spec width (text.dropWhile isSpace)
    rw [scanfWord] at h
    split at h
    · exact absurd (Prod.mk.inj h).1.symm (Option.some_ne_none _)
    · rename_i hNil
      obtain ⟨hNext, rfl⟩ := Prod.mk.inj h
      rw [← Option.some.inj hNext]
      exact ⟨trims_iff.mpr hSplit, hNil, hWord, hWidth, hEnd⟩

/-- **A word** is what `%s` reads, whichever it is. -/
theorem word_iff {width : Option Nat} :
    Word width text rest ↔
      ∃ word, scanfWord width text = (some word, rest) :=
  exists_congr fun _ => isWord_iff

/-- Where `%s` finds no word, there is only white space. -/
theorem blank_of_scanfWord {width : Option Nat} (hWidth : width ≠ some 0)
    (h : scanfWord width text = (none, rest)) :
    ∀ b ∈ text, isSpace b = true := by
  rw [← List.dropWhile_eq_nil_iff]
  by_contra hSome
  rcases List.exists_cons_of_ne_nil hSome with ⟨b, tail, hText⟩
  have hFirst := head?_dropWhile isSpace text
  rw [hText] at hFirst
  rw [scanfWord, hText] at h
  simp only [if_neg (nextWord_ne_nil hWidth (hFirst b rfl) tail)] at h
  exact absurd (Prod.mk.inj h).1 (Option.some_ne_none _)

/-- Where there is no word, the input has ended. -/
theorem scanfWord_of_noWord {width : Option Nat} (hWidth : width ≠ some 0)
    (h : ∀ rest, ¬Word width text rest) : (scanfWord width text).2 = [] := by
  cases hScan : scanfWord width text with
  | mk found rest =>
      cases found with
      | none =>
          have hBlank := blank_of_scanfWord hWidth hScan
          rw [← hScan, scanfWord_snd, List.dropWhile_eq_nil_iff.mpr hBlank,
            List.drop_nil]
      | some word => exact absurd (word_iff.mpr ⟨word, hScan⟩) (h rest)

theorem not_word_nil {width : Option Nat} : ¬Word width [] rest := by
  rw [word_iff, scanfWord_nil]
  rintro ⟨word, h⟩
  exact absurd (Prod.mk.inj h).1.symm (Option.some_ne_none _)

/-- Behind a word without a bound there is white space, or nothing. -/
theorem head?_scanfWord_none (text : List UInt8) :
    ∀ b ∈ (scanfWord none text).2.head?, isSpace b = true := by
  rw [scanfWord_snd]
  exact (nextWord_spec none (text.dropWhile isSpace)).2.2.2.resolve_left nofun

/-- A character of white space more or less before a word. -/
theorem scanfWord_tail (width : Option Nat)
    (h : ∀ b ∈ text.head?, isSpace b = true) :
    scanfWord width text.tail = scanfWord width text := by
  cases text with
  | nil => rfl
  | cons b tail =>
      have hSkip : (b :: tail).dropWhile isSpace = tail.dropWhile isSpace :=
        List.dropWhile_cons_of_pos (h b rfl)
      rw [scanfWord, scanfWord, hSkip]
      rfl

/-! ## Several words -/

/-- What so many conversions leave, whether they find words or not. -/
def skipWords (width : Option Nat) : Nat → List UInt8 → List UInt8
  | 0, text => text
  | n + 1, text => skipWords width n (scanfWord width text).2

theorem skipWords_nil (width : Option Nat) (n : Nat) :
    skipWords width n [] = [] := by
  induction n with
  | zero => rfl
  | succ n ih => rw [skipWords, scanfWord_nil, ih]

theorem Words.skipWords_eq {width : Option Nat} {n : Nat}
    (h : Words width n text rest) : skipWords width n text = rest := by
  induction n generalizing text with
  | zero => exact h.symm
  | succ n ih =>
      rcases h with ⟨mid, hWord, hRest⟩
      rcases word_iff.mp hWord with ⟨word, hScan⟩
      rw [skipWords, hScan]
      exact ih hRest

/-- **Words are found**, or the input ends before the last of them. -/
theorem words_or_nil {width : Option Nat} (hWidth : width ≠ some 0) (n : Nat)
    (text : List UInt8) :
    Words width n text (skipWords width n text) ∨
      skipWords width n text = [] := by
  induction n generalizing text with
  | zero => exact Or.inl rfl
  | succ n ih =>
      by_cases hWord : ∃ mid, Word width text mid
      · rcases hWord with ⟨mid, hWord⟩
        rcases word_iff.mp hWord with ⟨word, hScan⟩
        rw [skipWords, hScan]
        exact (ih mid).imp_left fun hRest => ⟨mid, hWord, hRest⟩
      · right
        rw [skipWords, scanfWord_of_noWord hWidth (not_exists.mp hWord),
          skipWords_nil]

theorem not_words_nil {width : Option Nat} {n : Nat} :
    ¬Words width (n + 1) [] rest := by
  rintro ⟨mid, hWord, -⟩
  exact not_word_nil hWord

end

end UnixHomework.Verified
