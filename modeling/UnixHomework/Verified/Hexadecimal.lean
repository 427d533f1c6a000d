import UnixHomework.Verified.Decimal

/-!
# Hexadecimal numbers in C strings

`printHexByte` is the conversion `%02x` of `printf` for a byte, `scanHexByte`
is `%hhx` of `sscanf`: skip white space, take a sign, `0x` and the longest run
of digits, convert them as `strtoul` does and keep a byte of the result.  What
is taken before the digits is more than one might expect, so the texts that are
read are described on their own (`HexItem`) and shown to be the ones accepted.

`sscanf` follows a format of such conversions and literal characters.
-/

namespace UnixHomework.Verified

/-! ## Printing and scanning -/

/-- `isxdigit`. -/
def isHexDigit (b : UInt8) : Bool :=
  isDigit b || (65 ≤ b && b ≤ 70) || (97 ≤ b && b ≤ 102)

/-- The value of a digit, of either case. -/
def hexDigitValue (b : UInt8) : Nat :=
  if b ≤ 57 then b.toNat - 48
  else if b ≤ 70 then b.toNat - 55
  else b.toNat - 87

/-- The value of a run of digits, the first being the highest. -/
def hexValue (digits : List UInt8) : Nat :=
  digits.foldl (fun n b => 16 * n + hexDigitValue b) 0

/-- The lower-case digit of a number below 16. -/
def hexChar (n : Nat) : UInt8 :=
  if n < 10 then (48 + n).toUInt8 else (87 + n).toUInt8

/-- `%02x` of `printf`. -/
def printHexByte (b : UInt8) : List UInt8 :=
  [hexChar (b.toNat / 16), hexChar (b.toNat % 16)]

/-- `strtoul` for a sign and digits, where `unsigned long` has 64 bits.
What is too large becomes the largest number, and a minus is taken modulo
the range. -/
def strtoul (negative : Bool) (digits : List UInt8) : UInt64 :=
  if UInt64.size ≤ hexValue digits then UInt64.ofNat (UInt64.size - 1)
  else if negative then 0 - UInt64.ofNat (hexValue digits)
  else UInt64.ofNat (hexValue digits)

/-- An optional sign, and whether it is a minus. -/
def takeSign : List UInt8 → Bool × List UInt8
  | 45 :: rest => (true, rest)
  | 43 :: rest => (false, rest)
  | rest => (false, rest)

/-- An optional `0x`. -/
def dropHexPrefix : List UInt8 → List UInt8
  | 48 :: 120 :: rest => rest
  | 48 :: 88 :: rest => rest
  | rest => rest

/-- `%hhx` of `sscanf`: the byte and the rest of the text.  A `0x` without
digits is a matching failure. -/
def scanHexByte (text : List UInt8) : Option (UInt8 × List UInt8) :=
  let signed := takeSign (text.dropWhile isSpace)
  let body := dropHexPrefix signed.2
  let digits := body.takeWhile isHexDigit
  if digits = [] then none
  else some ((strtoul signed.1 digits).toUInt8, body.dropWhile isHexDigit)

/-- What a format consists of. -/
inductive Directive where
  | hexByte
  | literal (b : UInt8)

/-- The bytes that `sscanf` assigns before a directive fails.  It returns their
number, or `EOF` when the text ends before the first. -/
def sscanf : List Directive → List UInt8 → List UInt8
  | [], _ => []
  | .hexByte :: format, text =>
      match scanHexByte text with
      | some (b, rest) => b :: sscanf format rest
      | none => []
  | .literal b :: format, text =>
      match text with
      | c :: rest => if c = b then sscanf format rest else []
      | [] => []

/-! ## Digits -/

theorem isHexDigit_iff (b : UInt8) :
    isHexDigit b = true ↔
      (48 ≤ b.toNat ∧ b.toNat ≤ 57) ∨ (65 ≤ b.toNat ∧ b.toNat ≤ 70) ∨
        (97 ≤ b.toNat ∧ b.toNat ≤ 102) := by
  simp [isHexDigit, isDigit, UInt8.le_iff_toNat_le, or_assoc]

theorem toNat_hexChar {n : Nat} (h : n < 16) :
    (hexChar n).toNat = if n < 10 then 48 + n else 87 + n := by
  rw [hexChar]
  split
  · rw [Nat.toUInt8_eq, UInt8.toNat_ofNat']
    omega
  · rw [Nat.toUInt8_eq, UInt8.toNat_ofNat']
    omega

theorem isHexDigit_hexChar {n : Nat} (h : n < 16) :
    isHexDigit (hexChar n) = true := by
  rw [isHexDigit_iff, toNat_hexChar h]
  split <;> omega

theorem hexDigitValue_hexChar {n : Nat} (h : n < 16) :
    hexDigitValue (hexChar n) = n := by
  simp only [hexDigitValue, UInt8.le_iff_toNat_le, toNat_hexChar h,
    UInt8.reduceToNat]
  by_cases hSmall : n < 10
  · rw [if_pos hSmall, if_pos (by omega)]
    omega
  · rw [if_neg hSmall, if_neg (by omega), if_neg (by omega)]
    omega

theorem hexDigitValue_lt {b : UInt8} (h : isHexDigit b = true) :
    hexDigitValue b < 16 := by
  have hb := (isHexDigit_iff b).mp h
  simp only [hexDigitValue, UInt8.le_iff_toNat_le, UInt8.reduceToNat]
  split
  · omega
  · split <;> omega

/-- **A printed byte** has the value of the byte, so what is printed can be
read back. -/
theorem hexValue_printHexByte (b : UInt8) :
    hexValue (printHexByte b) = b.toNat := by
  have hb := b.toNat_lt
  have hHigh : hexDigitValue (hexChar (b.toNat / 16)) = b.toNat / 16 :=
    hexDigitValue_hexChar (by omega)
  have hLow : hexDigitValue (hexChar (b.toNat % 16)) = b.toNat % 16 :=
    hexDigitValue_hexChar (Nat.mod_lt _ (by decide))
  simp only [hexValue, printHexByte, List.foldl_cons, List.foldl_nil, hHigh,
    hLow]
  omega

theorem isHexDigit_of_mem_printHexByte {b c : UInt8}
    (h : c ∈ printHexByte b) : isHexDigit c = true := by
  have hb := b.toNat_lt
  rw [printHexByte, List.mem_cons, List.mem_singleton] at h
  rcases h with rfl | rfl
  · exact isHexDigit_hexChar (by omega)
  · exact isHexDigit_hexChar (Nat.mod_lt _ (by decide))

/-- One or two digits make a byte, so nothing is lost in the conversion. -/
theorem hexValue_lt_of_short {digits : List UInt8}
    (hDigits : ∀ b ∈ digits, isHexDigit b = true)
    (hShort : digits.length ≤ 2) : hexValue digits < 256 := by
  cases digits with
  | nil => decide
  | cons a rest =>
      have ha := hexDigitValue_lt (hDigits a List.mem_cons_self)
      cases rest with
      | nil =>
          show 16 * 0 + hexDigitValue a < 256
          omega
      | cons b rest =>
          have hb := hexDigitValue_lt
            (hDigits b (List.mem_cons_of_mem a List.mem_cons_self))
          have hEnd : rest = [] := by
            rw [← List.length_eq_zero_iff]
            simp only [List.length_cons] at hShort
            omega
          subst hEnd
          show 16 * (16 * 0 + hexDigitValue a) + hexDigitValue b < 256
          omega

/-! ## What is read as a number -/

/-- The text begins with a number, as long as it can be, before this rest:
white space, a sign and `0x`, which may be missing, and digits.  A `0` without
`0x` is not followed by the letter of one. -/
inductive ReadsHex : List UInt8 → List UInt8 → Prop where
  | parts {spaces sign start digits rest : List UInt8}
      (hSpaces : ∀ b ∈ spaces, isSpace b = true)
      (hSign : sign = [] ∨ sign = [45] ∨ sign = [43])
      (hStart : start = [] ∨ start = [48, 120] ∨ start = [48, 88])
      (hSome : digits ≠ [])
      (hDigits : ∀ b ∈ digits, isHexDigit b = true)
      (hEnd : ∀ b ∈ rest.head?, isHexDigit b = false)
      (hLetter : start = [] → digits = [48] →
        ∀ b ∈ rest.head?, b ≠ 120 ∧ b ≠ 88) :
      ReadsHex (spaces ++ (sign ++ (start ++ (digits ++ rest)))) rest

section Reading

theorem head?_dropWhile (p : UInt8 → Bool) (l : List UInt8) :
    ∀ b ∈ (l.dropWhile p).head?, p b = false := by
  intro b hb
  have hNot := List.head?_dropWhile_not p l
  rw [Option.mem_def.mp hb] at hNot
  exact hNot

variable {text rest : List UInt8}

theorem takeSign_cases (text : List UInt8) :
    ∃ sign, (sign = [] ∨ sign = [45] ∨ sign = [43]) ∧
      text = sign ++ (takeSign text).2 := by
  unfold takeSign
  split
  · exact ⟨[45], by simp, rfl⟩
  · exact ⟨[43], by simp, rfl⟩
  · exact ⟨[], by simp, rfl⟩

theorem dropHexPrefix_cases (text : List UInt8) :
    ∃ start, (start = [] ∨ start = [48, 120] ∨ start = [48, 88]) ∧
      text = start ++ dropHexPrefix text ∧
      (start = [] → ∀ b ∈ (text.drop 1).head?, text.head? = some 48 →
        b ≠ 120 ∧ b ≠ 88) := by
  unfold dropHexPrefix
  split
  · exact ⟨[48, 120], by simp, rfl, by simp⟩
  · exact ⟨[48, 88], by simp, rfl, by simp⟩
  · rename_i hSmall hCapital
    refine ⟨[], by simp, rfl, fun _ b hb hZero => ?_⟩
    cases text with
    | nil => contradiction
    | cons a tail =>
        obtain rfl : a = 48 := Option.some.inj hZero
        cases tail with
        | nil => contradiction
        | cons c tail =>
            obtain rfl : c = b := Option.some.inj hb
            constructor
            · rintro rfl
              exact hSmall tail rfl
            · rintro rfl
              exact hCapital tail rfl

/-- **What is accepted** is a number of this form.  The four parts are cut off
one after the other, as the conversion takes them. -/
theorem readsHex_of_scanHexByte {b : UInt8}
    (h : scanHexByte text = some (b, rest)) : ReadsHex text rest := by
  rw [scanHexByte] at h
  rcases takeSign_cases (text.dropWhile isSpace) with ⟨sign, hSign, hSigned⟩
  rcases dropHexPrefix_cases (takeSign (text.dropWhile isSpace)).2 with
    ⟨start, hStart, hBody, hLetter⟩
  generalize (takeSign (text.dropWhile isSpace)).2 = signed at *
  generalize dropHexPrefix signed = body at *
  by_cases hNone : body.takeWhile isHexDigit = []
  · simp only [hNone, if_true] at h
    contradiction
  · simp only [if_neg hNone, Option.some.injEq, Prod.mk.injEq] at h
    have hSplit : text = text.takeWhile isSpace ++ (sign ++ (start ++
        (body.takeWhile isHexDigit ++ body.dropWhile isHexDigit))) := by
      rw [List.takeWhile_append_dropWhile, ← hBody, ← hSigned,
        List.takeWhile_append_dropWhile]
    rw [hSplit, ← h.2]
    refine ReadsHex.parts (fun b hb => List.mem_takeWhile_imp hb) hSign
      hStart hNone (fun b hb => List.mem_takeWhile_imp hb)
      (head?_dropWhile isHexDigit body) fun hNil hZero b hb => ?_
    have hSigned : signed = 48 :: body.dropWhile isHexDigit := by
      rw [hBody, hNil, List.nil_append]
      exact List.takeWhile_append_dropWhile.symm.trans (by rw [hZero]; rfl)
    rw [hSigned] at hLetter
    exact hLetter hNil b hb rfl

/-- A digit is neither white space nor a sign. -/
theorem hexDigit_ne {b : UInt8} (h : isHexDigit b = true) :
    isSpace b = false ∧ b ≠ 45 ∧ b ≠ 43 ∧ b ≠ 120 ∧ b ≠ 88 := by
  have hb := (isHexDigit_iff b).mp h
  have hNe : ∀ c : UInt8, isHexDigit c = false → b ≠ c := by
    rintro c hc rfl
    exact Bool.false_ne_true (hc.symm.trans h)
  refine ⟨?_, hNe 45 rfl, hNe 43 rfl, hNe 120 rfl, hNe 88 rfl⟩
  simp only [isSpace, Bool.or_eq_false_iff, beq_eq_false_iff_ne,
    Bool.and_eq_false_iff, decide_eq_false_iff_not, UInt8.le_iff_toNat_le,
    UInt8.reduceToNat]
  exact ⟨hNe 32 rfl, by omega⟩

theorem takeSign_append {sign : List UInt8}
    (hSign : sign = [] ∨ sign = [45] ∨ sign = [43])
    (h : ∀ b ∈ text.head?, b ≠ 45 ∧ b ≠ 43) :
    takeSign (sign ++ text) = (decide (sign = [45]), text) := by
  rcases hSign with rfl | rfl | rfl
  · cases text with
    | nil => rfl
    | cons b tail =>
        have hb := h b rfl
        rw [List.nil_append]
        unfold takeSign
        split
        · rename_i hEq
          exact absurd (List.cons.inj hEq).1 hb.1
        · rename_i hEq
          exact absurd (List.cons.inj hEq).1 hb.2
        · rfl
  · rfl
  · rfl

theorem dropHexPrefix_append {start : List UInt8}
    (hStart : start = [] ∨ start = [48, 120] ∨ start = [48, 88])
    (h : start = [] → ∀ b ∈ (text.drop 1).head?, text.head? = some 48 →
      b ≠ 120 ∧ b ≠ 88) :
    dropHexPrefix (start ++ text) = text := by
  rcases hStart with rfl | rfl | rfl
  · rw [List.nil_append]
    unfold dropHexPrefix
    split
    · exact absurd rfl (h rfl 120 rfl rfl).1
    · exact absurd rfl (h rfl 88 rfl rfl).2
    · rfl
  · rfl
  · rfl

theorem dropWhile_of_head? {p : UInt8 → Bool} {l : List UInt8}
    (h : ∀ b ∈ l.head?, p b = false) : l.dropWhile p = l := by
  cases l with
  | nil => rfl
  | cons b tail => exact List.dropWhile_cons_of_neg (by simp [h b rfl])

theorem takeWhile_of_head? {p : UInt8 → Bool} {l : List UInt8}
    (h : ∀ b ∈ l.head?, p b = false) : l.takeWhile p = [] := by
  cases l with
  | nil => rfl
  | cons b tail => exact List.takeWhile_cons_of_neg (by simp [h b rfl])

/-- Behind the sign there is a digit, if only that of `0x`. -/
theorem head?_unsigned {start digits : List UInt8}
    (hStart : start = [] ∨ start = [48, 120] ∨ start = [48, 88])
    (hSome : digits ≠ []) (hDigits : ∀ b ∈ digits, isHexDigit b = true) :
    ∀ b ∈ (start ++ (digits ++ rest)).head?, isHexDigit b = true := by
  intro b hb
  rcases hStart with rfl | rfl | rfl
  · cases digits with
    | nil => contradiction
    | cons d ds =>
        obtain rfl : d = b := Option.some.inj hb
        exact hDigits d List.mem_cons_self
  · obtain rfl : 48 = b := Option.some.inj hb
    rfl
  · obtain rfl : 48 = b := Option.some.inj hb
    rfl

/-- **A number of this form** is read as its digits and its sign say.  White
space and `0x` do not matter; of the value a byte is kept. -/
theorem scanHexByte_parts {spaces sign start digits : List UInt8}
    (hSpaces : ∀ b ∈ spaces, isSpace b = true)
    (hSign : sign = [] ∨ sign = [45] ∨ sign = [43])
    (hStart : start = [] ∨ start = [48, 120] ∨ start = [48, 88])
    (hSome : digits ≠ []) (hDigits : ∀ b ∈ digits, isHexDigit b = true)
    (hEnd : ∀ b ∈ rest.head?, isHexDigit b = false)
    (hLetter : start = [] → digits = [48] →
      ∀ b ∈ rest.head?, b ≠ 120 ∧ b ≠ 88) :
    scanHexByte (spaces ++ (sign ++ (start ++ (digits ++ rest)))) =
      some ((strtoul (decide (sign = [45])) digits).toUInt8, rest) := by
  have hHead : ∀ b ∈ (start ++ (digits ++ rest)).head?,
      isHexDigit b = true := head?_unsigned hStart hSome hDigits
  have hSigned : takeSign (sign ++ (start ++ (digits ++ rest))) =
      (decide (sign = [45]), start ++ (digits ++ rest)) :=
    takeSign_append hSign fun b hb =>
      ⟨(hexDigit_ne (hHead b hb)).2.1, (hexDigit_ne (hHead b hb)).2.2.1⟩
  have hBody : dropHexPrefix (start ++ (digits ++ rest)) = digits ++ rest := by
    apply dropHexPrefix_append hStart
    intro hNil b hb hZero
    cases digits with
    | nil => contradiction
    | cons d ds =>
        cases ds with
        | nil =>
            obtain rfl : d = 48 := Option.some.inj hZero
            exact hLetter hNil rfl b hb
        | cons e ds =>
            obtain rfl : e = b := Option.some.inj hb
            have he := hexDigit_ne (hDigits e (by simp))
            exact ⟨he.2.2.2.1, he.2.2.2.2⟩
  have hText : (spaces ++ (sign ++ (start ++ (digits ++ rest)))).dropWhile
      isSpace = sign ++ (start ++ (digits ++ rest)) := by
    rw [List.dropWhile_append_of_pos hSpaces]
    apply dropWhile_of_head?
    intro b hb
    rcases hSign with rfl | rfl | rfl
    · exact (hexDigit_ne (hHead b hb)).1
    · obtain rfl : 45 = b := Option.some.inj hb
      rfl
    · obtain rfl : 43 = b := Option.some.inj hb
      rfl
  have hRun : (digits ++ rest).takeWhile isHexDigit = digits := by
    rw [List.takeWhile_append_of_pos hDigits, takeWhile_of_head? hEnd,
      List.append_nil]
  have hRest : (digits ++ rest).dropWhile isHexDigit = rest := by
    rw [List.dropWhile_append_of_pos hDigits, dropWhile_of_head? hEnd]
  rw [scanHexByte]
  simp only [hText, hSigned, hBody, hRun, hRest, if_neg hSome]

theorem scanHexByte_iff :
    (∃ b, scanHexByte text = some (b, rest)) ↔ ReadsHex text rest := by
  constructor
  · rintro ⟨b, h⟩
    exact readsHex_of_scanHexByte h
  · intro h
    cases h with
    | parts hSpaces hSign hStart hSome hDigits hEnd hLetter =>
        exact ⟨_, scanHexByte_parts hSpaces hSign hStart hSome hDigits hEnd
          hLetter⟩

/-- One or two digits alone have their own value, if what follows cannot be
taken for more of the number. -/
theorem scanHexByte_digits {digits : List UInt8} (hSome : digits ≠ [])
    (hDigits : ∀ b ∈ digits, isHexDigit b = true)
    (hShort : digits.length ≤ 2)
    (hEnd : ∀ b ∈ rest.head?, isHexDigit b = false ∧ b ≠ 120 ∧ b ≠ 88) :
    scanHexByte (digits ++ rest) =
      some ((hexValue digits).toUInt8, rest) := by
  have hLess := hexValue_lt_of_short hDigits hShort
  have hScan := @scanHexByte_parts rest [] [] [] digits
    (fun b hb => absurd hb List.not_mem_nil) (Or.inl rfl) (Or.inl rfl) hSome
    hDigits (fun b hb => (hEnd b hb).1) fun _ _ b hb => (hEnd b hb).2
  have hValue : (strtoul (decide (([] : List UInt8) = [45])) digits).toUInt8 =
      (hexValue digits).toUInt8 := by
    rw [strtoul, if_neg (by rw [UInt64.size]; omega)]
    apply UInt8.toNat_inj.mp
    simp
  rw [hValue] at hScan
  exact hScan

end Reading

/-! ## Numbers with a separator between them -/

/-- The conversions of a format. -/
def conversions : List Directive → Nat
  | [] => 0
  | .hexByte :: format => conversions format + 1
  | .literal _ :: format => conversions format

/-- So many separators, and a number before and behind each: the format
`%hhx:%hhx:` and so on. -/
def hexGroups (sep : UInt8) : Nat → List Directive
  | 0 => [.hexByte]
  | k + 1 => .hexByte :: .literal sep :: hexGroups sep k

/-- The text begins with numbers and separators.  Behind the last number
anything may follow. -/
def ReadsGroups (sep : UInt8) : Nat → List UInt8 → Prop
  | 0, text => ∃ rest, ReadsHex text rest
  | k + 1, text => ∃ rest, ReadsHex text (sep :: rest) ∧ ReadsGroups sep k rest

section Groups

variable {sep : UInt8}

/-- `sscanf` assigns no more than there are conversions. -/
theorem length_sscanf_le (format : List Directive) (text : List UInt8) :
    (sscanf format text).length ≤ conversions format := by
  induction format generalizing text with
  | nil => exact Nat.le_refl 0
  | cons directive format ih =>
      cases directive with
      | hexByte =>
          rw [sscanf, conversions]
          split
          · rw [List.length_cons]
            exact Nat.succ_le_succ (ih _)
          · exact Nat.zero_le _
      | literal b =>
          cases text with
          | nil => exact Nat.zero_le _
          | cons c rest =>
              rw [sscanf, conversions]
              split
              · exact ih rest
              · exact Nat.zero_le _

/-- **All numbers are assigned** if the text begins with them, and only then.
The induction is on the number of groups, each read up to its separator. -/
theorem length_sscanf_hexGroups_iff (k : Nat) (text : List UInt8) :
    (sscanf (hexGroups sep k) text).length = k + 1 ↔
      ReadsGroups sep k text := by
  induction k generalizing text with
  | zero =>
      rw [hexGroups, sscanf, ReadsGroups]
      simp only [← scanHexByte_iff]
      cases hScan : scanHexByte text with
      | none => simp
      | some r =>
          simp only [List.length_singleton, true_iff, sscanf]
          exact ⟨r.2, r.1, rfl⟩
  | succ k ih =>
      rw [hexGroups, sscanf, ReadsGroups]
      simp only [← scanHexByte_iff]
      cases hScan : scanHexByte text with
      | none => simp
      | some r =>
          rcases r with ⟨b, rest⟩
          cases rest with
          | nil => simp [sscanf]
          | cons c rest =>
              by_cases hSep : c = sep
              · subst hSep
                simp [sscanf, ih]
              · simp [sscanf, hSep]

/-- One or two digits, and nothing else. -/
def ShortNumber (g : List UInt8) : Prop :=
  (g.length = 1 ∨ g.length = 2) ∧ ∀ b ∈ g, isHexDigit b = true

theorem ShortNumber.scanHexByte_eq {g : List UInt8} (hg : ShortNumber g)
    (rest : List UInt8)
    (hEnd : ∀ b ∈ rest.head?, isHexDigit b = false ∧ b ≠ 120 ∧ b ≠ 88) :
    scanHexByte (g ++ rest) = some ((hexValue g).toUInt8, rest) := by
  rcases hg with ⟨hLength, hDigits⟩
  apply scanHexByte_digits _ hDigits (by omega) hEnd
  rw [← List.length_pos_iff]
  omega

/-- **Short numbers alone** are assigned as they are, which is how a text of
the usual form is read. -/
theorem sscanf_hexGroups_intercalate
    (hSep : isHexDigit sep = false ∧ sep ≠ 120 ∧ sep ≠ 88) (k : Nat)
    {groups : List (List UInt8)} (hLength : groups.length = k + 1)
    (hGroups : ∀ g ∈ groups, ShortNumber g) :
    sscanf (hexGroups sep k) ([sep].intercalate groups) =
      groups.map fun g => (hexValue g).toUInt8 := by
  induction k generalizing groups with
  | zero =>
      rcases List.length_eq_one_iff.mp hLength with ⟨g, rfl⟩
      have hScan := (hGroups g List.mem_cons_self).scanHexByte_eq []
        (fun b hb => absurd hb (by simp))
      rw [List.append_nil] at hScan
      rw [List.intercalate_singleton, hexGroups, sscanf, hScan]
      rfl
  | succ k ih =>
      cases groups with
      | nil => contradiction
      | cons g rest =>
          have hRest : rest.length = k + 1 := Nat.succ.inj hLength
          have hNe : rest ≠ [] := by
            rw [← List.length_pos_iff]
            omega
          have hScan := (hGroups g List.mem_cons_self).scanHexByte_eq
            (sep :: [sep].intercalate rest)
            (fun b hb => Option.some.inj hb ▸ hSep)
          have hTail := ih hRest fun g' hg' =>
            hGroups g' (List.mem_cons_of_mem g hg')
          rw [List.intercalate_cons_of_ne_nil hNe, hexGroups, sscanf,
            List.append_assoc, List.singleton_append, hScan]
          simp only [sscanf, if_true, hTail, List.map_cons]

/-- Only digits and separators are in such a text. -/
theorem mem_intercalate_short {groups : List (List UInt8)}
    (hGroups : ∀ g ∈ groups, ShortNumber g) {b : UInt8}
    (h : b ∈ [sep].intercalate groups) : b = sep ∨ isHexDigit b = true := by
  induction groups with
  | nil => contradiction
  | cons g rest ih =>
      have hHead := (hGroups g List.mem_cons_self).2
      by_cases hNil : rest = []
      · subst hNil
        rw [List.intercalate_singleton] at h
        exact Or.inr (hHead b h)
      · rw [List.intercalate_cons_of_ne_nil hNil, List.append_assoc,
          List.singleton_append] at h
        rcases List.mem_append.mp h with h | h
        · exact Or.inr (hHead b h)
        · rcases List.mem_cons.mp h with h | h
          · exact Or.inl h
          · exact ih (fun g' hg' => hGroups g' (List.mem_cons_of_mem g hg')) h

end Groups

end UnixHomework.Verified
