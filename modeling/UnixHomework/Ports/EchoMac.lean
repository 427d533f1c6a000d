import UnixHomework.Verified.Hexadecimal
import UnixHomework.Verified.CharArray

/-!
# The MAC addresses of the options

`parse_mac` is the same in the server, the client and the client of hw16 that
takes options: six conversions `%hhx` with colons between them, and it returns
whether all six were assigned.  Texts that are addresses are read as such, and
the printed form is one (`parse_mac_address_iff`).  But `sscanf` does not look
at what follows the sixth number, and takes white space, signs, `0x` and any
number of digits; all these texts are accepted although they are no addresses.
-/

namespace UnixHomework.Ports.Echo

open UnixHomework.Verified

def colon : UInt8 := 58

/-- `"%hhx:%hhx:%hhx:%hhx:%hhx:%hhx"`. -/
def macFormat : List Directive :=
  [.hexByte, .literal colon, .hexByte, .literal colon, .hexByte,
    .literal colon, .hexByte, .literal colon, .hexByte, .literal colon,
    .hexByte]

theorem length_macValues_le (str : List UInt8) :
    0 + (sscanf macFormat str).length ≤ 6 := by
  rw [Nat.zero_add]
  exact length_sscanf_le macFormat str

/-- `parse_mac`: the bytes that were assigned before a failure stay. -/
def parseMac (str : List UInt8) (mac : CharArray 6) : Bool × CharArray 6 :=
  ((sscanf macFormat str).length == 6,
    mac.splice 0 (sscanf macFormat str) (length_macValues_le str))

/-- `"%02x:%02x:%02x:%02x:%02x:%02x"` of `printf`. -/
def printMac (mac : CharArray 6) : List UInt8 :=
  [colon].intercalate (mac.bytes.map printHexByte)

/-! ## What is asked for -/

/-- The text is an address with these groups. -/
def MacGroups (str : List UInt8) (groups : List (List UInt8)) : Prop :=
  groups.length = 6 ∧ (∀ g ∈ groups, ShortNumber g) ∧
    str = [colon].intercalate groups

def IsMac (str : List UInt8) : Prop :=
  ∃ groups, MacGroups str groups

/-- Exactly the addresses are accepted, with the values of their groups. -/
def ParsesMac (str : List UInt8) : Prop :=
  ∀ mac, ((parseMac str mac).1 = true ↔ IsMac str) ∧
    ∀ groups, MacGroups str groups →
      (parseMac str mac).2.bytes = groups.map fun g => (hexValue g).toUInt8

/-- Six numbers, as `sscanf` reads them, with a colon behind each of the first
five. -/
def BeginsWithNumbers (str : List UInt8) : Prop :=
  ReadsGroups colon 5 str

/-! ## Parsing -/

section Parsing

variable {str : List UInt8}

theorem colon_ends :
    isHexDigit colon = false ∧ colon ≠ 120 ∧ colon ≠ 88 := by
  decide

theorem macFormat_eq : macFormat = hexGroups colon 5 := rfl

/-- **What is accepted.** -/
theorem parseMac_iff (mac : CharArray 6) :
    (parseMac str mac).1 = true ↔ BeginsWithNumbers str := by
  rw [BeginsWithNumbers, ← length_sscanf_hexGroups_iff, ← macFormat_eq]
  exact beq_iff_eq

/-- **An address** is accepted, with its values. -/
theorem MacGroups.parseMac_eq {groups : List (List UInt8)}
    (h : MacGroups str groups) (mac : CharArray 6) :
    (parseMac str mac).1 = true ∧
      (parseMac str mac).2.bytes =
        groups.map fun g => (hexValue g).toUInt8 := by
  rcases h with ⟨hLength, hGroups, rfl⟩
  have hValues := sscanf_hexGroups_intercalate colon_ends 5 hLength hGroups
  rw [← macFormat_eq] at hValues
  have hSix : (groups.map fun g => (hexValue g).toUInt8).length = 6 := by
    rw [List.length_map, hLength]
  constructor
  · show ((sscanf macFormat _).length == 6) = true
    rw [hValues, beq_iff_eq, hSix]
  · have hBehind : mac.bytes.drop 6 = [] :=
      List.drop_eq_nil_of_le (Nat.le_of_eq mac.size_eq)
    simp only [parseMac, CharArray.splice, hValues, hSix, List.take_zero,
      List.nil_append, Nat.zero_add, hBehind, List.append_nil]

theorem parsesMac_iff :
    ParsesMac str ↔ (BeginsWithNumbers str → IsMac str) := by
  constructor
  · intro hParses hNumbers
    exact (hParses (.zeros 6)).1.mp ((parseMac_iff _).mpr hNumbers)
  · intro hOnly mac
    refine ⟨⟨fun hTrue => hOnly ((parseMac_iff mac).mp hTrue), ?_⟩, ?_⟩
    · rintro ⟨groups, hGroups⟩
      exact (hGroups.parseMac_eq mac).1
    · exact fun groups hGroups => (hGroups.parseMac_eq mac).2

theorem macGroups_printMac (mac : CharArray 6) :
    MacGroups (printMac mac) (mac.bytes.map printHexByte) := by
  refine ⟨by rw [List.length_map, mac.size_eq], fun g hg => ?_, rfl⟩
  rcases List.mem_map.mp hg with ⟨b, -, rfl⟩
  exact ⟨Or.inr rfl, fun c hc => isHexDigit_of_mem_printHexByte hc⟩

/-- The printed address is read back. -/
theorem parseMac_printMac (mac old : CharArray 6) :
    parseMac (printMac mac) old = (true, mac) := by
  rcases (macGroups_printMac mac).parseMac_eq old with ⟨hTrue, hBytes⟩
  refine Prod.ext hTrue (CharArray.ext (hBytes.trans ?_))
  rw [List.map_map]
  refine (List.map_congr_left fun b _ => ?_).trans (List.map_id _)
  show (hexValue (printHexByte b)).toUInt8 = b
  rw [hexValue_printHexByte]
  exact UInt8.ofNat_toNat

/-- **The addresses.**  `parse_mac` does what it should with a text exactly if
the text is an address or does not begin with six numbers and colons as
`sscanf` reads them.  What was printed is read back. -/
theorem parse_mac_address_iff (str : List UInt8) (mac old : CharArray 6) :
    (ParsesMac str ↔ IsMac str ∨ ¬BeginsWithNumbers str) ∧
      parseMac (printMac mac) old = (true, mac) := by
  rw [parsesMac_iff, or_comm, ← imp_iff_not_or]
  exact ⟨Iff.rfl, parseMac_printMac mac old⟩

end Parsing

/-- `1:2:3:4:5:6z`. -/
def trailingText : List UInt8 :=
  ascii ['1', ':', '2', ':', '3', ':', '4', ':', '5', ':', '6', 'z']

/-- White space, a sign, `0x`, too many digits, and something behind. -/
theorem parse_mac_trailing :
    (parseMac trailingText (.zeros 6)).1 = true ∧
      parseMac (ascii [' ', '-', '0', 'x', '1', 'F', 'F', ':', '2', ':', '3',
        ':', '4', ':', '5', ':', '6', '!']) (.zeros 6) =
          (true, ⟨[1, 2, 3, 4, 5, 6], rfl⟩) ∧
      ¬∀ str, ParsesMac str := by
  have hTrue : (parseMac trailingText (.zeros 6)).1 = true := by
    decide +kernel
  refine ⟨hTrue, by decide +kernel, fun hAll => ?_⟩
  rcases (hAll trailingText (.zeros 6)).1.mp hTrue with
    ⟨groups, -, hGroups, hText⟩
  have hLast : 122 ∈ [colon].intercalate groups := by
    rw [← hText]
    decide
  rcases mem_intercalate_short hGroups hLast with h | h
  · exact absurd h (by decide)
  · exact absurd h (by decide)

end UnixHomework.Ports.Echo
