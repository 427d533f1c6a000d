import UnixHomework.Ports.EchoFrame
import UnixHomework.Verified.EndAround

/-!
# The checksum of the echo programs

Both programs have the same `checksum`.  Its accumulator starts at `0xffff`,
one of the two zeros of one's complement arithmetic, and so never is the other
one.  The result is `0xffff` less the representative in `1..0xffff` of the sum
of the words (`checksum_laws`).  A header with its checksum stored in a field
that was zero therefore has the checksum zero, and no change of one word to
another residue keeps that.
-/

namespace UnixHomework.Ports.Echo

open UnixHomework.Verified

/-- The 16-bit words that the loop adds; an odd byte at the end is padded with
a zero. -/
def words : List UInt8 → List Nat
  | hi :: lo :: rest => ntohs [hi, lo] :: words rest
  | [last] => [ntohs [last, 0]]
  | [] => []

/-- What the accumulator holds after each step of the loop, for a statement
about all of them. -/
def checksumSteps (acc : Nat) : List UInt8 → List Nat
  | hi :: lo :: rest =>
      addWord acc (ntohs [hi, lo]) ::
        checksumSteps (addWord acc (ntohs [hi, lo])) rest
  | [last] => [addWord acc (ntohs [last, 0])]
  | [] => []

/-- The bytes of the word `i` replaced, as when the checksum is put into its
field. -/
def storeWord (data : List UInt8) (i : Nat) (bytes : List UInt8) :
    List UInt8 :=
  data.take (2 * i) ++ (bytes ++ data.drop (2 * i + 2))

/-! ## The loop over the words -/

theorem ntohs_pair_le (hi lo : UInt8) : ntohs [hi, lo] ≤ 65535 := by
  have hHi := hi.toNat_lt
  have hLo := lo.toNat_lt
  rw [ntohs]
  omega

theorem words_le (data : List UInt8) : ∀ w ∈ words data, w ≤ 65535 := by
  induction data using words.induct with
  | case1 hi lo rest ih =>
      rw [words]
      exact List.forall_mem_cons.mpr ⟨ntohs_pair_le hi lo, ih⟩
  | case2 last =>
      rw [words]
      exact List.forall_mem_cons.mpr
        ⟨ntohs_pair_le last 0, List.forall_mem_nil _⟩
  | case3 => exact List.forall_mem_nil _

theorem checksumLoop_eq (acc : Nat) (data : List UInt8) :
    checksumLoop acc data = (words data).foldl (endAround 65535) acc := by
  induction data using words.induct generalizing acc with
  | case1 hi lo rest ih =>
      rw [checksumLoop, words, List.foldl_cons, ih]
      rfl
  | case2 last => rfl
  | case3 => rfl

theorem cons_checksumSteps (acc : Nat) (data : List UInt8) :
    acc :: checksumSteps acc data =
      (words data).scanl (endAround 65535) acc := by
  induction data using words.induct generalizing acc with
  | case1 hi lo rest ih =>
      rw [checksumSteps, words, List.scanl_cons, ih]
      rfl
  | case2 last => rfl
  | case3 => rfl

theorem checksumLoop_range (data : List UInt8) :
    1 ≤ checksumLoop 65535 data ∧ checksumLoop 65535 data ≤ 65535 := by
  rw [checksumLoop_eq]
  exact foldl_endAround_range (by decide) (words_le data)

/-! ## The result -/

/-- `htons(~acc)`. -/
theorem checksum_eq (data : List UInt8) :
    checksum data = htons (65535 - checksumLoop 65535 data) := by
  have hRange := checksumLoop_range data
  rw [checksum]
  congr 1
  omega

theorem htons_eq_zero_iff {n : Nat} (h : n < 65536) :
    htons n = [0, 0] ↔ n = 0 := by
  constructor
  · intro hZero
    rw [← ntohs_htons h, hZero]
    rfl
  · rintro rfl
    rfl

theorem checksum_eq_zero_iff (data : List UInt8) :
    checksum data = [0, 0] ↔ (words data).sum ≡ 0 [MOD 65535] := by
  have hRange := checksumLoop_range data
  have hEnd : 65535 - checksumLoop 65535 data = 0 ↔
      checksumLoop 65535 data = 65535 := by omega
  rw [checksum_eq, htons_eq_zero_iff (by omega), hEnd, checksumLoop_eq]
  exact foldl_endAround_eq_iff (by decide) (words_le data)

/-! ## Storing -/

theorem words_storeWord {data bytes : List UInt8} {i : Nat}
    (hInside : 2 * i + 2 ≤ data.length) (hBytes : bytes.length = 2) :
    words (storeWord data i bytes) = (words data).set i (ntohs bytes) := by
  obtain ⟨a, b, rfl⟩ : ∃ a b, bytes = [a, b] := by
    match bytes, hBytes with
    | [a, b], _ => exact ⟨a, b, rfl⟩
  induction i generalizing data with
  | zero =>
      match data, hInside with
      | hi :: lo :: rest, _ => rfl
  | succ i ih =>
      match data, hInside with
      | hi :: lo :: rest, hInside =>
          have hRest : 2 * i + 2 ≤ rest.length := by
            simp only [List.length_cons] at hInside
            omega
          show ntohs [hi, lo] :: words (storeWord rest i [a, b]) = _
          rw [ih hRest]
          rfl

theorem words_getElem? {data : List UInt8} {i : Nat}
    (hInside : 2 * i + 2 ≤ data.length) :
    (words data)[i]? = some (ntohs (field data (2 * i) 2)) := by
  induction i generalizing data with
  | zero =>
      match data, hInside with
      | hi :: lo :: rest, _ => rfl
  | succ i ih =>
      match data, hInside with
      | hi :: lo :: rest, hInside =>
          have hRest : 2 * i + 2 ≤ rest.length := by
            simp only [List.length_cons] at hInside
            omega
          exact ih hRest

/-! ## The laws -/

/-- **The value.**  The one `r` in `1..0xffff` that is the sum of the words
modulo `0xffff` gives the result. -/
theorem checksum_value (data : List UInt8) :
    ∃ r, (∀ s, (1 ≤ s ∧ s ≤ 65535) ∧ s ≡ (words data).sum [MOD 65535] ↔
        s = r) ∧ checksum data = htons (65535 - r) := by
  have hRange := checksumLoop_range data
  have hSum : checksumLoop 65535 data ≡ (words data).sum [MOD 65535] := by
    rw [checksumLoop_eq]
    apply (foldl_endAround_modEq 65535 65535 (words data)).trans
    exact Nat.add_mod_left 65535 _
  refine ⟨checksumLoop 65535 data, fun s => ?_, checksum_eq data⟩
  constructor
  · rintro ⟨hs, hModEq⟩
    exact eq_of_modEq hs hRange (hModEq.trans hSum.symm)
  · rintro rfl
    exact ⟨hRange, hSum⟩

/-- **Verification.**  The checksum stored in a field that was zero makes the
sum a multiple of `0xffff`, and so the checksum of the whole zero. -/
theorem checksum_sealed {header : List UInt8} {i : Nat}
    (hInside : 2 * i + 2 ≤ header.length)
    (hZero : field header (2 * i) 2 = [0, 0]) :
    checksum (storeWord header i (checksum header)) = [0, 0] := by
  have hAt : i < (words header).length := by
    have hWord := words_getElem? hInside
    exact (List.getElem?_eq_some_iff.mp hWord).1
  have hOld : (words header)[i] = 0 := by
    have hWord := words_getElem? hInside
    rw [List.getElem?_eq_getElem hAt, hZero] at hWord
    exact Option.some.inj hWord
  obtain ⟨r, hr, hChecksum⟩ := checksum_value header
  obtain ⟨⟨hLow, hHigh⟩, hModEq⟩ := (hr r).mpr rfl
  have hStored : ntohs (checksum header) = 65535 - r := by
    rw [hChecksum, ntohs_htons (by omega)]
  rw [checksum_eq_zero_iff, words_storeWord hInside rfl, hStored]
  have hSum := sum_set_add (65535 - r) hAt
  rw [hOld, Nat.add_zero] at hSum
  have hBack : (words header).sum + (65535 - r) ≡ r + (65535 - r)
      [MOD 65535] := hModEq.symm.add_right _
  rw [Nat.add_sub_cancel' hHigh] at hBack
  rw [hSum]
  exact hBack.trans (Nat.mod_self 65535)

/-- **Detection.**  One word of data whose checksum is zero changed to another
residue.  A word changed from one zero to the other would not be seen. -/
theorem checksum_changed {data other : List UInt8} {j v w : Nat}
    (hZero : checksum data = [0, 0]) (hOld : (words data)[j]? = some v)
    (hNew : words other = (words data).set j w)
    (hChanged : ¬w ≡ v [MOD 65535]) : checksum other ≠ [0, 0] := by
  obtain ⟨hAt, rfl⟩ := List.getElem?_eq_some_iff.mp hOld
  rw [checksum_eq_zero_iff] at hZero
  rw [Ne, checksum_eq_zero_iff, hNew]
  intro hSum
  exact hChanged ((sum_set_modEq_iff hAt).mp (hSum.trans hZero.symm))

/-- **The laws of the checksum**, for data and headers of any length: the
range of the accumulator, the value, verification and detection. -/
theorem checksum_laws :
    (∀ data, ∀ acc ∈ checksumSteps 65535 data, 1 ≤ acc ∧ acc ≤ 65535) ∧
    (∀ data, ∃ r, (∀ s, (1 ≤ s ∧ s ≤ 65535) ∧
        s ≡ (words data).sum [MOD 65535] ↔ s = r) ∧
      checksum data = htons (65535 - r)) ∧
    ∀ header i, 2 * i + 2 ≤ header.length →
      field header (2 * i) 2 = [0, 0] →
        checksum (storeWord header i (checksum header)) = [0, 0] ∧
        ∀ other j v w,
          (words (storeWord header i (checksum header)))[j]? = some v →
          words other =
            (words (storeWord header i (checksum header))).set j w →
          ¬w ≡ v [MOD 65535] → checksum other ≠ [0, 0] := by
  refine ⟨fun data acc hAcc => ?_, checksum_value, ?_⟩
  · have hAll := scanl_endAround_range (m := 65535)
      ⟨by decide, Nat.le_refl 65535⟩ (words_le data)
    apply hAll acc
    rw [← cons_checksumSteps]
    exact List.mem_cons_of_mem _ hAcc
  · intro header i hInside hZero
    have hSealed := checksum_sealed hInside hZero
    exact ⟨hSealed, fun other j v w hOld hNew hChanged =>
      checksum_changed hSealed hOld hNew hChanged⟩

/-- The header of a request with two bytes of text. -/
def requestHeader : List UInt8 :=
  [69, 0, 0, 30, 212, 49, 0, 0, 64, 17, 0, 0, 192, 168, 1, 100,
    192, 168, 1, 200]

/-- It verifies, and not with another time to live. -/
theorem requestHeader_verifies :
    checksum (storeWord requestHeader 5 (checksum requestHeader)) = [0, 0] ∧
      checksum ((storeWord requestHeader 5 (checksum requestHeader)).set 8 63) ≠
        [0, 0] := by
  obtain ⟨hSealed, hChanged⟩ :=
    checksum_laws.2.2 requestHeader 5 (by decide) (by decide)
  exact ⟨hSealed, hChanged _ 4 16401 16145 (by decide) (by decide) (by decide)⟩

/-- The IP header that either program sends verifies. -/
theorem ipCheck_verifies {b next : Buffer} (hVihl : b.slice 14 1 = [0x45])
    (hCheck : b.slice 24 2 = [0, 0]) (h : ipCheck b = some next) :
    checksum (next.slice 14 20) = [0, 0] := by
  obtain ⟨b1, h1, w1, s1⟩ :=
    b.exists_write? 24 (checksum (b.slice 14 20)) 2 rfl (by decide)
  have hNext : ipCheck b = some b1 := by
    simp only [ipCheck, ethHlen, b.read?_of_fits (by decide : 14 + 1 ≤ bufSize),
      hVihl, Option.bind_eq_bind, Option.bind_some,
      show headerLength [0x45] = 20 from rfl,
      b.read?_of_fits (by decide : 14 + 20 ≤ bufSize), h1]
  obtain rfl := Option.some.inj (hNext.symm.trans h)
  have hStored : b1.slice 14 20 =
      storeWord (b.slice 14 20) 5 (checksum (b.slice 14 20)) := by
    rw [storeWord, b.take_slice (by decide), b.drop_slice,
      b1.slice_add 14 10 10, b1.slice_add 24 2 8, w1,
      s1 14 10 (by decide), s1 26 8 (by decide)]
  rw [hStored]
  apply checksum_sealed
  · rw [b.length_slice (by decide)]
    decide
  · rw [← hCheck]
    exact (b.slice_of_slice (by decide)).symm

end UnixHomework.Ports.Echo
