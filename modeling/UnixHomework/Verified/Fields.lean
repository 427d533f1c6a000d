import UnixHomework.Verified.CharArray

/-!
# Strings in fields of a character array

A record of text fields is a range of a character array.  `writeString?` and
`readString?` are what an unbounded copy and a print of a string do with it:
they know the start of the field only, write or read up to the NUL, and are
undefined when that is outside the array.

`Stored a off room s` says that the field of `room` bytes at `off` has the
string `s` with its NUL inside the field.  Only then do writes to other fields
leave it alone.
-/

namespace UnixHomework.Verified.CharArray

variable {n : Nat}

/-- Write a string and its NUL. -/
def writeString? (a : CharArray n) (off : Nat) (s : List UInt8) :
    Option (CharArray n) :=
  a.write? off (s ++ [0])

/-- Read up to the NUL. -/
def readString? (a : CharArray n) (off : Nat) : Option (List UInt8) :=
  if (0 : UInt8) ∈ a.bytes.drop off then some (a.strAt off) else none

/-- Bytes that are followed by a NUL are read up to the first. -/
theorem readString?_terminated (a : CharArray n) {off : Nat} {s : List UInt8}
    (hText : a.slice off s.length = s)
    (hEnd : a.slice (off + s.length) 1 = [0]) :
    a.readString? off = some (cstr s) := by
  have hMem : (0 : UInt8) ∈ a.bytes.drop off := by
    have hZero : (0 : UInt8) ∈ a.slice (off + s.length) 1 := by
      rw [hEnd]
      exact List.mem_singleton_self 0
    rw [slice, ← List.drop_drop] at hZero
    exact List.mem_of_mem_drop (List.mem_of_mem_take hZero)
  rw [readString?, if_pos hMem, a.strAt_terminated hText hEnd]

/-- A string that is followed by its NUL is read. -/
theorem readString?_of_slice (a : CharArray n) {off : Nat} {s : List UInt8}
    (hText : a.slice off s.length = s)
    (hEnd : a.slice (off + s.length) 1 = [0]) (hs : (0 : UInt8) ∉ s) :
    a.readString? off = some s := by
  rw [a.readString?_terminated hText hEnd, cstr_of_noNul hs]

/-- What is read back of a string written to the start of an array does not
depend on what the array had. -/
theorem readString?_written (a : CharArray n) (s : List UInt8) :
    ((a.writeString? 0 s).bind fun b => b.readString? 0) =
      if s.length < n then some (cstr s) else none := by
  by_cases hFits : s.length < n
  · obtain ⟨b, hWrite, hText, -⟩ := a.exists_write? 0 (s ++ [0]) (s.length + 1)
      List.length_append (by omega)
    have hSlice : b.slice 0 s.length = s := by
      rw [← b.take_slice (Nat.le_succ _), hText, List.take_left']
      rfl
    have hEnd : b.slice (0 + s.length) 1 = [0] := by
      have hDrop := b.drop_slice 0 (s.length + 1) s.length
      rw [hText, List.drop_left' rfl, Nat.add_sub_cancel_left] at hDrop
      exact hDrop.symm
    rw [writeString?, hWrite, Option.bind_some,
      b.readString?_terminated hSlice hEnd, if_pos hFits]
  · rw [writeString?, write?, dif_neg (by simp; omega), if_neg hFits]
    rfl

/-- The same for a string that is written in two steps. -/
theorem readString?_written_twice (a : CharArray n) (s : List UInt8) :
    ((a.write? 0 s).bind fun b =>
        (b.write? s.length [0]).bind fun c => c.readString? 0) =
      if s.length < n then some (cstr s) else none := by
  by_cases hFits : s.length < n
  · obtain ⟨b, hWrite, hText, -⟩ := a.exists_write? 0 s s.length rfl (by omega)
    obtain ⟨c, hNul, hEnd, hFrame⟩ :=
      b.exists_write? s.length [0] 1 rfl hFits
    have hSlice : c.slice 0 s.length = s := by
      rw [hFrame 0 s.length (Or.inl (Nat.le_of_eq (Nat.zero_add _))), hText]
    rw [hWrite, Option.bind_some, hNul, Option.bind_some,
      c.readString?_terminated hSlice ((Nat.zero_add s.length).symm ▸ hEnd),
      if_pos hFits]
  · rw [if_neg hFits, Option.bind_eq_none_iff]
    intro b hb
    rw [write?, dif_neg (by simp; omega)]
    rfl

/-- The field holds the string. -/
structure Stored (a : CharArray n) (off room : Nat) (s : List UInt8) :
    Prop where
  /-- There is room for the NUL, -/
  fits : s.length < room
  /-- the field is in the array, -/
  inside : off + room ≤ n
  /-- no byte of the string ends it before, -/
  noNul : (0 : UInt8) ∉ s
  /-- and the bytes are those of the string. -/
  bytes : a.slice off (s.length + 1) = s ++ [0]

section Stored

variable {a b : CharArray n} {off off' room : Nat} {s : List UInt8}

theorem Stored.readString?_eq (h : a.Stored off room s) :
    a.readString? off = some s := by
  have hDrop : a.bytes.drop off =
      s ++ 0 :: a.bytes.drop (off + (s.length + 1)) := by
    have hBytes := h.bytes
    rw [slice] at hBytes
    conv_lhs => rw [← List.take_append_drop (s.length + 1) (a.bytes.drop off)]
    rw [hBytes, List.drop_drop, List.append_assoc]
    rfl
  rw [readString?, if_pos (by rw [hDrop]; simp), strAt, hDrop,
    cstr_append_zero h.noNul]

/-- The field is copied with the range it is in. -/
theorem Stored.copy (h : a.Stored off room s) (hInside : off' + room ≤ n)
    (hSame : b.slice off' room = a.slice off room) :
    b.Stored off' room s where
  fits := h.fits
  inside := hInside
  noNul := h.noNul
  bytes := by
    rw [← take_slice b h.fits, hSame, take_slice a h.fits, h.bytes]

/-- Writing a string that is short enough: nothing else changes. -/
theorem writeString?_stored (a : CharArray n) (hFits : s.length < room)
    (hInside : off + room ≤ n) (hNoNul : (0 : UInt8) ∉ s) :
    ∃ b, a.writeString? off s = some b ∧ b.Stored off room s ∧
      ∀ o j, o + j ≤ off ∨ off + room ≤ o → b.slice o j = a.slice o j := by
  obtain ⟨b, hWrite, hText, hFrame⟩ := a.exists_write? off (s ++ [0])
    (s.length + 1) (by simp) (by omega)
  refine ⟨b, hWrite, ⟨hFits, hInside, hNoNul, hText⟩, ?_⟩
  intro o j h
  exact hFrame o j (by omega)

end Stored

end UnixHomework.Verified.CharArray
