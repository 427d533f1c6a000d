import Mathlib.Data.List.TakeWhile
import Mathlib.Tactic.Common

/-!
# Character arrays and C strings

`CharArray n` is the C object `char a[n]`: exactly `n` bytes.  Its size is a
field, so no operation can grow it.  `slice` reads a range and `splice`
overwrites one; the read-over-write laws below are all that programs with
overlapping views of one buffer need.  `read?` and `write?` are the accesses
as C performs them: outside the array they are undefined, which is `none`.

A C string is whatever precedes the first NUL.  `cstr` cuts it out of a byte
list, `strncpy` copies it into an array and pads with NULs.
-/

namespace UnixHomework.Verified

/-! ## C strings -/

/-- The C string at the start of a byte list. -/
def cstr (bytes : List UInt8) : List UInt8 :=
  bytes.takeWhile (· != 0)

@[simp] theorem cstr_zero_cons (rest : List UInt8) : cstr (0 :: rest) = [] := by
  simp [cstr]

theorem cstr_of_noNul {s : List UInt8} (h : (0 : UInt8) ∉ s) : cstr s = s := by
  rw [cstr, List.takeWhile_eq_self_iff]
  intro b hb
  simp only [bne_iff_ne]
  rintro rfl
  exact h hb

theorem zero_notMem_cstr (bytes : List UInt8) : (0 : UInt8) ∉ cstr bytes := by
  intro h
  simpa using List.mem_takeWhile_imp h

/-- Bytes followed by a NUL: what comes behind it does not count. -/
theorem cstr_terminated (s rest : List UInt8) :
    cstr (s ++ 0 :: rest) = cstr s := by
  induction s with
  | nil => simp [cstr]
  | cons b s ih =>
      rw [List.cons_append, cstr, cstr, List.takeWhile_cons,
        List.takeWhile_cons]
      split
      · exact congrArg (b :: ·) ih
      · rfl

/-- A string followed by its terminator. -/
theorem cstr_append_zero {s : List UInt8} (h : (0 : UInt8) ∉ s)
    (rest : List UInt8) : cstr (s ++ 0 :: rest) = s := by
  rw [cstr_terminated, cstr_of_noNul h]

/-- NULs behind a byte list are not part of its string. -/
theorem cstr_append_zeros (s : List UInt8) (k : Nat) :
    cstr (s ++ List.replicate k 0) = cstr s := by
  cases k with
  | zero => rw [List.replicate_zero, List.append_nil]
  | succ k => rw [List.replicate_succ, cstr_terminated]

/-- A NUL ends the string. -/
theorem exists_cstr_terminated {bytes : List UInt8} (h : (0 : UInt8) ∈ bytes) :
    ∃ rest, bytes = cstr bytes ++ 0 :: rest := by
  induction bytes with
  | nil => contradiction
  | cons b bytes ih =>
      by_cases hb : b = 0
      · subst hb
        exact ⟨bytes, by rw [cstr_zero_cons, List.nil_append]⟩
      · obtain ⟨rest, hRest⟩ := ih ((List.mem_cons.mp h).resolve_left
          fun hZero => hb hZero.symm)
        refine ⟨rest, ?_⟩
        have hCons : cstr (b :: bytes) = b :: cstr bytes :=
          List.takeWhile_cons_of_pos (by simpa using hb)
        rw [hCons, List.cons_append, ← hRest]

/-- ASCII characters as bytes. -/
def ascii (chars : List Char) : List UInt8 :=
  chars.map fun c => c.toNat.toUInt8

/-! ## Arrays -/

/-- `char a[n]`. -/
structure CharArray (n : Nat) where
  bytes : List UInt8
  size_eq : bytes.length = n
  deriving DecidableEq

namespace CharArray

variable {n : Nat}

@[ext] theorem ext {a b : CharArray n} (h : a.bytes = b.bytes) : a = b := by
  cases a
  cases b
  simpa using h

/-- An array of `n` zero bytes, as `= {0}` makes it. -/
def zeros (n : Nat) : CharArray n where
  bytes := List.replicate n 0
  size_eq := List.length_replicate

/-- `k` bytes from offset `off` on. -/
def slice (a : CharArray n) (off k : Nat) : List UInt8 :=
  (a.bytes.drop off).take k

/-- Overwrite the bytes from offset `off` on by `src`. -/
def splice (a : CharArray n) (off : Nat) (src : List UInt8)
    (fits : off + src.length ≤ n) : CharArray n where
  bytes := a.bytes.take off ++ (src ++ a.bytes.drop (off + src.length))
  size_eq := by
    simp only [List.length_append, List.length_take, List.length_drop,
      a.size_eq]
    omega

/-- A read of `k` bytes; undefined outside the array. -/
def read? (a : CharArray n) (off k : Nat) : Option (List UInt8) :=
  if off + k ≤ n then some (a.slice off k) else none

/-- A write of `src`; undefined outside the array. -/
def write? (a : CharArray n) (off : Nat) (src : List UInt8) :
    Option (CharArray n) :=
  if fits : off + src.length ≤ n then some (a.splice off src fits) else none

theorem read?_of_fits (a : CharArray n) {off k : Nat} (h : off + k ≤ n) :
    a.read? off k = some (a.slice off k) :=
  if_pos h

theorem write?_of_fits (a : CharArray n) {off : Nat} {src : List UInt8}
    (h : off + src.length ≤ n) : a.write? off src = some (a.splice off src h) :=
  dif_pos h

theorem length_slice (a : CharArray n) {off k : Nat} (h : off + k ≤ n) :
    (a.slice off k).length = k := by
  rw [slice, List.length_take, List.length_drop, a.size_eq]
  omega

theorem length_of_read? {a : CharArray n} {off k : Nat} {bytes : List UInt8}
    (h : a.read? off k = some bytes) : bytes.length = k := by
  obtain ⟨fits, hBytes⟩ := Option.ite_none_right_eq_some.mp h
  rw [← Option.some.inj hBytes, a.length_slice fits]

/-- A read of `k` bytes into an object of that size. -/
def load? (a : CharArray n) (off k : Nat) : Option (CharArray k) :=
  if h : off + k ≤ n then some ⟨a.slice off k, a.length_slice h⟩ else none

theorem load?_of_fits (a : CharArray n) {off k : Nat} (h : off + k ≤ n) :
    a.load? off k = some ⟨a.slice off k, a.length_slice h⟩ :=
  dif_pos h

/-! ### Reads over writes -/

section ReadOverWrite

variable (a : CharArray n) {off : Nat} {src : List UInt8}
  (fits : off + src.length ≤ n)

include fits in
private theorem length_take_off : (a.bytes.take off).length = off := by
  rw [List.length_take, a.size_eq]
  omega

/-- What was written is read back, also in part. -/
theorem slice_splice_inside {o k : Nat} (hlo : off ≤ o)
    (hhi : o + k ≤ off + src.length) :
    (a.splice off src fits).slice o k = (src.drop (o - off)).take k := by
  have hlen := length_take_off a fits
  rw [slice, splice, List.drop_append, hlen,
    List.drop_eq_nil_of_le (by omega), List.nil_append, List.drop_append,
    List.take_append_of_le_length]
  rw [List.length_drop]
  omega

theorem slice_splice_self :
    (a.splice off src fits).slice off src.length = src := by
  rw [slice_splice_inside a fits (Nat.le_refl _) (Nat.le_refl _),
    Nat.sub_self, List.drop_zero, List.take_length]

/-- Bytes before the write are unchanged. -/
theorem slice_splice_before {o k : Nat} (h : o + k ≤ off) :
    (a.splice off src fits).slice o k = a.slice o k := by
  have hlen := length_take_off a fits
  rw [slice, slice, splice, List.drop_append_of_le_length (by omega),
    List.take_append_of_le_length (by rw [List.length_drop]; omega),
    List.drop_take, List.take_take, Nat.min_eq_left (by omega)]

/-- Everything after the write is unchanged. -/
theorem drop_splice_after {o : Nat} (h : off + src.length ≤ o) :
    (a.splice off src fits).bytes.drop o = a.bytes.drop o := by
  have hlen := length_take_off a fits
  rw [splice, List.drop_append, hlen, List.drop_eq_nil_of_le (by omega),
    List.nil_append, List.drop_append, List.drop_eq_nil_of_le (by omega),
    List.nil_append, List.drop_drop]
  congr 1
  omega

theorem slice_splice_after {o k : Nat} (h : off + src.length ≤ o) :
    (a.splice off src fits).slice o k = a.slice o k := by
  rw [slice, slice, drop_splice_after a fits h]

end ReadOverWrite

/-- A write inside the array succeeds; `k` bytes from `off` on are then `src`,
and the others are unchanged. -/
theorem exists_write? (a : CharArray n) (off : Nat) (src : List UInt8)
    (k : Nat) (hk : src.length = k) (fits : off + k ≤ n) :
    ∃ b, a.write? off src = some b ∧ b.slice off k = src ∧
      ∀ o j, o + j ≤ off ∨ off + k ≤ o → b.slice o j = a.slice o j := by
  subst hk
  refine ⟨_, a.write?_of_fits fits, slice_splice_self a fits, ?_⟩
  intro o j h
  rcases h with h | h
  · exact slice_splice_before a fits h
  · exact slice_splice_after a fits h

/-- A range is read as part of a larger one. -/
theorem slice_of_slice (a : CharArray n) {off m o k : Nat}
    (h : o + k ≤ m) :
    a.slice (off + o) k = ((a.slice off m).drop o).take k := by
  rw [slice, slice, List.drop_take, List.take_take, List.drop_drop,
    Nat.min_eq_left (by omega)]

theorem take_slice (a : CharArray n) {off m k : Nat} (h : k ≤ m) :
    (a.slice off m).take k = a.slice off k := by
  rw [slice, slice, List.take_take, Nat.min_eq_left h]

theorem drop_slice (a : CharArray n) (off m k : Nat) :
    (a.slice off m).drop k = a.slice (off + k) (m - k) := by
  rw [slice, slice, List.drop_take, List.drop_drop]

/-- A range is two ranges, one behind the other. -/
theorem slice_add (a : CharArray n) (off j k : Nat) :
    a.slice off (j + k) = a.slice off j ++ a.slice (off + j) k := by
  rw [slice, slice, slice, List.take_add, List.drop_drop]

/-- Overwriting the start of the array by what is there. -/
theorem splice_zero_eq_self_iff (a : CharArray n) {src : List UInt8}
    (fits : 0 + src.length ≤ n) :
    a.splice 0 src fits = a ↔ src <+: a.bytes := by
  have hBytes : (a.splice 0 src fits).bytes =
      src ++ a.bytes.drop src.length := by
    show a.bytes.take 0 ++ (src ++ a.bytes.drop (0 + src.length)) = _
    rw [List.take_zero, List.nil_append, Nat.zero_add]
  constructor
  · intro h
    rw [← h, hBytes]
    exact List.prefix_append _ _
  · intro h
    apply ext
    rw [hBytes]
    exact List.prefix_iff_eq_append.mp h

/-! ### Strings in arrays -/

/-- The C string stored at offset `off`. -/
def strAt (a : CharArray n) (off : Nat) : List UInt8 :=
  cstr (a.bytes.drop off)

/-- The C string stored at the start. -/
def str (a : CharArray n) : List UInt8 :=
  cstr a.bytes

/-- Bytes that are followed by a NUL in the array. -/
theorem strAt_terminated (a : CharArray n) {off : Nat} {s : List UInt8}
    (hText : a.slice off s.length = s)
    (hEnd : a.slice (off + s.length) 1 = [0]) : a.strAt off = cstr s := by
  have hRest : a.bytes.drop (off + s.length) =
      0 :: (a.bytes.drop (off + s.length)).drop 1 := by
    conv_lhs => rw [← List.take_append_drop 1 (a.bytes.drop _)]
    rw [slice] at hEnd
    rw [hEnd]
    rfl
  have hDrop : a.bytes.drop off =
      s ++ 0 :: (a.bytes.drop (off + s.length)).drop 1 := by
    conv_lhs => rw [← List.take_append_drop s.length (a.bytes.drop off)]
    rw [slice] at hText
    rw [hText, List.drop_drop, ← hRest]
  rw [strAt, hDrop, cstr_terminated]

/-- A string that is followed by its terminator in the array. -/
theorem strAt_eq (a : CharArray n) {off : Nat} {s : List UInt8}
    (hText : a.slice off s.length = s)
    (hEnd : a.slice (off + s.length) 1 = [0]) (hs : (0 : UInt8) ∉ s) :
    a.strAt off = s := by
  rw [a.strAt_terminated hText hEnd, cstr_of_noNul hs]

/-- The string ends inside the array. -/
def Terminated (a : CharArray n) : Prop :=
  (0 : UInt8) ∈ a.bytes

instance (a : CharArray n) : Decidable a.Terminated := by
  unfold Terminated
  infer_instance

theorem Terminated.length_str_lt {a : CharArray n} (h : a.Terminated) :
    a.str.length < n := by
  obtain ⟨rest, hBytes⟩ := exists_cstr_terminated h
  have hSize := congrArg List.length hBytes
  rw [a.size_eq, List.length_append, List.length_cons] at hSize
  rw [str]
  omega

theorem str_prefix (a : CharArray n) : a.str <+: a.bytes :=
  List.takeWhile_prefix _

/-- A range that the string does not end in is part of the string. -/
theorem slice_eq_str (a : CharArray n) {off k : Nat}
    (h : off + k ≤ a.str.length) : a.slice off k = (a.str.drop off).take k := by
  have hStr : a.str = a.bytes.take a.str.length :=
    List.prefix_iff_eq_take.mp a.str_prefix
  rw [hStr, slice, List.drop_take, List.take_take, Nat.min_eq_left (by omega)]

theorem slice_prefix_str (a : CharArray n) {off k : Nat}
    (h : off + k ≤ a.str.length) : a.slice off k <+: a.str.drop off := by
  rw [a.slice_eq_str h]
  exact List.take_prefix k _

/-- A range that the string ends in has a NUL. -/
theorem zero_mem_slice {a : CharArray n} (h : a.Terminated) {off k : Nat}
    (hLow : off ≤ a.str.length) (hHigh : a.str.length < off + k) :
    (0 : UInt8) ∈ a.slice off k := by
  obtain ⟨rest, hBytes⟩ := exists_cstr_terminated h
  obtain ⟨m, hm⟩ : ∃ m, k - (a.str.drop off).length = m + 1 :=
    ⟨k - (a.str.drop off).length - 1, by rw [List.length_drop]; omega⟩
  rw [slice, hBytes, ← str, List.drop_append_of_le_length hLow,
    List.take_append, hm, List.take_succ_cons]
  exact List.mem_append_right _ (List.mem_cons_self ..)

/-- `strncpy(a, src, k)`: at most `k` bytes of the string at `src`, padded
with NULs to exactly `k` bytes. -/
def strncpy (a : CharArray n) (src : List UInt8) (k : Nat) (fits : k ≤ n) :
    CharArray n :=
  a.splice 0 ((cstr src).take k ++ List.replicate (k - (cstr src).length) 0)
    (by
      rw [List.length_append, List.length_take, List.length_replicate]
      omega)

/-- Bytes written to the start of an array that was all zero. -/
theorem str_splice_zeros {src : List UInt8} (fits : 0 + src.length ≤ n)
    (h : (0 : UInt8) ∉ src) : ((zeros n).splice 0 src fits).str = src := by
  show cstr ((List.replicate n 0).take 0 ++
    (src ++ (List.replicate n 0).drop (0 + src.length))) = src
  rw [List.take_zero, List.nil_append, List.drop_replicate, cstr_append_zeros,
    cstr_of_noNul h]

/-- `a[i] = b` for an index inside the array. -/
def set (a : CharArray n) (i : Nat) (b : UInt8) : CharArray n where
  bytes := a.bytes.set i b
  size_eq := by rw [List.length_set, a.size_eq]

theorem terminated_set_zero (a : CharArray n) {i : Nat} (h : i < n) :
    (a.set i 0).Terminated := by
  unfold Terminated set
  exact List.mem_set (by rw [a.size_eq]; exact h) 0

/-- A string is cut off inside it. -/
theorem str_set_zero (a : CharArray n) {i : Nat} (h : i ≤ a.str.length)
    (hi : i < n) : (a.set i 0).str = a.str.take i := by
  have hTake : a.bytes.take i = a.str.take i := by
    rw [List.prefix_iff_eq_take.mp a.str_prefix, List.take_take,
      Nat.min_eq_left h]
  have hNoNul : (0 : UInt8) ∉ a.str.take i :=
    fun hMem => zero_notMem_cstr a.bytes (List.mem_of_mem_take hMem)
  show cstr (a.bytes.set i 0) = a.str.take i
  rw [List.set_eq_take_append_cons_drop, if_pos (by rw [a.size_eq]; exact hi),
    hTake, cstr_append_zero hNoNul]

/-- A string cut to `k` bytes, padded and terminated. -/
private theorem cstr_padded (src : List UInt8) (k m : Nat)
    (rest : List UInt8) :
    cstr ((cstr src).take k ++ (List.replicate m 0 ++ 0 :: rest)) =
      (cstr src).take k := by
  have hno : (0 : UInt8) ∉ (cstr src).take k :=
    fun h => zero_notMem_cstr src (List.mem_of_mem_take h)
  cases m with
  | zero => exact cstr_append_zero hno rest
  | succ m =>
      rw [List.replicate_succ, List.cons_append]
      exact cstr_append_zero hno _

private theorem strncpy_bytes (a : CharArray n) (src : List UInt8) {k : Nat}
    (fits : k ≤ n) :
    (a.strncpy src k fits).bytes =
      (cstr src).take k ++
        (List.replicate (k - (cstr src).length) 0 ++ a.bytes.drop k) := by
  have hfill : ((cstr src).take k ++
      List.replicate (k - (cstr src).length) (0 : UInt8)).length = k := by
    rw [List.length_append, List.length_take, List.length_replicate]
    omega
  simp only [strncpy, splice, List.take_zero, List.nil_append, Nat.zero_add,
    hfill, List.append_assoc]

/-- The idiom `strncpy(a, src, k); a[k] = 0` stores the first `k` bytes of the
string. -/
theorem str_strncpy_set (a : CharArray n) (src : List UInt8) {k : Nat}
    (hk : k < n) :
    ((a.strncpy src k (Nat.le_of_lt hk)).set k 0).str = (cstr src).take k := by
  have hlen : k < a.bytes.length := by rw [a.size_eq]; exact hk
  have hdrop : a.bytes.drop k = a.bytes[k] :: a.bytes.drop (k + 1) :=
    List.drop_eq_getElem_cons hlen
  have hfill : ((cstr src).take k ++
      List.replicate (k - (cstr src).length) (0 : UInt8)).length = k := by
    rw [List.length_append, List.length_take, List.length_replicate]
    omega
  simp only [str, set, strncpy_bytes]
  rw [← List.append_assoc, List.set_append_right k 0 (by rw [hfill]), hfill,
    Nat.sub_self, hdrop, List.set_cons_zero, List.append_assoc]
  exact cstr_padded src k _ _

/-- `strncpy` into an array that was all zero needs no terminator of its
own. -/
theorem str_strncpy_zeros (src : List UInt8) {k : Nat} (hk : k < n) :
    ((zeros n).strncpy src k (Nat.le_of_lt hk)).str = (cstr src).take k := by
  obtain ⟨m, hm⟩ : ∃ m, n - k = m + 1 := ⟨n - k - 1, by omega⟩
  simp only [str, strncpy_bytes, zeros, List.drop_replicate]
  rw [hm, List.replicate_succ]
  exact cstr_padded src k _ _

/-- Copying a copy changes nothing more. -/
theorem strncpy_str_strncpy_zeros (src : List UInt8) {k : Nat} (hk : k < n) :
    (zeros n).strncpy ((zeros n).strncpy src k (Nat.le_of_lt hk)).str k
        (Nat.le_of_lt hk) =
      (zeros n).strncpy src k (Nat.le_of_lt hk) := by
  have hno : (0 : UInt8) ∉ (cstr src).take k :=
    fun h => zero_notMem_cstr src (List.mem_of_mem_take h)
  apply ext
  rw [strncpy_bytes, strncpy_bytes, str_strncpy_zeros src hk,
    cstr_of_noNul hno, List.take_take, Nat.min_self, List.length_take]
  congr 3
  omega

end CharArray

end UnixHomework.Verified
