import UnixHomework.Verified.Chunks

/-!
# A buffered reader of a shared file

A stream of the standard library reads a file in blocks and hands out what it
has read piece by piece.  The buffer belongs to the process, the offset of the
file to all processes that have inherited it: what one process has read ahead,
the others do not see, and where one of them moves the offset, the next block
of all of them begins.

As long as nobody else moves the offset, the reader sees what the buffer and
the rest of the file have (`File.rest`), in order and once, whatever the sizes
of the blocks are (`File.line_spec`).  `Reader.sync` is what a process does
that ends: it moves the offset back to what it has not consumed.
-/

namespace UnixHomework.Verified

universe u

/-- A file, and the number of elements that a `read` at an offset asks for, or
is given by a pipe or a terminal. -/
structure File (α : Type u) where
  /-- All there is to read. -/
  contents : List α
  /-- How much a `read` at each offset brings, if there is as much, -/
  block : Nat → Nat
  /-- which is something. -/
  block_pos : ∀ o, 0 < block o

/-- The offset of the open file, and what a process has of it in its buffer. -/
structure Reader (α : Type u) where
  /-- Where the next `read` goes on. -/
  offset : Nat
  /-- What has been read and not taken. -/
  buffer : List α
  /-- The end-of-file indicator, which stays set. -/
  ended : Bool

variable {α : Type u}

/-- Nothing has been read. -/
def Reader.start : Reader α :=
  ⟨0, [], false⟩

/-- The offset moves back over what is in the buffer; a file has no offset
before its beginning, and the call then fails. -/
def Reader.sync (r : Reader α) : Reader α :=
  if r.buffer.length ≤ r.offset then
    { r with offset := r.offset - r.buffer.length }
  else r

namespace File

/-- What `read` returns at an offset. -/
def read (f : File α) (offset : Nat) : List α :=
  (f.contents.drop offset).take (f.block offset)

/-- The buffer is filled when it is empty. -/
def fill (f : File α) (r : Reader α) : Reader α :=
  if r.buffer.isEmpty && !r.ended then
    let read := f.read r.offset
    ⟨r.offset + read.length, read, read.isEmpty⟩
  else r

/-- A line of at most `k` elements, up to the first one that stops it. -/
def line (f : File α) (stop : α → Bool) :
    Nat → Reader α → List α × Reader α
  | 0, r => ([], r)
  | k + 1, r =>
      match (f.fill r).buffer with
      | [] => ([], f.fill r)
      | a :: buffer =>
          let r := { f.fill r with buffer := buffer }
          if stop a then ([a], r)
          else
            let (more, r) := f.line stop k r
            (a :: more, r)

/-- What the reader has not handed out, where nobody moves the offset. -/
def rest (f : File α) (r : Reader α) : List α :=
  r.buffer ++ f.contents.drop r.offset

/-- The indicator is set at the end of the file only. -/
def Sound (f : File α) (r : Reader α) : Prop :=
  r.ended = true → f.contents.length ≤ r.offset

variable {f : File α} {r : Reader α} {stop : α → Bool}

theorem sound_start (f : File α) : f.Sound .start :=
  fun h => absurd h Bool.false_ne_true

/-! ## Filling the buffer -/

theorem read_append_drop (f : File α) (o : Nat) :
    f.read o ++ f.contents.drop (o + (f.read o).length) =
      f.contents.drop o := by
  rw [read, ← List.drop_drop, List.length_take]
  rcases Nat.le_total (f.block o) (f.contents.drop o).length with h | h
  · rw [Nat.min_eq_left h, List.take_append_drop]
  · rw [Nat.min_eq_right h, List.take_of_length_le h, List.drop_length,
      List.append_nil]

/-- Only at the end of the file does `read` return nothing. -/
theorem length_le_of_read_nil {o : Nat} (h : f.read o = []) :
    f.contents.length ≤ o := by
  rcases List.take_eq_nil_iff.mp h with hZero | hNil
  · exact absurd hZero (Nat.ne_of_gt (f.block_pos o))
  · exact List.drop_eq_nil_iff.mp hNil

/-- **Filling the buffer** takes nothing away. -/
theorem rest_fill (f : File α) (r : Reader α) :
    f.rest (f.fill r) = f.rest r := by
  rw [fill]
  split
  · rename_i h
    have hNil : r.buffer = [] :=
      List.isEmpty_iff.mp (Bool.and_eq_true_iff.mp h).1
    rw [rest, rest, hNil, List.nil_append]
    exact f.read_append_drop r.offset
  · rfl

theorem Sound.fill (h : f.Sound r) : f.Sound (f.fill r) := by
  rw [File.fill]
  split
  · intro hEnded
    have hNil : f.read r.offset = [] := List.isEmpty_iff.mp hEnded
    exact Nat.le_add_right_of_le (length_le_of_read_nil hNil)
  · exact h

/-- A buffer that stays empty: there is nothing left. -/
theorem Sound.rest_eq_nil (h : f.Sound r) (hNil : (f.fill r).buffer = []) :
    f.rest r = [] := by
  rw [← rest_fill, rest, hNil, List.nil_append, List.drop_eq_nil_iff]
  by_cases hFill : (r.buffer.isEmpty && !r.ended) = true
  · rw [File.fill, if_pos hFill] at hNil ⊢
    exact Nat.le_add_right_of_le (length_le_of_read_nil hNil)
  · rw [File.fill, if_neg hFill] at hNil ⊢
    apply h
    simpa [hNil] using hFill

/-! ## Lines -/

/-- The first line of what there is. -/
def firstLine (stop : α → Bool) : Nat → List α → List α
  | 0, _ => []
  | _ + 1, [] => []
  | k + 1, a :: s => if stop a then [a] else a :: firstLine stop k s

/-- **The next line** is the first one of the rest, and the rest goes on
behind it. -/
theorem line_spec (h : f.Sound r) (k : Nat) :
    (f.line stop k r).1 = firstLine stop k (f.rest r) ∧
      f.rest (f.line stop k r).2 =
        (f.rest r).drop (firstLine stop k (f.rest r)).length ∧
      f.Sound (f.line stop k r).2 := by
  induction k generalizing r with
  | zero => exact ⟨rfl, rfl, h⟩
  | succ k ih =>
      rw [line]
      cases hBuffer : (f.fill r).buffer with
      | nil =>
          have hRest := h.rest_eq_nil hBuffer
          simp only [rest_fill, hRest, firstLine]
          exact ⟨trivial, rfl, h.fill⟩
      | cons a buffer =>
          have hSound : f.Sound { f.fill r with buffer := buffer } := h.fill
          have hRest : f.rest r =
              a :: f.rest { f.fill r with buffer := buffer } := by
            rw [← rest_fill, rest, hBuffer]
            rfl
          rw [hRest, firstLine]
          by_cases hStop : stop a = true
          · simp only [hStop, if_true]
            exact ⟨trivial, rfl, hSound⟩
          · simp only [hStop, Bool.false_eq_true, if_false, List.length_cons,
              List.drop_succ_cons, List.cons.injEq, true_and]
            exact ih hSound

theorem firstLine_ne_nil {s : List α} {k : Nat} (hk : 0 < k) (hs : s ≠ []) :
    firstLine stop k s ≠ [] := by
  cases k with
  | zero => exact absurd hk (Nat.lt_irrefl 0)
  | succ k =>
      cases s with
      | nil => exact absurd rfl hs
      | cons a s =>
          rw [firstLine]
          split <;> exact List.cons_ne_nil _ _

/-- **Lines are the pieces** of a stream cut behind each element that stops a
line, and behind each line of `n` elements. -/
theorem cutAfter_firstLine {ends : List α → Bool} {n : Nat}
    (hEnds : ∀ l a, ends (l ++ [a]) = (stop a || l.length + 1 == n))
    {begun s : List α} {k : Nat} (hk : 0 < k) (hn : begun.length + k = n)
    (hs : s ≠ []) :
    cutAfter ends begun s =
      (begun ++ firstLine stop k s) ::
        cutAfter ends [] (s.drop (firstLine stop k s).length) := by
  induction s generalizing begun k with
  | nil => exact absurd rfl hs
  | cons a s ih =>
      obtain ⟨k, rfl⟩ := Nat.exists_eq_succ_of_ne_zero (Nat.ne_of_gt hk)
      rw [cutAfter, hEnds, firstLine]
      by_cases hStop : stop a = true
      · rw [hStop, Bool.true_or, if_pos rfl, if_pos rfl]
        rfl
      · rw [eq_false_of_ne_true hStop, Bool.false_or,
          if_neg Bool.false_ne_true]
        by_cases hFull : k = 0
        · subst hFull
          rw [if_pos (by simpa using hn)]
          rfl
        · rw [if_neg (by simp; omega)]
          by_cases hLast : s = []
          · subst hLast
            obtain ⟨k, rfl⟩ := Nat.exists_eq_succ_of_ne_zero hFull
            rw [firstLine, cutAfter, if_neg (by simp)]
            rfl
          · rw [ih (Nat.pos_of_ne_zero hFull)
              (by rw [List.length_append, List.length_singleton]; omega) hLast,
              List.append_assoc]
            rfl

end File

end UnixHomework.Verified
