import UnixHomework.Verified.CharArray

/-!
# Two runs over one buffer

That a result does not depend on part of a buffer is a statement about two
runs of one program.  `AgreeBelow m a b` is what such runs keep: the first `m`
bytes of the two buffers are the same.  A read below `m` has the same result
in both, and a write that leaves no gap extends the agreement to its end.

The results are partial, and two runs are related if both are undefined, or
both are defined and their results are related (`Option.Rel`).  `rel_bind`
carries such a relation from one statement of a program to the next.
-/

namespace UnixHomework.Verified

universe u v w x

/-! ## Partial results -/

section Partial

variable {α : Type u} {β : Type v} {γ : Type w} {δ : Type x}

/-- **Sequencing.**  Related first parts, and rests that are related on
related values. -/
theorem rel_bind {R : α → β → Prop} {S : γ → δ → Prop} {x : Option α}
    {y : Option β} {f : α → Option γ} {g : β → Option δ}
    (h : Option.Rel R x y)
    (hNext : ∀ a b, R a b → Option.Rel S (f a) (g b)) :
    Option.Rel S (x.bind f) (y.bind g) := by
  cases h with
  | none => exact .none
  | some h => exact hNext _ _ h

/-- A first part that is the same in both runs. -/
theorem rel_bind_same {S : γ → δ → Prop} {x y : Option α}
    {f : α → Option γ} {g : α → Option δ} (h : x = y)
    (hNext : ∀ a, x = some a → Option.Rel S (f a) (g a)) :
    Option.Rel S (x.bind f) (y.bind g) := by
  subst h
  cases x with
  | none => exact .none
  | some a => exact hNext a rfl

/-- Related runs look the same to whoever sees only what `R` relates. -/
theorem map_eq_of_rel {R : α → β → Prop} {x : Option α} {y : Option β}
    {f : α → γ} {g : β → γ} (h : Option.Rel R x y)
    (hSame : ∀ a b, R a b → f a = g b) : x.map f = y.map g := by
  cases h with
  | none => rfl
  | some h => exact congrArg some (hSame _ _ h)

end Partial

/-! ## Buffers -/

namespace CharArray

variable {n : Nat} {a b : CharArray n} {m m' off k : Nat} {src : List UInt8}

/-- A byte after a write. -/
theorem getElem?_splice (a : CharArray n) (fits : off + src.length ≤ n)
    (i : Nat) :
    (a.splice off src fits).bytes[i]? =
      if i < off then a.bytes[i]?
      else if i < off + src.length then src[i - off]? else a.bytes[i]? := by
  have hTake : (a.bytes.take off).length = off := by
    rw [List.length_take, a.size_eq]
    omega
  rw [splice, List.getElem?_append, hTake]
  by_cases hLo : i < off
  · rw [if_pos hLo, if_pos hLo, List.getElem?_take_of_lt hLo]
  · rw [if_neg hLo, if_neg hLo, List.getElem?_append]
    by_cases hHi : i < off + src.length
    · rw [if_pos (by omega), if_pos hHi]
    · rw [if_neg (by omega), if_neg hHi, List.getElem?_drop]
      congr 1
      omega

/-- The first `m` bytes of both arrays are the same. -/
def AgreeBelow (m : Nat) (a b : CharArray n) : Prop :=
  ∀ i, i < m → a.bytes[i]? = b.bytes[i]?

theorem AgreeBelow.mono (h : AgreeBelow m a b) (hm : m' ≤ m) :
    AgreeBelow m' a b :=
  fun i hi => h i (Nat.lt_of_lt_of_le hi hm)

/-- A range below `m`. -/
theorem AgreeBelow.slice_eq (h : AgreeBelow m a b) (hk : off + k ≤ m) :
    a.slice off k = b.slice off k := by
  apply List.ext_getElem?
  intro i
  rw [slice, slice, List.getElem?_take, List.getElem?_take]
  by_cases hi : i < k
  · rw [if_pos hi, if_pos hi, List.getElem?_drop, List.getElem?_drop]
    exact h (off + i) (by omega)
  · rw [if_neg hi, if_neg hi]

theorem AgreeBelow.read?_eq (h : AgreeBelow m a b) (hk : off + k ≤ m) :
    a.read? off k = b.read? off k := by
  rw [read?, read?, h.slice_eq hk]

theorem AgreeBelow.load?_eq (h : AgreeBelow m a b) (hk : off + k ≤ m) :
    a.load? off k = b.load? off k := by
  simp only [load?, h.slice_eq hk]

/-- A write that starts where the arrays still agree. -/
theorem AgreeBelow.splice (h : AgreeBelow m a b) (hOff : off ≤ m)
    (fits : off + src.length ≤ n) :
    AgreeBelow (max m (off + src.length)) (a.splice off src fits)
      (b.splice off src fits) := by
  intro i hi
  rw [getElem?_splice, getElem?_splice]
  by_cases hLo : i < off
  · rw [if_pos hLo, if_pos hLo]
    exact h i (by omega)
  · rw [if_neg hLo, if_neg hLo]
    by_cases hHi : i < off + src.length
    · rw [if_pos hHi, if_pos hHi]
    · rw [if_neg hHi, if_neg hHi]
      exact h i (by omega)

/-- The same write in both runs; the agreement may be stated for less than
it reaches. -/
theorem AgreeBelow.write? (h : AgreeBelow m a b) (hOff : off ≤ m)
    (hm : m' ≤ max m (off + src.length)) :
    Option.Rel (AgreeBelow m') (a.write? off src) (b.write? off src) := by
  by_cases fits : off + src.length ≤ n
  · rw [a.write?_of_fits fits, b.write?_of_fits fits]
    exact .some ((h.splice hOff fits).mono hm)
  · rw [CharArray.write?, CharArray.write?, dif_neg fits, dif_neg fits]
    exact .none

end CharArray

end UnixHomework.Verified
