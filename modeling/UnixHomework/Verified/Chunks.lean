import Mathlib.Data.List.Basic

/-!
# Lines cut into chunks

A stream is a concatenation of lines, and a reader sees it in nonempty chunks
whose boundaries have nothing to do with the lines.  A reader that looks at
the start of each chunk only, and recognises nothing there when the chunk
starts inside a line, recognises at most one item for each line
(`length_filterMap_le`).  So it recognises all of them only if every line
begins a chunk.

`cutAfter` is the reader that makes its chunks itself: it collects until what
it has ends a chunk.
-/

namespace UnixHomework.Verified

universe u v

variable {α : Type u} {β : Type v}

/-- What is left of a line once it has been begun; nothing, if it is over. -/
def TailOf (L : List α → Prop) (r : List α) : Prop :=
  ∃ front l, L l ∧ front ≠ [] ∧ front ++ r = l

theorem TailOf.drop {L : List α → Prop} {a r : List α} (h : TailOf L (a ++ r)) :
    TailOf L r := by
  rcases h with ⟨front, l, hl, hFront, hEq⟩
  refine ⟨front ++ a, l, hl, ?_, ?_⟩
  · exact fun hNil => hFront (List.append_eq_nil_iff.mp hNil).1
  · rw [List.append_assoc]
    exact hEq

/-- A cut after at least one byte begins at least one line, and falls into the
last one that it begins. -/
theorem flatten_cut {L : List α → Prop} {lines : List (List α)} {c y : List α}
    (hLines : ∀ l ∈ lines, L l) (hc : c ≠ []) (h : c ++ y = lines.flatten) :
    ∃ r ls, y = r ++ List.flatten ls ∧ TailOf L r ∧ ls.length < lines.length ∧
      ∀ l ∈ ls, L l := by
  induction lines generalizing c with
  | nil => exact absurd (List.append_eq_nil_iff.mp h).1 hc
  | cons l ls ih =>
      have hl := hLines l List.mem_cons_self
      have hls := fun l' h' => hLines l' (List.mem_cons_of_mem _ h')
      rw [List.flatten_cons] at h
      rcases List.append_eq_append_iff.mp h with ⟨r, hr, hy⟩ | ⟨c', hc', hls'⟩
      · exact ⟨r, ls, hy, ⟨c, l, hl, hc, hr.symm⟩, Nat.lt_succ_self _, hls⟩
      · by_cases hNil : c' = []
        · refine ⟨[], ls, ?_, ⟨l, l, hl, ?_, List.append_nil _⟩,
            Nat.lt_succ_self _, hls⟩
          · rw [hls', hNil, List.nil_append, List.nil_append]
          · rintro rfl
            exact hc (by rw [hc', hNil, List.nil_append])
        · rcases ih hls hNil hls'.symm with ⟨r, ls', hy, hr, hlt, hL⟩
          exact ⟨r, ls', hy, hr, Nat.lt_succ_of_lt hlt, hL⟩

/-- **At most one item for each line.**  An item is recognised only in a chunk
at whose start a line begins, and that line cannot begin another one. -/
theorem length_filterMap_le {L : List α → Prop} {f : List α → Option β}
    (hInside : ∀ r c x y, TailOf L r → r ≠ [] → c ≠ [] → c ++ x = r ++ y →
      f c = none)
    {chunks : List (List α)} {r : List α} {lines : List (List α)}
    (hChunks : ∀ c ∈ chunks, c ≠ []) (hLines : ∀ l ∈ lines, L l)
    (hr : r = [] ∨ TailOf L r)
    (h : chunks.flatten = r ++ lines.flatten) :
    (chunks.filterMap f).length ≤ lines.length := by
  induction chunks generalizing r lines with
  | nil => exact Nat.zero_le _
  | cons c cs ih =>
      have hc := hChunks c List.mem_cons_self
      have hcs := fun c' h' => hChunks c' (List.mem_cons_of_mem _ h')
      rw [List.flatten_cons] at h
      by_cases hNil : r = []
      · rw [hNil, List.nil_append] at h
        rcases flatten_cut hLines hc h with ⟨r', ls, hy, hr', hlt, hL⟩
        have hRest := ih hcs hL (Or.inr hr') hy
        have hCons : ((c :: cs).filterMap f).length ≤
            (cs.filterMap f).length + 1 := by
          rw [List.filterMap_cons]
          split
          · exact Nat.le_succ _
          · exact Nat.le_refl _
        omega
      · have hTail := hr.resolve_left hNil
        rw [List.filterMap_cons_none (hInside r c _ _ hTail hNil hc h)]
        rcases List.append_eq_append_iff.mp h with
          ⟨r', hr', hy⟩ | ⟨c', hc', hls⟩
        · rw [hr'] at hTail
          exact ih hcs hLines (Or.inr hTail.drop) hy
        · by_cases hNil' : c' = []
          · rw [hNil', List.nil_append] at hls
            exact ih hcs hLines (Or.inl rfl) hls.symm
          · rcases flatten_cut hLines hNil' hls.symm with
              ⟨r', ls, hy, hr', hlt, hL⟩
            have hRest := ih hcs hL (Or.inr hr') hy
            omega

/-- A single byte cannot be cut. -/
theorem chunks_of_flatten_singleton {chunks : List (List α)} {a : α}
    (hChunks : ∀ c ∈ chunks, c ≠ []) (h : chunks.flatten = [a]) :
    chunks = [[a]] := by
  cases chunks with
  | nil => contradiction
  | cons c cs =>
      have hc := hChunks c List.mem_cons_self
      rw [List.flatten_cons] at h
      rcases List.append_eq_singleton_iff.mp h with ⟨hNil, -⟩ | ⟨rfl, hNil⟩
      · exact absurd hNil hc
      · cases cs with
        | nil => rfl
        | cons d ds =>
            have hd := hChunks d (List.mem_cons_of_mem _ List.mem_cons_self)
            rw [List.flatten_cons] at hNil
            exact absurd (List.append_eq_nil_iff.mp hNil).1 hd

/-! ## Cutting a stream -/

section Cutting

/-- Cut a stream behind every piece that `ends` accepts.  The first argument is
what has been collected of the next piece. -/
def cutAfter (ends : List α → Bool) : List α → List α → List (List α)
  | begun, [] => if begun.isEmpty then [] else [begun]
  | begun, a :: rest =>
      if ends (begun ++ [a]) then (begun ++ [a]) :: cutAfter ends [] rest
      else cutAfter ends (begun ++ [a]) rest

variable {ends : List α → Bool} {begun c s : List α}

/-- Nothing shorter than `c` ends the piece that has been begun, so the reader
collects all of `c`. -/
def EndsLast (ends : List α → Bool) (begun c : List α) : Prop :=
  ∀ pre, pre <+: c → pre ≠ [] → pre ≠ c → ends (begun ++ pre) = false

theorem EndsLast.first {a : α} (h : EndsLast ends begun (a :: c))
    (hMore : c ≠ []) : ends (begun ++ [a]) = false := by
  apply h [a] (List.prefix_append [a] c) (List.cons_ne_nil _ _)
  intro hEq
  exact hMore (List.cons.inj hEq).2.symm

theorem EndsLast.tail {a : α} (h : EndsLast ends begun (a :: c)) :
    EndsLast ends (begun ++ [a]) c := by
  intro pre hPre _ hShort
  rw [List.append_assoc, List.singleton_append]
  apply h (a :: pre) (List.cons_prefix_cons.mpr ⟨rfl, hPre⟩)
    (List.cons_ne_nil _ _)
  intro hEq
  exact hShort (List.cons.inj hEq).2

/-- The first piece of a stream. -/
theorem cutAfter_append (hNil : c ≠ []) (hEnds : ends (begun ++ c) = true)
    (h : EndsLast ends begun c) (rest : List α) :
    cutAfter ends begun (c ++ rest) =
      (begun ++ c) :: cutAfter ends [] rest := by
  induction c generalizing begun with
  | nil => exact absurd rfl hNil
  | cons a c ih =>
      rw [List.cons_append, cutAfter]
      by_cases hLast : c = []
      · subst hLast
        rw [if_pos hEnds, List.nil_append]
      · rw [List.append_cons] at hEnds
        rw [if_neg (by rw [h.first hLast]; exact Bool.false_ne_true),
          ih hLast hEnds h.tail, List.append_assoc, List.singleton_append]

/-- A stream of one piece, which need not be ended. -/
theorem cutAfter_whole (hNil : begun ++ s ≠ []) (h : EndsLast ends begun s) :
    cutAfter ends begun s = [begun ++ s] := by
  induction s generalizing begun with
  | nil =>
      rw [List.append_nil] at hNil ⊢
      rw [cutAfter, if_neg]
      rw [List.isEmpty_iff]
      exact hNil
  | cons a s ih =>
      rw [List.append_cons] at hNil ⊢
      rw [cutAfter]
      by_cases hEnds : ends (begun ++ [a]) = true
      · have hLast : s = [] := by
          by_contra hMore
          rw [h.first hMore] at hEnds
          contradiction
        subst hLast
        rw [if_pos hEnds, List.append_nil]
        rfl
      · rw [if_neg hEnds, ih hNil h.tail]

/-- An element that ends every piece cuts the stream: what comes behind it is
read as if it were alone. -/
theorem cutAfter_append_of_ends {a : α}
    (h : ∀ l, ends (l ++ [a]) = true) (rest : List α) :
    cutAfter ends begun (s ++ a :: rest) =
      cutAfter ends begun (s ++ [a]) ++ cutAfter ends [] rest := by
  induction s generalizing begun with
  | nil =>
      rw [List.nil_append, List.nil_append, cutAfter, cutAfter, if_pos (h _),
        if_pos (h _)]
      rfl
  | cons b s ih =>
      rw [List.cons_append, List.cons_append, cutAfter, cutAfter]
      by_cases hEnds : ends (begun ++ [b]) = true
      · rw [if_pos hEnds, if_pos hEnds, ih, List.cons_append]
      · rw [if_neg hEnds, if_neg hEnds, ih]

end Cutting

end UnixHomework.Verified
