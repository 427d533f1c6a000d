import UnixHomework.Verified.Tokens

/-!
# Paths and their components

An absolute path is written with a separator before each of its components,
the root as a separator alone.  The components are its words (`words_pathOf`),
whatever separators are added, and the last separator, which `strrchr` finds,
is where the parent ends (`lastIndexOf_concat`).
-/

namespace UnixHomework.Verified

universe u

variable {α : Type u} {sep : α} {cs : List (List α)}
  {c : List α}

/-- Something between separators. -/
structure Component (sep : α) (c : List α) : Prop where
  /-- There is something, -/
  nonempty : c ≠ []
  /-- and no separator in it. -/
  noSep : sep ∉ c

/-- The components, each behind a separator. -/
def behind (sep : α) (cs : List (List α)) : List α :=
  cs.flatMap (sep :: ·)

/-- The path with these components.  Only that of the root ends in a
separator. -/
def pathOf (sep : α) (cs : List (List α)) : List α :=
  if cs = [] then [sep] else behind sep cs

/-- A separator and a component end in the component. -/
theorem Component.getLast?_cons_ne (h : Component sep c) :
    (sep :: c).getLast? ≠ some sep := by
  intro hLast
  rcases List.exists_cons_of_ne_nil h.nonempty with ⟨a, s, rfl⟩
  rw [List.getLast?_cons_cons] at hLast
  exact h.noSep (List.mem_of_getLast? hLast)

/-! ## Writing a path -/

@[simp] theorem behind_nil (sep : α) : behind sep [] = [] := rfl

theorem behind_cons (sep : α) (c : List α) (cs : List (List α)) :
    behind sep (c :: cs) = sep :: (c ++ behind sep cs) :=
  List.flatMap_cons

theorem behind_concat (sep : α) (cs : List (List α)) (c : List α) :
    behind sep (cs ++ [c]) = behind sep cs ++ sep :: c := by
  rw [behind, List.flatMap_append, List.flatMap_singleton]
  rfl

@[simp] theorem pathOf_nil (sep : α) : pathOf sep [] = [sep] := rfl

theorem pathOf_cons (sep : α) (c : List α) (cs : List (List α)) :
    pathOf sep (c :: cs) = behind sep (c :: cs) :=
  if_neg (List.cons_ne_nil c cs)

theorem pathOf_concat (sep : α) (cs : List (List α)) (c : List α) :
    pathOf sep (cs ++ [c]) = behind sep cs ++ sep :: c := by
  rw [pathOf, if_neg (List.concat_ne_nil _ _), behind_concat]

/-- Every path starts with a separator. -/
theorem pathOf_head (sep : α) (cs : List (List α)) :
    ∃ rest, pathOf sep cs = sep :: rest := by
  cases cs with
  | nil => exact ⟨[], rfl⟩
  | cons c cs => exact ⟨_, (pathOf_cons sep c cs).trans (behind_cons sep c cs)⟩

/-! ## Reading a path -/

variable [DecidableEq α]

/-- The index of the last element of this kind, as `strrchr` finds it; `none`
is its `NULL`. -/
def lastIndexOf (a : α) : List α → Option Nat
  | [] => none
  | b :: s =>
      match lastIndexOf a s with
      | some i => some (i + 1)
      | none => if b = a then some 0 else none

theorem words_behind (h : ∀ c ∈ cs, Component sep c) :
    words sep (behind sep cs) = cs := by
  induction cs with
  | nil => exact words_nil sep
  | cons c cs ih =>
      have hFirst := h c List.mem_cons_self
      have hRest := ih fun c' h' => h c' (List.mem_cons_of_mem _ h')
      rw [behind_cons, words_sep_cons]
      cases cs with
      | nil =>
          rw [behind_nil, List.append_nil,
            words_of_notMem hFirst.nonempty hFirst.noSep]
      | cons c' cs =>
          rw [behind_cons, words_sep_cons] at hRest
          rw [behind_cons, words_append_sep hFirst.nonempty hFirst.noSep,
            hRest]

/-- **The components of a path** are its words, so a path can be taken apart
again. -/
theorem words_pathOf (h : ∀ c ∈ cs, Component sep c) :
    words sep (pathOf sep cs) = cs := by
  cases cs with
  | nil => rw [pathOf_nil, words_sep_cons, words_nil]
  | cons c cs => rw [pathOf_cons, words_behind h]

theorem lastIndexOf_of_notMem {a : α} {s : List α} (h : a ∉ s) :
    lastIndexOf a s = none := by
  induction s with
  | nil => rfl
  | cons b s ih =>
      rw [List.mem_cons, not_or] at h
      rw [lastIndexOf, ih h.2]
      exact if_neg (Ne.symm h.1)

theorem lastIndexOf_append_cons {a : α} (s : List α) {t : List α}
    (h : a ∉ t) : lastIndexOf a (s ++ a :: t) = some s.length := by
  induction s with
  | nil =>
      rw [List.nil_append, lastIndexOf, lastIndexOf_of_notMem h]
      exact if_pos rfl
  | cons b s ih =>
      rw [List.cons_append, lastIndexOf, ih]
      rfl

theorem lastIndexOf_lt {a : α} {s : List α} {k : Nat}
    (h : lastIndexOf a s = some k) : k < s.length := by
  induction s generalizing k with
  | nil => contradiction
  | cons b s ih =>
      rw [lastIndexOf] at h
      cases hRest : lastIndexOf a s with
      | some j =>
          rw [hRest] at h
          obtain rfl := Option.some.inj h
          exact Nat.succ_lt_succ (ih hRest)
      | none =>
          rw [hRest] at h
          obtain ⟨-, hZero⟩ := Option.ite_none_right_eq_some.mp h
          obtain rfl := Option.some.inj hZero
          exact Nat.zero_lt_succ _

theorem lastIndexOf_eq_none {a : α} {s : List α}
    (h : lastIndexOf a s = none) : a ∉ s := by
  induction s with
  | nil => exact List.not_mem_nil
  | cons b s ih =>
      rw [lastIndexOf] at h
      cases hRest : lastIndexOf a s with
      | some i => simp [hRest] at h
      | none =>
          have hNe : b ≠ a := by
            intro hSame
            simp [hRest, hSame] at h
          rw [List.mem_cons, not_or]
          exact ⟨Ne.symm hNe, ih hRest⟩

/-- The only separator is at the start. -/
theorem lastIndexOf_eq_zero_iff {a : α} {s : List α} :
    lastIndexOf a s = some 0 ↔ ∃ t, s = a :: t ∧ a ∉ t := by
  constructor
  · intro h
    cases s with
    | nil => contradiction
    | cons b s =>
        rw [lastIndexOf] at h
        cases hRest : lastIndexOf a s with
        | some i => simp [hRest] at h
        | none =>
            have hSame : b = a := by simpa [hRest] using h
            exact ⟨s, by rw [hSame], lastIndexOf_eq_none hRest⟩
  · rintro ⟨t, rfl, hNone⟩
    exact lastIndexOf_append_cons [] hNone

/-- **The parent ends** at the last separator, because a component has none. -/
theorem lastIndexOf_concat (cs : List (List α)) (h : Component sep c) :
    lastIndexOf sep (pathOf sep (cs ++ [c])) =
      some (behind sep cs).length := by
  rw [pathOf_concat, lastIndexOf_append_cons _ h.noSep]

/-- A component is added to a path. -/
theorem words_join (hc : Component sep c) (h : ∀ c ∈ cs, Component sep c) :
    words sep (pathOf sep cs ++ sep :: c) = cs ++ [c] := by
  cases cs with
  | nil =>
      rw [pathOf_nil, List.singleton_append, words_sep_cons, words_sep_cons,
        words_of_notMem hc.nonempty hc.noSep, List.nil_append]
  | cons c' cs =>
      rw [pathOf_cons, ← behind_concat]
      apply words_behind
      intro d hd
      rcases List.mem_append.mp hd with hOld | hNew
      · exact h d hOld
      · rw [List.mem_singleton.mp hNew]
        exact hc

end UnixHomework.Verified
