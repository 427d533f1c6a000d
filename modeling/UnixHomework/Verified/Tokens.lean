import Mathlib.Data.List.TakeWhile
import Mathlib.Tactic.Common

/-!
# Words and tokens

The words of a text are what is between its separators, without the empty
ones.  `strtok` is how C programs take them off the front of a string one by
one: it skips separators, cuts the token out, and goes on behind the separator
that ended it.  A loop that calls it at most `n` times finds the first `n`
words (`tokens_eq`).

Words that are put down one after the other, each with a separator behind it,
are found again (`words_flatten`).
-/

namespace UnixHomework.Verified

universe u

variable {α : Type u} [DecidableEq α] {sep : α} {s w : List α}

/-- The words of a text. -/
def words (sep : α) (s : List α) : List (List α) :=
  (s.splitOn sep).filter (· ≠ [])

/-- The first token of a string, and what is left of the string behind it. -/
def strtok (sep : α) (s : List α) : Option (List α × List α) :=
  match s.dropWhile (· = sep) with
  | [] => none
  | a :: rest => some ((a :: rest).takeWhile (· ≠ sep),
      ((a :: rest).dropWhile (· ≠ sep)).drop 1)

/-- The tokens that at most `n` calls find. -/
def tokens (sep : α) : Nat → List α → List (List α)
  | 0, _ => []
  | n + 1, s =>
      match strtok sep s with
      | none => []
      | some (token, rest) => token :: tokens sep n rest

/-! ## Words -/

@[simp] theorem words_nil (sep : α) : words sep [] = [] := by
  simp [words]

/-- A separator at the start. -/
@[simp] theorem words_sep_cons (sep : α) (s : List α) :
    words sep (sep :: s) = words sep s := by
  have hSplit : (sep :: s).splitOn sep = [] :: s.splitOn sep :=
    List.splitOn_append_cons_self_of_not_mem List.not_mem_nil s
  rw [words, hSplit, List.filter_cons]
  rfl

theorem words_dropWhile (sep : α) (s : List α) :
    words sep (s.dropWhile (· = sep)) = words sep s := by
  induction s with
  | nil => rfl
  | cons a s ih =>
      by_cases hSep : a = sep
      · subst hSep
        rw [List.dropWhile_cons_of_pos (by simp), ih, words_sep_cons]
      · rw [List.dropWhile_cons_of_neg (by simpa using hSep)]

/-- A text without separators is one word. -/
theorem words_of_notMem (hNil : w ≠ []) (h : sep ∉ w) : words sep w = [w] := by
  rw [words, List.splitOn_eq_singleton h]
  simp [hNil]

/-- A word at the start. -/
theorem words_append_sep (hNil : w ≠ []) (h : sep ∉ w) (s : List α) :
    words sep (w ++ sep :: s) = w :: words sep s := by
  rw [words, words, List.splitOn_append_cons_self_of_not_mem h]
  simp [hNil]

/-- **Words put down one after the other.** -/
theorem words_flatten {ws : List (List α)}
    (h : ∀ w ∈ ws, w ≠ [] ∧ sep ∉ w) :
    words sep (ws.map (· ++ [sep])).flatten = ws := by
  induction ws with
  | nil => exact words_nil sep
  | cons w ws ih =>
      have hFirst := h w List.mem_cons_self
      have hRest := ih fun w' h' => h w' (List.mem_cons_of_mem _ h')
      rw [List.map_cons, List.flatten_cons, List.append_assoc,
        List.singleton_append, words_append_sep hFirst.1 hFirst.2, hRest]

/-! ## The next token -/

/-- The text begins with these separators and this word; the tail is what
follows the word. -/
structure NextToken (sep : α) (s blanks word tail : List α) : Prop where
  /-- The text is these three, -/
  split : s = blanks ++ (word ++ tail)
  /-- only separators come first, -/
  blanks_eq : ∀ b ∈ blanks, b = sep
  /-- the word is one, -/
  nonempty : word ≠ []
  /-- without separators, -/
  free : sep ∉ word
  /-- and ends with the text or at a separator. -/
  ended : tail = [] ∨ tail = sep :: tail.drop 1

omit [DecidableEq α] in
theorem NextToken.ne_nil {blanks word tail : List α}
    (h : NextToken sep s blanks word tail) : s ≠ [] := by
  rw [h.split]
  simp [h.nonempty]

theorem words_blanks {blanks : List α} (h : ∀ b ∈ blanks, b = sep)
    (s : List α) : words sep (blanks ++ s) = words sep s := by
  induction blanks with
  | nil => rfl
  | cons b blanks ih =>
      rw [h b List.mem_cons_self, List.cons_append, words_sep_cons]
      exact ih fun c hc => h c (List.mem_cons_of_mem b hc)

/-- It is the first word. -/
theorem NextToken.words_eq {blanks word tail : List α}
    (h : NextToken sep s blanks word tail) :
    words sep s = word :: words sep (tail.drop 1) := by
  rw [h.split, words_blanks h.blanks_eq]
  rcases h.ended with hNil | hSep
  · rw [hNil, List.append_nil, List.drop_nil, words_nil]
    exact words_of_notMem h.nonempty h.free
  · rw [hSep]
    exact words_append_sep h.nonempty h.free _

/-- A word is ended by a separator, or by the end of the text. -/
theorem dropWhile_ne_cases (sep : α) (s : List α) :
    s.dropWhile (· ≠ sep) = [] ∨
      s.dropWhile (· ≠ sep) = sep :: (s.dropWhile (· ≠ sep)).drop 1 := by
  have hFirst := List.head?_dropWhile_not (fun b => decide (b ≠ sep)) s
  cases hEnd : s.dropWhile (· ≠ sep) with
  | nil => exact Or.inl rfl
  | cons b behind =>
      rw [hEnd] at hFirst
      have hSep : b = sep := by simpa using hFirst
      rw [hSep]
      exact Or.inr rfl

/-- A text is cut at its first separator. -/
theorem eq_takeWhile_append (h : sep ∈ s) :
    s = s.takeWhile (· ≠ sep) ++
      sep :: (s.dropWhile (· ≠ sep)).drop 1 := by
  have hSplit := List.takeWhile_append_dropWhile
    (p := fun b => decide (b ≠ sep)) (l := s)
  rcases dropWhile_ne_cases sep s with hNil | hSep
  · rw [hNil, List.append_nil] at hSplit
    rw [← hSplit] at h
    simpa using List.mem_takeWhile_imp h
  · rw [← hSep]
    exact hSplit.symm

/-- A text has a token behind its separators, or nothing. -/
theorem nextToken_of_dropWhile {a : α} {rest : List α}
    (h : s.dropWhile (· = sep) = a :: rest) :
    NextToken sep s (s.takeWhile (· = sep)) ((a :: rest).takeWhile (· ≠ sep))
      ((a :: rest).dropWhile (· ≠ sep)) where
  split := by
    rw [List.takeWhile_append_dropWhile, ← h, List.takeWhile_append_dropWhile]
  blanks_eq b hb := by simpa using List.mem_takeWhile_imp hb
  nonempty := by
    have hFirst := List.head?_dropWhile_not (fun b => decide (b = sep)) s
    rw [h] at hFirst
    rw [List.takeWhile_cons_of_pos (by simpa using hFirst)]
    exact List.cons_ne_nil _ _
  free hMem := by simpa using List.mem_takeWhile_imp hMem
  ended := dropWhile_ne_cases sep (a :: rest)

/-! ## Tokens -/

/-- **One call** of `strtok` takes the first word, if there is one. -/
theorem words_eq_strtok (sep : α) (s : List α) :
    words sep s =
      match strtok sep s with
      | none => []
      | some (token, rest) => token :: words sep rest := by
  rw [strtok]
  cases hStart : s.dropWhile (· = sep) with
  | nil => rw [← words_dropWhile, hStart, words_nil]
  | cons a rest => exact (nextToken_of_dropWhile hStart).words_eq

/-- **A loop of calls** takes the first words. -/
theorem tokens_eq (sep : α) (n : Nat) (s : List α) :
    tokens sep n s = (words sep s).take n := by
  induction n generalizing s with
  | zero => rw [tokens, List.take_zero]
  | succ n ih =>
      rw [tokens, words_eq_strtok]
      cases strtok sep s with
      | none => exact List.take_nil.symm
      | some next => exact congrArg (next.1 :: ·) (ih next.2)

end UnixHomework.Verified
