import UnixHomework.Ports.PipeShell
import UnixHomework.Verified.Chunks
import UnixHomework.Verified.Tokens
import Mathlib.Data.List.TakeDrop

/-!
# What the shells read

Both shells read their input with `fgets` into a buffer of 100 bytes, so a line
of more than 99 bytes, with its newline, is read in several pieces, and each
piece is taken for a line.  A line without words is executed as well, as a
command without a name, and so is an empty side of a pipeline.

This module compares two readings of an input: the commands started for the
pieces that `fgets` returns (`started`), and those of the lines as they were
typed (`typed`).  `started_eq_typed_iff` says where they agree: every line is
read whole and every command has words.  One more case comes out right by
accident (`StopsBehind`): the first piece of a long line has the same words as
the line, the second one says `exit`, and no command would have followed.

Here the pieces are those of the input.  What the children do to the standard
input that they share with the shell is in the next module.
-/

namespace UnixHomework.Ports.PipeShell

open UnixHomework.Verified

abbrev Args := List (List UInt8)

/-! ## The programs -/

def bufferSize : Nat := 100

/-- `fgets` stops behind a newline, or when the buffer has room for the NUL
only. -/
def endsRead (read : List UInt8) : Bool :=
  read.getLast? = some 10 || read.length = bufferSize - 1

/-- What the calls of `fgets` return, one after the other, where nobody else
moves the offset of the input. -/
def reads (stdin : List UInt8) : List (List UInt8) :=
  cutAfter endsRead [] stdin

/-- The string in `input`, after `input[strcspn(input, "\n")] = 0`. -/
def inputOf (read : List UInt8) : List UInt8 :=
  (cstr read).takeWhile (· ≠ 10)

/-- The loop of `parser`. -/
def parserArgs (input : List UInt8) : Args :=
  tokens 32 (maxArgs - 1) input

/-- The shell without pipes, and the one with them. -/
inductive Program where
  | bash
  | pipeShell

/-- The arguments of the children started for an input, where every `pipe` and
`fork` succeeds. -/
def Program.children : Program → List UInt8 → List Args
  | .bash, input => [parserArgs input]
  | .pipeShell, input =>
      if bar ∈ input then
        let cmd1 := input.takeWhile (· ≠ bar)
        let cmd2 := ((input.dropWhile (· ≠ bar)).drop 1).dropWhile (· = 32)
        [parserArgs cmd1, parserArgs cmd2]
      else [parserArgs input]

/-- The commands started for what has been read, each with the number of the
line that it comes from: that of the newlines read before it. -/
def started (p : Program) : Nat → List (List UInt8) → List (Nat × List Args)
  | _, [] => []
  | n, read :: rest =>
      if inputOf read = exitText then []
      else (n, p.children (inputOf read)) ::
        started p (if read.getLast? = some 10 then n + 1 else n) rest

/-! ## What was typed -/

def endsLine (line : List UInt8) : Bool :=
  line.getLast? = some 10

/-- The lines of the input, with their newlines.  The last one may have
none. -/
def lines (stdin : List UInt8) : List (List UInt8) :=
  cutAfter endsLine [] stdin

/-- A line without its newline. -/
def text (line : List UInt8) : List UInt8 :=
  line.takeWhile (· ≠ 10)

def Blank (text : List UInt8) : Prop :=
  ∀ b ∈ text, b = 32

instance (text : List UInt8) : Decidable (Blank text) :=
  List.decidableBAll (· = 32) text

/-- The first 19 words. -/
def argsOf (text : List UInt8) : Args :=
  (words 32 text).take (maxArgs - 1)

/-- The command of a line.  With pipes, one with `|` is two commands, of what
is before the first `|` and of what is behind it. -/
def Program.command : Program → List UInt8 → List Args
  | .bash, text => [argsOf text]
  | .pipeShell, text =>
      if bar ∈ text then
        [argsOf (text.takeWhile (· ≠ bar)),
          argsOf ((text.dropWhile (· ≠ bar)).drop 1)]
      else [argsOf text]

/-- The commands of the lines before `exit` that are not blank, with their
numbers. -/
def typed (p : Program) : Nat → List (List UInt8) → List (Nat × List Args)
  | _, [] => []
  | n, line :: rest =>
      if text line = exitText then []
      else if Blank (text line) then typed p (n + 1) rest
      else (n, p.command (text line)) :: typed p (n + 1) rest

/-! ## Where they agree -/

/-- The line is read in one piece, and no NUL in it hides a part of its
command or makes it read `exit`; all arguments begin with a name. -/
structure ReadWhole (p : Program) (line : List UInt8) : Prop where
  short : line.length ≤ 99
  goesOn : inputOf line ≠ exitText
  same : p.command (inputOf line) = p.command (text line)
  named : ∀ args ∈ p.command (text line), args ≠ []

/-- The line is longer, but its first piece has its command, and the next one
reads `exit`. -/
structure StopsBehind (p : Program) (line : List UInt8) : Prop where
  long : 99 < line.length
  goesOn : inputOf (line.take 99) ≠ exitText
  same : p.command (inputOf (line.take 99)) = p.command (text line)
  named : ∀ args ∈ p.command (text line), args ≠ []
  stops : inputOf ((line.drop 99).take 99) = exitText

/-- All lines before `exit` are blank. -/
def NothingTyped (rest : List (List UInt8)) : Prop :=
  ∀ line ∈ rest.takeWhile (text · ≠ exitText), Blank (text line)

/-- Every line before `exit` is read whole, or the rest is left out with
nothing lost. -/
def Readable (p : Program) : List (List UInt8) → Prop
  | [] => True
  | line :: rest =>
      text line = exitText ∨ ReadWhole p line ∧ Readable p rest ∨
        StopsBehind p line ∧ NothingTyped rest

/-! ## Commands -/

theorem parserArgs_eq (input : List UInt8) :
    parserArgs input = argsOf input :=
  tokens_eq 32 (maxArgs - 1) input

/-- `strtok` finds the words of `parser`. -/
theorem parser_eq (input : List UInt8) : parser input = parserArgs input :=
  (parserArgs_eq input).symm

/-- The spaces skipped behind `|` do not matter. -/
theorem children_eq (p : Program) (input : List UInt8) :
    p.children input = p.command input := by
  cases p with
  | bash => rw [Program.children, Program.command, parserArgs_eq]
  | pipeShell =>
      rw [Program.children, Program.command]
      simp only [parserArgs_eq, argsOf, words_dropWhile]

/-- **A turn of the shell** in which all calls succeed starts these children
and waits for them, or for the one that `wait` returns. -/
theorem shellStep_children {s next : Shell} {input : List UInt8}
    {k : Answers} {fd : Nat × Nat} {pid1 pid2 : Nat}
    (hPipe : k.pipe = some fd) (hFork1 : k.fork1 = some pid1)
    (hFork2 : k.fork2 = some pid2) (hGoesOn : input ≠ exitText)
    (hStep : shellStep s (.line input k) = some next) :
    next.children =
      (s.children ++ List.zipWith Child.mk [pid1, pid2]
        (Program.pipeShell.children input)).filter
          fun c => c.pid ∉ if bar ∈ input then [pid1, pid2] else [k.wait] := by
  obtain ⟨-, hLine⟩ := Option.ite_none_right_eq_some.mp hStep
  rw [if_neg hGoesOn] at hLine
  by_cases hBar : bar ∈ input
  · rw [if_pos hBar, pipeline, hPipe] at hLine
    simp only [hFork1, hFork2, Option.bind_eq_bind] at hLine
    obtain ⟨s1, h1, hLine⟩ := Option.bind_eq_some_iff.mp hLine
    obtain ⟨s2, h2, hLine⟩ := Option.bind_eq_some_iff.mp hLine
    obtain ⟨s3, h3, hLine⟩ := Option.bind_eq_some_iff.mp hLine
    obtain rfl := pipe_eq_some h1
    obtain ⟨-, rfl⟩ := fork_eq_some h2
    obtain ⟨-, rfl⟩ := fork_eq_some h3
    obtain rfl := Option.some.inj hLine
    rw [Program.children, if_pos hBar, if_pos hBar]
    show List.filter _ (List.filter _ (s.children ++ [_] ++ [_])) = _
    rw [List.filter_filter, List.append_assoc, parser_eq, parser_eq]
    apply List.filter_congr
    intro c _
    simp [Bool.and_comm]
  · rw [if_neg hBar, plain, hFork1] at hLine
    simp only [Option.bind_eq_bind] at hLine
    obtain ⟨s1, h1, hRest⟩ := Option.bind_eq_some_iff.mp hLine
    obtain ⟨s2, h2, hNext⟩ := Option.bind_eq_some_iff.mp hRest
    obtain ⟨-, rfl⟩ := fork_eq_some h1
    obtain rfl := Option.some.inj hNext
    rw [Shell.wait, if_neg (List.concat_ne_nil _ _)] at h2
    obtain ⟨-, hWait⟩ := Option.ite_none_right_eq_some.mp h2
    obtain rfl := Option.some.inj hWait
    rw [Program.children, if_neg hBar, if_neg hBar, parser_eq]
    show List.filter _ (s.children ++ [_]) = List.filter _ (s.children ++ [_])
    apply List.filter_congr
    intro c _
    simp

theorem command_of_blank {s : List UInt8} (h : Blank s) (p : Program) :
    p.command s = [[]] := by
  have hWords : argsOf s = [] := by
    have hNone : s.dropWhile (· = 32) = [] := by
      rw [List.dropWhile_eq_nil_iff]
      intro b hb
      simpa using h b hb
    rw [argsOf, ← words_dropWhile, hNone, words_nil, List.take_nil]
  have hBar : bar ∉ s := by
    intro hMem
    exact absurd (h bar hMem) (by decide)
  cases p with
  | bash => rw [Program.command, hWords]
  | pipeShell => rw [Program.command, if_neg hBar, hWords]

/-! ## Lines and reads -/

/-- At least one byte, and no newline but the last one. -/
structure OneLine (line : List UInt8) : Prop where
  nonempty : line ≠ []
  inner : (10 : UInt8) ∉ line.dropLast

/-- Lines of which only the last one may have no newline. -/
inductive Lines : List (List UInt8) → Prop where
  | nil : Lines []
  | cons {line rest} : OneLine line → line.getLast? = some 10 ∨ rest = [] →
      Lines rest → Lines (line :: rest)

section OneLine

variable {line : List UInt8}

theorem OneLine.of_notMem (hNil : line ≠ []) (h : (10 : UInt8) ∉ line) :
    OneLine line where
  nonempty := hNil
  inner hMem := h (List.dropLast_subset line hMem)

theorem oneLine_concat {t : List UInt8} (h : (10 : UInt8) ∉ t) :
    OneLine (t ++ [10]) where
  nonempty := List.concat_ne_nil _ _
  inner := by
    rw [List.dropLast_concat]
    exact h

theorem OneLine.drop (h : OneLine line) {k : Nat} (hk : k < line.length) :
    OneLine (line.drop k) where
  nonempty hNil := by
    rw [List.drop_eq_nil_iff] at hNil
    omega
  inner hMem := by
    rw [List.dropLast_drop_eq_drop_dropLast] at hMem
    exact h.inner (List.mem_of_mem_drop hMem)

/-- What is before the end of a line has no newline. -/
theorem OneLine.notMem_of_prefix (h : OneLine line) {pre : List UInt8}
    (hPre : pre <+: line) (hShort : pre ≠ line) : (10 : UInt8) ∉ pre := by
  intro hMem
  rw [← List.dropLast_append_getLast h.nonempty,
    List.prefix_concat_iff] at hPre
  rcases hPre with hEq | hInner
  · exact hShort (hEq.trans (List.dropLast_append_getLast h.nonempty))
  · exact h.inner (hInner.subset hMem)

theorem getLast?_ne_of_notMem {s : List UInt8} (h : (10 : UInt8) ∉ s) :
    s.getLast? ≠ some 10 :=
  fun hLast => h (List.mem_of_getLast? hLast)

theorem OneLine.endsLast_line (h : OneLine line) :
    EndsLast endsLine [] line := by
  intro pre hPre _ hShort
  have hNone := getLast?_ne_of_notMem (h.notMem_of_prefix hPre hShort)
  rw [List.nil_append, endsLine]
  simpa using hNone

/-- Up to the newline and less than 99 bytes, `fgets` goes on. -/
theorem endsLast_read {s : List UInt8}
    (hNone : ∀ pre, pre <+: s → pre ≠ s → (10 : UInt8) ∉ pre)
    (hShort : s.length ≤ 99) : EndsLast endsRead [] s := by
  intro pre hPre _ hPart
  have hLast := getLast?_ne_of_notMem (hNone pre hPre hPart)
  have hLength : pre.length < 99 := by
    by_contra hLong
    exact hPart (hPre.eq_of_length_le (by omega))
  rw [List.nil_append, endsRead, bufferSize]
  simp only [Bool.or_eq_false_iff, decide_eq_false_iff_not]
  exact ⟨hLast, by omega⟩

/-- **A short line** is read whole. -/
theorem OneLine.reads_short (h : OneLine line) (hShort : line.length ≤ 99) :
    reads line = [line] := by
  apply cutAfter_whole (by exact h.nonempty)
  exact endsLast_read (fun pre hPre hPart => h.notMem_of_prefix hPre hPart)
    hShort

theorem OneLine.take_notMem (h : OneLine line) (hLong : 99 < line.length) :
    (10 : UInt8) ∉ line.take 99 := by
  apply h.notMem_of_prefix (List.take_prefix 99 line)
  intro hEq
  have hLength := congrArg List.length hEq
  rw [List.length_take] at hLength
  omega

/-- **A long line** is read in pieces of 99 bytes. -/
theorem OneLine.reads_long (h : OneLine line) (hLong : 99 < line.length) :
    reads line = line.take 99 :: reads (line.drop 99) := by
  have hLength : (line.take 99).length = 99 := by
    rw [List.length_take]
    omega
  have hNil : line.take 99 ≠ [] := by
    intro hNil
    rw [hNil] at hLength
    contradiction
  conv_lhs => rw [← List.take_append_drop 99 line]
  apply cutAfter_append hNil
  · rw [List.nil_append, endsRead, bufferSize, hLength]
    exact Bool.or_true _
  · apply endsLast_read _ (Nat.le_of_eq hLength)
    intro pre hPre _ hMem
    exact h.take_notMem hLong (hPre.subset hMem)

/-- The first piece of a line. -/
theorem OneLine.reads_first (h : OneLine line) :
    ∃ more, reads line = line.take 99 :: more := by
  by_cases hShort : line.length ≤ 99
  · refine ⟨[], ?_⟩
    rw [h.reads_short hShort, List.take_of_length_le hShort]
  · exact ⟨_, h.reads_long (by omega)⟩

end OneLine

/-- **The lines of an input**, and that no read goes beyond its line. -/
theorem lines_spec (stdin : List UInt8) :
    Lines (lines stdin) ∧ reads stdin = (lines stdin).flatMap reads := by
  induction hLength : stdin.length using Nat.strong_induction_on
    generalizing stdin with
  | _ k ih =>
      by_cases hNewline : (10 : UInt8) ∈ stdin
      · obtain ⟨t, rest, rfl, hFirst⟩ := List.eq_append_cons_of_mem hNewline
        have hOne := oneLine_concat hFirst
        have hEnds : ∀ l : List UInt8, (l ++ [10]).getLast? = some 10 :=
          fun l => List.getLast?_concat
        have hRest := ih rest.length (by
          rw [← hLength, List.length_append, List.length_cons]
          omega) rest rfl
        have hLines : lines (t ++ 10 :: rest) = (t ++ [10]) :: lines rest := by
          rw [List.append_cons]
          exact cutAfter_append hOne.nonempty (by simp [endsLine])
            hOne.endsLast_line rest
        have hReads : reads (t ++ 10 :: rest) =
            reads (t ++ [10]) ++ reads rest :=
          cutAfter_append_of_ends (fun l => by simp [endsRead]) rest
        rw [hLines, hReads, List.flatMap_cons, ← hRest.2]
        exact ⟨.cons hOne (Or.inl (hEnds t)) hRest.1, rfl⟩
      · by_cases hNil : stdin = []
        · subst hNil
          exact ⟨.nil, rfl⟩
        · have hOne := OneLine.of_notMem hNil hNewline
          have hLines : lines stdin = [stdin] :=
            cutAfter_whole hNil hOne.endsLast_line
          rw [hLines, List.flatMap_singleton]
          exact ⟨.cons hOne (Or.inr rfl) .nil, rfl⟩

/-! ## Texts -/

section Text

variable {line : List UInt8}

/-- A line is its text, with or without a newline. -/
theorem OneLine.text_cases (h : OneLine line) :
    line = text line ∨ line = text line ++ [10] := by
  have hInner : ∀ b ∈ line.dropLast, decide (b ≠ 10) = true := by
    intro b hb
    rw [decide_eq_true_eq]
    rintro rfl
    exact h.inner hb
  have hLine := List.dropLast_append_getLast h.nonempty
  by_cases hLast : line.getLast h.nonempty = 10
  · rw [hLast] at hLine
    have hText : text line = line.dropLast := by
      rw [text, ← hLine, List.takeWhile_append_of_pos hInner,
        List.dropLast_concat]
      exact List.append_nil _
    exact Or.inr (hText ▸ hLine.symm)
  · have hText : text line = line := by
      rw [text, ← hLine, List.takeWhile_append_of_pos hInner,
        List.takeWhile_cons_of_pos (by simpa using hLast), List.takeWhile_nil]
    exact Or.inl hText.symm

theorem OneLine.mem_text (h : OneLine line) {b : UInt8} (hMem : b ∈ line)
    (hb : b ≠ 10) : b ∈ text line := by
  rcases h.text_cases with hLine | hLine
  · rw [← hLine]
    exact hMem
  · rw [hLine] at hMem
    rcases List.mem_append.mp hMem with hText | hNewline
    · exact hText
    · exact absurd (List.mem_singleton.mp hNewline) hb

theorem mem_of_mem_inputOf {read : List UInt8} {b : UInt8}
    (h : b ∈ inputOf read) : b ∈ read :=
  (List.takeWhile_subset _) ((List.takeWhile_subset _) h)

/-- A line with a piece that reads `exit` is not blank. -/
theorem OneLine.not_blank (h : OneLine line) {read : List UInt8}
    (hRead : read ⊆ line) (hExit : inputOf read = exitText) :
    ¬Blank (text line) := by
  intro hBlank
  have hMem : (101 : UInt8) ∈ inputOf read := by
    rw [hExit]
    decide
  have hText := h.mem_text (hRead (mem_of_mem_inputOf hMem)) (by decide)
  exact absurd (hBlank 101 hText) (by decide)

/-- `exit` is read as it is typed. -/
theorem OneLine.reads_exit (h : OneLine line) (hExit : text line = exitText) :
    reads line = [line] ∧ inputOf line = exitText := by
  have hCases := h.text_cases
  rw [hExit] at hCases
  rcases hCases with rfl | rfl
  · exact ⟨by decide +kernel, by decide⟩
  · exact ⟨by decide +kernel, by decide⟩

/-- The commands typed have the numbers of their lines. -/
theorem le_of_mem_typed {p : Program} {n : Nat} {rest : List (List UInt8)}
    {c : Nat × List Args} (h : c ∈ typed p n rest) : n ≤ c.1 := by
  induction rest generalizing n with
  | nil => exact absurd h List.not_mem_nil
  | cons line rest ih =>
      rw [typed] at h
      by_cases hExit : text line = exitText
      · rw [if_pos hExit] at h
        exact absurd h List.not_mem_nil
      · rw [if_neg hExit] at h
        by_cases hBlank : Blank (text line)
        · rw [if_pos hBlank] at h
          exact Nat.le_of_succ_le (ih h)
        · rw [if_neg hBlank] at h
          rcases List.mem_cons.mp h with rfl | hRest
          · exact Nat.le_refl _
          · exact Nat.le_of_succ_le (ih hRest)

/-- No later line has the number of this one. -/
theorem number_notMem_typed (p : Program) (n : Nat) (c : List Args)
    (rest : List (List UInt8)) : (n, c) ∉ typed p (n + 1) rest :=
  fun h => Nat.not_succ_le_self n (le_of_mem_typed h)

theorem typed_eq_nil_iff {p : Program} {n : Nat}
    {rest : List (List UInt8)} : typed p n rest = [] ↔ NothingTyped rest := by
  induction rest generalizing n with
  | nil => exact iff_of_true rfl fun line h => absurd h List.not_mem_nil
  | cons line rest ih =>
      rw [typed, NothingTyped]
      by_cases hExit : text line = exitText
      · rw [if_pos hExit, List.takeWhile_cons_of_neg (by simpa using hExit)]
        exact iff_of_true rfl fun line h => absurd h List.not_mem_nil
      · rw [if_neg hExit, List.takeWhile_cons_of_pos (by simpa using hExit),
          List.forall_mem_cons]
        by_cases hBlank : Blank (text line)
        · rw [if_pos hBlank, ih]
          exact ⟨fun h => ⟨hBlank, h⟩, fun h => h.2⟩
        · rw [if_neg hBlank]
          exact iff_of_false (List.cons_ne_nil _ _) fun h => hBlank h.1

end Text

/-! ## Line by line -/

/-- The two readings agree on the lines from number `n` on, and every child
has a name. -/
def RunsRest (p : Program) (n : Nat) (rest : List (List UInt8)) : Prop :=
  started p n (rest.flatMap reads) = typed p n rest ∧
    ∀ c ∈ started p n (rest.flatMap reads), ∀ args ∈ c.2, args ≠ []

section Steps

variable {p : Program} {n : Nat} {line : List UInt8}
  {rest : List (List UInt8)}

/-- Nothing has been started, though the line has words. -/
theorem not_runsRest_of_nil
    (hStarted : started p n ((line :: rest).flatMap reads) = [])
    (hExit : text line ≠ exitText) (hWords : ¬Blank (text line)) :
    ¬RunsRest p n (line :: rest) := by
  intro hRuns
  have hTyped := hRuns.1
  rw [hStarted, typed, if_neg hExit, if_neg hWords] at hTyped
  contradiction

/-- A blank line has been executed. -/
theorem not_runsRest_of_blank {c : List Args}
    {more : List (Nat × List Args)}
    (hStarted : started p n ((line :: rest).flatMap reads) = (n, c) :: more)
    (hExit : text line ≠ exitText) (hBlank : Blank (text line)) :
    ¬RunsRest p n (line :: rest) := by
  intro hRuns
  have hTyped := hRuns.1
  rw [hStarted, typed, if_neg hExit, if_pos hBlank] at hTyped
  exact number_notMem_typed p n c rest (hTyped ▸ List.mem_cons_self)

/-- The first command of a line that has words. -/
theorem runsRest_cons_iff {c : List Args} {more : List (Nat × List Args)}
    (hStarted : started p n ((line :: rest).flatMap reads) = (n, c) :: more)
    (hExit : text line ≠ exitText) (hWords : ¬Blank (text line)) :
    RunsRest p n (line :: rest) ↔
      (c = p.command (text line) ∧ ∀ args ∈ p.command (text line), args ≠ []) ∧
        more = typed p (n + 1) rest ∧
          ∀ c ∈ more, ∀ args ∈ c.2, args ≠ [] := by
  rw [RunsRest, hStarted, typed, if_neg hExit, if_neg hWords, List.cons.injEq,
    Prod.mk.injEq, List.forall_mem_cons]
  constructor
  · rintro ⟨⟨⟨-, hSame⟩, hMore⟩, hNamed, hRest⟩
    exact ⟨⟨hSame, hSame ▸ hNamed⟩, hMore, hRest⟩
  · rintro ⟨⟨hSame, hNamed⟩, hMore, hRest⟩
    exact ⟨⟨⟨rfl, hSame⟩, hMore⟩, hSame ▸ hNamed, hRest⟩

/-- A command without names is not called for. -/
theorem not_blank_of_named {s : List UInt8}
    (h : ∀ args ∈ p.command s, args ≠ []) : ¬Blank s := by
  intro hBlank
  apply h []
  · rw [command_of_blank hBlank p]
    exact List.mem_singleton_self _
  · rfl

/-- The first piece reads `exit`. -/
theorem started_of_exit (p : Program) (n : Nat) (rest : List (List UInt8))
    (hOne : OneLine line) (hExit : inputOf (line.take 99) = exitText) :
    started p n ((line :: rest).flatMap reads) = [] := by
  obtain ⟨more, hReads⟩ := hOne.reads_first
  rw [List.flatMap_cons, hReads, List.cons_append, started, if_pos hExit]

theorem started_short (p : Program) (n : Nat) (hOne : OneLine line)
    (hShort : line.length ≤ 99)
    (hEnd : line.getLast? = some 10 ∨ rest = [])
    (hGoesOn : inputOf line ≠ exitText) :
    started p n ((line :: rest).flatMap reads) =
      (n, p.command (inputOf line)) ::
        started p (n + 1) (rest.flatMap reads) := by
  rw [List.flatMap_cons, hOne.reads_short hShort, List.singleton_append,
    started, if_neg hGoesOn, children_eq]
  rcases hEnd with hNewline | rfl
  · rw [if_pos hNewline]
  · rfl

theorem started_long (p : Program) (n : Nat) (rest : List (List UInt8))
    (hOne : OneLine line) (hLong : 99 < line.length)
    (hGoesOn : inputOf (line.take 99) ≠ exitText) :
    started p n ((line :: rest).flatMap reads) =
      (n, p.command (inputOf (line.take 99))) ::
        started p n (reads (line.drop 99) ++ rest.flatMap reads) := by
  have hInside := getLast?_ne_of_notMem (hOne.take_notMem hLong)
  rw [List.flatMap_cons, hOne.reads_long hLong, List.cons_append, started,
    if_neg hGoesOn, if_neg hInside, children_eq]

/-- **A short line** runs as typed if it is read whole and the rest runs. -/
theorem runsRest_short_iff (hOne : OneLine line) (hShort : line.length ≤ 99)
    (hEnd : line.getLast? = some 10 ∨ rest = [])
    (hExit : text line ≠ exitText) :
    RunsRest p n (line :: rest) ↔
      ReadWhole p line ∧ RunsRest p (n + 1) rest := by
  have hTake : line.take 99 = line := List.take_of_length_le hShort
  by_cases hGoesOn : inputOf line = exitText
  · have hNone := started_of_exit p n rest hOne (hTake.symm ▸ hGoesOn)
    have hWords := hOne.not_blank (List.Subset.refl line) hGoesOn
    exact iff_of_false (not_runsRest_of_nil hNone hExit hWords)
      fun h => h.1.goesOn hGoesOn
  · have hStarted := started_short p n hOne hShort hEnd hGoesOn
    by_cases hBlank : Blank (text line)
    · exact iff_of_false (not_runsRest_of_blank hStarted hExit hBlank)
        fun h => not_blank_of_named h.1.named hBlank
    · rw [runsRest_cons_iff hStarted hExit hBlank]
      constructor
      · intro h
        exact ⟨⟨hShort, hGoesOn, h.1.1, h.1.2⟩, h.2⟩
      · intro h
        exact ⟨⟨h.1.same, h.1.named⟩, h.2⟩

/-- **A long line** runs as typed only if its second piece stops the shell and
nothing else was typed. -/
theorem runsRest_long_iff (hOne : OneLine line) (hLong : 99 < line.length)
    (hExit : text line ≠ exitText) :
    RunsRest p n (line :: rest) ↔
      StopsBehind p line ∧ NothingTyped rest := by
  by_cases hGoesOn : inputOf (line.take 99) = exitText
  · have hNone := started_of_exit p n rest hOne hGoesOn
    have hWords := hOne.not_blank (List.take_subset 99 line) hGoesOn
    exact iff_of_false (not_runsRest_of_nil hNone hExit hWords)
      fun h => h.1.goesOn hGoesOn
  · have hStarted := started_long p n rest hOne hLong hGoesOn
    by_cases hBlank : Blank (text line)
    · exact iff_of_false (not_runsRest_of_blank hStarted hExit hBlank)
        fun h => not_blank_of_named h.1.named hBlank
    · rw [runsRest_cons_iff hStarted hExit hBlank]
      obtain ⟨more, hReads⟩ := (hOne.drop hLong).reads_first
      rw [hReads, List.cons_append, started]
      by_cases hStops : inputOf ((line.drop 99).take 99) = exitText
      · rw [if_pos hStops]
        constructor
        · intro h
          exact ⟨⟨hLong, hGoesOn, h.1.1, h.1.2, hStops⟩,
            typed_eq_nil_iff.mp h.2.1.symm⟩
        · intro h
          exact ⟨⟨h.1.same, h.1.named⟩, (typed_eq_nil_iff.mpr h.2).symm,
            fun c hc => absurd hc List.not_mem_nil⟩
      · -- a second command with the number of this line
        rw [if_neg hStops]
        refine iff_of_false (fun h => ?_) fun h => hStops h.1.stops
        exact number_notMem_typed p n _ rest (h.2.1 ▸ List.mem_cons_self)

/-- **One line**, where the rest is decided. -/
theorem runsRest_cons_iff_readable (hOne : OneLine line)
    (hEnd : line.getLast? = some 10 ∨ rest = [])
    (ih : ∀ k, RunsRest p k rest ↔ Readable p rest) :
    RunsRest p n (line :: rest) ↔ Readable p (line :: rest) := by
  rw [Readable]
  by_cases hExit : text line = exitText
  · have hRead := hOne.reads_exit hExit
    have hStarted : started p n ((line :: rest).flatMap reads) = [] := by
      rw [List.flatMap_cons, hRead.1, List.singleton_append, started,
        if_pos hRead.2]
    have hTyped : typed p n (line :: rest) = [] := by
      rw [typed, if_pos hExit]
    rw [RunsRest, hStarted, hTyped]
    exact iff_of_true ⟨rfl, fun c hc => absurd hc List.not_mem_nil⟩
      (Or.inl hExit)
  · by_cases hShort : line.length ≤ 99
    · rw [runsRest_short_iff hOne hShort hEnd hExit, ih]
      constructor
      · exact fun h => Or.inr (Or.inl h)
      · rintro (h | h | h)
        · exact absurd h hExit
        · exact h
        · exact absurd h.1.long (by omega)
    · rw [runsRest_long_iff hOne (by omega) hExit]
      constructor
      · exact fun h => Or.inr (Or.inr h)
      · rintro (h | h | h)
        · exact absurd h hExit
        · exact absurd h.1.short hShort
        · exact h

end Steps

/-- Induction over the lines. -/
theorem runsRest_iff (p : Program) {rest : List (List UInt8)} (h : Lines rest)
    (n : Nat) : RunsRest p n rest ↔ Readable p rest := by
  induction h generalizing n with
  | nil =>
      exact iff_of_true ⟨rfl, fun c hc => absurd hc List.not_mem_nil⟩ trivial
  | cons hOne hEnd _ ih => exact runsRest_cons_iff_readable hOne hEnd ih

/-- **Exactly the inputs whose pieces are what was typed**, with a name for
every child. -/
theorem started_eq_typed_iff (p : Program) (stdin : List UInt8) :
    (started p 0 (reads stdin) = typed p 0 (lines stdin) ∧
        ∀ c ∈ started p 0 (reads stdin), ∀ args ∈ c.2, args ≠ []) ↔
      Readable p (lines stdin) := by
  have hSpec := lines_spec stdin
  rw [← runsRest_iff p hSpec.1 0, RunsRest, ← hSpec.2]

end UnixHomework.Ports.PipeShell
