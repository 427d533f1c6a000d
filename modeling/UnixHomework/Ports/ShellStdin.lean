import UnixHomework.Ports.ShellInput
import UnixHomework.Verified.BufferedFile

/-!
# What the shells run

The shell reads its standard input in blocks and takes the lines from its
buffer.  Its children inherit the open file, and with it the offset, and a copy
of the buffer.  A child whose `execvp` fails calls `exit`, and `exit` moves the
offset back to the first byte that this copy has left: the rest of the buffer,
which the shell still has, is read a second time.  A terminal and a pipe have
no offset that could be moved.  In a pipeline only the first child has the
input of the shell; the second one has put the pipe in its place.

`run` is the loop of `main` over such an input.  `runsTyped_iff` says which
input is run as it was typed, where no child moves the offset.  A command that
is found leaves the input alone here: what it would take from a terminal or a
pipe does not belong to the bytes that the shell reads.
-/

namespace UnixHomework.Ports.PipeShell

open UnixHomework.Verified

/-! ## The program -/

/-- The standard input, whether its offset can be moved, and the commands for
which `execvp` fails. -/
structure Input where
  /-- What is read, and in which pieces. -/
  stdin : File UInt8
  /-- Its offset can be moved, as that of a regular file. -/
  seekable : Bool
  /-- The commands for which `execvp` fails. -/
  fails : Args → Bool

namespace Input

/-- `fgets(input, sizeof(input), stdin)`; nothing stands for `NULL`. -/
def fgets (i : Input) (r : Reader UInt8) : List UInt8 × Reader UInt8 :=
  i.stdin.line (· = 10) (bufferSize - 1) r

/-- The children of a command, until they have been waited for.  The buffer of
the first one is that of the shell at the `fork`. -/
def waited (i : Input) (children : List Args) (r : Reader UInt8) :
    Reader UInt8 :=
  if i.seekable && children.head?.any i.fails then r.sync else r

end Input

/-- The loop of `main`, for at most `fuel` turns: the commands started until it
has ended, each with the number of newlines read before it. -/
def Program.run (p : Program) (i : Input) :
    Nat → Nat → Reader UInt8 → Option (List (Nat × List Args))
  | 0, _, _ => none
  | fuel + 1, n, r =>
      let (read, r) := i.fgets r
      if read = [] then some []
      else if inputOf read = exitText then some []
      else
        let children := p.children (inputOf read)
        let n' := if read.getLast? = some 10 then n + 1 else n
        (p.run i fuel n' (i.waited children r)).map ((n, children) :: ·)

/-- **What is run is what was typed**: the shell ends, it has started the
commands of the lines, and every child has been given a name. -/
structure RunsTyped (p : Program) (i : Input) : Prop where
  commands : ∃ fuel,
    p.run i fuel 0 .start = some (typed p 0 (lines i.stdin.contents))
  named : ∀ fuel cmds, p.run i fuel 0 .start = some cmds →
    ∀ c ∈ cmds, ∀ args ∈ c.2, args ≠ []

/-- No child moves the offset: it cannot be moved, or every command that has
the shell's input is found, but for the last one, which leaves nothing
behind. -/
def Input.Unmoved (i : Input) (p : Program) : Prop :=
  i.seekable = false ∨
    ∀ c ∈ started p 0 (reads i.stdin.contents).dropLast,
      c.2.head?.any i.fails = false

instance (i : Input) (p : Program) : Decidable (i.Unmoved p) :=
  inferInstanceAs (Decidable (_ ∨ _))

/-! ## Reading -/

section Reading

variable {i : Input} {r : Reader UInt8}

theorem endsRead_concat (l : List UInt8) (a : UInt8) :
    endsRead (l ++ [a]) = (decide (a = 10) || l.length + 1 == 99) := by
  simp [endsRead, bufferSize, beq_eq_decide]

/-- The pieces of an input that goes on. -/
theorem reads_cons {s : List UInt8} (hs : s ≠ []) :
    reads s = File.firstLine (· = 10) 99 s ::
      reads (s.drop (File.firstLine (· = 10) 99 s).length) := by
  have hPiece : 0 < 99 := by decide
  exact File.cutAfter_firstLine endsRead_concat hPiece rfl hs

theorem Input.fgets_rest (h : i.stdin.Sound r) :
    (i.fgets r).1 = File.firstLine (· = 10) 99 (i.stdin.rest r) ∧
      i.stdin.rest (i.fgets r).2 = (i.stdin.rest r).drop
        (File.firstLine (· = 10) 99 (i.stdin.rest r)).length ∧
      i.stdin.Sound (i.fgets r).2 :=
  File.line_spec h 99

end Reading

/-! ## Runs -/

section Runs

variable {p : Program} {i : Input} {r : Reader UInt8}
  {cmds cmds' : List (Nat × List Args)}

/-- More fuel changes nothing. -/
theorem run_mono {fuel n : Nat} (h : p.run i fuel n r = some cmds) (k : Nat) :
    p.run i (fuel + k) n r = some cmds := by
  induction fuel generalizing n r cmds with
  | zero => contradiction
  | succ fuel ih =>
      rw [Nat.succ_add]
      rw [Program.run] at h ⊢
      by_cases hNull : (i.fgets r).1 = []
      · simpa [hNull] using h
      · by_cases hExit : inputOf (i.fgets r).1 = exitText
        · simpa [hNull, hExit] using h
        · simp only [hNull, hExit, if_false] at h ⊢
          obtain ⟨more, hMore, hCmds⟩ := Option.map_eq_some_iff.mp h
          rw [ih hMore, Option.map_some, hCmds]

/-- A run ends in one way only. -/
theorem run_unique {fuel fuel' n : Nat} (h : p.run i fuel n r = some cmds)
    (h' : p.run i fuel' n r = some cmds') : cmds = cmds' := by
  have hLeft := run_mono h fuel'
  have hRight := run_mono h' fuel
  rw [Nat.add_comm, hRight] at hLeft
  exact (Option.some.inj hLeft).symm

/-- **What `wait` leaves of the input**, where the child has been found or
nothing is left. -/
theorem waited_eq {children : List Args}
    (h : i.seekable = false ∨ r.buffer = [] ∨
      children.head?.any i.fails = false) : i.waited children r = r := by
  rw [Input.waited]
  rcases h with hFixed | hNil | hFound
  · rw [hFixed, Bool.false_and, if_neg Bool.false_ne_true]
  · split
    · rw [Reader.sync, if_pos (by simp [hNil]), hNil]
      exact congrArg (Reader.mk _ · _) hNil.symm
    · rfl
  · rw [hFound, Bool.and_false, if_neg Bool.false_ne_true]

/-- What the condition says of the first piece and of the others. -/
theorem stays_turn {n : Nat} {read s : List UInt8}
    (hExit : inputOf read ≠ exitText)
    (h : i.seekable = false ∨ ∀ c ∈ started p n (read :: reads s).dropLast,
      c.2.head?.any i.fails = false) :
    (i.seekable = false ∨ s = [] ∨
        (p.children (inputOf read)).head?.any i.fails = false) ∧
      (i.seekable = false ∨ ∀ c ∈
        started p (if read.getLast? = some 10 then n + 1 else n)
          (reads s).dropLast, c.2.head?.any i.fails = false) := by
  rcases h with hFixed | hFound
  · exact ⟨Or.inl hFixed, Or.inl hFixed⟩
  · by_cases hLast : s = []
    · subst hLast
      exact ⟨Or.inr (Or.inl rfl), Or.inr fun c hc => absurd hc List.not_mem_nil⟩
    · have hMore : reads s ≠ [] := by
        rw [reads_cons hLast]
        exact List.cons_ne_nil _ _
      rw [List.dropLast_cons_of_ne_nil hMore, started, if_neg hExit,
        List.forall_mem_cons] at hFound
      exact ⟨Or.inr (Or.inr hFound.1), Or.inr hFound.2⟩

/-- One turn, in which no child moves the offset. -/
theorem run_turn {fuel n : Nat} (hSound : i.stdin.Sound r)
    (hNil : i.stdin.rest r ≠ []) {read : List UInt8}
    (hRead : read = File.firstLine (· = 10) 99 (i.stdin.rest r))
    (hExit : inputOf read ≠ exitText)
    (hStay : i.waited (p.children (inputOf read)) (i.fgets r).2 =
      (i.fgets r).2) :
    p.run i (fuel + 1) n r =
      (p.run i fuel (if read.getLast? = some 10 then n + 1 else n)
        (i.fgets r).2).map ((n, p.children (inputOf read)) :: ·) := by
  have hFirst : (i.fgets r).1 = read :=
    (Input.fgets_rest hSound).1.trans hRead.symm
  have hLine : read ≠ [] :=
    hRead ▸ File.firstLine_ne_nil (by decide) hNil
  rw [Program.run]
  simp only [hFirst, hLine, hExit, if_false, hStay]

/-- **Where no child moves the offset**, the shell ends and has run the pieces
of its input. -/
theorem run_started {fuel n : Nat} (hSound : i.stdin.Sound r)
    (hFuel : (i.stdin.rest r).length < fuel)
    (hStay : i.seekable = false ∨
      ∀ c ∈ started p n (reads (i.stdin.rest r)).dropLast,
        c.2.head?.any i.fails = false) :
    p.run i fuel n r = some (started p n (reads (i.stdin.rest r))) := by
  induction fuel generalizing n r with
  | zero => exact absurd hFuel (Nat.not_lt_zero _)
  | succ fuel ih =>
      obtain ⟨hFirst, hRest, hNext⟩ := Input.fgets_rest hSound
      by_cases hNil : i.stdin.rest r = []
      · rw [hNil] at hFirst ⊢
        rw [Program.run]
        simp only [hFirst, File.firstLine, if_true]
        rfl
      · rw [reads_cons hNil] at hStay ⊢
        generalize hRead : File.firstLine (· = 10) 99 (i.stdin.rest r) = read
          at hFirst hRest hStay ⊢
        rw [← hRest] at hStay ⊢
        rw [started]
        by_cases hExit : inputOf read = exitText
        · have hLine : read ≠ [] :=
            hRead ▸ File.firstLine_ne_nil (by decide) hNil
          rw [Program.run]
          simp only [hFirst, hLine, hExit, if_false, if_true]
        · have hShorter : (i.stdin.rest (i.fgets r).2).length < fuel := by
            have hPos : 0 < read.length := List.length_pos_of_ne_nil
              (hRead ▸ File.firstLine_ne_nil (by decide) hNil)
            have hAll := List.length_pos_of_ne_nil hNil
            rw [hRest, List.length_drop]
            omega
          obtain ⟨hHere, hLater⟩ := stays_turn hExit hStay
          have hSame : i.waited (p.children (inputOf read)) (i.fgets r).2 =
              (i.fgets r).2 :=
            waited_eq (hHere.imp_right
              (Or.imp_left fun hEnd => (List.append_eq_nil_iff.mp hEnd).1))
          rw [run_turn hSound hNil hRead.symm hExit hSame, if_neg hExit,
            ih hNext hShorter hLater, Option.map_some]

end Runs

/-- **Exactly the inputs that run as they were typed**, of those that no child
moves back. -/
theorem runsTyped_iff (p : Program) (i : Input) (hUnmoved : i.Unmoved p) :
    RunsTyped p i ↔ Readable p (lines i.stdin.contents) := by
  have hRun : p.run i (i.stdin.contents.length + 1) 0 .start =
      some (started p 0 (reads i.stdin.contents)) :=
    run_started (File.sound_start _) (Nat.lt_succ_self _) hUnmoved
  rw [← started_eq_typed_iff]
  constructor
  · intro h
    obtain ⟨fuel, hTyped⟩ := h.commands
    exact ⟨run_unique hRun hTyped, h.named _ _ hRun⟩
  · rintro ⟨hTyped, hNamed⟩
    refine ⟨⟨_, hTyped ▸ hRun⟩, ?_⟩
    intro fuel cmds hCmds
    rw [run_unique hCmds hRun]
    exact hNamed

/-! ## Two inputs -/

/-- What a pipe gives, four bytes at a time. -/
def pipeInput (bytes : List UInt8) : Input where
  stdin := ⟨bytes, fun _ => 4, fun _ => Nat.succ_pos 3⟩
  seekable := false
  fails _ := false

/-- A regular file, read in blocks; the command `no` is not found. -/
def scriptInput (bytes : List UInt8) : Input where
  stdin := ⟨bytes, fun _ => 4096, fun _ => Nat.succ_pos 4095⟩
  seekable := true
  fails args := args == [ascii ['n', 'o']]

/-- A script whose last command is not found. -/
theorem runsTyped_script :
    RunsTyped .pipeShell (scriptInput
      (ascii ['l', 's', '|', 'w', 'c', '\n', 'n', 'o', '\n'])) := by
  refine (runsTyped_iff _ _ (by decide +kernel)).mpr ?_
  have hLines : lines (ascii ['l', 's', '|', 'w', 'c', '\n', 'n', 'o', '\n']) =
      [ascii ['l', 's', '|', 'w', 'c', '\n'], ascii ['n', 'o', '\n']] := by
    decide +kernel
  have hFirst : ReadWhole .pipeShell
      (ascii ['l', 's', '|', 'w', 'c', '\n']) :=
    ⟨by decide, by decide, by decide, by decide⟩
  have hSecond : ReadWhole .pipeShell (ascii ['n', 'o', '\n']) :=
    ⟨by decide, by decide, by decide, by decide⟩
  show Readable _ (lines (ascii _))
  rw [hLines]
  exact Or.inr (Or.inl ⟨hFirst, Or.inr (Or.inl ⟨hSecond, trivial⟩)⟩)

/-- A blank line, an empty side of a pipeline, a line of 99 bytes, and a script
with a command that is not found before another one. -/
theorem lines_misread :
    ¬RunsTyped .bash (pipeInput [10]) ∧
      ¬RunsTyped .bash
        (scriptInput (ascii ['n', 'o', '\n', 'l', 's', '\n'])) ∧
      Program.bash.run (pipeInput [10]) 2 0 .start = some [(0, [[]])] ∧
      Program.pipeShell.run (pipeInput [97, bar, 10]) 2 0 .start =
        some [(0, [[[97]], []])] ∧
      typed .bash 0 (lines (List.replicate 99 97 ++ [10])) =
        [(0, [[List.replicate 99 97]])] ∧
      Program.bash.run (pipeInput (List.replicate 99 97 ++ [10])) 3 0 .start =
        some [(0, [[List.replicate 99 97]]), (0, [[]])] ∧
      Program.bash.run (scriptInput (ascii ['n', 'o', '\n', 'l', 's', '\n']))
          4 0 .start =
        some [(0, [[ascii ['n', 'o']]]), (1, [[ascii ['l', 's']]]),
          (2, [[ascii ['l', 's']]])] := by
  have hBlank :
      Program.bash.run (pipeInput [10]) 2 0 .start = some [(0, [[]])] := by
    decide +kernel
  have hTwice : Program.bash.run
      (scriptInput (ascii ['n', 'o', '\n', 'l', 's', '\n'])) 4 0 .start =
        some [(0, [[ascii ['n', 'o']]]), (1, [[ascii ['l', 's']]]),
          (2, [[ascii ['l', 's']]])] := by
    decide +kernel
  refine ⟨?_, ?_, hBlank, by decide +kernel, by decide +kernel,
    by decide +kernel, hTwice⟩
  · intro h
    exact h.named 2 _ hBlank (0, [[]]) (List.mem_singleton_self _) []
      (List.mem_singleton_self _) rfl
  · intro h
    obtain ⟨fuel, hTyped⟩ := h.commands
    have hSame := run_unique hTwice hTyped
    revert hSame
    show _ = typed _ 0 (lines (ascii _)) → False
    decide +kernel

end UnixHomework.Ports.PipeShell
