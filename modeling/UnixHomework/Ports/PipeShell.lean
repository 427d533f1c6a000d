import UnixHomework.Verified.CharArray
import UnixHomework.Verified.Traces

/-!
# The shell with pipes

For each line the shell makes its processes, waits for them and prompts again.
The model keeps what this leaves behind in the parent: the open ends of pipes,
and the children that have not been waited for.  A step is one turn of the
loop; its label has the line and what the kernel answers to `pipe`, `fork` and
`wait`.  Children terminate, so `wait(NULL)` returns as soon as there is one,
but which one is up to the kernel.

`main` leaves the turn early when a `fork` fails, without closing the pipe it
has just made and without waiting for the child it has already started.  The
child is then there for the `wait(NULL)` of a later command.  These are the
only turns that leave anything behind (`shell_clean_iff`).
-/

namespace UnixHomework.Ports.PipeShell

open UnixHomework.Verified

def maxArgs : Nat := 20

/-- `parser`: the words of a command, for `execvp`. -/
def parser (input : List UInt8) : List (List UInt8) :=
  ((input.splitOn 32).filter (· ≠ [])).take (maxArgs - 1)

/-- A child that has not been waited for, and what it executes. -/
structure Child where
  pid : Nat
  args : List (List UInt8)
  deriving DecidableEq

/-- The parent between two turns.  `waits` records the plain commands: the
child started for each, and the one that its `wait(NULL)` has returned. -/
structure Shell where
  /-- The ends of pipes that are still open. -/
  fds : List Nat
  /-- The children that have not been waited for. -/
  children : List Child
  /-- The plain commands: the child started for each, and the one that its
  `wait(NULL)` has returned. -/
  waits : List (Nat × Nat)
  /-- The loop has not ended. -/
  running : Bool
  deriving DecidableEq

/-! ## System calls -/

namespace Shell

/-- `pipe`: two descriptors that were not open. -/
def pipe (s : Shell) (fd : Nat × Nat) : Option Shell :=
  if fd.1 ∈ s.fds ∨ fd.2 ∈ s.fds ∨ fd.1 = fd.2 then none
  else some { s with fds := s.fds ++ [fd.1, fd.2] }

/-- `close`. -/
def close (s : Shell) (fd : Nat) : Shell :=
  { s with fds := s.fds.filter (· ≠ fd) }

/-- `fork` in the parent; no child still to be waited for has that number. -/
def fork (s : Shell) (args : List (List UInt8)) (pid : Nat) : Option Shell :=
  if pid ∈ s.children.map Child.pid then none
  else some { s with children := s.children ++ [⟨pid, args⟩] }

/-- `waitpid`. -/
def waitpid (s : Shell) (pid : Nat) : Shell :=
  { s with children := s.children.filter (·.pid ≠ pid) }

/-- `wait(NULL)` with the child that the kernel chooses; without children it
returns at once. -/
def wait (s : Shell) (pid : Nat) : Option Shell :=
  if s.children = [] then some s
  else if pid ∈ s.children.map Child.pid then some (s.waitpid pid)
  else none

end Shell

/-! ## The loop -/

/-- The kernel's answers in one turn; `none` is a failure. -/
structure Answers where
  /-- The two descriptors of `pipe`, -/
  pipe : Option (Nat × Nat)
  /-- the pids of the children, -/
  fork1 : Option Nat
  fork2 : Option Nat
  /-- and the child that `wait(NULL)` takes, if it could be any. -/
  wait : Nat

/-- The branch for a line with `|`. -/
def pipeline (s : Shell) (cmd1 cmd2 : List UInt8) (k : Answers) :
    Option Shell :=
  match k.pipe with
  | none => some s
  | some fd => do
      let s ← s.pipe fd
      match k.fork1 with
      | none => some s
      | some childPid1 => do
          let s ← s.fork (parser cmd1) childPid1
          match k.fork2 with
          | none => some s
          | some childPid2 => do
              let s ← s.fork (parser cmd2) childPid2
              let s := (s.close fd.1).close fd.2
              some ((s.waitpid childPid1).waitpid childPid2)

/-- The branch for a plain command.  A parent that could not fork waits as
well. -/
def plain (s : Shell) (input : List UInt8) (k : Answers) : Option Shell :=
  match k.fork1 with
  | none => s.wait k.wait
  | some childPid => do
      let s ← s.fork (parser input) childPid
      let s ← s.wait k.wait
      some { s with waits := s.waits ++ [(childPid, k.wait)] }

/-- `|`. -/
def bar : UInt8 := 124

def exitText : List UInt8 :=
  ascii ['e', 'x', 'i', 't']

/-- A line as `fgets` returns it, without its newline, or the end of the
input. -/
inductive Turn where
  | line (input : List UInt8) (k : Answers)
  | endOfInput

def shellStep (s : Shell) : Turn → Option Shell
  | .endOfInput => if s.running then some { s with running := false } else none
  | .line input k =>
      if s.running then
        if input = exitText then some { s with running := false }
        else if bar ∈ input then
          pipeline s (input.takeWhile (· ≠ bar))
            (((input.dropWhile (· ≠ bar)).drop 1).dropWhile (· = 32)) k
        else plain s input k
      else none

def Shell.start : Shell where
  fds := []
  children := []
  waits := []
  running := true

def shell : Machine Shell Turn where
  init s := s = Shell.start
  step := shellStep

/-! ## What a turn leaves behind -/

/-- No descriptor is open, no child is left, and every plain command has
waited for its own. -/
structure Clean (s : Shell) : Prop where
  fds : s.fds = []
  children : s.children = []
  waits : ∀ w ∈ s.waits, w.1 = w.2

instance (s : Shell) : Decidable (Clean s) :=
  decidable_of_iff (s.fds = [] ∧ s.children = [] ∧ ∀ w ∈ s.waits, w.1 = w.2)
    ⟨fun ⟨h1, h2, h3⟩ => ⟨h1, h2, h3⟩, fun ⟨h1, h2, h3⟩ => ⟨h1, h2, h3⟩⟩

/-- In a pipeline that has got its pipe, both calls of `fork` succeed. -/
def ForksAfterPipe : Turn → Prop
  | .endOfInput => True
  | .line input k =>
      input ≠ exitText → bar ∈ input → k.pipe ≠ none →
        k.fork1 ≠ none ∧ k.fork2 ≠ none

instance (t : Turn) : Decidable (ForksAfterPipe t) := by
  cases t <;> unfold ForksAfterPipe <;> infer_instance

section Turns

variable {s next : Shell} {k : Answers}

theorem fork_eq_some {args : List (List UInt8)} {pid : Nat}
    (h : s.fork args pid = some next) :
    pid ∉ s.children.map Child.pid ∧
      next = { s with children := s.children ++ [⟨pid, args⟩] } := by
  unfold Shell.fork at h
  split at h
  · contradiction
  · exact ⟨by assumption, (Option.some.inj h).symm⟩

theorem pipe_eq_some {fd : Nat × Nat} (h : s.pipe fd = some next) :
    next = { s with fds := s.fds ++ [fd.1, fd.2] } := by
  unfold Shell.pipe at h
  split at h
  · contradiction
  · exact (Option.some.inj h).symm

/-- The one child of a plain command is the one that is waited for. -/
theorem Clean.plain (h : Clean s) {input : List UInt8}
    (hStep : plain s input k = some next) : Clean next := by
  unfold PipeShell.plain at hStep
  cases hFork : k.fork1 with
  | none =>
      simp only [hFork, Shell.wait, h.children, if_true,
        Option.some.injEq] at hStep
      exact hStep ▸ h
  | some pid =>
      simp only [hFork, Option.bind_eq_bind] at hStep
      obtain ⟨s1, h1, hStep⟩ := Option.bind_eq_some_iff.mp hStep
      obtain ⟨s2, h2, hStep⟩ := Option.bind_eq_some_iff.mp hStep
      obtain ⟨-, rfl⟩ := fork_eq_some h1
      simp only [Shell.wait, h.children, List.nil_append, List.map_cons,
        List.map_nil, List.mem_singleton, reduceCtorEq, if_false,
        Option.ite_none_right_eq_some, Option.some.injEq] at h2
      obtain ⟨hPid, rfl⟩ := h2
      obtain rfl := Option.some.inj hStep
      constructor
      · exact h.fds
      · simp [Shell.waitpid, hPid]
      · intro w hw
        rcases List.mem_append.mp hw with hOld | hNew
        · exact h.waits w hOld
        · rw [List.mem_singleton.mp hNew]
          exact hPid.symm

/-- A pipeline whose processes have all been started: the parent closes both
ends and waits for both children. -/
theorem Clean.pipeline (h : Clean s) {cmd1 cmd2 : List UInt8}
    (hForks : k.pipe ≠ none → k.fork1 ≠ none ∧ k.fork2 ≠ none)
    (hStep : pipeline s cmd1 cmd2 k = some next) : Clean next := by
  unfold PipeShell.pipeline at hStep
  cases hPipe : k.pipe with
  | none =>
      simp only [hPipe, Option.some.injEq] at hStep
      exact hStep ▸ h
  | some fd =>
      obtain ⟨hFork1, hFork2⟩ := hForks (by simp [hPipe])
      obtain ⟨pid1, hPid1⟩ := Option.ne_none_iff_exists'.mp hFork1
      obtain ⟨pid2, hPid2⟩ := Option.ne_none_iff_exists'.mp hFork2
      simp only [hPipe, hPid1, hPid2, Option.bind_eq_bind] at hStep
      obtain ⟨s1, h1, hStep⟩ := Option.bind_eq_some_iff.mp hStep
      obtain ⟨s2, h2, hStep⟩ := Option.bind_eq_some_iff.mp hStep
      obtain ⟨s3, h3, hStep⟩ := Option.bind_eq_some_iff.mp hStep
      obtain rfl := pipe_eq_some h1
      obtain ⟨-, rfl⟩ := fork_eq_some h2
      obtain ⟨-, rfl⟩ := fork_eq_some h3
      obtain rfl := Option.some.inj hStep
      constructor
      · simp [Shell.close, Shell.waitpid, h.fds]
      · simp [Shell.close, Shell.waitpid, h.children]
      · exact h.waits

/-- A pipeline that is left early keeps at least the pipe. -/
theorem fds_of_pipeline {cmd1 cmd2 : List UInt8} (hPipe : k.pipe ≠ none)
    (hForks : k.fork1 = none ∨ k.fork2 = none)
    (hStep : pipeline s cmd1 cmd2 k = some next) : next.fds ≠ [] := by
  unfold PipeShell.pipeline at hStep
  obtain ⟨fd, hFd⟩ := Option.ne_none_iff_exists'.mp hPipe
  simp only [hFd, Option.bind_eq_bind] at hStep
  obtain ⟨s1, h1, hStep⟩ := Option.bind_eq_some_iff.mp hStep
  obtain rfl := pipe_eq_some h1
  cases hFork1 : k.fork1 with
  | none =>
      simp only [hFork1, Option.some.injEq] at hStep
      simp [← hStep]
  | some pid1 =>
      have hFork2 : k.fork2 = none := by
        rcases hForks with hNone | hNone
        · rw [hFork1] at hNone
          contradiction
        · exact hNone
      simp only [hFork1, hFork2] at hStep
      obtain ⟨s2, h2, hStep⟩ := Option.bind_eq_some_iff.mp hStep
      obtain ⟨-, rfl⟩ := fork_eq_some h2
      simp [← Option.some.inj hStep]

/-- **One turn.**  It leaves the parent clean unless a `fork` has failed behind
a pipe. -/
theorem Clean.step_iff (h : Clean s) {t : Turn}
    (hStep : shellStep s t = some next) : Clean next ↔ ForksAfterPipe t := by
  cases t with
  | endOfInput =>
      obtain ⟨-, hNext⟩ := Option.ite_none_right_eq_some.mp hStep
      obtain rfl := Option.some.inj hNext
      exact iff_of_true ⟨h.fds, h.children, h.waits⟩ trivial
  | line input k =>
      obtain ⟨-, hLine⟩ := Option.ite_none_right_eq_some.mp hStep
      by_cases hExit : input = exitText
      · rw [if_pos hExit, Option.some.injEq] at hLine
        subst hLine
        exact iff_of_true ⟨h.fds, h.children, h.waits⟩
          fun hNot => absurd hExit hNot
      · rw [if_neg hExit] at hLine
        by_cases hBar : bar ∈ input
        · rw [if_pos hBar] at hLine
          constructor
          · intro hNext _ _ hPipe
            by_contra hForks
            have hNone : k.fork1 = none ∨ k.fork2 = none := by
              rw [← not_ne_iff, ← not_ne_iff, ← not_and_or]
              exact hForks
            exact fds_of_pipeline hPipe hNone hLine hNext.fds
          · intro hForks
            exact h.pipeline (hForks hExit hBar) hLine
        · rw [if_neg hBar] at hLine
          exact iff_of_true (h.plain hLine)
            fun _ hIn => absurd hIn hBar

end Turns

theorem clean_start : Clean Shell.start :=
  ⟨rfl, rfl, by simp [Shell.start]⟩

/-- **Whole sessions.**  The shell is clean at every prompt, and every plain
command has waited for its own child, exactly in the sessions in which no
`fork` fails behind a pipe. -/
theorem shell_clean_iff {s last : Shell} {ts : List Turn}
    (hInit : shell.init s) (hRun : shell.run s ts = some last) :
    shell.EachState Clean s ts ↔
      shell.EachStep (fun _ t => ForksAfterPipe t) s ts := by
  obtain rfl : s = Shell.start := hInit
  exact Machine.eachState_iff_eachStep (I := fun _ => True)
    (fun _ _ _ _ _ => trivial)
    (fun s t next _ hClean hStep => hClean.step_iff hStep)
    trivial clean_start hRun

/-- `ls | wc`, `pwd` and the end of the input, with every call successful. -/
def plainSession : List Turn :=
  [.line (ascii ['l', 's', ' ', '|', ' ', 'w', 'c'])
      ⟨some (3, 4), some 101, some 102, 0⟩,
    .line (ascii ['p', 'w', 'd']) ⟨none, some 103, none, 103⟩,
    .endOfInput]

theorem plainSession_clean :
    shell.EachState Clean Shell.start plainSession := by
  obtain ⟨last, hRun⟩ := Option.isSome_iff_exists.mp
    (show (shell.run Shell.start plainSession).isSome = true by
      decide +kernel)
  exact (shell_clean_iff rfl hRun).mpr (by decide +kernel)

/-- The second `fork` of `a|b` fails.  The child of `a` is waited for in place
of that of `c`, and the pipe stays open. -/
theorem fork_failure_leaves_child :
    shell.run Shell.start
        [.line (ascii ['a', '|', 'b']) ⟨some (3, 4), some 101, none, 0⟩,
        .line (ascii ['c']) ⟨none, some 102, none, 101⟩] =
      some { fds := [3, 4], children := [⟨102, [ascii ['c']]⟩],
             waits := [(102, 101)], running := true } ∧
    ¬Clean { fds := [3, 4], children := [⟨102, [ascii ['c']]⟩],
             waits := [(102, 101)], running := true } := by
  decide +kernel

end UnixHomework.Ports.PipeShell
