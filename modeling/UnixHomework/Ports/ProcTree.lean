import UnixHomework.Verified.ProcessesEnd

/-!
# The tree of processes

The program makes five processes: the first one starts `Proc1` and `Proc2`,
`Proc1` starts `Proc3` and `Proc4`, and `Proc2` starts `Proc5`.  Each prints its
number and that of its parent, and each waits for those it has started, in the
order in which it started them.

No result of `fork` is checked.  A `fork` that fails leaves `-1`, and the
process goes on like a parent; its `waitpid (-1)` then takes whichever child
exits first, and the `waitpid` for that child finds nothing.  All the same every
process is waited for (`processes_reaped`), and the lines are those of a tree
(`tree_seen`).
-/

namespace UnixHomework.Ports.ProcTree

open UnixHomework.Verified
open UnixHomework.Verified.System (machine)

/-- The variables of `main`. -/
inductive Var where
  | proc1 | proc2 | proc3 | proc4 | proc5
  deriving DecidableEq

/-- The names that are printed. -/
inductive Name where
  | parent | proc1 | proc2 | proc3 | proc4 | proc5
  deriving DecidableEq

abbrev Text := Script Var Name

/-- The branch of `proc3 == 0`. -/
def proc3Text : Text := .print .proc3 (.exit 3)

def proc4Text : Text := .print .proc4 (.exit 4)

/-- The branch of `proc1 == 0`. -/
def proc1Text : Text :=
  .fork .proc3 proc3Text <|
  .fork .proc4 proc4Text <|
  .print .proc1 <|
  .waitpid .proc3 <|
  .waitpid .proc4 <|
  .exit 1

def proc5Text : Text := .print .proc5 (.exit 5)

def proc2Text : Text :=
  .fork .proc5 proc5Text <|
  .print .proc2 <|
  .waitpid .proc5 <|
  .exit 2

/-- `main`. -/
def mainText : Text :=
  .fork .proc1 proc1Text <|
  .fork .proc2 proc2Text <|
  .print .parent <|
  .waitpid .proc1 <|
  .waitpid .proc2 <|
  .exit 0

/-- The program, started as process `pid`. -/
def procTree (pid : Nat) : Machine (System Var Name) Turn :=
  machine mainText pid

theorem mainText_tidy : mainText.Tidy [] := by decide

variable {pid : Nat} {start s last : System Var Name}

/-- **Every process is waited for.**  Whichever calls of `fork` fail and however
the processes are scheduled, they make at most twenty-two calls and never block
each other.  Until it has been waited for, a process has the parent that started
it, and that parent runs.  In the end the first process has exited, after
everything else, and all others have been waited for. -/
theorem processes_reaped (h0 : (procTree pid).init start) {as : List Turn}
    (hRun : (procTree pid).run start as = some last) :
    as.length ≤ 22 ∧
    (∃ more last', (procTree pid).run last more = some last' ∧
      (procTree pid).Settled last') ∧
    (∀ (i : Nat) (p : Process Var Name), last.procs[i]? = some p →
      p.phase.present = true → i ≠ 0 →
      ∃ (j : Nat) (parent : Process Var Name) (text : Text),
        p.parent = some j ∧ last.procs[j]? = some parent ∧
        parent.phase = .running text) ∧
    ((procTree pid).Settled last →
      (∃ before code, last.log = before ++ [.exit pid code]) ∧
      (∃ p code, last.procs[0]? = some p ∧ p.pid = pid ∧
        p.phase = .zombie code) ∧
      ∀ (i : Nat) (p : Process Var Name), last.procs[i]? = some p → i ≠ 0 →
        ∃ code, p.phase = .reaped code) := by
  have hStart : System.Kept start := .start mainText_tidy h0
  have hReach : (procTree pid).Reachable last :=
    Machine.reachable_of_run h0 hRun
  obtain ⟨hLast, hLength⟩ := System.descends.run_length_le hStart hRun
  have hWork : start.work = 22 := by
    obtain ⟨vars, hProcs⟩ := h0.procs
    rw [System.work, hProcs, List.length_singleton, Finset.sum_range_one,
      System.workAt, hProcs]
    rfl
  refine ⟨by omega, System.descends.exists_settled hLast, ?_, ?_⟩
  · intro i p hp hThere hi
    exact hLast.parent_running hp hThere hi
  · exact System.machine_ended mainText_tidy hReach

/-! ### A run in which the first `fork` fails -/

/-- Nothing has been called yet. -/
def started : System Var Name where
  procs := [{
    pid := 100
    parent := none
    phase := .running mainText
    vars := fun _ => 7 }]
  log := []

theorem started_init : (procTree 100).init started :=
  ⟨⟨fun _ => 7, rfl⟩, rfl⟩

/-- `Proc2` gets the number 101 and cannot start `Proc5`.  `waitpid (-1)` takes
it, and `waitpid (101)` then finds no child. -/
def refusedTurns : List Turn :=
  [⟨0, none⟩, ⟨0, some 101⟩, ⟨0, none⟩, ⟨1, none⟩, ⟨1, none⟩, ⟨1, none⟩,
    ⟨1, none⟩, ⟨0, some 1⟩, ⟨0, none⟩, ⟨0, none⟩]

theorem processes_reaped_refused : ∃ last,
    (procTree 100).run started refusedTurns = some last ∧
      ∃ more last', (procTree 100).run last more = some last' ∧
        (procTree 100).Settled last' := by
  obtain ⟨last, hRun⟩ : ∃ last,
      (procTree 100).run started refusedTurns = some last :=
    Option.isSome_iff_exists.mp (by decide +kernel)
  exact ⟨last, hRun, (processes_reaped started_init hRun).2.1⟩

/-! ## The lines -/

/-- A process that starts no other. -/
def leafSeen (name : Name) (code ppid : Nat) (pid : Nat) :
    Multiset (Event Name) :=
  {.line name pid (some ppid), .exit pid code}

/-- `Proc1`, by the answers to its calls of `fork`. -/
def proc1Seen (ppid : Nat) (answers : Option Nat × Option Nat) (pid : Nat) :
    Multiset (Event Name) :=
  forked pid answers.1 (leafSeen .proc3 3 pid) +
  forked pid answers.2 (leafSeen .proc4 4 pid) +
  {.line .proc1 pid (some ppid), .exit pid 1}

def proc2Seen (ppid : Nat) (answer : Option Nat) (pid : Nat) :
    Multiset (Event Name) :=
  forked pid answer (leafSeen .proc5 5 pid) +
  {.line .proc2 pid (some ppid), .exit pid 2}

/-- The whole tree, by the answers to the calls of `fork`. -/
def treeSeen (pid : Nat) (answers : Var → Option Nat) :
    Multiset (Event Name) :=
  forked pid (answers .proc1)
    (proc1Seen pid (answers .proc3, answers .proc4)) +
  forked pid (answers .proc2) (proc2Seen pid (answers .proc5)) +
  {.line .parent pid none, .exit pid 0}

section Seen

variable {name : Name} {code ppid : Nat} {var : Var} {rest : Text}
  {M : Multiset (Event Name)}

theorem leaf_seen
    (h : Behaves (.print name (.exit code) : Text) pid (some ppid) M) :
    M = leafSeen name code ppid pid := by
  obtain ⟨M', hExit, rfl⟩ := h.of_print
  rw [hExit.of_exit]
  rfl

/-- A `fork` of such a process. -/
theorem fork_leaf_seen {ppid : Option Nat}
    (h : Behaves (.fork var (.print name (.exit code)) rest) pid ppid M) :
    ∃ answer M', Behaves rest pid ppid M' ∧
      M = forked pid answer (leafSeen name code pid) + M' := by
  obtain ⟨answer, -, M', hRest, hM⟩ :=
    h.of_fork (fun (_ : Unit) => leafSeen name code pid)
      (fun _ _ hChild => ⟨(), leaf_seen hChild⟩)
  exact ⟨answer, M', hRest, hM⟩

theorem proc1_seen (h : Behaves proc1Text pid (some ppid) M) :
    ∃ answers, M = proc1Seen ppid answers pid := by
  obtain ⟨answer3, M₁, h₁, rfl⟩ := fork_leaf_seen h
  obtain ⟨answer4, M₂, h₂, rfl⟩ := fork_leaf_seen h₁
  obtain ⟨M₃, h₃, rfl⟩ := h₂.of_print
  rw [h₃.of_waitpid.of_waitpid.of_exit]
  exact ⟨(answer3, answer4), (add_assoc _ _ _).symm⟩

theorem proc2_seen (h : Behaves proc2Text pid (some ppid) M) :
    ∃ answer, M = proc2Seen ppid answer pid := by
  obtain ⟨answer5, M₁, h₁, rfl⟩ := fork_leaf_seen h
  obtain ⟨M₂, h₂, rfl⟩ := h₁.of_print
  rw [h₂.of_waitpid.of_exit]
  exact ⟨answer5, rfl⟩

end Seen

/-- **The lines are those of a tree.**  When no process can move any more, the
lines printed and the codes of the exits are, in some order, those of the tree:
each process that was made has printed its line once, with the number of the
process that started it, and has exited once with its code; a `fork` that failed
takes away its branch and nothing else. -/
theorem tree_seen (h : (procTree pid).Reachable s)
    (hSettled : (procTree pid).Settled s) :
    ∃ answers : Var → Option Nat,
      (s.log : Multiset (Event Name)) = treeSeen pid answers := by
  have hMain := System.machine_behaves mainText_tidy h hSettled
  obtain ⟨answer1, answers, M₁, hMain₁, hLog⟩ :=
    hMain.of_fork (proc1Seen pid) (fun _ _ hChild => proc1_seen hChild)
  obtain ⟨answer2, answer5, M₂, hMain₂, rfl⟩ :=
    hMain₁.of_fork (proc2Seen pid) (fun _ _ hChild => proc2_seen hChild)
  obtain ⟨M₃, hMain₃, rfl⟩ := hMain₂.of_print
  rw [hMain₃.of_waitpid.of_waitpid.of_exit] at hLog
  refine ⟨fun
    | .proc1 => answer1
    | .proc2 => answer2
    | .proc3 => answers.1
    | .proc4 => answers.2
    | .proc5 => answer5, ?_⟩
  rw [hLog]
  exact (add_assoc _ _ _).symm

/-- The same run. -/
theorem tree_seen_refused : ∃ s, (procTree 100).Reachable s ∧
    s.log = [.refused 100, .line .parent 100 none, .refused 101,
      .line .proc2 101 (some 100), .exit 101 2, .exit 100 0] ∧
    ∃ answers : Var → Option Nat,
      (s.log : Multiset (Event Name)) = treeSeen 100 answers := by
  have hRun : ((procTree 100).run started refusedTurns).any (fun s =>
      s.procs.all System.stopped && decide (s.log = [.refused 100,
        .line .parent 100 none, .refused 101, .line .proc2 101 (some 100),
        .exit 101 2, .exit 100 0])) = true := by
    decide +kernel
  obtain ⟨s, hReach, hEnd⟩ :=
    Machine.exists_reachable_of_run started_init hRun
  obtain ⟨hStopped, hLog⟩ := Bool.and_eq_true_iff.mp hEnd
  exact ⟨s, hReach, of_decide_eq_true hLog,
    tree_seen hReach (System.settled_of_stopped hStopped)⟩

end UnixHomework.Ports.ProcTree
