import UnixHomework.Verified.Machine
import Mathlib.Logic.Function.Basic

/-!
# Processes that fork and wait

A `Script` is the text of a process that prints lines, forks, waits for a child
by the number in a variable, and exits.  A `System` has a record for each
process there ever was, in the order of their creation; a record says where the
process stands and, by its place in the list, who its parent is.  The numbers
that `fork` returns are those of the kernel, which gives the number of a process
again once that process has been waited for.

When a process exits, the children it leaves behind lose their parent.  `Tidy`
is a condition on the text alone under which this never happens, although any
`fork` may fail and leave `-1` in its variable, for which `waitpid` then takes
*any* child (`Kept.step`).
-/

namespace UnixHomework.Verified

universe u v

/-! ## Texts and records -/

/-- The text of a process over variables `V`.  The two branches of a `fork` are
what the child and the parent go on with. -/
inductive Script (V : Type u) (L : Type v) where
  /-- `exit(code)`, or `return` from `main`. -/
  | exit (code : Nat)
  /-- A line with the numbers of the process and of its parent. -/
  | print (line : L) (rest : Script V L)
  /-- `fork`, whose result is kept in a variable. -/
  | fork (var : V) (child parent : Script V L)
  /-- `waitpid` for the number in a variable. -/
  | waitpid (var : V) (rest : Script V L)

/-- Where a process stands. -/
inductive Phase (V : Type u) (L : Type v) where
  /-- It has this text before it. -/
  | running (text : Script V L)
  /-- It has exited, and nobody has waited for it yet. -/
  | zombie (code : Nat)
  /-- It has been waited for, and its number is free again. -/
  | reaped (code : Nat)

/-- The kernel still has a record of the process. -/
def Phase.present {V : Type u} {L : Type v} : Phase V L → Bool
  | .running _ | .zombie _ => true
  | .reaped _ => false

/-- A process. -/
structure Process (V : Type u) (L : Type v) where
  pid : Nat
  /-- The place of its parent in the list, unless the parent is outside. -/
  parent : Option Nat
  /-- What it has before it. -/
  phase : Phase V L
  /-- Its memory, which a child has a copy of. -/
  vars : V → Int

/-- What is seen of the processes: a line with the results of `getpid` and
`getppid`, the end of a process, and a `fork` that failed. -/
inductive Event (L : Type v) where
  | line (line : L) (pid : Nat) (ppid : Option Nat)
  | exit (pid code : Nat)
  | refused (pid : Nat)
  deriving DecidableEq

/-- All processes there ever were, and what has been seen of them. -/
structure System (V : Type u) (L : Type v) where
  /-- The processes in the order of their creation. -/
  procs : List (Process V L)
  /-- Lines and exit codes, in the order in which they were seen. -/
  log : List (Event L)

/-- Who moves, and what the kernel answers: to `fork` the number of the child,
to `waitpid` the child it has found. -/
structure Turn where
  who : Nat
  answer : Option Nat
  deriving DecidableEq

variable {V : Type u} {L : Type v}

/-! ## System calls -/

namespace System

/-- Change the record at `i`. -/
def put (s : System V L) (i : Nat) (p : Process V L) : System V L :=
  { s with procs := s.procs.set i p }

/-- Add a record. -/
def add (s : System V L) (p : Process V L) : System V L :=
  { s with procs := s.procs ++ [p] }

/-- Record what is seen. -/
def say (s : System V L) (e : Event L) : System V L :=
  { s with log := s.log ++ [e] }

/-- `getppid`: the number of the process whose place is recorded as the
parent's, if there is one. -/
def ppid (s : System V L) (p : Process V L) : Option Nat :=
  p.parent.bind fun j => s.procs[j]?.map Process.pid

/-- No process has this number, running or waiting to be waited for.  The
number of a process that has been waited for may come again. -/
def Free (s : System V L) (pid : Nat) : Prop :=
  0 < pid ∧ ∀ q ∈ s.procs, q.phase.present = true → q.pid ≠ pid

instance (s : System V L) (pid : Nat) : Decidable (s.Free pid) :=
  inferInstanceAs (Decidable (_ ∧ _))

/-- A child of the process at `i` that `waitpid (target)` takes: the one with
this number, or any for `-1`. -/
def Takes (i : Nat) (target : Int) (q : Process V L) : Prop :=
  q.parent = some i ∧ q.phase.present = true ∧
    (target = -1 ∨ target = q.pid)

instance (i : Nat) (target : Int) (q : Process V L) :
    Decidable (Takes i target q) :=
  inferInstanceAs (Decidable (_ ∧ _))

/-- `fork`: the child gets a copy of the variables and finds `0` in `var`. -/
def fork [DecidableEq V] (s : System V L) (i : Nat) (p : Process V L)
    (var : V) (child parent : Script V L) :
    Option Nat → Option (System V L)
  | none =>
      some ((s.put i { p with
        phase := .running parent
        vars := Function.update p.vars var (-1) }).say (.refused p.pid))
  | some pid =>
      if s.Free pid then
        some ((s.put i { p with
          phase := .running parent
          vars := Function.update p.vars var pid }).add {
            pid := pid
            parent := some i
            phase := .running child
            vars := Function.update p.vars var 0 })
      else none

/-- `waitpid`: it returns at once if there is no child to wait for, and
otherwise with a child that has exited. -/
def waitpid (s : System V L) (i : Nat) (p : Process V L) (target : Int)
    (rest : Script V L) : Option Nat → Option (System V L)
  | none =>
      if ∃ q ∈ s.procs, Takes i target q then none
      else some (s.put i { p with phase := .running rest })
  | some j =>
      s.procs[j]?.bind fun q =>
        match q.phase with
        | .zombie code =>
            if Takes i target q then
              some ((s.put j { q with phase := .reaped code }).put i
                { p with phase := .running rest })
            else none
        | _ => none

/-- What becomes of `q` when the process at `i` exits: if it is a child that
nobody has waited for, it has no parent any more. -/
def orphan (i : Nat) (q : Process V L) : Process V L :=
  if q.parent = some i ∧ q.phase.present = true then
    { q with parent := none }
  else q

/-- `exit`. -/
def exit (s : System V L) (i : Nat) (p : Process V L) (code : Nat) :
    System V L :=
  (({ s with procs := s.procs.map (orphan i) } : System V L).put i
    { p with phase := .zombie code }).say (.exit p.pid code)

variable [DecidableEq V]

/-- One call of the process at `a.who`.  A call that waits has no step until
what it waits for is there. -/
def step (s : System V L) (a : Turn) : Option (System V L) :=
  s.procs[a.who]?.bind fun p =>
    match p.phase with
    | .running (.exit code) => some (s.exit a.who p code)
    | .running (.print line rest) =>
        some ((s.put a.who { p with phase := .running rest }).say
          (.line line p.pid (s.ppid p)))
    | .running (.fork var child parent) =>
        s.fork a.who p var child parent a.answer
    | .running (.waitpid var rest) =>
        s.waitpid a.who p (p.vars var) rest a.answer
    | _ => none

/-- A process that runs `text`, alone. -/
structure Starts (text : Script V L) (pid : Nat) (s : System V L) : Prop where
  procs : ∃ vars,
    s.procs = [{ pid, parent := none, phase := .running text, vars }]
  log : s.log = []

/-- The processes that come of `text`. -/
def machine (text : Script V L) (pid : Nat) : Machine (System V L) Turn where
  init := Starts text pid
  step := step

/-! ## One step -/

/-- What the process `p` at `i` may do, with the changes this makes.  A
`waitpid` has two outcomes: a child that has exited, or none to wait for. -/
inductive Does (s : System V L) (i : Nat) (p : Process V L) :
    System V L → Prop where
  | exits (code : Nat) (hText : p.phase = .running (.exit code)) :
      Does s i p (s.exit i p code)
  | prints (line : L) (rest : Script V L)
      (hText : p.phase = .running (.print line rest)) :
      Does s i p ((s.put i { p with phase := .running rest }).say
        (.line line p.pid (s.ppid p)))
  | refused (var : V) (child parent : Script V L)
      (hText : p.phase = .running (.fork var child parent)) :
      Does s i p ((s.put i { p with
        phase := .running parent
        vars := Function.update p.vars var (-1) }).say (.refused p.pid))
  | forks (var : V) (child parent : Script V L) (pid : Nat)
      (hText : p.phase = .running (.fork var child parent))
      (hFree : s.Free pid) :
      Does s i p ((s.put i { p with
        phase := .running parent
        vars := Function.update p.vars var pid }).add {
          pid := pid
          parent := some i
          phase := .running child
          vars := Function.update p.vars var 0 })
  | goesOn (var : V) (rest : Script V L)
      (hText : p.phase = .running (.waitpid var rest))
      (hNone : ∀ q ∈ s.procs, ¬Takes i (p.vars var) q) :
      Does s i p (s.put i { p with phase := .running rest })
  | reaps (var : V) (rest : Script V L) (j code : Nat) (q : Process V L)
      (hText : p.phase = .running (.waitpid var rest))
      (hChild : s.procs[j]? = some q) (hZombie : q.phase = .zombie code)
      (hTakes : Takes i (p.vars var) q) :
      Does s i p ((s.put j { q with phase := .reaped code }).put i
        { p with phase := .running rest })

variable {s next : System V L} {a : Turn}

theorem step_does (h : s.step a = some next) :
    ∃ p, s.procs[a.who]? = some p ∧ s.Does a.who p next := by
  obtain ⟨p, hp, h⟩ := Option.bind_eq_some_iff.mp h
  refine ⟨p, hp, ?_⟩
  cases hPhase : p.phase with
  | zombie code =>
      rw [hPhase] at h
      contradiction
  | reaped code =>
      rw [hPhase] at h
      contradiction
  | running text =>
      rw [hPhase] at h
      cases text with
      | exit code =>
          obtain rfl := Option.some.inj h
          exact .exits code hPhase
      | print line rest =>
          obtain rfl := Option.some.inj h
          exact .prints line rest hPhase
      | fork var child parent =>
          cases hAnswer : a.answer with
          | none =>
              rw [hAnswer] at h
              obtain rfl := Option.some.inj h
              exact .refused var child parent hPhase
          | some pid =>
              rw [hAnswer] at h
              obtain ⟨hFree, h⟩ := Option.ite_none_right_eq_some.mp h
              obtain rfl := Option.some.inj h
              exact .forks var child parent pid hPhase hFree
      | waitpid var rest =>
          cases hAnswer : a.answer with
          | none =>
              rw [hAnswer] at h
              obtain ⟨hNone, h⟩ := Option.ite_none_left_eq_some.mp h
              obtain rfl := Option.some.inj h
              exact .goesOn var rest hPhase fun q hq hTakes =>
                hNone ⟨q, hq, hTakes⟩
          | some j =>
              rw [hAnswer] at h
              obtain ⟨q, hq, h⟩ := Option.bind_eq_some_iff.mp h
              cases hZombie : q.phase with
              | running _ =>
                  rw [hZombie] at h
                  contradiction
              | reaped _ =>
                  rw [hZombie] at h
                  contradiction
              | zombie code =>
                  rw [hZombie] at h
                  obtain ⟨hTakes, h⟩ := Option.ite_none_right_eq_some.mp h
                  obtain rfl := Option.some.inj h
                  exact .reaps var rest j code q hPhase hq hZombie hTakes

end System

/-! ## Texts that wait for their children -/

/-- `pending` are the variables of the children still to be waited for: each is
set once before it is waited for, and none is left at `exit`.  A child starts
with nothing pending, since the children of its parent are not its own. -/
def Script.Tidy [DecidableEq V] : Script V L → List V → Prop
  | .exit _, pending => pending = []
  | .print _ rest, pending => rest.Tidy pending
  | .fork var child parent, pending =>
      var ∉ pending ∧ child.Tidy [] ∧ parent.Tidy (var :: pending)
  | .waitpid var rest, pending =>
      var ∈ pending ∧ rest.Tidy (pending.filter fun v => decide (v ≠ var))

instance Script.decidableTidy [DecidableEq V] :
    ∀ (text : Script V L) (pending : List V), Decidable (text.Tidy pending)
  | .exit _, pending => inferInstanceAs (Decidable (pending = []))
  | .print _ rest, pending => rest.decidableTidy pending
  | .fork var child parent, pending =>
      have := child.decidableTidy []
      have := parent.decidableTidy (var :: pending)
      inferInstanceAs (Decidable (_ ∧ _ ∧ _))
  | .waitpid var rest, pending =>
      have := rest.decidableTidy (pending.filter fun v => decide (v ≠ var))
      inferInstanceAs (Decidable (_ ∧ _))

namespace System

/-- The process at `i` has a child with this number. -/
def HasChild (s : System V L) (i pid : Nat) : Prop :=
  ∃ (j : Nat) (q : Process V L), s.procs[j]? = some q ∧
    q.parent = some i ∧ q.phase.present = true ∧ q.pid = pid

variable [DecidableEq V]

/-- A process with these children can still wait for all of them, and has
waited for them when it exits: each child's number is in a variable that is
still pending. -/
def Cares (p : Process V L) (child : Nat → Prop) : Prop :=
  match p.phase with
  | .running text => ∃ pending, text.Tidy pending ∧
      ∀ pid, child pid → ∃ v ∈ pending, p.vars v = pid
  | .zombie _ | .reaped _ => ∀ pid, ¬child pid

/-- **The invariant of the family.** -/
structure Kept (s : System V L) : Prop where
  /-- Numbers in use are different. -/
  distinct : ∀ (i j : Nat) (p q : Process V L), s.procs[i]? = some p →
    s.procs[j]? = some q → p.phase.present = true →
    q.phase.present = true → p.pid = q.pid → i = j
  /-- A parent is older than its children. -/
  earlier : ∀ (i : Nat) (p : Process V L), s.procs[i]? = some p →
    ∀ j, p.parent = some j → j < i
  /-- Only the first process has no parent. -/
  first : ∀ (i : Nat) (p : Process V L), s.procs[i]? = some p →
    (p.parent = none ↔ i = 0)
  /-- Every process can still wait for its children. -/
  cares : ∀ (i : Nat) (p : Process V L), s.procs[i]? = some p →
    Cares p (s.HasChild i)

variable {s next : System V L} {a : Turn} {i : Nat} {p p' : Process V L}
  {text rest : Script V L} {pending : List V}

theorem cares_running (hText : p.phase = .running text)
    (child : Nat → Prop) :
    Cares p child ↔ ∃ pending, text.Tidy pending ∧
      ∀ pid, child pid → ∃ v ∈ pending, p.vars v = pid := by
  rw [Cares, hText]

theorem Cares.mono {child child' : Nat → Prop} (h : Cares p child)
    (hLess : ∀ pid, child' pid → child pid) : Cares p child' := by
  rw [Cares] at h ⊢
  cases hPhase : p.phase with
  | running text =>
      rw [hPhase] at h
      obtain ⟨pending, hTidy, hAll⟩ := h
      exact ⟨pending, hTidy, fun pid hChild => hAll pid (hLess pid hChild)⟩
  | zombie code =>
      rw [hPhase] at h
      exact fun pid hChild => h pid (hLess pid hChild)
  | reaped code =>
      rw [hPhase] at h
      exact fun pid hChild => h pid (hLess pid hChild)

omit [DecidableEq V] in
theorem getElem?_put (hp : s.procs[i]? = some p) (k : Nat) :
    (s.put i p').procs[k]? = if i = k then some p' else s.procs[k]? := by
  have hi := (List.getElem?_eq_some_iff.mp hp).1
  rw [put, List.getElem?_set]
  by_cases hk : i = k
  · subst hk
    rw [if_pos rfl, if_pos rfl, if_pos hi]
  · rw [if_neg hk, if_neg hk]

omit [DecidableEq V] in
/-- What is found in a changed list was there before, up to the change. -/
theorem exists_of_put (hp : s.procs[i]? = some p) (hPid : p'.pid = p.pid)
    (hParent : p'.parent = p.parent)
    (hPresent : p'.phase.present = true → p.phase.present = true) {k : Nat}
    {q' : Process V L} (h : (s.put i p').procs[k]? = some q') :
    ∃ q, s.procs[k]? = some q ∧ q'.pid = q.pid ∧ q'.parent = q.parent ∧
      (q'.phase.present = true → q.phase.present = true) := by
  rw [getElem?_put hp] at h
  by_cases hk : i = k
  · rw [if_pos hk] at h
    obtain rfl := Option.some.inj h
    exact ⟨p, hk ▸ hp, hPid, hParent, hPresent⟩
  · rw [if_neg hk] at h
    exact ⟨q', h, rfl, rfl, id⟩

omit [DecidableEq V] in
theorem hasChild_of_put (hp : s.procs[i]? = some p) (hPid : p'.pid = p.pid)
    (hParent : p'.parent = p.parent)
    (hPresent : p'.phase.present = true → p.phase.present = true)
    {k pid : Nat} (h : (s.put i p').HasChild k pid) : s.HasChild k pid := by
  obtain ⟨j, q', hq', hOf, hThere, rfl⟩ := h
  obtain ⟨q, hq, hSame, hSameParent, hSamePresent⟩ :=
    exists_of_put hp hPid hParent hPresent hq'
  exact ⟨j, q, hq, hSameParent ▸ hOf, hSamePresent hThere, hSame.symm⟩

omit [DecidableEq V] in
theorem Free.put {pid : Nat} (h : s.Free pid) (hp : s.procs[i]? = some p)
    (hPid : p'.pid = p.pid) (hParent : p'.parent = p.parent)
    (hPresent : p'.phase.present = true → p.phase.present = true) :
    (s.put i p').Free pid := by
  refine ⟨h.1, ?_⟩
  intro q hq hThere
  obtain ⟨k, hk⟩ := List.mem_iff_getElem?.mp hq
  obtain ⟨q₀, hq₀, hSame, -, hThen⟩ :=
    exists_of_put hp hPid hParent hPresent hk
  rw [hSame]
  exact h.2 q₀ (List.mem_of_getElem? hq₀) (hThen hThere)

/-- A process moves on, or its record goes.  Neither its number nor its parent
changes. -/
theorem Kept.put (h : Kept s) (hp : s.procs[i]? = some p)
    (hPid : p'.pid = p.pid) (hParent : p'.parent = p.parent)
    (hPresent : p'.phase.present = true → p.phase.present = true)
    (hCares : Cares p' (s.HasChild i)) : Kept (s.put i p') := by
  constructor
  · intro j k q r hq hr hqThere hrThere hSame
    obtain ⟨q₀, hq₀, hqPid, -, hqPresent⟩ :=
      exists_of_put hp hPid hParent hPresent hq
    obtain ⟨r₀, hr₀, hrPid, -, hrPresent⟩ :=
      exists_of_put hp hPid hParent hPresent hr
    exact h.distinct j k q₀ r₀ hq₀ hr₀ (hqPresent hqThere)
      (hrPresent hrThere) (hqPid.symm.trans (hSame.trans hrPid))
  · intro k q hq j hj
    obtain ⟨q₀, hq₀, -, hqParent, -⟩ :=
      exists_of_put hp hPid hParent hPresent hq
    exact h.earlier k q₀ hq₀ j (hqParent ▸ hj)
  · intro k q hq
    obtain ⟨q₀, hq₀, -, hqParent, -⟩ :=
      exists_of_put hp hPid hParent hPresent hq
    rw [hqParent]
    exact h.first k q₀ hq₀
  · intro k q hq
    have hLess : ∀ pid, (s.put i p').HasChild k pid → s.HasChild k pid :=
      fun pid => hasChild_of_put hp hPid hParent hPresent
    rw [getElem?_put hp] at hq
    by_cases hk : i = k
    · subst hk
      rw [if_pos rfl] at hq
      obtain rfl := Option.some.inj hq
      exact hCares.mono hLess
    · rw [if_neg hk] at hq
      exact (h.cares k q hq).mono hLess

omit [DecidableEq V] in
theorem getElem?_add (c : Process V L) (k : Nat) :
    (s.add c).procs[k]? =
      if k = s.procs.length then some c else s.procs[k]? := by
  rw [add, List.getElem?_append]
  by_cases hk : k = s.procs.length
  · rw [if_neg (by omega), if_pos hk, hk, Nat.sub_self]
    rfl
  · rw [if_neg hk]
    by_cases hLess : k < s.procs.length
    · rw [if_pos hLess]
    · have hBehind : [c].length ≤ k - s.procs.length := by
        rw [List.length_singleton]
        omega
      rw [if_neg hLess, List.getElem?_eq_none hBehind,
        List.getElem?_eq_none (Nat.le_of_not_lt hLess)]

/-- A process for which a variable is kept. -/
theorem Kept.add (h : Kept s) (hp : s.procs[i]? = some p)
    (hText : p.phase = .running text) (hTidy : text.Tidy pending)
    (hAll : ∀ pid, s.HasChild i pid → ∃ v ∈ pending, p.vars v = pid)
    {c : Process V L} {child : Script V L} (hFree : s.Free c.pid)
    (hVar : ∃ v ∈ pending, p.vars v = c.pid) (hParent : c.parent = some i)
    (hPhase : c.phase = .running child) (hChild : child.Tidy []) :
    Kept (s.add c) := by
  have hi : i < s.procs.length := (List.getElem?_eq_some_iff.mp hp).1
  have hOld : ∀ (k : Nat) (q : Process V L), (s.add c).procs[k]? = some q →
      (k = s.procs.length ∧ q = c) ∨ s.procs[k]? = some q := by
    intro k q hq
    rw [getElem?_add] at hq
    by_cases hk : k = s.procs.length
    · rw [if_pos hk] at hq
      exact .inl ⟨hk, (Option.some.inj hq).symm⟩
    · rw [if_neg hk] at hq
      exact .inr hq
  have hChildren : ∀ k pid, (s.add c).HasChild k pid →
      s.HasChild k pid ∨ k = i ∧ pid = c.pid := by
    rintro k pid ⟨j, q, hq, hOf, hThere, rfl⟩
    rcases hOld j q hq with ⟨-, rfl⟩ | hq
    · exact .inr ⟨(Option.some.inj (hParent.symm.trans hOf)).symm, rfl⟩
    · exact .inl ⟨j, q, hq, hOf, hThere, rfl⟩
  constructor
  · intro j k q r hq hr hqThere hrThere hSame
    rcases hOld j q hq with ⟨hj, hqNew⟩ | hqOld
    · rcases hOld k r hr with ⟨hk, -⟩ | hrOld
      · exact hj.trans hk.symm
      · exact absurd (hqNew ▸ hSame.symm)
          (hFree.2 r (List.mem_of_getElem? hrOld) hrThere)
    · rcases hOld k r hr with ⟨-, hrNew⟩ | hrOld
      · exact absurd (hrNew ▸ hSame)
          (hFree.2 q (List.mem_of_getElem? hqOld) hqThere)
      · exact h.distinct j k q r hqOld hrOld hqThere hrThere hSame
  · intro k q hq j hj
    rcases hOld k q hq with ⟨rfl, rfl⟩ | hq
    · rw [hParent] at hj
      exact Option.some.inj hj ▸ hi
    · exact h.earlier k q hq j hj
  · intro k q hq
    rcases hOld k q hq with ⟨rfl, rfl⟩ | hq
    · rw [hParent]
      constructor
      · intro hNone
        contradiction
      · intro hZero
        omega
    · exact h.first k q hq
  · intro k q hq
    rcases hOld k q hq with ⟨rfl, rfl⟩ | hq
    · rw [cares_running hPhase]
      refine ⟨[], hChild, ?_⟩
      intro pid hHas
      rcases hChildren _ pid hHas with ⟨j, q, hq, hOf, -, -⟩ | ⟨rfl, -⟩
      · have hLess := h.earlier j q hq _ hOf
        have hj := (List.getElem?_eq_some_iff.mp hq).1
        omega
      · omega
    · by_cases hk : k = i
      · subst hk
        obtain rfl : p = q := Option.some.inj (hp.symm.trans hq)
        rw [cares_running hText]
        refine ⟨pending, hTidy, ?_⟩
        intro pid hHas
        rcases hChildren _ pid hHas with hHas | ⟨-, rfl⟩
        · exact hAll pid hHas
        · exact hVar
      · refine (h.cares k q hq).mono ?_
        intro pid hHas
        rcases hChildren _ pid hHas with hHas | ⟨hEq, -⟩
        · exact hHas
        · exact absurd hEq hk

omit [DecidableEq V] in
/-- Nobody is left behind by a process without children. -/
theorem map_orphan (hNone : ∀ pid, ¬s.HasChild i pid) :
    s.procs.map (orphan i) = s.procs := by
  have hSame : ∀ q ∈ s.procs, orphan i q = id q := by
    intro q hq
    obtain ⟨j, hj⟩ := List.mem_iff_getElem?.mp hq
    exact if_neg fun ⟨hOf, hThere⟩ => hNone q.pid ⟨j, q, hj, hOf, hThere, rfl⟩
  rw [List.map_congr_left hSame, List.map_id]

omit [DecidableEq V] in
theorem present_running (hText : p.phase = .running text) :
    p.phase.present = true := by
  rw [hText]
  rfl

/-- The end of a process that has waited for its children. -/
theorem Kept.exit_eq (h : Kept s) (hp : s.procs[i]? = some p) {code : Nat}
    (hText : p.phase = .running (.exit code)) :
    (∀ pid, ¬s.HasChild i pid) ∧ s.exit i p code =
      (s.put i { p with phase := .zombie code }).say (.exit p.pid code) := by
  obtain ⟨pending, hTidy, hAll⟩ :=
    (cares_running hText _).mp (h.cares i p hp)
  obtain rfl : pending = [] := hTidy
  have hNone : ∀ pid, ¬s.HasChild i pid := by
    intro pid hHas
    obtain ⟨v, hv, -⟩ := hAll pid hHas
    exact List.not_mem_nil hv
  refine ⟨hNone, ?_⟩
  rw [exit, map_orphan hNone]

/-- A new variable is set beside those that are kept. -/
theorem covered_update {var : V} {value : Int} {vars : V → Int}
    {child : Nat → Prop} (hNew : var ∉ pending)
    (hAll : ∀ pid, child pid → ∃ v ∈ pending, vars v = pid) (pid : Nat)
    (h : child pid) :
    ∃ v ∈ var :: pending, Function.update vars var value v = pid := by
  obtain ⟨v, hv, hValue⟩ := hAll pid h
  refine ⟨v, List.mem_cons_of_mem _ hv, ?_⟩
  rw [Function.update_of_ne, hValue]
  rintro rfl
  exact hNew hv

/-- **One call keeps the family together.** -/
theorem Kept.does (h : Kept s) (hp : s.procs[i]? = some p)
    (hDoes : s.Does i p next) : Kept next := by
  have hCares := h.cares i p hp
  cases hDoes with
  | exits code hText =>
      obtain ⟨hNone, hExit⟩ := h.exit_eq hp hText
      have hPut : Kept (s.put i { p with phase := .zombie code }) :=
        h.put hp rfl rfl (fun _ => present_running hText) hNone
      rw [hExit]
      exact ⟨hPut.distinct, hPut.earlier, hPut.first, hPut.cares⟩
  | prints line rest hText =>
      obtain ⟨pending, hTidy, hAll⟩ := (cares_running hText _).mp hCares
      have hRest : rest.Tidy pending := hTidy
      have hPut : Kept (s.put i { p with phase := .running rest }) :=
        h.put hp rfl rfl (fun _ => present_running hText)
          ((cares_running rfl _).mpr ⟨pending, hRest, hAll⟩)
      exact ⟨hPut.distinct, hPut.earlier, hPut.first, hPut.cares⟩
  | refused var child parent hText =>
      obtain ⟨pending, ⟨hNew, -, hTidy⟩, hAll⟩ :=
        (cares_running hText _).mp hCares
      have hPut : Kept (s.put i { p with
          phase := .running parent
          vars := Function.update p.vars var (-1) }) :=
        h.put hp rfl rfl (fun _ => present_running hText)
          ((cares_running rfl _).mpr
            ⟨var :: pending, hTidy, covered_update hNew hAll⟩)
      exact ⟨hPut.distinct, hPut.earlier, hPut.first, hPut.cares⟩
  | forks var child parent pid hText hFree =>
      obtain ⟨pending, ⟨hNew, hChild, hTidy⟩, hAll⟩ :=
        (cares_running hText _).mp hCares
      have hCovered : ∀ pid', s.HasChild i pid' → ∃ v ∈ var :: pending,
          Function.update p.vars var (pid : Int) v = pid' :=
        covered_update hNew hAll
      obtain ⟨p', hp'⟩ : ∃ p' : Process V L, p' = { p with
          phase := .running parent
          vars := Function.update p.vars var pid } := ⟨_, rfl⟩
      have hPid : p'.pid = p.pid := hp' ▸ rfl
      have hOf : p'.parent = p.parent := hp' ▸ rfl
      have hText' : p'.phase = .running parent := hp' ▸ rfl
      have hVars : p'.vars = Function.update p.vars var pid := hp' ▸ rfl
      have hPresent : p'.phase.present = true → p.phase.present = true :=
        fun _ => present_running hText
      rw [← hVars] at hCovered
      have hPut := h.put hp hPid hOf hPresent
        ((cares_running hText' _).mpr ⟨var :: pending, hTidy, hCovered⟩)
      have hSelf : (s.put i p').procs[i]? = some p' := by
        rw [getElem?_put hp, if_pos rfl]
      rw [← hp']
      refine hPut.add hSelf hText' hTidy ?_ (hFree.put hp hPid hOf hPresent)
        ?_ rfl rfl hChild
      · exact fun pid' hHas =>
          hCovered pid' (hasChild_of_put hp hPid hOf hPresent hHas)
      · refine ⟨var, List.mem_cons_self, ?_⟩
        rw [hVars, Function.update_self]
  | goesOn var rest hText hNone =>
      obtain ⟨pending, ⟨-, hTidy⟩, hAll⟩ := (cares_running hText _).mp hCares
      refine h.put hp rfl rfl (fun _ => present_running hText)
        ((cares_running rfl _).mpr ⟨_, hTidy, ?_⟩)
      rintro pid ⟨j, q, hq, hOf, hThere, rfl⟩
      obtain ⟨v, hv, hValue⟩ := hAll q.pid ⟨j, q, hq, hOf, hThere, rfl⟩
      refine ⟨v, List.mem_filter.mpr ⟨hv, decide_eq_true ?_⟩, hValue⟩
      -- the child in `var` would have been there to wait for
      rintro rfl
      exact hNone q (List.mem_of_getElem? hq) ⟨hOf, hThere, .inr hValue⟩
  | reaps var rest j code q hText hChild hZombie hTakes =>
      obtain ⟨pending, ⟨-, hTidy⟩, hAll⟩ := (cares_running hText _).mp hCares
      have hNe : i ≠ j := by
        rintro rfl
        obtain rfl : p = q := Option.some.inj (hp.symm.trans hChild)
        rw [hText] at hZombie
        contradiction
      have hGone : Kept (s.put j { q with phase := .reaped code }) := by
        refine h.put hChild rfl rfl (fun hThere => ?_) ?_
        · contradiction
        · have hNone := h.cares j q hChild
          rw [Cares, hZombie] at hNone
          exact hNone
      have hStill : (s.put j { q with phase := .reaped code }).procs[i]? =
          some p := by
        rw [getElem?_put hChild, if_neg hNe.symm, hp]
      refine hGone.put hStill rfl rfl (fun _ => present_running hText)
        ((cares_running rfl _).mpr ⟨_, hTidy, ?_⟩)
      rintro pid ⟨k, r, hr, hOf, hThere, rfl⟩
      rw [getElem?_put hChild] at hr
      by_cases hk : j = k
      · rw [if_pos hk] at hr
        obtain rfl := Option.some.inj hr
        contradiction
      rw [if_neg hk] at hr
      obtain ⟨v, hv, hValue⟩ := hAll r.pid ⟨k, r, hr, hOf, hThere, rfl⟩
      refine ⟨v, List.mem_filter.mpr ⟨hv, decide_eq_true ?_⟩, hValue⟩
      rintro rfl
      rcases hTakes.2.2 with hAny | hOne
      · omega
      · have hSame : r.pid = q.pid := by omega
        exact hk (h.distinct k j r q hr hChild hThere hTakes.2.1 hSame).symm

/-! ## Whole runs -/

theorem Kept.step (h : Kept s) (hStep : s.step a = some next) : Kept next := by
  obtain ⟨p, hp, hDoes⟩ := step_does hStep
  exact h.does hp hDoes

theorem Kept.start {pid : Nat} (hTidy : text.Tidy [])
    (h : Starts text pid s) : Kept s := by
  obtain ⟨vars, hProcs⟩ := h.procs
  have hOnly : ∀ (i : Nat) (p : Process V L), s.procs[i]? = some p →
      i = 0 ∧ p = { pid, parent := none, phase := .running text, vars } := by
    intro i p hp
    rw [hProcs, List.getElem?_singleton] at hp
    obtain ⟨hi, hp⟩ := Option.ite_none_right_eq_some.mp hp
    exact ⟨hi, (Option.some.inj hp).symm⟩
  constructor
  · intro i j p q hp hq _ _ _
    exact (hOnly i p hp).1.trans (hOnly j q hq).1.symm
  · intro i p hp j hj
    rw [(hOnly i p hp).2] at hj
    contradiction
  · intro i p hp
    rw [(hOnly i p hp).2]
    exact ⟨fun _ => (hOnly i p hp).1, fun _ => rfl⟩
  · intro i p hp
    rw [(hOnly i p hp).2, cares_running rfl]
    refine ⟨[], hTidy, ?_⟩
    rintro pid ⟨j, q, hq, hOf, -, -⟩
    rw [(hOnly j q hq).2] at hOf
    contradiction

theorem machine_kept {pid : Nat} (hTidy : text.Tidy [])
    (h : (machine text pid).Reachable s) : Kept s :=
  h.invariant (I := Kept) (fun _ h0 => .start hTidy h0)
    (fun _ _ _ hI _ hs => hI.step hs)

/-- **A process is there as long as its children are.**  Its parent still
runs. -/
theorem Kept.parent_running (h : Kept s) (hp : s.procs[i]? = some p)
    (hThere : p.phase.present = true) (hi : i ≠ 0) :
    ∃ (j : Nat) (parent : Process V L) (text : Script V L),
      p.parent = some j ∧ s.procs[j]? = some parent ∧
      parent.phase = .running text := by
  cases hParent : p.parent with
  | none => exact absurd ((h.first i p hp).mp hParent) hi
  | some j =>
      have hLess := h.earlier i p hp j hParent
      have hi' := (List.getElem?_eq_some_iff.mp hp).1
      have hj : s.procs[j]? = some s.procs[j] :=
        List.getElem?_eq_getElem (Nat.lt_trans hLess hi')
      have hHas : s.HasChild j p.pid := ⟨i, p, hp, hParent, hThere, rfl⟩
      have hCares := h.cares j _ hj
      cases hPhase : s.procs[j].phase with
      | running text => exact ⟨j, _, text, rfl, hj, hPhase⟩
      | zombie code =>
          rw [Cares, hPhase] at hCares
          exact absurd hHas (hCares p.pid)
      | reaped code =>
          rw [Cares, hPhase] at hCares
          exact absurd hHas (hCares p.pid)

end System

end UnixHomework.Verified
