import UnixHomework.Verified.Processes
import UnixHomework.Verified.Progress
import UnixHomework.Verified.Tally
import Mathlib.Algebra.BigOperators.Group.Finset.Basic
import Mathlib.Algebra.Group.Nat.Defs
import Mathlib.Data.Nat.Find

/-!
# How processes that fork and wait end

A text has finitely many calls, so the processes that come of it make finitely
many steps (`System.descends`).  If the text is tidy they do not block each
other: among the running processes the youngest can always go on, since those
it might wait for have exited (`Kept.exists_step`).  In the end only the first
process is left, and it has exited (`Kept.ended`).

What has been seen by then does not depend on the scheduler but for its order:
it is what the text says, read as a program of its own in which a `fork` is the
child followed by the parent (`Behaves`, `machine_behaves`).
-/

namespace UnixHomework.Verified

universe u v

variable {V : Type u} {L : Type v}

/-! ## Finitely many steps -/

/-- The calls of a text and of the children it makes.  A `fork` counts for both
branches, since both will be run. -/
def Script.size : Script V L → Nat
  | .exit _ => 1
  | .print _ rest | .waitpid _ rest => rest.size + 1
  | .fork _ child parent => child.size + parent.size + 1

/-- What a process has before it.  One that has exited makes no more calls. -/
def Phase.work : Phase V L → Nat
  | .running text => text.size
  | .zombie _ | .reaped _ => 0

namespace System

open Finset

/-- What the process at `i` has before it. -/
def workAt (s : System V L) (i : Nat) : Nat :=
  (s.procs[i]?.map fun p => p.phase.work).getD 0

def work (s : System V L) : Nat :=
  ∑ i ∈ range s.procs.length, s.workAt i

variable {s next : System V L} {a : Turn} {i : Nat} {p p' : Process V L}

theorem workAt_eq (hp : s.procs[i]? = some p) :
    s.workAt i = p.phase.work := by
  rw [workAt, hp]
  rfl

theorem lt_of_getElem? (hp : s.procs[i]? = some p) : i < s.procs.length :=
  (List.getElem?_eq_some_iff.mp hp).1

theorem work_put (hp : s.procs[i]? = some p) :
    (s.put i p').work + p.phase.work = s.work + p'.phase.work := by
  have hLength : (s.put i p').procs.length = s.procs.length :=
    List.length_set
  have hSelf : (s.put i p').procs[i]? = some p' := by
    rw [getElem?_put hp, if_pos rfl]
  have hOthers : ∀ k, k ≠ i → (s.put i p').workAt k = s.workAt k := by
    intro k hk
    rw [workAt, workAt, getElem?_put hp, if_neg (Ne.symm hk)]
  have hSum := sum_add_of_others (mem_range.mpr (lt_of_getElem? hp)) hOthers
  rw [workAt_eq hp, workAt_eq hSelf] at hSum
  rw [work, work, hLength]
  exact hSum

theorem work_put_lt (hp : s.procs[i]? = some p)
    (hLess : p'.phase.work < p.phase.work) : (s.put i p').work < s.work := by
  have hPut : (s.put i p').work + p.phase.work = s.work + p'.phase.work :=
    work_put hp
  omega

theorem work_add (c : Process V L) :
    (s.add c).work = s.work + c.phase.work := by
  have hLength : (s.add c).procs.length = s.procs.length + 1 :=
    List.length_append
  have hLast : (s.add c).procs[s.procs.length]? = some c := by
    rw [getElem?_add, if_pos rfl]
  rw [work, hLength, sum_range_succ, workAt_eq hLast]
  have hRest : ∑ k ∈ range s.procs.length, (s.add c).workAt k =
      ∑ k ∈ range s.procs.length, s.workAt k := by
    apply sum_congr rfl
    intro k hk
    have hLess := mem_range.mp hk
    rw [workAt, workAt, getElem?_add, if_neg (by omega)]
  rw [hRest, work]

theorem getElem?_reaped (hp : s.procs[i]? = some p) {text : Script V L}
    (hText : p.phase = .running text) {j code : Nat} {q : Process V L}
    (hChild : s.procs[j]? = some q) (hZombie : q.phase = .zombie code) :
    (s.put j { q with phase := .reaped code }).procs[i]? = some p := by
  rw [getElem?_put hChild, if_neg, hp]
  rintro rfl
  rw [Option.some.inj (hChild.symm.trans hp), hText] at hZombie
  contradiction

variable [DecidableEq V] {text : Script V L} {pid : Nat}

theorem work_does (h : Kept s) (hp : s.procs[i]? = some p)
    (hDoes : s.Does i p next) : next.work < s.work := by
  cases hDoes with
  | exits code hText =>
      rw [(h.exit_eq hp hText).2]
      exact work_put_lt hp (hText ▸ Nat.one_pos)
  | prints line rest hText =>
      exact work_put_lt hp (hText ▸ Nat.lt_succ_self _)
  | refused var child parent hText =>
      apply work_put_lt hp
      rw [hText]
      exact Nat.lt_succ_of_le (Nat.le_add_left _ _)
  | forks var child parent pid hText hFree =>
      have hPut : (s.put i { p with
          phase := .running parent
          vars := Function.update p.vars var pid }).work + p.phase.work =
          s.work + parent.size := work_put hp
      rw [hText] at hPut
      simp only [Phase.work, Script.size] at hPut
      rw [work_add]
      simp only [Phase.work]
      omega
  | goesOn var rest hText hNone =>
      exact work_put_lt hp (hText ▸ Nat.lt_succ_self _)
  | reaps var rest j code q hText hChild hZombie hTakes =>
      have hGone : (s.put j { q with phase := .reaped code }).work +
          q.phase.work = s.work + 0 := work_put hChild
      rw [hZombie] at hGone
      have hStill := getElem?_reaped hp hText hChild hZombie
      have hPut : ((s.put j { q with phase := .reaped code }).put i
          { p with phase := .running rest }).work <
          (s.put j { q with phase := .reaped code }).work :=
        work_put_lt hStill (hText ▸ Nat.lt_succ_self _)
      exact Nat.lt_of_lt_of_eq hPut hGone

theorem descends : (machine text pid).Descends Kept work := by
  intro s a next hKept hStep
  obtain ⟨p, hp, hDoes⟩ := step_does hStep
  exact ⟨hKept.does hp hDoes, work_does hKept hp hDoes⟩

/-! ## No deadlock -/

/-- A running process that need not wait has a step: it waits only in
`waitpid`, and only while one of its children runs. -/
theorem exists_step_of_free (hp : s.procs[i]? = some p)
    {text : Script V L} (hText : p.phase = .running text)
    (hYoungest : ∀ (j : Nat) (q : Process V L), s.procs[j]? = some q →
      q.parent = some i → ∀ text', q.phase ≠ .running text') :
    ∃ a next, s.step a = some next := by
  cases text with
  | exit code =>
      refine ⟨⟨i, none⟩, s.exit i p code, ?_⟩
      rw [step, hp, Option.bind_some, hText]
  | print line rest =>
      refine ⟨⟨i, none⟩, (s.put i { p with phase := .running rest }).say
        (.line line p.pid (s.ppid p)), ?_⟩
      rw [step, hp, Option.bind_some, hText]
  | fork var child parent =>
      refine ⟨⟨i, none⟩, (s.put i { p with
        phase := .running parent
        vars := Function.update p.vars var (-1) }).say (.refused p.pid), ?_⟩
      rw [step, hp, Option.bind_some, hText]
      rfl
  | waitpid var rest =>
      by_cases hSome : ∃ q ∈ s.procs, Takes i (p.vars var) q
      · obtain ⟨q, hq, hTakes⟩ := hSome
        obtain ⟨j, hj⟩ := List.mem_iff_getElem?.mp hq
        cases hPhase : q.phase with
        | running text' =>
            exact absurd hPhase (hYoungest j q hj hTakes.1 text')
        | reaped code =>
            have hThere := hTakes.2.1
            rw [hPhase] at hThere
            contradiction
        | zombie code =>
            refine ⟨⟨i, some j⟩, (s.put j { q with phase := .reaped code }).put
              i { p with phase := .running rest }, ?_⟩
            rw [step, hp, Option.bind_some, hText]
            show s.waitpid i p (p.vars var) rest (some j) = some _
            rw [waitpid, hj, Option.bind_some, hPhase]
            exact if_pos hTakes
      · refine ⟨⟨i, none⟩, s.put i { p with phase := .running rest }, ?_⟩
        rw [step, hp, Option.bind_some, hText]
        exact if_neg hSome

/-- **The youngest process that runs can go on.**  Children come behind their
parents in the list, so all its children have exited, and a `waitpid` finds
them. -/
theorem Kept.exists_step (h : Kept s)
    (hRuns : ∃ (i : Nat) (p : Process V L) (text : Script V L),
      s.procs[i]? = some p ∧ p.phase = .running text) :
    ∃ a next, s.step a = some next := by
  classical
  obtain ⟨i₀, p₀, text₀, hp₀, hText₀⟩ := hRuns
  let Runs : Nat → Prop := fun i => ∃ (p : Process V L) (text : Script V L),
    s.procs[i]? = some p ∧ p.phase = .running text
  obtain ⟨p, text, hp, hText⟩ : Runs (Nat.findGreatest Runs s.procs.length) :=
    Nat.findGreatest_spec (Nat.le_of_lt (lt_of_getElem? hp₀))
      ⟨p₀, text₀, hp₀, hText₀⟩
  refine exists_step_of_free hp hText ?_
  intro j q hq hOf text' hText'
  have hLess := h.earlier j q hq _ hOf
  exact Nat.findGreatest_is_greatest hLess
    (Nat.le_of_lt (lt_of_getElem? hq)) ⟨q, text', hq, hText'⟩

/-- The process makes no more calls. -/
def stopped (p : Process V L) : Bool :=
  match p.phase with
  | .running _ => false
  | .zombie _ | .reaped _ => true

theorem settled_of_stopped (h : s.procs.all stopped = true) (a : Turn) :
    s.step a = none := by
  cases hp : s.procs[a.who]? with
  | none => rw [step, hp, Option.bind_none]
  | some p =>
      have hStopped := List.all_eq_true.mp h p (List.mem_of_getElem? hp)
      rw [step, hp, Option.bind_some]
      cases hPhase : p.phase with
      | running text =>
          rw [stopped, hPhase] at hStopped
          contradiction
      | zombie code => rfl
      | reaped code => rfl

/-- **Only the first process is left.**  When nothing moves any more, all other
processes have been waited for: a tidy text waits for every child before its
`exit`, and the waits are behind it. -/
theorem Kept.ended (h : Kept s) (hSettled : ∀ a, s.step a = none)
    (hp : s.procs[i]? = some p) :
    (∀ text, p.phase ≠ .running text) ∧
    (i ≠ 0 → p.phase.present = false) := by
  have hNone : ∀ (k : Nat) (q : Process V L) (text : Script V L),
      s.procs[k]? = some q → q.phase ≠ .running text := by
    intro k q text hq hText
    obtain ⟨a, next, hStep⟩ := h.exists_step ⟨k, q, text, hq, hText⟩
    rw [hSettled a] at hStep
    contradiction
  refine ⟨fun text => hNone i p text hp, ?_⟩
  intro hi
  by_contra hThere
  obtain ⟨j, parent, text, -, hj, hText⟩ :=
    h.parent_running hp (Bool.of_not_eq_false hThere) hi
  exact hNone j parent text hj hText

end System

/-! ## What is seen -/

/-- The meaning of a text that a process with this number runs: what is seen of
it and of its children, in some order.  The rules are those of a program
without processes; in the rule for `fork` the child's part is added to what the
parent goes on to show. -/
inductive Behaves : Script V L → Nat → Option Nat → Multiset (Event L) → Prop
    where
  /-- The exit is seen, and nothing after it. -/
  | exit {code pid : Nat} {ppid : Option Nat} :
      Behaves (.exit code) pid ppid {.exit pid code}
  /-- A line is seen, with the numbers of the process and of its parent. -/
  | print {line : L} {rest : Script V L} {pid : Nat} {ppid : Option Nat}
      {events : Multiset (Event L)} (h : Behaves rest pid ppid events) :
      Behaves (.print line rest) pid ppid ({.line line pid ppid} + events)
  /-- The child is a process of its own, whose parent this one is. -/
  | fork {var : V} {child parent : Script V L} {pid pid' : Nat}
      {ppid : Option Nat} {events events' : Multiset (Event L)}
      (hChild : Behaves child pid' (some pid) events')
      (hParent : Behaves parent pid ppid events) :
      Behaves (.fork var child parent) pid ppid (events' + events)
  /-- No child, and the parent goes on. -/
  | refused {var : V} {child parent : Script V L} {pid : Nat}
      {ppid : Option Nat} {events : Multiset (Event L)}
      (h : Behaves parent pid ppid events) :
      Behaves (.fork var child parent) pid ppid ({.refused pid} + events)
  /-- A `waitpid` is not seen. -/
  | waitpid {var : V} {rest : Script V L} {pid : Nat} {ppid : Option Nat}
      {events : Multiset (Event L)} (h : Behaves rest pid ppid events) :
      Behaves (.waitpid var rest) pid ppid events

/-- What is seen of a `fork` with this answer, and of the child it makes.  A
`fork` that is refused is seen as such. -/
def forked (pid : Nat) (answer : Option Nat)
    (child : Nat → Multiset (Event L)) : Multiset (Event L) :=
  (answer.map child).getD {.refused pid}

namespace Behaves

variable {pid : Nat} {ppid : Option Nat} {M : Multiset (Event L)}

theorem of_exit {code : Nat}
    (h : Behaves (.exit code : Script V L) pid ppid M) :
    M = {.exit pid code} := by
  cases h
  rfl

theorem of_print {line : L} {rest : Script V L}
    (h : Behaves (.print line rest) pid ppid M) :
    ∃ M', Behaves rest pid ppid M' ∧ M = {.line line pid ppid} + M' := by
  cases h with
  | print hRest => exact ⟨_, hRest, rfl⟩

theorem of_waitpid {var : V} {rest : Script V L}
    (h : Behaves (.waitpid var rest) pid ppid M) :
    Behaves rest pid ppid M := by
  cases h with
  | waitpid hRest => exact hRest

/-- What a child shows, in terms of some `x`, is shown for one answer.  With
this a text that forks is read branch by branch. -/
theorem of_fork {α : Type*} [Nonempty α] {var : V} {child parent : Script V L}
    (seen : α → Nat → Multiset (Event L))
    (hSeen : ∀ pid' M', Behaves child pid' (some pid) M' →
      ∃ x, M' = seen x pid')
    (h : Behaves (.fork var child parent) pid ppid M) :
    ∃ answer x M', Behaves parent pid ppid M' ∧
      M = forked pid answer (seen x) + M' := by
  cases h with
  | fork hChild hParent =>
      obtain ⟨x, rfl⟩ := hSeen _ _ hChild
      exact ⟨some _, x, _, hParent, rfl⟩
  | refused hParent =>
      exact ⟨none, Classical.ofNonempty, _, hParent, rfl⟩

end Behaves

namespace System

open Finset

variable {s next : System V L} {a : Turn} {i : Nat} {p p' q : Process V L}
  {M : Multiset (Event L)}

/-- `M` is what may still be seen of a process: a behaviour of the text that it
has before it, or nothing once it has exited. -/
def Owes (s : System V L) (p : Process V L) (M : Multiset (Event L)) : Prop :=
  match p.phase with
  | .running text => Behaves text p.pid (s.ppid p) M
  | .zombie _ | .reaped _ => M = 0

/-- Whatever may still be seen, with what has been seen it is a behaviour of
the text.  The quantifier is on what the processes will do, so nothing need be
said about the order in which they do it. -/
def Accounts (text : Script V L) (pid : Nat) (s : System V L) : Prop :=
  ∀ F : Nat → Multiset (Event L),
    (∀ (i : Nat) (p : Process V L), s.procs[i]? = some p → s.Owes p (F i)) →
    Behaves text pid none (s.log + ∑ i ∈ range s.procs.length, F i)

theorem owes_running {text : Script V L} (hText : p.phase = .running text) :
    s.Owes p M ↔ Behaves text p.pid (s.ppid p) M := by
  rw [Owes, hText]

theorem owes_zombie {code : Nat} (hPhase : p.phase = .zombie code) :
    s.Owes p M ↔ M = 0 := by
  rw [Owes, hPhase]

theorem ppid_put (hp : s.procs[i]? = some p) (hPid : p'.pid = p.pid)
    (q : Process V L) : (s.put i p').ppid q = s.ppid q := by
  rw [ppid, ppid]
  congr 1
  funext j
  rw [getElem?_put hp]
  by_cases hj : i = j
  · rw [if_pos hj, ← hj, hp, Option.map_some, Option.map_some, hPid]
  · rw [if_neg hj]

theorem ppid_add (c : Process V L)
    (hParent : ∀ j, q.parent = some j → j < s.procs.length) :
    (s.add c).ppid q = s.ppid q := by
  rw [ppid, ppid]
  cases hq : q.parent with
  | none => rfl
  | some j =>
      have hLess := hParent j hq
      rw [Option.bind_some, Option.bind_some, getElem?_add,
        if_neg (by omega)]

/-- `Owes` looks at where a process stands and at two numbers, its own and its
parent's. -/
theorem owes_congr (hPhase : p'.phase = p.phase) (hPid : p'.pid = p.pid)
    (hPpid : next.ppid p' = s.ppid p) : next.Owes p' M ↔ s.Owes p M := by
  rw [Owes, Owes, hPhase, hPid, hPpid]

theorem behaves_of_put (hp : s.procs[i]? = some p)
    (hPid : p'.pid = p.pid) (hParent : p'.parent = p.parent)
    {text : Script V L} (hText : p'.phase = .running text)
    (h : (s.put i p').Owes p' M) : Behaves text p.pid (s.ppid p) M := by
  rw [owes_running hText, ppid_put hp hPid, hPid, ppid, hParent] at h
  exact h

/-- A step of one process that is seen as `es`: it moves `es` from what it owes
to the log. -/
theorem Accounts.put {text : Script V L} {pid : Nat}
    (h : Accounts text pid s) (hp : s.procs[i]? = some p)
    (hPid : p'.pid = p.pid) {es : List (Event L)}
    (hOwes : ∀ M, (s.put i p').Owes p' M → s.Owes p (es + M)) :
    Accounts text pid ⟨(s.put i p').procs, s.log ++ es⟩ := by
  intro F hF
  have hi : i ∈ range s.procs.length := mem_range.mpr (lt_of_getElem? hp)
  have hLength : (s.put i p').procs.length = s.procs.length :=
    List.length_set
  have hSelf : (s.put i p').procs[i]? = some p' := by
    rw [getElem?_put hp, if_pos rfl]
  have hBefore := h (Function.update F i (es + F i)) (by
    intro k q hq
    by_cases hk : k = i
    · subst hk
      obtain rfl : p = q := Option.some.inj (hp.symm.trans hq)
      rw [Function.update_self]
      exact hOwes _ (hF k p' hSelf)
    · rw [Function.update_of_ne hk]
      have hSame : (s.put i p').procs[k]? = some q := by
        rw [getElem?_put hp, if_neg (Ne.symm hk), hq]
      exact (owes_congr rfl rfl (ppid_put hp hPid q)).mp (hF k q hSame))
  have hSum := sum_add_of_others (g := Function.update F i (es + F i)) hi
    (fun k hk => Function.update_of_ne hk _ _)
  rw [Function.update_self, ← add_assoc] at hSum
  have hTotal := add_right_cancel hSum
  rw [hTotal, add_comm _ (es : Multiset (Event L)), ← add_assoc,
    Multiset.coe_add] at hBefore
  show Behaves text pid none (_ + ∑ k ∈ range (s.put i p').procs.length, F k)
  rw [hLength]
  exact hBefore

/-- A step that is not seen, as a `waitpid` is not. -/
theorem Accounts.hidden {text : Script V L} {pid : Nat}
    (h : Accounts text pid s) (hp : s.procs[i]? = some p)
    (hPid : p'.pid = p.pid)
    (hOwes : ∀ M, (s.put i p').Owes p' M → s.Owes p M) :
    Accounts text pid (s.put i p') := by
  have hPut : Accounts text pid ⟨(s.put i p').procs, s.log ++ []⟩ := by
    refine h.put hp hPid ?_
    intro M hM
    rw [Multiset.coe_nil, zero_add]
    exact hOwes M hM
  rw [List.append_nil] at hPut
  exact hPut

/-- What is seen of a new child is added: what the parent owed before is what
both owe now. -/
theorem Accounts.fork [DecidableEq V] {text : Script V L} {pid : Nat}
    (h : Accounts text pid s) (hKept : Kept s) (hp : s.procs[i]? = some p)
    {var : V} {child parent : Script V L}
    (hText : p.phase = .running (.fork var child parent))
    (hPid : p'.pid = p.pid) (hParent : p'.parent = p.parent)
    (hRest : p'.phase = .running parent) {c : Process V L}
    (hOf : c.parent = some i) (hChild : c.phase = .running child) :
    Accounts text pid ((s.put i p').add c) := by
  intro F hF
  have hIn := lt_of_getElem? hp
  have hi : i ∈ range s.procs.length := mem_range.mpr hIn
  have hLength : (s.put i p').procs.length = s.procs.length :=
    List.length_set
  have hAll : ((s.put i p').add c).procs.length = s.procs.length + 1 := by
    rw [add, List.length_append, hLength, List.length_singleton]
  have hFound : ∀ k < s.procs.length, ((s.put i p').add c).procs[k]? =
      if i = k then some p' else s.procs[k]? := by
    intro k hk
    rw [getElem?_add, if_neg (by omega), getElem?_put hp]
  have hPpid : ∀ (k : Nat) (q q' : Process V L), s.procs[k]? = some q →
      q'.parent = q.parent → ((s.put i p').add c).ppid q' = s.ppid q := by
    intro k q q' hq hSame
    rw [ppid_add, ppid_put hp hPid, ppid, ppid, hSame]
    intro j hj
    rw [hLength]
    exact Nat.lt_trans (hKept.earlier k q hq j (hSame ▸ hj))
      (lt_of_getElem? hq)
  have hLast : ((s.put i p').add c).procs[s.procs.length]? = some c := by
    rw [getElem?_add, if_pos hLength.symm]
  have hSelf : ((s.put i p').add c).procs[i]? = some p' := by
    rw [hFound i hIn, if_pos rfl]
  have hNew := (owes_running hChild).mp (hF _ c hLast)
  rw [ppid, hOf, Option.bind_some, hSelf, Option.map_some, hPid] at hNew
  have hGoesOn := (owes_running hRest).mp (hF i p' hSelf)
  rw [hPid, hPpid i p p' hp hParent] at hGoesOn
  have hBefore := h (Function.update F i (F s.procs.length + F i)) (by
    intro k q hq
    by_cases hk : k = i
    · subst hk
      obtain rfl : p = q := Option.some.inj (hp.symm.trans hq)
      rw [Function.update_self, owes_running hText]
      exact .fork hNew hGoesOn
    · rw [Function.update_of_ne hk]
      have hSame : ((s.put i p').add c).procs[k]? = some q := by
        rw [hFound k (lt_of_getElem? hq), if_neg (Ne.symm hk), hq]
      exact (owes_congr rfl rfl (hPpid k q q hq rfl)).mp (hF k q hSame))
  have hSum := sum_add_of_others
    (g := Function.update F i (F s.procs.length + F i)) hi
    (fun k hk => Function.update_of_ne hk _ _)
  rw [Function.update_self, ← add_assoc] at hSum
  rw [add_right_cancel hSum] at hBefore
  rw [hAll, sum_range_succ]
  exact hBefore

/-- **One call, and what may still be seen.**  The cases are the calls; each
moves one line from the text to the log, or splits the text. -/
theorem Accounts.does [DecidableEq V] {text : Script V L} {pid : Nat}
    (h : Accounts text pid s) (hKept : Kept s) (hp : s.procs[i]? = some p)
    (hDoes : s.Does i p next) : Accounts text pid next := by
  cases hDoes with
  | exits code hText =>
      rw [(hKept.exit_eq hp hText).2]
      refine h.put hp ?_ ?_
      · rfl
      · intro M hM
        rw [owes_zombie rfl] at hM
        rw [owes_running hText, hM, add_zero]
        exact .exit
  | prints line rest hText =>
      refine h.put hp ?_ ?_
      · rfl
      · intro M hM
        have hRest := behaves_of_put hp (by rfl) (by rfl) (by rfl) hM
        rw [owes_running hText]
        exact .print hRest
  | refused var child parent hText =>
      refine h.put hp ?_ ?_
      · rfl
      · intro M hM
        have hRest := behaves_of_put hp (by rfl) (by rfl) (by rfl) hM
        rw [owes_running hText]
        exact .refused hRest
  | forks var child parent pid hText hFree =>
      refine h.fork hKept hp hText ?_ ?_ ?_ ?_ ?_ <;> rfl
  | goesOn var rest hText hNone =>
      refine h.hidden hp ?_ ?_
      · rfl
      · intro M hM
        have hRest := behaves_of_put hp (by rfl) (by rfl) (by rfl) hM
        rw [owes_running hText]
        exact .waitpid hRest
  | reaps var rest j code q hText hChild hZombie hTakes =>
      have hStill := getElem?_reaped hp hText hChild hZombie
      have hGone : Accounts text pid
          (s.put j { q with phase := .reaped code }) := by
        refine h.hidden hChild ?_ ?_
        · rfl
        · intro M hM
          exact (owes_zombie hZombie).mpr hM
      refine hGone.hidden hStill ?_ ?_
      · rfl
      · intro M hM
        have hRest := behaves_of_put hStill (by rfl) (by rfl) (by rfl) hM
        rw [owes_running hText]
        exact .waitpid hRest

/-! ## The first process -/

/-- The first process is there, with its number, until the end. -/
def Rooted (pid : Nat) (s : System V L) : Prop :=
  ∃ p, s.procs[0]? = some p ∧ p.pid = pid ∧ p.phase.present = true

theorem Rooted.put {pid : Nat} (h : Rooted pid s) (hp : s.procs[i]? = some p)
    (hPid : p'.pid = p.pid)
    (hPresent : i = 0 → p'.phase.present = true) : Rooted pid (s.put i p') := by
  obtain ⟨r, hr, hrPid, hrThere⟩ := h
  by_cases hi : i = 0
  · subst hi
    obtain rfl : p = r := Option.some.inj (hp.symm.trans hr)
    refine ⟨p', ?_, hPid.trans hrPid, hPresent rfl⟩
    rw [getElem?_put hp, if_pos rfl]
  · refine ⟨r, ?_, hrPid, hrThere⟩
    rw [getElem?_put hp, if_neg hi, hr]

theorem Rooted.does [DecidableEq V] {pid : Nat} (h : Rooted pid s)
    (hKept : Kept s) (hp : s.procs[i]? = some p)
    (hDoes : s.Does i p next) : Rooted pid next := by
  cases hDoes with
  | exits code hText =>
      rw [(hKept.exit_eq hp hText).2]
      exact h.put hp (by rfl) (fun _ => by rfl)
  | prints line rest hText =>
      exact h.put hp (by rfl) (fun _ => by rfl)
  | refused var child parent hText =>
      exact h.put hp (by rfl) (fun _ => by rfl)
  | forks var child parent pid' hText hFree =>
      obtain ⟨r, hr, hrPid, hrThere⟩ : Rooted pid (s.put i { p with
          phase := .running parent
          vars := Function.update p.vars var pid' }) :=
        h.put hp (by rfl) (fun _ => by rfl)
      refine ⟨r, ?_, hrPid, hrThere⟩
      rw [getElem?_add, if_neg, hr]
      exact (lt_of_getElem? hr).ne
  | goesOn var rest hText hNone =>
      exact h.put hp (by rfl) (fun _ => by rfl)
  | reaps var rest j code q hText hChild hZombie hTakes =>
      have hNone : j = 0 → q.parent = none := (hKept.first j q hChild).mpr
      have hGone : Rooted pid (s.put j { q with phase := .reaped code }) := by
        refine h.put hChild (by rfl) ?_
        intro hj
        exact absurd ((hNone hj).symm.trans hTakes.1)
          (Option.some_ne_none _).symm
      have hStill := getElem?_reaped hp hText hChild hZombie
      exact hGone.put hStill (by rfl) (fun _ => by rfl)

/-- Where the first process stands, as far as it runs. -/
def FirstRuns (s : System V L) : Prop :=
  ∃ (p : Process V L) (text : Script V L),
    s.procs[0]? = some p ∧ p.phase = .running text

theorem FirstRuns.put (h : FirstRuns s) (hp : s.procs[i]? = some p)
    (hRuns : i = 0 → ∃ text, p'.phase = .running text) :
    FirstRuns (s.put i p') := by
  obtain ⟨r, text, hr, hText⟩ := h
  by_cases hi : i = 0
  · obtain ⟨text', hText'⟩ := hRuns hi
    refine ⟨p', text', ?_, hText'⟩
    rw [getElem?_put hp, if_pos hi]
  · refine ⟨r, text, ?_, hText⟩
    rw [getElem?_put hp, if_neg hi, hr]

/-- Nobody runs without the first process: parents of running processes run,
because a tidy text waits before it exits. -/
theorem Kept.firstRuns [DecidableEq V] (h : Kept s)
    (hp : s.procs[i]? = some p) {text : Script V L}
    (hText : p.phase = .running text) : FirstRuns s := by
  induction i using Nat.strongRecOn generalizing p text with
  | ind i ih =>
      by_cases hi : i = 0
      · exact ⟨p, text, hi ▸ hp, hText⟩
      · obtain ⟨j, parent, text', hOf, hj, hText'⟩ :=
          h.parent_running hp (present_running hText) hi
        exact ih j (h.earlier i p hp j hOf) hj hText'

/-- The first process goes on to run, unless this was its `exit`. -/
theorem firstRuns_does [DecidableEq V] (h : Kept s)
    (hp : s.procs[i]? = some p) (hDoes : s.Does i p next) :
    FirstRuns next ∨
      ∃ code, i = 0 ∧ next.log = s.log ++ [.exit p.pid code] := by
  cases hDoes with
  | exits code hText =>
      rw [(h.exit_eq hp hText).2]
      by_cases hi : i = 0
      · exact .inr ⟨code, hi, rfl⟩
      · exact .inl ((h.firstRuns hp hText).put hp fun hZero =>
          absurd hZero hi)
  | prints line rest hText =>
      exact .inl ((h.firstRuns hp hText).put hp fun _ => ⟨rest, rfl⟩)
  | refused var child parent hText =>
      exact .inl ((h.firstRuns hp hText).put hp fun _ => ⟨parent, rfl⟩)
  | forks var child parent pid' hText hFree =>
      obtain ⟨r, text, hr, hRuns⟩ : FirstRuns (s.put i { p with
          phase := .running parent
          vars := Function.update p.vars var pid' }) :=
        (h.firstRuns hp hText).put hp fun _ => ⟨parent, rfl⟩
      refine .inl ⟨r, text, ?_, hRuns⟩
      rw [getElem?_add, if_neg, hr]
      exact (lt_of_getElem? hr).ne
  | goesOn var rest hText hNone =>
      exact .inl ((h.firstRuns hp hText).put hp fun _ => ⟨rest, rfl⟩)
  | reaps var rest j code q hText hChild hZombie hTakes =>
      have hNone : j = 0 → q.parent = none := (h.first j q hChild).mpr
      have hGone : FirstRuns (s.put j { q with phase := .reaped code }) := by
        refine (h.firstRuns hp hText).put hChild ?_
        intro hj
        exact absurd ((hNone hj).symm.trans hTakes.1)
          (Option.some_ne_none _).symm
      exact .inl (hGone.put (getElem?_reaped hp hText hChild hZombie)
        fun _ => ⟨rest, rfl⟩)

/-! ## Whole runs -/

variable [DecidableEq V] {text : Script V L} {pid : Nat}

theorem machine_rooted (hTidy : text.Tidy [])
    (h : (machine text pid).Reachable s) : Rooted pid s := by
  have hBoth : Kept s ∧ Rooted pid s := by
    refine h.invariant (I := fun s => Kept s ∧ Rooted pid s) ?_ ?_
    · intro s h0
      refine ⟨.start hTidy h0, ?_⟩
      obtain ⟨vars, hProcs⟩ := h0.procs
      refine ⟨{ pid, parent := none, phase := .running text, vars }, ?_, rfl,
        rfl⟩
      rw [hProcs]
      rfl
    · rintro s a next ⟨hKept, hRoot⟩ - hStep
      obtain ⟨p, hp, hDoes⟩ := step_does hStep
      exact ⟨hKept.does hp hDoes, hRoot.does hKept hp hDoes⟩
  exact hBoth.2

/-- The first process exits last.  Until then it runs, and afterwards nobody is
there to write. -/
theorem machine_lastWord (hTidy : text.Tidy [])
    (h : (machine text pid).Reachable s) :
    FirstRuns s ∨ ∃ before code, s.log = before ++ [.exit pid code] := by
  cases h with
  | init h0 =>
      obtain ⟨vars, hProcs⟩ := h0.procs
      refine .inl ⟨{ pid, parent := none, phase := .running text, vars },
        text, ?_, rfl⟩
      rw [hProcs]
      rfl
  | step hBefore _ hStep =>
      obtain ⟨p, hp, hDoes⟩ := step_does hStep
      rcases firstRuns_does (machine_kept hTidy hBefore) hp hDoes with
        hRuns | ⟨code, hZero, hLog⟩
      · exact .inl hRuns
      · obtain ⟨r, hr, hPid, -⟩ := machine_rooted hTidy hBefore
        rw [hZero] at hp
        obtain rfl : p = r := Option.some.inj (hp.symm.trans hr)
        exact .inr ⟨_, code, hPid ▸ hLog⟩

/-- **The end.**  The first process has exited, after everything else that was
seen, and all others have been waited for.  No orphan is left to anybody else,
and no zombie. -/
theorem machine_ended (hTidy : text.Tidy [])
    (h : (machine text pid).Reachable s)
    (hSettled : (machine text pid).Settled s) :
    (∃ before code, s.log = before ++ [.exit pid code]) ∧
    (∃ p code, s.procs[0]? = some p ∧ p.pid = pid ∧ p.phase = .zombie code) ∧
    ∀ (i : Nat) (p : Process V L), s.procs[i]? = some p → i ≠ 0 →
      ∃ code, p.phase = .reaped code := by
  have hKept := machine_kept hTidy h
  refine ⟨?_, ?_, ?_⟩
  · rcases machine_lastWord hTidy h with ⟨p, text, hp, hText⟩ | hLast
    · exact absurd hText ((hKept.ended hSettled hp).1 text)
    · exact hLast
  · obtain ⟨p, hp, hPid, hThere⟩ := machine_rooted hTidy h
    have hStopped := (hKept.ended hSettled hp).1
    cases hPhase : p.phase with
    | running text => exact absurd hPhase (hStopped text)
    | zombie code => exact ⟨p, code, hp, hPid, hPhase⟩
    | reaped code =>
        rw [hPhase] at hThere
        contradiction
  · intro i p hp hi
    have hGone := (hKept.ended hSettled hp).2 hi
    cases hPhase : p.phase with
    | running text =>
        rw [hPhase] at hGone
        contradiction
    | zombie code =>
        rw [hPhase] at hGone
        contradiction
    | reaped code => exact ⟨code, rfl⟩

theorem machine_accounts (hTidy : text.Tidy [])
    (h : (machine text pid).Reachable s) : Accounts text pid s := by
  have hBoth : Kept s ∧ Accounts text pid s := by
    refine h.invariant (I := fun s => Kept s ∧ Accounts text pid s) ?_ ?_
    · intro s h0
      refine ⟨.start hTidy h0, ?_⟩
      obtain ⟨vars, hProcs⟩ := h0.procs
      intro F hF
      have hFirst := hF 0
        { pid, parent := none, phase := .running text, vars }
        (by rw [hProcs]; rfl)
      rw [h0.log, hProcs, List.length_singleton, sum_range_one,
        Multiset.coe_nil, zero_add]
      exact (owes_running rfl).mp hFirst
    · rintro s a next ⟨hKept, hAccounts⟩ - hStep
      obtain ⟨p, hp, hDoes⟩ := step_does hStep
      exact ⟨hKept.does hp hDoes, hAccounts.does hKept hp hDoes⟩
  exact hBoth.2

/-- **What has been seen is what the text says.**  When nothing moves any more,
nobody owes anything, and the log is a behaviour of the text as it stands. -/
theorem machine_behaves (hTidy : text.Tidy [])
    (h : (machine text pid).Reachable s)
    (hSettled : (machine text pid).Settled s) :
    Behaves text pid none s.log := by
  have hKept := machine_kept hTidy h
  have hEnd := machine_accounts hTidy h (fun _ => 0) (by
    intro i p hp
    have hStopped := (hKept.ended hSettled hp).1
    rw [Owes]
    cases hPhase : p.phase with
    | running text => exact absurd hPhase (hStopped text)
    | zombie code => rfl
    | reaped code => rfl)
  rw [sum_const_zero, add_zero] at hEnd
  exact hEnd

end System

end UnixHomework.Verified
