/-!
# Labelled state machines

Every concurrent program of this package is an interleaving of small atomic
steps.  This module fixes the shape once: a `Machine` is a set of initial
states and a partial step function whose *label* carries every choice the
environment makes (which thread runs, which waiter is woken, how many bytes
arrive).  For a fixed label the step is a function, so a model can be run.

The induction over runs is packaged here as well.  `ReachableBy ok` restricts
a run to steps satisfying the guard `ok`; `Reachable` is the unrestricted
case.  A claim about every reachable state is then two obligations, one for
the initial states and one for a single step (`ReachableBy.invariant`), and a
refinement is one obligation per step (`Simulation.reachable`).

This module imports nothing and names no program.
-/

namespace UnixHomework.Verified

universe u v w x

/-- A state machine with initial states `init` and a step function that is
undefined (`none`) where the label is not enabled. -/
structure Machine (σ : Type u) (ι : Type v) where
  /-- The states in which a run may begin. -/
  init : σ → Prop
  /-- What a label does, where it is enabled. -/
  step : σ → ι → Option σ

namespace Machine

variable {σ : Type u} {ι : Type v} (m : Machine σ ι)

/-- Run the labels of a list in order. -/
def run : σ → List ι → Option σ
  | s, [] => some s
  | s, a :: as => (m.step s a).bind fun next => run next as

@[simp] theorem run_nil (s : σ) : m.run s [] = some s := rfl

theorem run_cons (s : σ) (a : ι) (as : List ι) :
    m.run s (a :: as) = (m.step s a).bind fun next => m.run next as := rfl

/-- The same, stopping also at a label that `ok` rejects. -/
def runIf (ok : σ → ι → Prop) [∀ s a, Decidable (ok s a)] :
    σ → List ι → Option σ
  | s, [] => some s
  | s, a :: as =>
      if ok s a then (m.step s a).bind fun next => runIf ok next as else none

/-- States reached by runs all of whose steps satisfy `ok`, which sees the
state before the step and the label. -/
inductive ReachableBy (ok : σ → ι → Prop) : σ → Prop where
  | init {s : σ} : m.init s → ReachableBy ok s
  | step {s next : σ} {a : ι} :
      ReachableBy ok s → ok s a → m.step s a = some next → ReachableBy ok next

/-- States reached by any run. -/
abbrev Reachable : σ → Prop := m.ReachableBy fun _ _ => True

variable {m}

/-- **Induction over runs.**  A property of the initial states that every
permitted step preserves holds in every state reached. -/
theorem ReachableBy.invariant {ok : σ → ι → Prop} {I : σ → Prop}
    (hInit : ∀ s, m.init s → I s)
    (hStep : ∀ s a next, I s → ok s a → m.step s a = some next → I next)
    {s : σ} (h : m.ReachableBy ok s) : I s := by
  induction h with
  | init h0 => exact hInit _ h0
  | step _ hok hs ih => exact hStep _ _ _ ih hok hs

/-- A computed run from a reachable state ends in a reachable state. -/
theorem Reachable.run {s next : σ} (h : m.Reachable s) :
    ∀ {as : List ι}, m.run s as = some next → m.Reachable next := by
  intro as
  induction as generalizing s with
  | nil =>
      intro hRun
      simp only [run_nil, Option.some.injEq] at hRun
      exact hRun ▸ h
  | cons a as ih =>
      intro hRun
      rw [run_cons] at hRun
      cases hStep : m.step s a with
      | none => simp [hStep] at hRun
      | some mid =>
          rw [hStep] at hRun
          exact ih (.step h trivial hStep) hRun

/-- A computed run from an initial state witnesses reachability. -/
theorem reachable_of_run {s next : σ} {as : List ι} (h0 : m.init s)
    (hRun : m.run s as = some next) : m.Reachable next :=
  Reachable.run (.init h0) hRun

/-- The same for a property of the last state that can be evaluated. -/
theorem exists_reachable_of_run {s : σ} {as : List ι} {p : σ → Bool}
    (h0 : m.init s) (hRun : (m.run s as).any p = true) :
    ∃ next, m.Reachable next ∧ p next = true := by
  cases hNext : m.run s as with
  | none => simp [hNext] at hRun
  | some next =>
      rw [hNext, Option.any_some] at hRun
      exact ⟨next, reachable_of_run h0 hNext, hRun⟩

/-- A computed run all of whose steps are permitted. -/
theorem ReachableBy.runIf {ok : σ → ι → Prop} [∀ s a, Decidable (ok s a)]
    {s next : σ} (h : m.ReachableBy ok s) {as : List ι}
    (hRun : m.runIf ok s as = some next) : m.ReachableBy ok next := by
  induction as generalizing s with
  | nil =>
      obtain rfl : s = next := Option.some.inj hRun
      exact h
  | cons a as ih =>
      rw [Machine.runIf] at hRun
      by_cases hok : ok s a
      · rw [if_pos hok] at hRun
        rcases Option.bind_eq_some_iff.mp hRun with ⟨mid, hStep, hRest⟩
        exact ih (.step h hok hStep) hRest
      · rw [if_neg hok] at hRun
        contradiction

theorem exists_reachableBy_of_runIf {ok : σ → ι → Prop}
    [∀ s a, Decidable (ok s a)] {s : σ} {as : List ι} {p : σ → Bool}
    (h0 : m.init s) (hRun : (m.runIf ok s as).any p = true) :
    ∃ next, m.ReachableBy ok next ∧ p next = true := by
  cases hNext : m.runIf ok s as with
  | none => simp [hNext] at hRun
  | some next =>
      rw [hNext, Option.any_some] at hRun
      exact ⟨next, ReachableBy.runIf (.init h0) hNext, hRun⟩

end Machine

/-! ## Refinement -/

/-- `R` relates the states of a concrete machine to those of an abstract one
so that every concrete step is matched by a finite abstract run. -/
structure Simulation {σ : Type u} {ι : Type v} {τ : Type w} {κ : Type x}
    (c : Machine σ ι) (a : Machine τ κ) (R : σ → τ → Prop) : Prop where
  /-- Every start is related to one, -/
  init : ∀ s, c.init s → ∃ t, a.init t ∧ R s t
  /-- and every step to a run between related states. -/
  step : ∀ s t l next, R s t → c.step s l = some next →
    ∃ ls t', a.run t ls = some t' ∧ R next t'

/-- Every reachable concrete state refines a reachable abstract one. -/
theorem Simulation.reachable {σ : Type u} {ι : Type v} {τ : Type w}
    {κ : Type x} {c : Machine σ ι} {a : Machine τ κ} {R : σ → τ → Prop}
    (sim : Simulation c a R) {s : σ} (h : c.Reachable s) :
    ∃ t, a.Reachable t ∧ R s t := by
  induction h with
  | init h0 =>
      obtain ⟨t, ht, hR⟩ := sim.init _ h0
      exact ⟨t, .init ht, hR⟩
  | step _ _ hStep ih =>
      obtain ⟨t, ht, hR⟩ := ih
      obtain ⟨ls, t', hRun, hR'⟩ := sim.step _ _ _ _ hR hStep
      exact ⟨t', ht.run hRun, hR'⟩

end UnixHomework.Verified
