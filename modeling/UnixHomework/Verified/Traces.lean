import UnixHomework.Verified.Machine

/-!
# Properties of whole runs

`Machine.ReachableBy` forgets how a state was reached.  Here a run is the list
of its labels, and a property of the run is a property of all its states
(`EachState`) or of all its steps (`EachStep`).

A program that meets its specification only in some runs is described by a
guard on its steps.  The guard is *exact* if a run meets the specification in
all its states, or in all its steps, if and only if each of its steps
satisfies the guard.  Both cases come down to one equivalence for a single
step (`eachState_iff_eachStep`, `eachStep_congr`).  Both notions are decidable
for decidable properties, so a single run can be tested.

A log is looked at element by element as well, each with what is before it
(`forall_steps_concat`).

`Machine.only` leaves out the labels of an environment that is assumed to
behave, and `Machine.logging` adds a log of what the steps have put out.
-/

namespace UnixHomework.Verified

universe u v w

/-- A property of each element of a log and those before it, in a log with one
more element. -/
theorem forall_steps_concat {ι : Type v} {P : List ι → ι → Prop}
    (log : List ι) (a : ι) :
    (∀ pre b, pre ++ [b] <+: log ++ [a] → P pre b) ↔
      (∀ pre b, pre ++ [b] <+: log → P pre b) ∧ P log a := by
  constructor
  · intro h
    constructor
    · intro pre b hPre
      exact h pre b (hPre.trans (List.prefix_append _ _))
    · exact h log a (List.prefix_refl _)
  · intro h pre b hPre
    rcases List.prefix_concat_iff.mp hPre with hEq | hEarlier
    · have hLast := List.append_inj' hEq rfl
      rw [hLast.1, List.singleton_inj.mp hLast.2]
      exact h.2
    · exact h.1 pre b hEarlier

theorem not_concat_prefix_nil {ι : Type v} (pre : List ι) (b : ι) :
    ¬pre ++ [b] <+: [] :=
  fun hPre => List.concat_ne_nil _ _ (List.prefix_nil.mp hPre)

namespace Machine

variable {σ : Type u} {ι : Type v} (m : Machine σ ι)

/-- The machine with the steps of some labels only. -/
def only (allowed : ι → Bool) : Machine σ ι where
  init := m.init
  step s a := if allowed a then m.step s a else none

theorem only_step_eq_some {allowed : ι → Bool} {s next : σ} {a : ι}
    (h : (m.only allowed).step s a = some next) :
    allowed a = true ∧ m.step s a = some next :=
  Option.ite_none_right_eq_some.mp h

/-- The machine with a log of what its steps put out. -/
def logging {ω : Type w} (out : ι → List ω) : Machine (σ × List ω) ι where
  init t := m.init t.1 ∧ t.2 = []
  step t a := (m.step t.1 a).map fun next => (next, t.2 ++ out a)

theorem logging_step_eq_some {ω : Type w} {out : ι → List ω}
    {t next : σ × List ω} {a : ι}
    (h : (m.logging out).step t a = some next) :
    m.step t.1 a = some next.1 ∧ next.2 = t.2 ++ out a := by
  obtain ⟨s', hStep, rfl⟩ := Option.map_eq_some_iff.mp h
  exact ⟨hStep, rfl⟩

/-- All states of a run, the first and the last included. -/
def EachState (P : σ → Prop) : σ → List ι → Prop
  | s, [] => P s
  | s, a :: as => P s ∧ ∀ next, m.step s a = some next → EachState P next as

/-- All steps of a run; `P` sees the state before the step and its label. -/
def EachStep (P : σ → ι → Prop) : σ → List ι → Prop
  | _, [] => True
  | s, a :: as =>
      P s a ∧ ∀ next, m.step s a = some next → EachStep P next as

instance decidableEachState {P : σ → Prop} [∀ s, Decidable (P s)] :
    ∀ (s : σ) (as : List ι), Decidable (m.EachState P s as)
  | s, [] => inferInstanceAs (Decidable (P s))
  | s, a :: as =>
      match h : m.step s a with
      | none => decidable_of_iff (P s) (by simp [EachState, h])
      | some next =>
          have := decidableEachState (P := P) next as
          decidable_of_iff (P s ∧ m.EachState P next as)
            (by simp [EachState, h])

instance decidableEachStep {P : σ → ι → Prop} [∀ s a, Decidable (P s a)] :
    ∀ (s : σ) (as : List ι), Decidable (m.EachStep P s as)
  | _, [] => .isTrue trivial
  | s, a :: as =>
      match h : m.step s a with
      | none => decidable_of_iff (P s a) (by simp [EachStep, h])
      | some next =>
          have := decidableEachStep (P := P) next as
          decidable_of_iff (P s a ∧ m.EachStep P next as)
            (by simp [EachStep, h])

variable {m}

/-- A run of at least one step. -/
theorem run_cons_eq_some {s last : σ} {a : ι} {as : List ι}
    (h : m.run s (a :: as) = some last) :
    ∃ next, m.step s a = some next ∧ m.run next as = some last :=
  Option.bind_eq_some_iff.mp h

theorem EachState.head {P : σ → Prop} {s : σ} {as : List ι}
    (h : m.EachState P s as) : P s := by
  cases as with
  | nil => exact h
  | cons a as => exact h.1

theorem EachState.mono {P Q : σ → Prop} (hPQ : ∀ s, P s → Q s) {s : σ}
    {as : List ι} (h : m.EachState P s as) : m.EachState Q s as := by
  induction as generalizing s with
  | nil => exact hPQ s h
  | cons a as ih => exact ⟨hPQ s h.1, fun next hStep => ih (h.2 next hStep)⟩

/-- A property of all states of a run holds in the last one. -/
theorem EachState.last {P : σ → Prop} {s last : σ} {as : List ι}
    (h : m.EachState P s as) (hRun : m.run s as = some last) : P last := by
  induction as generalizing s with
  | nil =>
      obtain rfl : s = last := Option.some.inj hRun
      exact h
  | cons a as ih =>
      obtain ⟨next, hStep, hRest⟩ := run_cons_eq_some hRun
      exact ih (h.2 next hStep) hRest

/-- **Sufficient guards.**  An invariant that the permitted steps preserve
holds, with all it implies, in every state of a run of permitted steps. -/
theorem eachState_of_eachStep {I P : σ → Prop} {ok : σ → ι → Prop}
    (hInv : ∀ s a next, I s → ok s a → m.step s a = some next → I next)
    (hP : ∀ s, I s → P s) {s : σ} {as : List ι} (hI : I s)
    (hOk : m.EachStep ok s as) : m.EachState P s as := by
  induction as generalizing s with
  | nil => exact hP s hI
  | cons a as ih =>
      refine ⟨hP s hI, fun next hStep => ?_⟩
      exact ih (hInv s a next hI hOk.1 hStep) (hOk.2 next hStep)

/-- **Defined runs.**  If under an invariant the permitted steps are defined
and preserve it, a run of permitted steps exists, and all its states have what
the invariant implies. -/
theorem exists_run_of_eachStep {I P : σ → Prop} {ok : σ → ι → Prop}
    (hStep : ∀ s a, I s → ok s a → ∃ next, m.step s a = some next ∧ I next)
    (hP : ∀ s, I s → P s) {s : σ} {as : List ι} (hI : I s)
    (hOk : m.EachStep ok s as) :
    (∃ last, m.run s as = some last) ∧ m.EachState P s as := by
  induction as generalizing s with
  | nil => exact ⟨⟨s, rfl⟩, hP s hI⟩
  | cons a as ih =>
      obtain ⟨next, hNext, hI'⟩ := hStep s a hI hOk.1
      obtain ⟨⟨last, hRun⟩, hAll⟩ := ih hI' (hOk.2 next hNext)
      constructor
      · exact ⟨last, Option.bind_eq_some_iff.mpr ⟨next, hNext, hRun⟩⟩
      · refine ⟨hP s hI, fun next' hNext' => ?_⟩
        obtain rfl := Option.some.inj (hNext.symm.trans hNext')
        exact hAll

/-- A guard that every step meets. -/
theorem eachStep_of_forall {P : σ → ι → Prop} (h : ∀ s a, P s a) (s : σ)
    (as : List ι) : m.EachStep P s as := by
  induction as generalizing s with
  | nil => trivial
  | cons a as ih => exact ⟨h s a, fun next _ => ih next⟩

/-- **Exact guards, with memory.**  `P` may say too little about a state to
be carried through a run.  `G` is what a run that has met `P` so far has kept;
under `I` and `G` the guard decides whether the next state meets `P`. -/
theorem eachState_iff_eachStep_of_kept {I G P : σ → Prop}
    {ok : σ → ι → Prop}
    (hInv : ∀ s a next, I s → m.step s a = some next → I next)
    (hHolds : ∀ s, I s → G s → P s)
    (hKept : ∀ s a next, I s → G s → m.step s a = some next → P next →
      G next)
    (hExact : ∀ s a next, I s → G s → m.step s a = some next →
      (P next ↔ ok s a))
    {s last : σ} {as : List ι} (hI : I s) (hG : G s)
    (hRun : m.run s as = some last) :
    m.EachState P s as ↔ m.EachStep ok s as := by
  induction as generalizing s with
  | nil => exact ⟨fun _ => trivial, fun _ => hHolds s hI hG⟩
  | cons a as ih =>
      obtain ⟨next, hStep, hRest⟩ := run_cons_eq_some hRun
      have hNext := hInv s a next hI hStep
      have hIff := hExact s a next hI hG hStep
      have hKeep := hKept s a next hI hG hStep
      constructor
      · rintro ⟨-, hAll⟩
        have hGood := hAll next hStep
        refine ⟨hIff.mp hGood.head, fun next' hStep' => ?_⟩
        obtain rfl : next = next' :=
          Option.some.inj (hStep.symm.trans hStep')
        exact (ih hNext (hKeep hGood.head) hRest).mp hGood
      · rintro ⟨hOk, hAll⟩
        refine ⟨hHolds s hI hG, fun next' hStep' => ?_⟩
        obtain rfl : next = next' :=
          Option.some.inj (hStep.symm.trans hStep')
        exact (ih hNext (hKeep (hIff.mpr hOk)) hRest).mpr (hAll next hStep)

/-- **Exact guards, for states.**  If under an invariant `I` the guard decides
whether a step from a good state ends in a good one, it decides whether a run
from a good state meets good states only. -/
theorem eachState_iff_eachStep {I P : σ → Prop} {ok : σ → ι → Prop}
    (hInv : ∀ s a next, I s → m.step s a = some next → I next)
    (hExact : ∀ s a next, I s → P s → m.step s a = some next →
      (P next ↔ ok s a))
    {s last : σ} {as : List ι} (hI : I s) (hP : P s)
    (hRun : m.run s as = some last) :
    m.EachState P s as ↔ m.EachStep ok s as :=
  eachState_iff_eachStep_of_kept hInv (fun _ _ hP => hP)
    (fun _ _ _ _ _ _ hNext => hNext) hExact hI hP hRun

/-- **Exact guards, for steps.**  Under an invariant, equivalent properties of
one step are equivalent properties of a run. -/
theorem eachStep_congr {I : σ → Prop} {P Q : σ → ι → Prop}
    (hInv : ∀ s a next, I s → m.step s a = some next → I next)
    (hExact : ∀ s a next, I s → m.step s a = some next → (P s a ↔ Q s a))
    {s last : σ} {as : List ι} (hI : I s)
    (hRun : m.run s as = some last) :
    m.EachStep P s as ↔ m.EachStep Q s as := by
  induction as generalizing s with
  | nil => exact Iff.rfl
  | cons a as ih =>
      obtain ⟨next, hStep, hRest⟩ := run_cons_eq_some hRun
      have hTail : (∀ next', m.step s a = some next' →
            m.EachStep P next' as) ↔
          ∀ next', m.step s a = some next' → m.EachStep Q next' as := by
        constructor
        · intro hAll next' hStep'
          obtain rfl : next = next' :=
            Option.some.inj (hStep.symm.trans hStep')
          exact (ih (hInv s a next hI hStep) hRest).mp (hAll next hStep)
        · intro hAll next' hStep'
          obtain rfl : next = next' :=
            Option.some.inj (hStep.symm.trans hStep')
          exact (ih (hInv s a next hI hStep) hRest).mpr (hAll next hStep)
      exact and_congr (hExact s a next hI hStep) hTail

end Machine

end UnixHomework.Verified
