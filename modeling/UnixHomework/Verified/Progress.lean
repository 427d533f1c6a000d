import UnixHomework.Verified.Traces

/-!
# Machines that come to an end

If every step of a machine lowers a measure, no run is longer than the measure
of its first state (`run_length_le`), and every state has a run to one in which
nothing can be done (`exists_settled`).  What the machine has achieved then is
a fact about such settled states only: it is enough that a state in which
something is left to do has a step.
-/

namespace UnixHomework.Verified

universe u v

namespace Machine

variable {σ : Type u} {ι : Type v} {m : Machine σ ι} {I : σ → Prop}
  {μ : σ → Nat}

/-- No step is possible: what the machine has achieved is all it will. -/
def Settled (m : Machine σ ι) (s : σ) : Prop :=
  ∀ a, m.step s a = none

/-- Every step keeps the invariant and lowers the measure.  The invariant is
for the cases in which only reachable states have a measure that goes down. -/
def Descends (m : Machine σ ι) (I : σ → Prop) (μ : σ → Nat) : Prop :=
  ∀ s a next, I s → m.step s a = some next → I next ∧ μ next < μ s

theorem Descends.run_length_le (h : m.Descends I μ) {s last : σ}
    {as : List ι} (hI : I s) (hRun : m.run s as = some last) :
    I last ∧ as.length + μ last ≤ μ s := by
  induction as generalizing s with
  | nil =>
      obtain rfl : s = last := Option.some.inj hRun
      exact ⟨hI, Nat.le_of_eq (Nat.zero_add _)⟩
  | cons a as ih =>
      obtain ⟨next, hStep, hRest⟩ := run_cons_eq_some hRun
      obtain ⟨hNext, hLess⟩ := h s a next hI hStep
      obtain ⟨hLast, hLength⟩ := ih hNext hRest
      refine ⟨hLast, ?_⟩
      rw [List.length_cons]
      omega

/-- **Every state has a run to its end**, by induction on the measure. -/
theorem Descends.exists_settled (h : m.Descends I μ) {s : σ} (hI : I s) :
    ∃ as last, m.run s as = some last ∧ m.Settled last := by
  induction hn : μ s using Nat.strongRecOn generalizing s with
  | ind n ih =>
      by_cases hSettled : m.Settled s
      · exact ⟨[], s, rfl, hSettled⟩
      · obtain ⟨a, hStep⟩ := Classical.not_forall.mp hSettled
        obtain ⟨next, hNext⟩ := Option.ne_none_iff_exists'.mp hStep
        obtain ⟨hI', hLess⟩ := h s a next hI hNext
        obtain ⟨as, last, hRun, hLast⟩ := ih (μ next) (hn ▸ hLess) hI' rfl
        refine ⟨a :: as, last, ?_, hLast⟩
        rw [run_cons, hNext]
        exact hRun

end Machine

end UnixHomework.Verified
