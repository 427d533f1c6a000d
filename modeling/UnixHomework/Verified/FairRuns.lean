import Mathlib.Order.RelClasses
import Mathlib.Tactic.ByContra
import UnixHomework.Verified.Machine

/-!
# Fair schedules

A schedule says for ever whose turn it is.  A label that is not enabled when
its turn comes changes nothing, and a schedule is fair to the labels that come
again and again; between two turns of one thread the others may make any number
of steps.

A ranking has for each state that is not yet final a label that helps: its turn
lowers the rank, and every other turn lowers the rank or leaves it and the
helpful label alone.  Under a schedule that is fair to the helpful labels the
machine then comes to a final state (`Ranking.leadsTo`), although no bound is
known on the number of steps.  This module names no program.
-/

namespace UnixHomework.Verified

universe u v w

/-- The label has its turn again and again. -/
def Fair {ι : Type v} (schedule : Nat → ι) (a : ι) : Prop :=
  ∀ n, ∃ k, n ≤ k ∧ schedule k = a

namespace Machine

variable {σ : Type u} {ι : Type v}

/-- The turn of a label, whether it is enabled or not. -/
def turn (m : Machine σ ι) (s : σ) (a : ι) : σ :=
  (m.step s a).getD s

/-- The states passed under a schedule. -/
def states (m : Machine σ ι) (s : σ) (schedule : Nat → ι) : Nat → σ
  | 0 => s
  | n + 1 => m.turn (m.states s schedule n) (schedule n)

variable {m : Machine σ ι} {s next : σ} {a : ι} {schedule : Nat → ι}

theorem turn_eq (h : m.step s a = some next) : m.turn s a = next := by
  rw [turn, h]
  rfl

theorem turn_of_none (h : m.step s a = none) : m.turn s a = s := by
  rw [turn, h]
  rfl

/-- A turn is a step, or it changes nothing. -/
theorem turn_cases (m : Machine σ ι) (s : σ) (a : ι) :
    m.step s a = some (m.turn s a) ∨ m.turn s a = s := by
  cases h : m.step s a with
  | none => exact .inr (turn_of_none h)
  | some next => exact .inl (congrArg some (turn_eq h).symm)

/-- **Induction over schedules.**  What every step keeps is kept for ever. -/
theorem states_invariant {I : σ → Prop}
    (hStep : ∀ s a next, I s → m.step s a = some next → I next)
    (hI : I s) (n : Nat) : I (m.states s schedule n) := by
  induction n with
  | zero => exact hI
  | succ n ih =>
      show I (m.turn (m.states s schedule n) (schedule n))
      rcases turn_cases m (m.states s schedule n) (schedule n) with
        hTurn | hTurn
      · exact hStep _ _ _ ih hTurn
      · rw [hTurn]
        exact ih

theorem states_reachable (h : m.Reachable s) (n : Nat) :
    m.Reachable (m.states s schedule n) :=
  states_invariant (fun _ _ _ hs hStep => .step hs trivial hStep) h n

/-- A rank that no turn raises, with a label in each state whose turn lowers
it. -/
structure Ranking {α : Type w} [LT α] (m : Machine σ ι) (I final : σ → Prop)
    (rank : σ → α) (helpful : σ → ι) : Prop where
  /-- The invariant under which the rank is good is kept by every step. -/
  keeps : ∀ s a next, I s → m.step s a = some next → I next
  /-- The turn of the helpful label lowers the rank, which also says that it is
  enabled. -/
  lowers : ∀ s, I s → ¬final s → rank (m.turn s (helpful s)) < rank s
  /-- Any other step lowers the rank, or leaves it with the same label to
  help. -/
  others : ∀ s a next, I s → ¬final s → m.step s a = some next →
    rank next < rank s ∨ rank next = rank s ∧ helpful next = helpful s

namespace Ranking

variable {α : Type w} [LT α] {I final : σ → Prop} {rank : σ → α}
  {helpful : σ → ι}

/-- As long as nothing better happens, the same label helps.  So its next turn,
which a fair schedule has, lowers the rank. -/
theorem waits (h : m.Ranking I final rank helpful) {n : Nat}
    (hI : ∀ k, I (m.states s schedule k))
    (hWait : ∀ k, n ≤ k → ¬final (m.states s schedule k) ∧
      ¬rank (m.states s schedule k) < rank (m.states s schedule n))
    (d : Nat) :
    rank (m.states s schedule (n + d)) = rank (m.states s schedule n) ∧
      helpful (m.states s schedule (n + d)) =
        helpful (m.states s schedule n) := by
  induction d with
  | zero => exact ⟨rfl, rfl⟩
  | succ d ih =>
      obtain ⟨hRank, hHelpful⟩ := ih
      obtain ⟨hFinal, -⟩ := hWait (n + d) (Nat.le_add_right n d)
      obtain ⟨-, hLess⟩ := hWait (n + d + 1) (by omega)
      have hNext : m.states s schedule (n + d + 1) =
        m.turn (m.states s schedule (n + d)) (schedule (n + d)) := rfl
      rw [← Nat.add_assoc]
      rcases turn_cases m (m.states s schedule (n + d)) (schedule (n + d)) with
        hTurn | hTurn
      · rw [← hNext] at hTurn
        rcases h.others _ _ _ (hI _) hFinal hTurn with hLower | hSame
        · rw [hRank] at hLower
          exact absurd hLower hLess
        · exact ⟨hSame.1.trans hRank, hSame.2.trans hHelpful⟩
      · rw [hNext, hTurn]
        exact ⟨hRank, hHelpful⟩

/-- **A ranking leads to the end.**  From every moment on there is a final
state.  The induction is on the rank, and fairness brings the helpful label's
turn. -/
theorem leadsTo [WellFoundedLT α] (h : m.Ranking I final rank helpful)
    (hFair : ∀ s, I s → ¬final s → Fair schedule (helpful s)) (hI : I s)
    (n : Nat) : ∃ k, n ≤ k ∧ final (m.states s schedule k) := by
  have hAlways : ∀ k, I (m.states s schedule k) :=
    states_invariant h.keeps hI
  induction hr : rank (m.states s schedule n) using
    WellFoundedLT.induction generalizing n with
  | ind r ih =>
      subst hr
      by_contra hNone
      have hNever : ∀ k, n ≤ k → ¬final (m.states s schedule k) :=
        fun k hk hFinal => hNone ⟨k, hk, hFinal⟩
      have hWait : ∀ k, n ≤ k → ¬final (m.states s schedule k) ∧
          ¬rank (m.states s schedule k) < rank (m.states s schedule n) := by
        intro k hk
        refine ⟨hNever k hk, fun hLess => ?_⟩
        obtain ⟨j, hj, hFinal⟩ := ih _ hLess k rfl
        exact hNone ⟨j, Nat.le_trans hk hj, hFinal⟩
      -- The helpful label of this moment still helps when its turn comes.
      obtain ⟨k, hk, hTurn⟩ :=
        hFair _ (hAlways n) (hNever n (Nat.le_refl n)) n
      obtain ⟨d, rfl⟩ := Nat.exists_eq_add_of_le hk
      obtain ⟨hRank, hHelpful⟩ := h.waits hAlways hWait d
      have hLower := h.lowers _ (hAlways (n + d)) (hNever (n + d) hk)
      rw [hHelpful, ← hTurn, hRank] at hLower
      exact (hWait (n + d + 1) (by omega)).2 hLower

end Ranking

end Machine

end UnixHomework.Verified
