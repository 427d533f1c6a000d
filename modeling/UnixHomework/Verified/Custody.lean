import UnixHomework.Verified.Table
import Mathlib.Logic.Function.Basic
import Mathlib.Tactic.Common

/-!
# Who holds what

Places hold resources: threads, queues or processes hold descriptors, blocks of
memory or locks.  `Custody live holds` says that the resources that are live
are those that are held, each in exactly one place.  A place that holds a
resource may then use it, hand it over or give it back without looking at the
others.

Three rules keep it: a new resource is held where it is acquired
(`Custody.acquire`), it may be handed over (`Custody.move`), and the place that
holds it may give it back (`Custody.release`).  This module names no resource.
-/

namespace UnixHomework.Verified

/-- What is held is live, and what is live is held, in one place.  The places
and the resources are any types; `live` and `holds` are read off a state of the
program. -/
structure Custody {π ρ : Type*} (live : ρ → Prop) (holds : π → ρ → Prop) :
    Prop where
  /-- Nobody holds what is not live, so holding is enough for using. -/
  alive : ∀ p r, holds p r → live r
  /-- Nothing that is live is lost. -/
  held : ∀ r, live r → ∃ p, holds p r
  /-- Nobody else may use what one place holds. -/
  once : ∀ p q r, holds p r → holds q r → p = q

namespace Custody

variable {π ρ : Type*} {live live' : ρ → Prop}
  {holds holds' : π → ρ → Prop} {p q : π} {r : ρ}

/-- In the beginning there is nothing. -/
theorem empty (hLive : ∀ r, ¬live r) (h : ∀ p r, ¬holds p r) :
    Custody live holds where
  alive p r hp := absurd hp (h p r)
  held r hr := absurd hr (hLive r)
  once p _ r hp := absurd hp (h p r)

theorem congr (hC : Custody live holds) (h : ∀ q x, holds' q x ↔ holds q x) :
    Custody live holds' where
  alive q x hq := hC.alive q x ((h q x).mp hq)
  held x hx := (hC.held x hx).imp fun q hq => (h q x).mpr hq
  once q r x hq hr := hC.once q r x ((h q x).mp hq) ((h r x).mp hr)

theorem congr_live (hC : Custody live holds) (h : ∀ x, live' x ↔ live x) :
    Custody live' holds where
  alive q x hq := (h x).mpr (hC.alive q x hq)
  held x hx := hC.held x ((h x).mp hx)
  once := hC.once

/-- The place that holds a live resource: the three fields in one formula. -/
theorem existsUnique_iff (hC : Custody live holds) (r : ρ) :
    live r ↔ ∃! p, holds p r := by
  constructor
  · intro hr
    obtain ⟨p, hp⟩ := hC.held r hr
    exact ⟨p, hp, fun q hq => hC.once q p r hq hp⟩
  · rintro ⟨p, hp, -⟩
    exact hC.alive p r hp

/-- **A new resource** is held by the place that acquires it.  It was not live
before, so nobody held it. -/
theorem acquire (hC : Custody live holds) (hNew : ¬live r)
    (hLive : ∀ x, live' x ↔ live x ∨ x = r)
    (h : ∀ q x, holds' q x ↔ holds q x ∨ q = p ∧ x = r) :
    Custody live' holds' := by
  have hOld : ∀ q x, holds q x → x ≠ r := by
    rintro q x hq rfl
    exact hNew (hC.alive q x hq)
  refine ⟨?_, ?_, ?_⟩
  · intro q x hq
    rw [hLive]
    exact ((h q x).mp hq).imp (hC.alive q x) And.right
  · intro x hx
    rcases (hLive x).mp hx with hx | hxr
    · obtain ⟨q, hq⟩ := hC.held x hx
      exact ⟨q, (h q x).mpr (.inl hq)⟩
    · exact ⟨p, (h p x).mpr (.inr ⟨rfl, hxr⟩)⟩
  · intro q t x hq ht
    rcases (h q x).mp hq with hq | ⟨rfl, rfl⟩ <;>
      rcases (h t x).mp ht with ht | ⟨rfl, hxr⟩
    · exact hC.once q t x hq ht
    · exact absurd hxr (hOld q x hq)
    · exact absurd rfl (hOld t x ht)
    · rfl

/-- **Handing over** a resource.  What is live does not change, and nobody but
the two places does anything. -/
theorem move (hC : Custody live holds) (hp : holds p r)
    (h : ∀ t x, holds' t x ↔ x ≠ r ∧ holds t x ∨ x = r ∧ t = q) :
    Custody live holds' := by
  refine ⟨?_, ?_, ?_⟩
  · intro t x ht
    rcases (h t x).mp ht with ⟨-, ht⟩ | ⟨rfl, -⟩
    · exact hC.alive t x ht
    · exact hC.alive p x hp
  · intro x hx
    by_cases hxr : x = r
    · exact ⟨q, (h q x).mpr (.inr ⟨hxr, rfl⟩)⟩
    · obtain ⟨t, ht⟩ := hC.held x hx
      exact ⟨t, (h t x).mpr (.inl ⟨hxr, ht⟩)⟩
  · intro t t' x ht ht'
    rcases (h t x).mp ht with ⟨hne, ht⟩ | ⟨rfl, rfl⟩ <;>
      rcases (h t' x).mp ht' with ⟨hne', ht'⟩ | ⟨hx, rfl⟩
    · exact hC.once t t' x ht ht'
    · exact absurd hx hne
    · exact absurd rfl hne'
    · rfl

/-- **Giving back** by the place that holds the resource.  Nobody is left with
it, since it had one holder. -/
theorem release (hC : Custody live holds)
    (hLive : ∀ x, live' x ↔ x ≠ r ∧ live x)
    (h : ∀ q x, holds' q x ↔ x ≠ r ∧ holds q x) : Custody live' holds' := by
  refine ⟨?_, ?_, ?_⟩
  · intro q x hq
    obtain ⟨hne, hq⟩ := (h q x).mp hq
    exact (hLive x).mpr ⟨hne, hC.alive q x hq⟩
  · intro x hx
    obtain ⟨hne, hx⟩ := (hLive x).mp hx
    obtain ⟨q, hq⟩ := hC.held x hx
    exact ⟨q, (h q x).mpr ⟨hne, hq⟩⟩
  · intro q t x hq ht
    exact hC.once q t x ((h q x).mp hq).2 ((h t x).mp ht).2

/-! ### Places that hold one resource at most -/

section One

variable [DecidableEq π] {f : π → Option ρ}

theorem acquire_one (hC : Custody live fun p r => f p = some r)
    (hp : f p = none) (hNew : ¬live r)
    (hLive : ∀ x, live' x ↔ live x ∨ x = r) :
    Custody live' fun q x => Function.update f p (some r) q = some x := by
  refine hC.acquire (p := p) hNew hLive fun q x => ?_
  rw [update_some_iff]
  by_cases hq : q = p
  · subst hq
    simp [hp, eq_comm]
  · simp [hq]

theorem release_one (hC : Custody live fun p r => f p = some r)
    (hp : f p = some r) (hLive : ∀ x, live' x ↔ x ≠ r ∧ live x) :
    Custody live' fun q x => Function.update f p none q = some x := by
  refine hC.release hLive fun q x => ?_
  rw [update_none_iff]
  constructor
  · rintro ⟨hq, hx⟩
    refine ⟨?_, hx⟩
    rintro rfl
    exact hq (hC.once q p x hx hp)
  · rintro ⟨hx, hq⟩
    refine ⟨?_, hq⟩
    rintro rfl
    exact hx (Option.some.inj (hq.symm.trans hp))

/-- Handing over to a place that holds nothing. -/
theorem move_one (hC : Custody live fun p r => f p = some r)
    (hp : f p = some r) (hq : f q = none) :
    Custody live fun t x =>
      Function.update (Function.update f p none) q (some r) t = some x := by
  have hpq : q ≠ p := by
    rintro rfl
    rw [hq] at hp
    contradiction
  refine hC.move (q := q) hp fun t x => ?_
  rw [update_some_iff, update_none_iff]
  constructor
  · rintro (⟨ht, hx⟩ | ⟨-, ht, hx⟩)
    · exact .inr ⟨hx.symm, ht⟩
    · refine .inl ⟨?_, hx⟩
      rintro rfl
      exact ht (hC.once t p x hx hp)
  · rintro (⟨hx, ht⟩ | ⟨hx, ht⟩)
    · refine .inr ⟨?_, ?_, ht⟩
      · rintro rfl
        rw [hq] at ht
        contradiction
      · rintro rfl
        exact hx (Option.some.inj (ht.symm.trans hp))
    · exact .inl ⟨ht, hx.symm⟩

end One

end Custody

end UnixHomework.Verified
