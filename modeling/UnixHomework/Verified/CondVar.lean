import Mathlib.Data.Multiset.AddSub
import Mathlib.Tactic.Common

/-!
# Condition variables

A condition variable seen from its mutex: the threads asleep in its wait set
and the threads already woken that still have to re-acquire the mutex.  A
signal moves at least one sleeper, if there is any, and may move more; a
sleeper may also wake for no reason.

`Covers c n` is the counting property behind every "no lost wake-up"
argument: as long as somebody sleeps, at least `n` woken threads are on their
way.  When `n` counts the units of whatever the sleepers wait for, each
operation of a monitor preserves it: producing one unit signals once
(`Covers.signal`), a woken thread that consumes one takes itself off the
count (`Covers.resume`), a barging thread only lowers `n` (`Covers.mono`), and
a thread goes to sleep only when `n` is zero (`covers_zero`).
-/

namespace UnixHomework.Verified

/-- The wait set of a condition variable and its woken threads. -/
structure CondVar (τ : Type*) where
  /-- The threads asleep, -/
  waiting : Multiset τ
  /-- and those that have been woken and have not gone on. -/
  woken : Multiset τ

namespace CondVar

variable {τ : Type*}

/-- `pthread_cond_init`: nobody waits. -/
def empty : CondVar τ := ⟨0, 0⟩

/-- `pthread_cond_wait` puts the caller to sleep. -/
def wait (c : CondVar τ) (t : τ) : CondVar τ :=
  { c with waiting := c.waiting + {t} }

/-! ## Counting woken threads -/

/-- While anybody sleeps, at least `n` threads are woken. -/
def Covers (c : CondVar τ) (n : Nat) : Prop :=
  c.waiting ≠ 0 → n ≤ c.woken.card

@[simp] theorem covers_zero (c : CondVar τ) : c.Covers 0 := by
  intro _
  exact Nat.zero_le _

@[simp] theorem covers_empty (n : Nat) : (empty : CondVar τ).Covers n := by
  intro h
  exact absurd rfl h

theorem Covers.mono {c : CondVar τ} {m n : Nat} (h : c.Covers n)
    (hmn : m ≤ n) : c.Covers m :=
  fun hw => Nat.le_trans hmn (h hw)

/-- If a unit is available and somebody sleeps, somebody is woken. -/
theorem Covers.exists_woken {c : CondVar τ} {n : Nat} (h : c.Covers n)
    (hn : 0 < n) (hw : c.waiting ≠ 0) : ∃ t, t ∈ c.woken := by
  have hcard := h hw
  exact Multiset.card_pos_iff_exists_mem.mp (by omega)

/-! ## Operations under the mutex -/

variable [DecidableEq τ]

/-- `pthread_cond_signal` wakes the sleepers `chosen`: at least one of them
if there is any. -/
def signal (c : CondVar τ) (chosen : Multiset τ) : Option (CondVar τ) :=
  if chosen ≤ c.waiting ∧ (c.waiting = 0 ∨ chosen ≠ 0) then
    some ⟨c.waiting - chosen, c.woken + chosen⟩
  else none

/-- A sleeper wakes without a signal. -/
def wakeSpurious (c : CondVar τ) (t : τ) : Option (CondVar τ) :=
  if t ∈ c.waiting then some ⟨c.waiting.erase t, c.woken + {t}⟩ else none

/-- A woken thread re-acquires the mutex and returns from the wait. -/
def resume (c : CondVar τ) (t : τ) : Option (CondVar τ) :=
  if t ∈ c.woken then some { c with woken := c.woken.erase t } else none

/-- How often a thread occurs in the wait set or among the woken. -/
def places (c : CondVar τ) (t : τ) : Nat :=
  c.waiting.count t + c.woken.count t

theorem signal_eq_some {c c' : CondVar τ} {chosen : Multiset τ}
    (h : c.signal chosen = some c') :
    chosen ≤ c.waiting ∧ (c.waiting = 0 ∨ chosen ≠ 0) ∧
      c' = ⟨c.waiting - chosen, c.woken + chosen⟩ := by
  unfold signal at h
  split at h
  · rename_i hc
    exact ⟨hc.1, hc.2, (Option.some.inj h).symm⟩
  · contradiction

theorem wakeSpurious_eq_some {c c' : CondVar τ} {t : τ}
    (h : c.wakeSpurious t = some c') :
    t ∈ c.waiting ∧ c' = ⟨c.waiting.erase t, c.woken + {t}⟩ := by
  unfold wakeSpurious at h
  split at h
  · exact ⟨‹_›, (Option.some.inj h).symm⟩
  · contradiction

theorem resume_eq_some {c c' : CondVar τ} {t : τ}
    (h : c.resume t = some c') :
    t ∈ c.woken ∧ c' = { c with woken := c.woken.erase t } := by
  unfold resume at h
  split at h
  · exact ⟨‹_›, (Option.some.inj h).symm⟩
  · contradiction

/-! ## Where a thread stands -/

@[simp] theorem places_empty (t : τ) : (empty : CondVar τ).places t = 0 := by
  simp [empty, places]

theorem places_wait (c : CondVar τ) (t u : τ) :
    (c.wait t).places u = c.places u + if u = t then 1 else 0 := by
  simp only [wait, places, Multiset.count_add, Multiset.count_singleton]
  omega

/-- A signal moves threads without duplicating or losing any. -/
theorem places_signal {c c' : CondVar τ} {chosen : Multiset τ}
    (h : c.signal chosen = some c') (u : τ) : c'.places u = c.places u := by
  obtain ⟨hle, _, rfl⟩ := signal_eq_some h
  have hcount := Multiset.count_le_of_le u hle
  simp only [places, Multiset.count_add, Multiset.count_sub]
  omega

/-- Removing one occurrence of `t` lowers the count of `t` only. -/
theorem count_erase_add {threads : Multiset τ} {t : τ} (h : t ∈ threads)
    (u : τ) :
    (threads.erase t).count u + (if u = t then 1 else 0) =
      threads.count u := by
  by_cases hut : u = t
  · subst hut
    have hpos := Multiset.count_pos.mpr h
    rw [Multiset.count_erase_self, if_pos rfl]
    omega
  · rw [Multiset.count_erase_of_ne hut, if_neg hut, Nat.add_zero]

theorem places_wakeSpurious {c c' : CondVar τ} {t : τ}
    (h : c.wakeSpurious t = some c') (u : τ) : c'.places u = c.places u := by
  obtain ⟨hmem, rfl⟩ := wakeSpurious_eq_some h
  have hcount := count_erase_add hmem u
  simp only [places, Multiset.count_add, Multiset.count_singleton]
  omega

theorem places_resume {c c' : CondVar τ} {t : τ}
    (h : c.resume t = some c') (u : τ) :
    c'.places u + (if u = t then 1 else 0) = c.places u := by
  obtain ⟨hmem, rfl⟩ := resume_eq_some h
  have hcount := count_erase_add hmem u
  simp only [places]
  omega

/-! ## How the operations change the count -/

/-- One more unit and one signal. -/
theorem Covers.signal {c c' : CondVar τ} {chosen : Multiset τ} {n : Nat}
    (h : c.Covers n) (hs : c.signal chosen = some c') : c'.Covers (n + 1) := by
  obtain ⟨hle, hsome, rfl⟩ := signal_eq_some hs
  intro hrest
  have hwait : c.waiting ≠ 0 := by
    intro h0
    apply hrest
    rw [h0] at hle ⊢
    simp [Multiset.le_zero.mp hle]
  have hchosen : chosen ≠ 0 := hsome.resolve_left hwait
  have hpos : 0 < chosen.card := Multiset.card_pos.mpr hchosen
  have hn := h hwait
  rw [Multiset.card_add]
  omega

/-- A spurious wake-up only adds a woken thread. -/
theorem Covers.wakeSpurious {c c' : CondVar τ} {t : τ} {n : Nat}
    (h : c.Covers n) (hs : c.wakeSpurious t = some c') : c'.Covers n := by
  obtain ⟨hmem, rfl⟩ := wakeSpurious_eq_some hs
  intro _
  have hwait : c.waiting ≠ 0 := by
    intro h0
    simp [h0] at hmem
  have hn := h hwait
  rw [Multiset.card_add]
  omega

/-- A woken thread that goes on takes one unit with it. -/
theorem Covers.resume {c c' : CondVar τ} {t : τ} {n : Nat}
    (h : c.Covers n) (hs : c.resume t = some c') : c'.Covers (n - 1) := by
  obtain ⟨hmem, rfl⟩ := resume_eq_some hs
  intro hw
  have hn := h hw
  have hcard := Multiset.card_erase_of_mem hmem
  simp only [hcard]
  exact Nat.sub_le_sub_right hn 1

end CondVar

end UnixHomework.Verified
