import UnixHomework.Ports.BoundedQueueWakeup

/-!
# Turns at the bounded queue

A program that uses the queue sees a call as one or more turns: the calling
thread leaves the condition variable it may have waited on, and either waits
(again) or does its operation and returns.  `Entered` is the state of the
condition variable after the first half, for a call that begins and for one
that resumes alike.

With this a program need not tell the two kinds of turn apart.  What a turn can
do is said once for each function, `PushTurn` and `PopTurn`: the caller sleeps
and the queue is as it was, or the operation is done, its signal wakes some of
those on the other side, and the caller is nowhere in the queue any more.
-/

namespace UnixHomework.Ports.BoundedQueue

open UnixHomework.Verified

variable {Tid : Type*} [DecidableEq Tid] {capacity : Nat}
  {s next : State Tid} {t : Tid} {v : Int} {chosen : Multiset Tid}

/-- The condition variable without thread `t`, which was not asleep.  The
sleepers are the same, and `t` is no longer among the woken, if it was. -/
structure Entered (c : CondVar Tid) (t : Tid) (c' : CondVar Tid) : Prop where
  waiting : c'.waiting = c.waiting
  places : ∀ u, c'.places u = if u = t then 0 else c.places u

theorem entered_self {c : CondVar Tid} (h : c.places t = 0) :
    Entered c t c where
  waiting := rfl
  places u := by
    by_cases hu : u = t
    · rw [if_pos hu, hu, h]
    · rw [if_neg hu]

theorem entered_resume {c c' : CondVar Tid} (hOnce : c.places t ≤ 1)
    (h : c.resume t = some c') : Entered c t c' where
  waiting := by
    obtain ⟨-, rfl⟩ := CondVar.resume_eq_some h
    rfl
  places u := by
    have hu := CondVar.places_resume h u
    by_cases hut : u = t
    · rw [if_pos hut] at hu ⊢
      subst hut
      omega
    · rw [if_neg hut] at hu ⊢
      exact hu

/-- The thread was not asleep on a condition variable that it has entered. -/
theorem Entered.count_waiting {c c' : CondVar Tid} (h : Entered c t c') :
    c.waiting.count t = 0 := by
  have ht := h.places t
  rw [if_pos rfl, CondVar.places, h.waiting] at ht
  omega

/-- A turn of thread `t` in `queue_push` with the argument `v`. -/
structure PushTurn (s next : State Tid) (t : Tid) (v : Int) : Prop where
  /-- The argument is kept, for a turn behind a wait. -/
  clientSock : next.clientSock t = v
  /-- The thread was not asleep. -/
  awake : s.condNonfull.waiting.count t = 0
  /-- The signal may wake a thread, which stays in its place until it goes
  on. -/
  nonempty : ∀ u, next.condNonempty.places u = s.condNonempty.places u
  /-- The others that wait for room do not move. -/
  nonfull : ∀ u, u ≠ t →
    next.condNonfull.places u = s.condNonfull.places u
  /-- The thread waits, and nothing else changes; or the queue had room and has
  the descriptor now. -/
  result :
    (¬next.Outside t ∧ next.q = s.q ∧ next.condNonempty = s.condNonempty ∧
      next.condNonfull.waiting = s.condNonfull.waiting + {t}) ∨
    (next.Outside t ∧ s.q.count ≠ s.q.capacity ∧ next.q = s.q.enqueue v ∧
      next.condNonfull.waiting = s.condNonfull.waiting)

/-- A turn of thread `t` in `queue_pop`, with the two condition variables the
other way round. -/
structure PopTurn (s next : State Tid) (t : Tid) : Prop where
  clientSock : next.clientSock = s.clientSock
  awake : s.condNonempty.waiting.count t = 0
  nonfull : ∀ u, next.condNonfull.places u = s.condNonfull.places u
  nonempty : ∀ u, u ≠ t →
    next.condNonempty.places u = s.condNonempty.places u
  result :
    (¬next.Outside t ∧ next.q = s.q ∧ next.condNonfull = s.condNonfull ∧
      next.condNonempty.waiting = s.condNonempty.waiting + {t}) ∨
    (next.Outside t ∧ s.q.count ≠ 0 ∧ next.q = s.q.dequeue.2 ∧
      next.condNonempty.waiting = s.condNonempty.waiting)

theorem pushStretch_turn {c : CondVar Tid} {f : Tid → Int}
    (hE : Entered s.condNonfull t c) (hOut : s.condNonempty.places t = 0)
    (h : pushStretch { s with condNonfull := c, clientSock := f } t chosen =
      some next) : PushTurn s next t (f t) := by
  have hSelf := hE.places t
  rw [if_pos rfl] at hSelf
  obtain ⟨-, rfl⟩ | ⟨hRoom, c', hSignal, rfl⟩ := pushStretch_cases h
  · refine ⟨rfl, hE.count_waiting, fun _ => rfl, ?_, .inl ⟨?_, rfl, rfl, ?_⟩⟩
    · intro u hu
      rw [CondVar.places_wait, if_neg hu, hE.places, if_neg hu, Nat.add_zero]
    · show ¬s.condNonempty.places t + (c.wait t).places t = 0
      rw [CondVar.places_wait, if_pos rfl]
      omega
    · show c.waiting + {t} = _
      rw [hE.waiting]
  · have hSame := CondVar.places_signal hSignal
    refine ⟨rfl, hE.count_waiting, hSame, ?_,
      .inr ⟨?_, hRoom, rfl, hE.waiting⟩⟩
    · intro u hu
      rw [hE.places, if_neg hu]
    · show c'.places t + c.places t = 0
      rw [hSame, hOut, hSelf]

theorem popStretch_turn {c : CondVar Tid}
    (hE : Entered s.condNonempty t c) (hOut : s.condNonfull.places t = 0)
    (h : popStretch { s with condNonempty := c } t chosen = some next) :
    PopTurn s next t := by
  have hSelf := hE.places t
  rw [if_pos rfl] at hSelf
  obtain ⟨-, rfl⟩ | ⟨hSome, c', hSignal, rfl⟩ := popStretch_cases h
  · refine ⟨rfl, hE.count_waiting, fun _ => rfl, ?_, .inl ⟨?_, rfl, rfl, ?_⟩⟩
    · intro u hu
      rw [CondVar.places_wait, if_neg hu, hE.places, if_neg hu, Nat.add_zero]
    · show ¬(c.wait t).places t + s.condNonfull.places t = 0
      rw [CondVar.places_wait, if_pos rfl]
      omega
    · show c.waiting + {t} = _
      rw [hE.waiting]
  · have hSame := CondVar.places_signal hSignal
    refine ⟨rfl, hE.count_waiting, hSame, ?_,
      .inr ⟨?_, hSome, rfl, hE.waiting⟩⟩
    · intro u hu
      rw [hE.places, if_neg hu]
    · show c.places t + c'.places t = 0
      rw [hSame, hOut, hSelf]

/-- A call of `queue_push` begins, with the argument of the call. -/
theorem push_turn (h : step s (.push t v chosen) = some next) :
    PushTurn s next t v := by
  simp only [step] at h
  split at h
  · rename_i hOut
    have hZero : s.condNonempty.places t + s.condNonfull.places t = 0 := hOut
    have hTurn := pushStretch_turn (entered_self (by omega)) (by omega) h
    rwa [Function.update_self] at hTurn
  · contradiction

/-- A call of `queue_push` goes on, with the argument it has slept with. -/
theorem pushResume_turn (hI : WakeInv capacity s)
    (h : step s (.pushResume t chosen) = some next) :
    PushTurn s next t (s.clientSock t) := by
  obtain ⟨c, hc, hs⟩ := Option.bind_eq_some_iff.mp h
  have hPlaces := hI.places t
  have hLeft := CondVar.places_resume hc t
  rw [if_pos rfl] at hLeft
  exact pushStretch_turn (entered_resume (by omega) hc) (by omega) hs

/-- A call of `queue_pop` begins. -/
theorem pop_turn (h : step s (.pop t chosen) = some next) :
    PopTurn s next t := by
  simp only [step] at h
  split at h
  · rename_i hOut
    have hZero : s.condNonempty.places t + s.condNonfull.places t = 0 := hOut
    exact popStretch_turn (entered_self (by omega)) (by omega) h
  · contradiction

/-- A call of `queue_pop` goes on. -/
theorem popResume_turn (hI : WakeInv capacity s)
    (h : step s (.popResume t chosen) = some next) : PopTurn s next t := by
  obtain ⟨c, hc, hs⟩ := Option.bind_eq_some_iff.mp h
  have hPlaces := hI.places t
  have hLeft := CondVar.places_resume hc t
  rw [if_pos rfl] at hLeft
  exact popStretch_turn (entered_resume (by omega) hc) (by omega) hs

/-- A spurious wake-up, which moves a thread from the sleepers to the woken and
does nothing to the queue. -/
theorem spurious_turn {a : Label Tid} (h : step s a = some next)
    (ha : a = .spuriousNonfull t ∨ a = .spuriousNonempty t) :
    next.q = s.q ∧ next.clientSock = s.clientSock ∧
      (∀ u, next.condNonempty.places u = s.condNonempty.places u) ∧
      ∀ u, next.condNonfull.places u = s.condNonfull.places u := by
  rcases ha with rfl | rfl
  · obtain ⟨c, hc, rfl⟩ := Option.map_eq_some_iff.mp h
    exact ⟨rfl, rfl, fun _ => rfl, CondVar.places_wakeSpurious hc⟩
  · obtain ⟨c, hc, rfl⟩ := Option.map_eq_some_iff.mp h
    exact ⟨rfl, rfl, CondVar.places_wakeSpurious hc, fun _ => rfl⟩

/-! ## Turns that are possible -/

/-- Waking all sleepers is a permitted signal, so a call that signals is never
stuck. -/
theorem signal_waiting (c : CondVar Tid) :
    ∃ c', c.signal c.waiting = some c' := by
  refine ⟨_, if_pos ⟨le_refl _, ?_⟩⟩
  by_cases h : c.waiting = 0
  · exact .inl h
  · exact .inr h

theorem exists_pushStretch (s : State Tid) (t : Tid) :
    ∃ chosen next, pushStretch s t chosen = some next := by
  obtain ⟨c, hc⟩ := signal_waiting s.condNonempty
  refine ⟨s.condNonempty.waiting, ?_⟩
  unfold pushStretch
  split
  · exact ⟨_, rfl⟩
  · rw [hc]
    exact ⟨_, rfl⟩

theorem exists_popStretch (s : State Tid) (t : Tid) :
    ∃ chosen next, popStretch s t chosen = some next := by
  obtain ⟨c, hc⟩ := signal_waiting s.condNonfull
  refine ⟨s.condNonfull.waiting, ?_⟩
  unfold popStretch
  split
  · exact ⟨_, rfl⟩
  · rw [hc]
    exact ⟨_, rfl⟩

theorem exists_push (h : s.Outside t) (v : Int) :
    ∃ chosen next, step s (.push t v chosen) = some next := by
  obtain ⟨chosen, next, hs⟩ := exists_pushStretch
    { s with clientSock := Function.update s.clientSock t v } t
  exact ⟨chosen, next, (if_pos h).trans hs⟩

theorem exists_pop (h : s.Outside t) :
    ∃ chosen next, step s (.pop t chosen) = some next := by
  obtain ⟨chosen, next, hs⟩ := exists_popStretch s t
  exact ⟨chosen, next, (if_pos h).trans hs⟩

theorem exists_pushResume (h : t ∈ s.condNonfull.woken) :
    ∃ chosen next, step s (.pushResume t chosen) = some next := by
  have hResume : s.condNonfull.resume t =
      some { s.condNonfull with woken := s.condNonfull.woken.erase t } :=
    if_pos h
  obtain ⟨chosen, next, hs⟩ := exists_pushStretch { s with condNonfull :=
    { s.condNonfull with woken := s.condNonfull.woken.erase t } } t
  refine ⟨chosen, next, ?_⟩
  show (s.condNonfull.resume t).bind _ = _
  rw [hResume]
  exact hs

theorem exists_popResume (h : t ∈ s.condNonempty.woken) :
    ∃ chosen next, step s (.popResume t chosen) = some next := by
  have hResume : s.condNonempty.resume t =
      some { s.condNonempty with woken := s.condNonempty.woken.erase t } :=
    if_pos h
  obtain ⟨chosen, next, hs⟩ := exists_popStretch { s with condNonempty :=
    { s.condNonempty with woken := s.condNonempty.woken.erase t } } t
  refine ⟨chosen, next, ?_⟩
  show (s.condNonempty.resume t).bind _ = _
  rw [hResume]
  exact hs

end UnixHomework.Ports.BoundedQueue
