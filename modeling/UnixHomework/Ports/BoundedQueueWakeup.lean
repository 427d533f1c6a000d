import UnixHomework.Ports.BoundedQueueFifo

/-!
# No lost wake-up in the bounded queue

Each operation of the queue signals once, whoever is waiting, and a woken
thread may find that a barging one was faster.  The counting invariant that
survives this is `CondVar.Covers`: while a consumer sleeps there are at least
`count` woken consumers, and while a producer sleeps there are at least
`capacity - count` woken producers.

A signal that nobody waits for is lost, and that is right: the caller that
comes later finds the descriptor or the room by itself.  A woken thread stands
for one descriptor or one place that it has been promised.  If a barging thread
takes it first, the count goes down by one together with the number of threads
that are needed, so the promise to the others still holds.
-/

namespace UnixHomework.Ports.BoundedQueue

open UnixHomework.Verified

variable {Tid : Type*} [DecidableEq Tid]

/-- Enough woken threads on both sides, and no thread in two places. -/
structure WakeInv (capacity : Nat) (s : State Tid) : Prop where
  /-- `capacity` does not change. -/
  capacityEq : s.q.capacity = capacity
  /-- The queue is not over-full. -/
  countLe : s.q.count ≤ capacity
  /-- While a consumer sleeps, each descriptor has a woken one. -/
  nonempty : s.condNonempty.Covers s.q.count
  /-- While a producer sleeps, so has each free place. -/
  nonfull : s.condNonfull.Covers (capacity - s.q.count)
  /-- A thread waits in one place at most. -/
  places : ∀ t, s.condNonempty.places t + s.condNonfull.places t ≤ 1

/-- A thread that is nowhere else may begin to wait; `others` counts its
places at the other condition variable. -/
theorem wait_places {c : CondVar Tid} {others : Tid → Nat} {t : Tid}
    (hplaces : ∀ u, c.places u + others u ≤ 1)
    (hout : c.places t + others t = 0) (u : Tid) :
    (c.wait t).places u + others u ≤ 1 := by
  have hu := hplaces u
  rw [CondVar.places_wait]
  by_cases hut : u = t
  · subst hut
    rw [if_pos rfl]
    omega
  · rw [if_neg hut]
    exact hu

/-- A push stretch of a thread that is nowhere else.  It needs one woken
producer less than the invariant promises, because the caller may be one.  The
descriptor it adds is covered by its own signal. -/
theorem pushStretch_wakeInv {capacity : Nat} {s next : State Tid} {t : Tid}
    {chosen : Multiset Tid} (h : pushStretch s t chosen = some next)
    (hcap : s.q.capacity = capacity)
    (hle : s.q.count ≤ capacity)
    (hnonempty : s.condNonempty.Covers s.q.count)
    (hnonfull : s.condNonfull.Covers (capacity - s.q.count - 1))
    (hplaces : ∀ u, s.condNonempty.places u + s.condNonfull.places u ≤ 1)
    (hout : s.Outside t) :
    WakeInv capacity next := by
  obtain ⟨hfull, rfl⟩ | ⟨hroom, c, hsig, rfl⟩ := pushStretch_cases h
  · have hzero : capacity - s.q.count = 0 := by omega
    refine
      { capacityEq := hcap
        countLe := hle
        nonempty := hnonempty
        nonfull := by
          show CondVar.Covers _ (capacity - s.q.count)
          rw [hzero]
          exact CondVar.covers_zero _
        places := ?_ }
    intro u
    rw [Nat.add_comm]
    apply wait_places
    · intro v
      rw [Nat.add_comm]
      exact hplaces v
    · rw [Nat.add_comm]
      exact hout
  · exact
      { capacityEq := hcap
        countLe := by
          simp only [SocketQueue.enqueue]
          omega
        nonempty := hnonempty.signal hsig
        nonfull := hnonfull.mono (by simp only [SocketQueue.enqueue]; omega)
        places := fun u => by
          rw [CondVar.places_signal hsig]
          exact hplaces u }

/-- The same for a pop stretch, with the two sides exchanged. -/
theorem popStretch_wakeInv {capacity : Nat} {s next : State Tid} {t : Tid}
    {chosen : Multiset Tid} (h : popStretch s t chosen = some next)
    (hcap : s.q.capacity = capacity)
    (hle : s.q.count ≤ capacity)
    (hnonempty : s.condNonempty.Covers (s.q.count - 1))
    (hnonfull : s.condNonfull.Covers (capacity - s.q.count))
    (hplaces : ∀ u, s.condNonempty.places u + s.condNonfull.places u ≤ 1)
    (hout : s.Outside t) :
    WakeInv capacity next := by
  obtain ⟨hempty, rfl⟩ | ⟨hsome, c, hsig, rfl⟩ := popStretch_cases h
  · refine
      { capacityEq := hcap
        countLe := hle
        nonempty := by
          show CondVar.Covers _ s.q.count
          rw [hempty]
          exact CondVar.covers_zero _
        nonfull := hnonfull
        places := ?_ }
    exact wait_places hplaces hout
  · exact
      { capacityEq := hcap
        countLe := by
          simp only [SocketQueue.dequeue]
          omega
        nonempty := hnonempty
        nonfull := (hnonfull.signal hsig).mono (by
          simp only [SocketQueue.dequeue]
          omega)
        places := fun u => by
          rw [CondVar.places_signal hsig]
          exact hplaces u }

/-- A woken thread that has re-acquired the mutex is nowhere else. -/
theorem resume_outside {c c' d : CondVar Tid} {t : Tid}
    (hplaces : ∀ u, c.places u + d.places u ≤ 1) (h : c.resume t = some c') :
    c'.places t + d.places t = 0 ∧ ∀ u, c'.places u + d.places u ≤ 1 := by
  have hres := CondVar.places_resume h
  constructor
  · have ht := hplaces t
    have hrt := hres t
    rw [if_pos rfl] at hrt
    omega
  · intro u
    have hu := hplaces u
    have hru := hres u
    omega

theorem init_wakeInv {capacity : Nat} {s : State Tid}
    (h : (queueMachine Tid capacity).init s) : WakeInv capacity s := by
  obtain ⟨data, clientSock, rfl⟩ := h
  exact
    { capacityEq := rfl
      countLe := Nat.zero_le _
      nonempty := CondVar.covers_empty _
      nonfull := CondVar.covers_empty _
      places := fun t => by simp }

theorem step_wakeInv {capacity : Nat} {s next : State Tid} {a : Label Tid}
    (hI : WakeInv capacity s) (h : step s a = some next) :
    WakeInv capacity next := by
  cases a with
  | push t v chosen =>
      simp only [step] at h
      split at h
      · exact pushStretch_wakeInv h hI.capacityEq hI.countLe hI.nonempty
          (hI.nonfull.mono (Nat.sub_le _ _)) hI.places ‹_›
      · contradiction
  | pushResume t chosen =>
      obtain ⟨c, hc, hs⟩ := Option.bind_eq_some_iff.mp h
      have hplaces : ∀ u,
          s.condNonfull.places u + s.condNonempty.places u ≤ 1 := by
        intro u
        rw [Nat.add_comm]
        exact hI.places u
      obtain ⟨hout, hothers⟩ := resume_outside hplaces hc
      refine pushStretch_wakeInv hs hI.capacityEq hI.countLe hI.nonempty
        (hI.nonfull.resume hc) ?_ ?_
      · intro u
        rw [Nat.add_comm]
        exact hothers u
      · show s.condNonempty.places t + c.places t = 0
        rw [Nat.add_comm]
        exact hout
  | pop t chosen =>
      simp only [step] at h
      split at h
      · exact popStretch_wakeInv h hI.capacityEq hI.countLe
          (hI.nonempty.mono (Nat.sub_le _ _)) hI.nonfull hI.places ‹_›
      · contradiction
  | popResume t chosen =>
      obtain ⟨c, hc, hs⟩ := Option.bind_eq_some_iff.mp h
      obtain ⟨hout, hothers⟩ := resume_outside hI.places hc
      exact popStretch_wakeInv hs hI.capacityEq hI.countLe
        (hI.nonempty.resume hc) hI.nonfull hothers hout
  | spuriousNonfull t =>
      obtain ⟨c, hc, rfl⟩ := Option.map_eq_some_iff.mp h
      exact
        { hI with
          nonfull := hI.nonfull.wakeSpurious hc
          places := fun u => by
            rw [CondVar.places_wakeSpurious hc]
            exact hI.places u }
  | spuriousNonempty t =>
      obtain ⟨c, hc, rfl⟩ := Option.map_eq_some_iff.mp h
      exact
        { hI with
          nonempty := hI.nonempty.wakeSpurious hc
          places := fun u => by
            rw [CondVar.places_wakeSpurious hc]
            exact hI.places u }

theorem reachable_wakeInv {capacity : Nat} {s : State Tid}
    (h : (queueMachine Tid capacity).Reachable s) : WakeInv capacity s :=
  h.invariant (I := WakeInv capacity) (fun _ h0 => init_wakeInv h0)
    (fun _ _ _ hI _ hs => step_wakeInv hI hs)

/-- The thread is in one of the two wait sets. -/
def State.Asleep (s : State Tid) (t : Tid) : Prop :=
  t ∈ s.condNonempty.waiting ∨ t ∈ s.condNonfull.waiting

/-- A call that is waiting could go on if it were awake: its condition
holds. -/
def State.CanProceed (s : State Tid) : Prop :=
  (0 < s.q.count ∧ s.condNonempty.waiting ≠ 0) ∨
    (s.q.count < s.q.capacity ∧ s.condNonfull.waiting ≠ 0)

/-- A woken thread does not sleep. -/
theorem WakeInv.not_asleep {capacity : Nat} {s : State Tid} {t : Tid}
    (h : WakeInv capacity s)
    (hw : t ∈ s.condNonempty.woken ∨ t ∈ s.condNonfull.woken) :
    ¬ s.Asleep t := by
  have ht := h.places t
  simp only [CondVar.places] at ht
  have hwoken : 0 < s.condNonempty.woken.count t +
      s.condNonfull.woken.count t := by
    rcases hw with hw | hw
    · exact Nat.add_pos_left (Multiset.count_pos.mpr hw) _
    · exact Nat.add_pos_right _ (Multiset.count_pos.mpr hw)
  rintro (hs | hs)
  · have hpos := Multiset.count_pos.mpr hs
    omega
  · have hpos := Multiset.count_pos.mpr hs
    omega

/-- **No lost wake-up.**  Whenever a sleeping consumer could pop, another
consumer is already woken; whenever a sleeping producer could push, another
producer is; so the threads never all sleep while one of them could go on. -/
theorem queue_no_lost_wakeup {capacity : Nat} {s : State Tid}
    (h : (queueMachine Tid capacity).Reachable s) :
    (0 < s.q.count → s.condNonempty.waiting ≠ 0 →
      ∃ t, t ∈ s.condNonempty.woken) ∧
    (s.q.count < capacity → s.condNonfull.waiting ≠ 0 →
      ∃ t, t ∈ s.condNonfull.woken) ∧
    ¬ ((∀ t, s.Asleep t) ∧ s.CanProceed) := by
  have hI := reachable_wakeInv h
  have hpop : 0 < s.q.count → s.condNonempty.waiting ≠ 0 →
      ∃ t, t ∈ s.condNonempty.woken :=
    fun hcount hw => hI.nonempty.exists_woken hcount hw
  have hpush : s.q.count < capacity → s.condNonfull.waiting ≠ 0 →
      ∃ t, t ∈ s.condNonfull.woken :=
    fun hcount hw => hI.nonfull.exists_woken (by omega) hw
  refine ⟨hpop, hpush, ?_⟩
  rintro ⟨hsleep, ⟨hcount, hw⟩ | ⟨hcount, hw⟩⟩
  · obtain ⟨t, ht⟩ := hpop hcount hw
    exact hI.not_asleep (.inl ht) (hsleep t)
  · obtain ⟨t, ht⟩ := hpush (hI.capacityEq ▸ hcount) hw
    exact hI.not_asleep (.inr ht) (hsleep t)

/-- Two consumers sleep, one push wakes the first of them: the second one
sleeps on although the queue holds a descriptor, and the first is on its
way. -/
theorem queue_wakeup_barging : ∃ s : State Nat,
    (queueMachine Nat 1).Reachable s ∧ 0 < s.q.count ∧
      s.condNonempty.waiting ≠ 0 ∧ ∃ t, t ∈ s.condNonempty.woken := by
  obtain ⟨s, hs, hcount, hwaiting⟩ : ∃ s : State Nat,
      (queueMachine Nat 1).Reachable s ∧ 0 < s.q.count ∧
        s.condNonempty.waiting ≠ 0 := by
    have hrun := Machine.reachable_of_run (m := queueMachine Nat 1)
      (s := ⟨queueInit (fun _ => 0) 1, .empty, .empty, fun _ => 0, [], []⟩)
      ⟨fun _ => 0, fun _ => 0, rfl⟩
      (show _ = some _ from rfl :
        (queueMachine Nat 1).run _ [.pop 1 0, .pop 2 0, .push 0 5 {1}] = _)
    exact ⟨_, hrun, by decide, by decide⟩
  exact ⟨s, hs, hcount, hwaiting,
    (queue_no_lost_wakeup hs).1 hcount hwaiting⟩

end UnixHomework.Ports.BoundedQueue
