import UnixHomework.Ports.BoundedQueue
import UnixHomework.Verified.Fifo

/-!
# The bounded queue is a bounded FIFO

`SocketQueue` keeps `front`, `rear` and `count` separately.  `WellFormed` is
the representation invariant that ties them together; under it, `enqueue` and
`dequeue` are the two operations of the abstract `BoundedFifo`, and the whole
monitor simulates `fifoMachine`.  The order of the descriptors is then a fact
about the abstract channel.

The descriptors of the queue are read off the ring from `front` on
(`SocketQueue.contents`).  `rear` is where the next one goes, and `count` is
kept beside the two indices because equal indices may mean an empty ring or a
full one.
-/

namespace UnixHomework.Ports.BoundedQueue

open UnixHomework.Verified
open UnixHomework.Verified.Ring

/-- The representation invariant of a queue of the given capacity. -/
structure WellFormed (capacity : Nat) (q : SocketQueue) : Prop where
  /-- `capacity` is what `queue_init` has been given. -/
  capacityEq : q.capacity = capacity
  /-- The ring is not over-full. -/
  countLe : q.count ≤ capacity
  /-- `front` is an index of the ring. -/
  frontLt : q.front < capacity
  /-- `rear` is where the next descriptor goes. -/
  rearEq : q.rear = (q.front + q.count) % capacity

theorem queueInit_wellFormed (data : Nat → Int) {capacity : Nat}
    (hcap : 0 < capacity) : WellFormed capacity (queueInit data capacity) where
  capacityEq := rfl
  countLe := Nat.zero_le _
  frontLt := hcap
  rearEq := (Nat.zero_mod _).symm

namespace WellFormed

variable {capacity : Nat} {q : SocketQueue}

theorem rear_lt (h : WellFormed capacity q) : q.rear < capacity := by
  rw [h.rearEq]
  exact Nat.mod_lt _ (Nat.zero_lt_of_lt h.frontLt)

/-- The slot that a push writes holds no unpopped descriptor, because the
indices of those in the queue are the `count` before it. -/
theorem rear_free (h : WellFormed capacity q) (hroom : q.count < capacity) :
    ∀ i < q.count, (q.front + i) % capacity ≠ q.rear := by
  intro i hi
  rw [h.rearEq]
  exact slot_ne q.front hi (by omega)

theorem enqueue (h : WellFormed capacity q) (hroom : q.count ≠ q.capacity)
    (v : Int) : WellFormed capacity (q.enqueue v) where
  capacityEq := h.capacityEq
  countLe := by
    have hle := h.countLe
    have hcap := h.capacityEq
    simp only [SocketQueue.enqueue]
    omega
  frontLt := h.frontLt
  rearEq := by
    simp only [SocketQueue.enqueue, h.capacityEq, h.rearEq, Nat.mod_add_mod,
      Nat.add_assoc]

theorem dequeue (h : WellFormed capacity q) (hsome : q.count ≠ 0) :
    WellFormed capacity q.dequeue.2 where
  capacityEq := h.capacityEq
  countLe := Nat.le_trans (Nat.sub_le _ _) h.countLe
  frontLt := by
    simp only [SocketQueue.dequeue, h.capacityEq]
    exact Nat.mod_lt _ (Nat.zero_lt_of_lt h.frontLt)
  rearEq := by
    simp only [SocketQueue.dequeue, h.capacityEq, h.rearEq, Nat.mod_add_mod]
    congr 1
    omega

theorem contents_enqueue (h : WellFormed capacity q)
    (hroom : q.count ≠ q.capacity) (v : Int) :
    (q.enqueue v).contents = q.contents ++ [v] := by
  have hlt : q.count < q.capacity := by
    have hle := h.countLe
    have hcap := h.capacityEq
    omega
  have hrear : q.rear = slot q.capacity q.front q.count := by
    rw [h.rearEq, h.capacityEq, slot]
  simp only [SocketQueue.contents, SocketQueue.enqueue, hrear]
  exact contents_push q.data hlt v

theorem contents_dequeue (h : WellFormed capacity q) (hsome : q.count ≠ 0) :
    q.contents = q.dequeue.1 :: q.dequeue.2.contents := by
  obtain ⟨n, hn⟩ : ∃ n, q.count = n + 1 := ⟨q.count - 1, by omega⟩
  have hfront : q.front < q.capacity := by
    rw [h.capacityEq]
    exact h.frontLt
  simp only [SocketQueue.contents, SocketQueue.dequeue, hn,
    Nat.add_sub_cancel]
  exact contents_succ_head q.data hfront n

end WellFormed

/-! ## What a step does to the queue -/

variable {Tid : Type*} [DecidableEq Tid]

/-- A push stretch either goes to sleep on a full queue or stores the
descriptor and signals. -/
theorem pushStretch_cases {s next : State Tid} {t : Tid}
    {chosen : Multiset Tid} (h : pushStretch s t chosen = some next) :
    (s.q.count = s.q.capacity ∧
      next = { s with condNonfull := s.condNonfull.wait t }) ∨
    (s.q.count ≠ s.q.capacity ∧
      ∃ c, s.condNonempty.signal chosen = some c ∧
        next = { s with
          q := s.q.enqueue (s.clientSock t)
          condNonempty := c
          pushed := s.pushed ++ [s.clientSock t] }) := by
  unfold pushStretch at h
  split at h
  · rename_i hfull
    exact .inl ⟨hfull, (Option.some.inj h).symm⟩
  · rename_i hroom
    obtain ⟨c, hc, rfl⟩ := Option.map_eq_some_iff.mp h
    exact .inr ⟨hroom, c, hc, rfl⟩

/-- A pop stretch either goes to sleep on an empty queue or takes the oldest
descriptor and signals. -/
theorem popStretch_cases {s next : State Tid} {t : Tid}
    {chosen : Multiset Tid} (h : popStretch s t chosen = some next) :
    (s.q.count = 0 ∧
      next = { s with condNonempty := s.condNonempty.wait t }) ∨
    (s.q.count ≠ 0 ∧
      ∃ c, s.condNonfull.signal chosen = some c ∧
        next = { s with
          q := s.q.dequeue.2
          condNonfull := c
          popped := s.popped ++ [s.q.dequeue.1] }) := by
  unfold popStretch at h
  split at h
  · rename_i hempty
    exact .inl ⟨hempty, (Option.some.inj h).symm⟩
  · rename_i hsome
    obtain ⟨c, hc, rfl⟩ := Option.map_eq_some_iff.mp h
    exact .inr ⟨hsome, c, hc, rfl⟩

/-- What a state shows of the queue: its representation and the two
histories. -/
structure SameQueue (s s' : State Tid) : Prop where
  q : s'.q = s.q
  pushed : s'.pushed = s.pushed
  popped : s'.popped = s.popped

theorem pushStretch_queue (s : State Tid) {s0 next : State Tid} {t : Tid}
    {chosen : Multiset Tid} (h : pushStretch s0 t chosen = some next)
    (hsame : SameQueue s s0) :
    SameQueue s next ∨
      (s.q.count ≠ s.q.capacity ∧ ∃ v, next.q = s.q.enqueue v ∧
        next.pushed = s.pushed ++ [v] ∧ next.popped = s.popped) := by
  obtain ⟨_, rfl⟩ | ⟨hroom, c, _, rfl⟩ := pushStretch_cases h
  · exact .inl ⟨hsame.q, hsame.pushed, hsame.popped⟩
  · rw [hsame.q] at hroom
    refine .inr ⟨hroom, s0.clientSock t, ?_, ?_, hsame.popped⟩
    · simp only [hsame.q]
    · simp only [hsame.pushed]

theorem popStretch_queue (s : State Tid) {s0 next : State Tid} {t : Tid}
    {chosen : Multiset Tid} (h : popStretch s0 t chosen = some next)
    (hsame : SameQueue s s0) :
    SameQueue s next ∨
      (s.q.count ≠ 0 ∧ next.q = s.q.dequeue.2 ∧ next.pushed = s.pushed ∧
        next.popped = s.popped ++ [s.q.dequeue.1]) := by
  obtain ⟨_, rfl⟩ | ⟨hsome, c, _, rfl⟩ := popStretch_cases h
  · exact .inl ⟨hsame.q, hsame.pushed, hsame.popped⟩
  · rw [hsame.q] at hsome
    refine .inr ⟨hsome, ?_, hsame.pushed, ?_⟩
    · simp only [hsame.q]
    · simp only [hsame.q, hsame.popped]

/-- Seen from the queue, a step does nothing, one push or one pop.  Waits,
wake-ups and signals are of the first kind. -/
theorem step_queue_cases {s next : State Tid} {a : Label Tid}
    (h : step s a = some next) :
    SameQueue s next ∨
    (s.q.count ≠ s.q.capacity ∧ ∃ v, next.q = s.q.enqueue v ∧
      next.pushed = s.pushed ++ [v] ∧ next.popped = s.popped) ∨
    (s.q.count ≠ 0 ∧ next.q = s.q.dequeue.2 ∧ next.pushed = s.pushed ∧
      next.popped = s.popped ++ [s.q.dequeue.1]) := by
  cases a with
  | push t v chosen =>
      simp only [step] at h
      split at h
      · exact (pushStretch_queue s h ⟨rfl, rfl, rfl⟩).imp_right .inl
      · contradiction
  | pushResume t chosen =>
      obtain ⟨c, _, hs⟩ := Option.bind_eq_some_iff.mp h
      exact (pushStretch_queue s hs ⟨rfl, rfl, rfl⟩).imp_right .inl
  | pop t chosen =>
      simp only [step] at h
      split at h
      · exact (popStretch_queue s h ⟨rfl, rfl, rfl⟩).imp_right .inr
      · contradiction
  | popResume t chosen =>
      obtain ⟨c, _, hs⟩ := Option.bind_eq_some_iff.mp h
      exact (popStretch_queue s hs ⟨rfl, rfl, rfl⟩).imp_right .inr
  | spuriousNonfull t =>
      obtain ⟨c, _, rfl⟩ := Option.map_eq_some_iff.mp h
      exact .inl ⟨rfl, rfl, rfl⟩
  | spuriousNonempty t =>
      obtain ⟨c, _, rfl⟩ := Option.map_eq_some_iff.mp h
      exact .inl ⟨rfl, rfl, rfl⟩

/-! ## The simulation -/

/-- A monitor state represents a channel. -/
structure Represents (capacity : Nat) (s : State Tid)
    (f : BoundedFifo Int capacity) : Prop where
  /-- The three numbers fit together. -/
  wf : WellFormed capacity s.q
  /-- What is in the ring is what is in the channel, -/
  items : f.items = s.q.contents
  /-- what was pushed has entered it, -/
  entered : f.entered = s.pushed
  /-- and what was popped has left it. -/
  left : f.left = s.popped

/-- Every step of the monitor is at most one operation of the channel. -/
theorem represents_step {capacity : Nat} {s next : State Tid}
    {f : BoundedFifo Int capacity} {a : Label Tid}
    (hR : Represents capacity s f) (h : step s a = some next) :
    ∃ ops f', (fifoMachine Int capacity).run f ops = some f' ∧
      Represents capacity next f' := by
  obtain hsame | ⟨hroom, v, hq, hpushed, hpopped⟩ |
    ⟨hsome, hq, hpushed, hpopped⟩ := step_queue_cases h
  · refine ⟨[], f, rfl, ?_⟩
    exact
      { wf := hsame.q ▸ hR.wf
        items := by rw [hR.items, hsame.q]
        entered := by rw [hR.entered, hsame.pushed]
        left := by rw [hR.left, hsame.popped] }
  · have hlen : f.items.length < capacity := by
      have hle := hR.wf.countLe
      have hcap := hR.wf.capacityEq
      rw [hR.items, SocketQueue.contents, length_contents]
      omega
    refine ⟨[.enter v], f.enter v hlen, ?_, ?_⟩
    · simp [Machine.run_cons, fifoMachine, BoundedFifo.enter?, hlen]
    · exact
        { wf := hq ▸ hR.wf.enqueue hroom v
          items := by
            rw [hq, hR.wf.contents_enqueue hroom v, ← hR.items]
            rfl
          entered := by rw [hpushed, ← hR.entered]; rfl
          left := by rw [hpopped, ← hR.left]; rfl }
  · have hitems : f.items = s.q.dequeue.1 :: s.q.dequeue.2.contents := by
      rw [hR.items, hR.wf.contents_dequeue hsome]
    refine ⟨[.leave], f.leave _ _ hitems, ?_, ?_⟩
    · rw [Machine.run_cons]
      simp only [fifoMachine, BoundedFifo.leave?_of_items hitems,
        Option.map_some, Option.bind_some, Machine.run_nil]
    · exact
        { wf := hq ▸ hR.wf.dequeue hsome
          items := by rw [hq]; rfl
          entered := by rw [hpushed, ← hR.entered]; rfl
          left := by rw [hpopped, ← hR.left]; rfl }

theorem queue_simulates_fifo {capacity : Nat} (hcap : 0 < capacity) :
    Simulation (queueMachine Tid capacity) (fifoMachine Int capacity)
      (Represents capacity) where
  init s := by
    rintro ⟨data, clientSock, rfl⟩
    refine ⟨.empty, rfl, ?_⟩
    exact
      { wf := queueInit_wellFormed data hcap
        items := rfl
        entered := rfl
        left := rfl }
  step _ _ _ _ hR h := represents_step hR h

/-- **The queue neither loses, duplicates nor reorders a descriptor.**  In
every reachable state the indices are in range and consistent, the
descriptors popped followed by those in the queue are the descriptors pushed,
and neither the next push nor any other step writes a slot that holds an
unpopped descriptor. -/
theorem queue_fifo {capacity : Nat} (hcap : 0 < capacity) {s : State Tid}
    (h : (queueMachine Tid capacity).Reachable s) :
    s.q.capacity = capacity ∧ s.q.count ≤ capacity ∧
      s.q.front < capacity ∧ s.q.rear < capacity ∧
      s.q.rear = (s.q.front + s.q.count) % capacity ∧
      s.popped ++ s.q.contents = s.pushed ∧
      (s.q.count < capacity →
        ∀ i < s.q.count, (s.q.front + i) % capacity ≠ s.q.rear) ∧
      ∀ a next, step s a = some next →
        ∀ i < s.q.count, next.q.data ((s.q.front + i) % capacity) =
          s.q.data ((s.q.front + i) % capacity) := by
  obtain ⟨f, _, hR⟩ := (queue_simulates_fifo hcap).reachable h
  have hwf := hR.wf
  refine ⟨hwf.capacityEq, hwf.countLe, hwf.frontLt, hwf.rear_lt, hwf.rearEq,
    ?_, hwf.rear_free, ?_⟩
  · rw [← hR.items, ← hR.left, ← hR.entered]
    exact f.conserved
  · intro a next hs i hi
    obtain hsame | ⟨hroom, v, hq, _, _⟩ | ⟨_, hq, _, _⟩ := step_queue_cases hs
    · rw [hsame.q]
    · have hlt : s.q.count < capacity := by
        have hle := hwf.countLe
        have hc := hwf.capacityEq
        omega
      rw [hq]
      exact put_ne _ _ (hwf.rear_free hlt i hi)
    · rw [hq]
      rfl

/-- Two pushes and a pop through a queue of capacity two. -/
theorem queue_fifo_capacity_two : ∃ s : State Nat,
    (queueMachine Nat 2).Reachable s ∧ s.popped ++ s.q.contents = [5, 6] := by
  have hrun := Machine.reachable_of_run (m := queueMachine Nat 2)
    (s := ⟨queueInit (fun _ => 0) 2, .empty, .empty, fun _ => 0, [], []⟩)
    ⟨fun _ => 0, fun _ => 0, rfl⟩
    (show _ = some _ from rfl :
      (queueMachine Nat 2).run _ [.push 0 5 0, .push 0 6 0, .pop 1 0] = _)
  obtain ⟨-, -, -, -, -, hfifo, -⟩ := queue_fifo (by decide) hrun
  exact ⟨_, hrun, hfifo⟩

end UnixHomework.Ports.BoundedQueue
