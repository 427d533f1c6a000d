import Mathlib.Data.Option.Basic
import UnixHomework.Ports.ThreadPool

/-!
# Every connection is served once

Descriptors travel from `accept` through `main` and the queue to one worker,
which closes them.  The invariant is kept step by step: a turn in
`queue_push` leaves the line as it is, a turn in `queue_pop` hands its head
to a worker, and `close` takes it from there.
-/

namespace UnixHomework.Ports.ThreadPool

open UnixHomework.Verified
open UnixHomework.Ports
open UnixHomework.Ports.BoundedQueue (PushTurn PopTurn WellFormed)

variable {W : Type*} {capacity : Nat} {s next : Server W}
  {q : BoundedQueue.State (Thread W)} {w : W} {fd : Int}

/-! ## The line and the workers -/

section Serves

variable (hS : Serves s)

include hS

/-- What the invariant says depends on the line, not on where it is kept: in
the queue, or with `main` that has still to push it. -/
theorem Serves.of_waiting (hWaiting : next.waiting = s.waiting)
    (hDescriptors : next.descriptors = s.descriptors)
    (hWorkers : next.workers = s.workers) (hStarted : next.started = s.started)
    (hSent : next.sent = s.sent) : Serves next := by
  refine ⟨?_, ?_, ?_, ?_, ?_, ?_, ?_⟩
  · rw [hDescriptors]
    refine hS.custody.congr fun p fd => ?_
    cases p with
    | none =>
        show fd ∈ next.waiting ↔ fd ∈ s.waiting
        rw [hWaiting]
    | some w =>
        show (next.workers w).Handles fd ↔ (s.workers w).Handles fd
        rw [hWorkers]
  · rw [hWaiting, hDescriptors, hStarted]
    exact hS.line
  · rw [hWaiting, hDescriptors, hStarted]
    exact hS.total
  · rw [hStarted]
    exact hS.started
  · rw [hSent]
    exact hS.sentOnce
  · rw [hSent, hDescriptors, hWorkers]
    exact hS.sent_iff
  · rw [hDescriptors]
    exact hS.strays

/-- No descriptor is in line twice, since each has one holder and a place in
line is one. -/
theorem Serves.waiting_nodup : s.waiting.Nodup := by
  apply List.Nodup.of_map s.descriptors.table
  rw [hS.line]
  exact (List.nodup_range').map (Option.some_injective Nat)

/-- A descriptor that a worker handles is not in line.  It has left the line
with the `queue_pop` that gave it to the worker. -/
theorem Serves.notMem_waiting (hw : (s.workers w).Handles fd) :
    fd ∉ s.waiting := by
  intro hMem
  have hPlace := hS.custody.once none (some w) fd hMem hw
  contradiction

/-- A connection for which a worker is about to call `send` has not been sent
anything: no other worker has had it before. -/
theorem Serves.notMem_sent {c : Nat} (hw : s.workers w = .sending fd)
    (hc : s.descriptors.table fd = some c) : c ∉ s.sent := by
  rw [hS.sent_iff]
  rintro (hClosed | ⟨w', fd', hw', hc'⟩)
  · exact Descriptors.notMem_closed hc hClosed
  · obtain rfl := s.descriptors.distinct fd fd' c hc hc'
    have hPlace := hS.custody.once (some w) (some w') fd (.inl hw) (.inr hw')
    rw [Option.some.injEq] at hPlace
    subst hPlace
    rw [hw] at hw'
    contradiction

theorem serves_accept {d : Descriptors} (hMain : s.main = .accepting)
    (h : s.descriptors.accept? fd = some d) :
    Serves { s with descriptors := d, main := .pushing fd } := by
  obtain ⟨-, hFree, hAccepted, hTable, hClosed⟩ :=
    Descriptors.accept?_eq_some h
  have hOld : s.waiting = s.clientQueue.q.contents := by
    simp [Server.waiting, hMain, MainAt.pending]
  have hNew : Server.waiting { s with descriptors := d, main := .pushing fd } =
      s.waiting ++ [fd] := by
    rw [hOld]
    rfl
  have hNotIn : fd ∉ s.waiting := by
    intro hMem
    obtain ⟨c, hc⟩ := hS.custody.alive none fd hMem
    rw [hFree] at hc
    contradiction
  have hSame : s.waiting.map d.table = s.waiting.map s.descriptors.table := by
    rw [hTable]
    apply List.map_congr_left
    rintro x hx
    rw [Function.update_of_ne]
    rintro rfl
    exact hNotIn hx
  have hHead : d.table fd = some s.descriptors.accepted := by
    rw [hTable, Function.update_self]
  refine ⟨?_, ?_, ?_, hS.started, hS.sentOnce, ?_,
    (Descriptors.strays_accept? h).trans hS.strays⟩
  · refine hS.custody.acquire (Descriptors.not_open_of_free hFree)
      (Descriptors.open_accept h) (p := none) fun p x => ?_
    cases p with
    | none =>
        show x ∈ Server.waiting _ ↔ _
        rw [hNew, List.mem_append, List.mem_singleton]
        simp [Server.holds]
    | some w => simp [Server.holds]
  · rw [hNew, List.map_append, List.map_singleton, hSame, hS.line,
      List.length_append, List.length_singleton, List.range'_concat,
      List.map_append, List.map_singleton, hHead, hS.total, Nat.one_mul]
  · rw [hNew, List.length_append, List.length_singleton]
    show d.accepted = s.started.length + (s.waiting.length + 1)
    rw [hAccepted, hS.total]
    omega
  · intro c
    show c ∈ s.sent ↔ c ∈ d.closed ∨
      ∃ w x, s.workers w = .closing x ∧ d.table x = some c
    rw [hS.sent_iff, hClosed]
    apply or_congr_right
    constructor
    · rintro ⟨w, x, hw, hx⟩
      refine ⟨w, x, hw, ?_⟩
      rw [hTable]
      apply update_some_iff.mpr
      right
      refine ⟨?_, hx⟩
      rintro rfl
      rw [hFree] at hx
      contradiction
    · rintro ⟨w, x, hw, hx⟩
      rw [hTable] at hx
      rcases update_some_iff.mp hx with ⟨rfl, -⟩ | ⟨-, hx⟩
      · obtain ⟨c', hc'⟩ := hS.custody.alive (some w) x (.inr hw)
        rw [hFree] at hc'
        contradiction
      · exact ⟨w, x, hw, hx⟩

end Serves

/-- The connections in line have descriptors there: what was accepted and not
popped is still open, and nobody but the line can hold it. -/
theorem Serves.exists_waiting (hS : Serves s) {c : Nat}
    (hLate : s.started.length ≤ c) (hc : c < s.descriptors.accepted) :
    ∃ fd ∈ s.waiting, s.descriptors.table fd = some c := by
  have hTotal := hS.total
  have hMem : some c ∈ s.waiting.map s.descriptors.table := by
    rw [hS.line]
    apply List.mem_map_of_mem
    rw [List.mem_range'_1]
    omega
  exact List.mem_map.mp hMem

/-- A connection that a worker handles has been popped, so it is among the
first ones accepted. -/
theorem Serves.handles_started (hS : Serves s) {c : Nat}
    (hw : (s.workers w).Handles fd) (hc : s.descriptors.table fd = some c) :
    c < s.started.length := by
  by_contra hLate
  obtain ⟨fd', hMem, hc'⟩ := hS.exists_waiting (Nat.le_of_not_lt hLate)
    (s.descriptors.earlier fd c hc)
  obtain rfl := s.descriptors.distinct fd fd' c hc hc'
  exact hS.notMem_waiting hw hMem

/-- What has been closed has been popped. -/
theorem Serves.closed_started (hS : Serves s) {c : Nat}
    (hc : c ∈ s.descriptors.closed) : c < s.started.length := by
  by_contra hLate
  have hLt := ((s.descriptors.closed_iff c).mp hc).1
  obtain ⟨fd, -, hfd⟩ := hS.exists_waiting (Nat.le_of_not_lt hLate) hLt
  exact Descriptors.notMem_closed hfd hc

variable [DecidableEq W]

theorem reachable_wellFormed (hcap : 0 < capacity)
    (h : (BoundedQueue.queueMachine (Thread W) capacity).Reachable q) :
    WellFormed capacity q.q := by
  obtain ⟨f, -, hR⟩ := (BoundedQueue.queue_simulates_fifo hcap).reachable h
  exact hR.wf

/-- A step of the queue from a reachable state.  The queue is the machine of
`BoundedQueue` with the threads of the server, and its invariants are used here
as they stand. -/
theorem reachable_step {a : BoundedQueue.Label (Thread W)}
    {q' : BoundedQueue.State (Thread W)}
    (h : (BoundedQueue.queueMachine (Thread W) capacity).Reachable q)
    (hs : BoundedQueue.step q a = some q') :
    (BoundedQueue.queueMachine (Thread W) capacity).Reachable q' :=
  .step h trivial hs

/-! ## Where the threads stand -/

@[simp] theorem clientQueue_afterPop (s : Server W) (w : W)
    (q : BoundedQueue.State (Thread W)) : (s.afterPop w q).clientQueue = q := by
  unfold Server.afterPop
  split <;> rfl

@[simp] theorem main_afterPop (s : Server W) (w : W)
    (q : BoundedQueue.State (Thread W)) : (s.afterPop w q).main = s.main := by
  unfold Server.afterPop
  split <;> rfl

@[simp] theorem descriptors_afterPop (s : Server W) (w : W)
    (q : BoundedQueue.State (Thread W)) :
    (s.afterPop w q).descriptors = s.descriptors := by
  unfold Server.afterPop
  split <;> rfl

@[simp] theorem killed_afterPop (s : Server W) (w : W)
    (q : BoundedQueue.State (Thread W)) :
    (s.afterPop w q).killed = s.killed := by
  unfold Server.afterPop
  split <;> rfl

theorem stands_afterPush (hS : Stands s) (hMain : s.main = .pushing fd)
    (hTurn : PushTurn s.clientQueue q .main fd) :
    Stands (s.afterPush q) := by
  refine ⟨?_, ?_, ?_, ?_, ?_⟩
  · exact (hTurn.nonempty .main).trans hS.mainNonempty
  · intro w
    exact (hTurn.nonfull (.worker w) (by simp)).trans (hS.workerNonfull w)
  · intro hAccepting
    by_contra hOut
    have hStays : s.main = .accepting := (if_neg hOut).symm.trans hAccepting
    rw [hMain] at hStays
    contradiction
  · intro fd' hPushing hOut
    have hStays : s.main = .pushing fd' := (if_neg hOut).symm.trans hPushing
    rw [hMain, MainAt.pushing.injEq] at hStays
    exact hTurn.clientSock.trans hStays
  · intro w hw
    have hOut : s.clientQueue.condNonempty.places (.worker w) +
        s.clientQueue.condNonfull.places (.worker w) = 0 := hS.workerOut w hw
    show q.condNonempty.places _ + q.condNonfull.places _ = 0
    rw [hTurn.nonempty, hTurn.nonfull _ (by simp)]
    exact hOut

/-- A turn in `queue_pop` of a worker that is there, whatever it returns: the
worker leaves with a descriptor, or waits for one.  The others stand where they
stood. -/
theorem stands_afterPop (hS : Stands s) (hw : s.workers w = .popping)
    (hTurn : PopTurn s.clientQueue q (.worker w)) :
    Stands (s.afterPop w q) := by
  have hQueue := clientQueue_afterPop s w q
  have hMain := main_afterPop s w q
  have hMainOut : q.Outside .main ↔ s.clientQueue.Outside .main := by
    show q.condNonempty.places _ + q.condNonfull.places _ = 0 ↔ _
    rw [hTurn.nonempty _ (by simp), hTurn.nonfull]
    rfl
  refine ⟨?_, ?_, ?_, ?_, ?_⟩
  · rw [hQueue, hTurn.nonempty _ (by simp)]
    exact hS.mainNonempty
  · intro w'
    rw [hQueue, hTurn.nonfull]
    exact hS.workerNonfull w'
  · intro hAccepting
    rw [hMain] at hAccepting
    rw [hQueue]
    exact hMainOut.mpr (hS.mainOut hAccepting)
  · intro fd hPushing hOut
    rw [hMain] at hPushing
    rw [hQueue] at hOut ⊢
    rw [hTurn.clientSock]
    exact hS.mainArg fd hPushing (fun h => hOut (hMainOut.mpr h))
  · intro w' hw'
    rw [hQueue]
    by_cases hSame : w' = w
    · subst hSame
      by_contra hOut
      have hStays : (s.afterPop w' q).workers = s.workers := by
        rw [Server.afterPop, if_neg hOut]
      rw [hStays] at hw'
      exact hw' hw
    · have hOther : (s.afterPop w q).workers w' = s.workers w' := by
        unfold Server.afterPop
        split
        · exact Function.update_of_ne hSame ..
        · rfl
      rw [hOther] at hw'
      show q.condNonempty.places _ + q.condNonfull.places _ = 0
      rw [hTurn.nonempty _ (by simpa using hSame), hTurn.nonfull]
      exact hS.workerOut w' hw'

/-- Nobody moves, as when a descriptor is accepted or a client comes. -/
theorem Stands.of_same (hS : Stands s) (hQueue : next.clientQueue =
      s.clientQueue) (hMain : next.main = s.main)
    (hWorkers : next.workers = s.workers) : Stands next := by
  refine ⟨?_, ?_, ?_, ?_, ?_⟩
  · rw [hQueue]
    exact hS.mainNonempty
  · rw [hQueue]
    exact hS.workerNonfull
  · rw [hQueue, hMain]
    exact hS.mainOut
  · rw [hQueue, hMain]
    exact hS.mainArg
  · rw [hQueue, hWorkers]
    exact hS.workerOut

/-- A change that concerns neither `main` nor the queue, by a worker that is in
no call of the queue: it calls `send` or `close`. -/
theorem Stands.worker (hS : Stands s) (hQueue : next.clientQueue =
      s.clientQueue) (hMain : next.main = s.main)
    (hOthers : ∀ w', w' ≠ w → next.workers w' = s.workers w')
    (hw : s.workers w ≠ .popping) : Stands next := by
  refine ⟨?_, ?_, ?_, ?_, ?_⟩
  · rw [hQueue]
    exact hS.mainNonempty
  · rw [hQueue]
    exact hS.workerNonfull
  · rw [hQueue, hMain]
    exact hS.mainOut
  · rw [hQueue, hMain]
    exact hS.mainArg
  · intro w' hw'
    rw [hQueue]
    by_cases hSame : w' = w
    · subst hSame
      exact hS.workerOut w' hw
    · rw [hOthers w' hSame] at hw'
      exact hS.workerOut w' hw'

/-! ## The steps of the server -/

section Serves

variable (hS : Serves s)

include hS

/-- `queue_push` stores what `main` held back.  The line is the same before and
after, read once with `main`'s descriptor behind the queue and once with it in
the queue. -/
theorem serves_afterPush (hWF : WellFormed capacity s.clientQueue.q)
    (hMain : s.main = .pushing fd)
    (hTurn : PushTurn s.clientQueue q .main fd) : Serves (s.afterPush q) := by
  refine hS.of_waiting ?_ rfl rfl rfl rfl
  rcases hTurn.result with ⟨hIn, hSame, -⟩ | ⟨hOut, hRoom, hEnqueued, -⟩
  · have hStays : (s.afterPush q).main = s.main := if_neg hIn
    rw [Server.waiting, hStays, Server.waiting]
    show q.q.contents ++ _ = _
    rw [hSame]
  · have hReturns : (s.afterPush q).main = .accepting := if_pos hOut
    rw [Server.waiting, hReturns, Server.waiting, hMain]
    show q.q.contents ++ [] = _
    rw [hEnqueued, hWF.contents_enqueue hRoom, List.append_nil]
    rfl

/-- `queue_pop` hands the head of the line to the worker.  The head is the
oldest connection not yet popped, so the connections popped are again the first
ones accepted. -/
theorem serves_afterPop (hWF : WellFormed capacity s.clientQueue.q)
    (hw : s.workers w = .popping)
    (hTurn : PopTurn s.clientQueue q (.worker w)) :
    Serves (s.afterPop w q) := by
  rcases hTurn.result with ⟨hIn, hSame, -⟩ | ⟨hOut, hSome, hDequeued, -⟩
  · rw [Server.afterPop, if_neg hIn]
    refine hS.of_waiting ?_ rfl rfl rfl rfl
    show q.q.contents ++ _ = _
    rw [hSame]
    rfl
  · obtain ⟨fd, hfd⟩ : ∃ fd, fd = s.clientQueue.q.dequeue.1 := ⟨_, rfl⟩
    obtain ⟨rest, hRest⟩ : ∃ rest, rest = q.q.contents ++ s.main.pending :=
      ⟨_, rfl⟩
    have hLine : s.waiting = fd :: rest := by
      rw [Server.waiting, hWF.contents_dequeue hSome, hRest, hDequeued, hfd]
      rfl
    have hMem : fd ∈ s.waiting := hLine ▸ List.mem_cons_self
    have hNodup := hLine ▸ hS.waiting_nodup
    have hMap := hS.line
    rw [hLine, List.length_cons, List.range'_succ, List.map_cons,
      List.map_cons, List.cons.injEq] at hMap
    obtain ⟨hHead, hTail⟩ := hMap
    have hPos : 0 ≤ fd := s.descriptors.nonneg fd _ hHead
    have hAfter : s.afterPop w q = { s with
        clientQueue := q
        workers := Function.update s.workers w (.sending fd)
        started := s.started ++ [s.started.length] } := by
      rw [Server.afterPop, if_pos hOut, popped, ← hfd, if_pos hPos, hHead]
      rfl
    have hWaiting : (s.afterPop w q).waiting = rest := by
      rw [hAfter, hRest]
      rfl
    have hHolds : ∀ p x, (s.afterPop w q).holds p x ↔
        x ≠ fd ∧ s.holds p x ∨ x = fd ∧ p = some w := by
      intro p x
      cases p with
      | none =>
          show x ∈ (s.afterPop w q).waiting ↔ x ≠ fd ∧ x ∈ s.waiting ∨ _
          rw [hWaiting, hLine, List.mem_cons]
          constructor
          · intro hx
            refine .inl ⟨?_, .inr hx⟩
            rintro rfl
            exact (List.nodup_cons.mp hNodup).1 hx
          · rintro (⟨hne, rfl | hx⟩ | ⟨-, hNone⟩)
            · contradiction
            · exact hx
            · contradiction
      | some w' =>
          rw [hAfter]
          show (Function.update s.workers w (.sending fd) w').Handles x ↔
            x ≠ fd ∧ (s.workers w').Handles x ∨ _
          by_cases hSame : w' = w
          · subst hSame
            rw [Function.update_self, handles_sending, hw]
            simp
          · rw [Function.update_of_ne hSame]
            constructor
            · intro hx
              refine .inl ⟨?_, hx⟩
              rintro rfl
              exact hS.notMem_waiting hx hMem
            · rintro (⟨-, hx⟩ | ⟨-, hSome⟩)
              · exact hx
              · exact absurd (Option.some.inj hSome) hSame
    have hDescriptors := descriptors_afterPop s w q
    have hStarted : (s.afterPop w q).started =
        s.started ++ [s.started.length] := by
      rw [hAfter]
    refine ⟨?_, ?_, ?_, ?_, ?_, ?_, hDescriptors ▸ hS.strays⟩
    · rw [hDescriptors]
      exact hS.custody.move (p := none) hMem hHolds
    · rw [hWaiting, hDescriptors, hStarted, List.length_append]
      exact hTail
    · rw [hWaiting, hDescriptors, hStarted, hS.total, hLine,
        List.length_append, List.length_cons, List.length_singleton]
      omega
    · rw [hStarted, List.length_append, List.length_singleton,
        List.range_succ, ← hS.started]
    · rw [hAfter]
      exact hS.sentOnce
    · intro c
      rw [hAfter]
      show c ∈ s.sent ↔ c ∈ s.descriptors.closed ∨ ∃ w' x,
        Function.update s.workers w (.sending fd) w' = .closing x ∧
          s.descriptors.table x = some c
      rw [hS.sent_iff]
      apply or_congr_right
      apply exists_congr
      intro w'
      by_cases hSame : w' = w
      · subst hSame
        rw [Function.update_self, hw]
        simp
      · rw [Function.update_of_ne hSame]

theorem serves_send (hw : s.workers w = .sending fd) :
    Serves { s with
      workers := Function.update s.workers w (.closing fd)
      sent := s.sent ++ (s.descriptors.table fd).toList } := by
  obtain ⟨c, hc⟩ := hS.custody.alive (some w) fd (.inl hw)
  refine ⟨?_, hS.line, hS.total, hS.started, ?_, ?_, hS.strays⟩
  · refine hS.custody.congr fun p x => ?_
    cases p with
    | none => rfl
    | some w' =>
        show (Function.update s.workers w (.closing fd) w').Handles x ↔
          (s.workers w').Handles x
        by_cases hSame : w' = w
        · subst hSame
          rw [Function.update_self, hw, handles_sending, handles_closing]
        · rw [Function.update_of_ne hSame]
  · show (s.sent ++ (s.descriptors.table fd).toList).Nodup
    rw [hc, Option.toList_some, List.nodup_append]
    refine ⟨hS.sentOnce, List.nodup_singleton c, ?_⟩
    rintro x hx y hy rfl
    rw [List.mem_singleton] at hy
    subst hy
    exact hS.notMem_sent hw hc hx
  · intro x
    show x ∈ s.sent ++ (s.descriptors.table fd).toList ↔
      x ∈ s.descriptors.closed ∨ ∃ w' y,
        Function.update s.workers w (.closing fd) w' = .closing y ∧
          s.descriptors.table y = some x
    rw [List.mem_append, hS.sent_iff, Option.mem_toList, or_assoc]
    apply or_congr_right
    constructor
    · rintro (⟨w', y, hw', hy⟩ | hx)
      · refine ⟨w', y, ?_, hy⟩
        rw [Function.update_of_ne]
        · exact hw'
        · rintro rfl
          rw [hw] at hw'
          contradiction
      · exact ⟨w, fd, Function.update_self .., hx⟩
    · rintro ⟨w', y, hw', hy⟩
      by_cases hSame : w' = w
      · subst hSame
        rw [Function.update_self, WorkerAt.closing.injEq] at hw'
        subst hw'
        exact .inr hy
      · rw [Function.update_of_ne hSame] at hw'
        exact .inl ⟨w', y, hw', hy⟩

theorem serves_close (hw : s.workers w = .closing fd) :
    Serves { s with
      workers := Function.update s.workers w .popping
      descriptors := s.descriptors.close fd } := by
  obtain ⟨c, hc⟩ := hS.custody.alive (some w) fd (.inr hw)
  have hNotIn : fd ∉ s.waiting := hS.notMem_waiting (.inr hw)
  refine ⟨?_, ?_, hS.total, hS.started, hS.sentOnce, ?_,
    (Descriptors.strays_close hc).trans hS.strays⟩
  · refine hS.custody.release Descriptors.open_close fun p x => ?_
    cases p with
    | none =>
        show x ∈ s.waiting ↔ x ≠ fd ∧ x ∈ s.waiting
        constructor
        · intro hx
          refine ⟨?_, hx⟩
          rintro rfl
          exact hNotIn hx
        · exact And.right
    | some w' =>
        show (Function.update s.workers w .popping w').Handles x ↔
          x ≠ fd ∧ (s.workers w').Handles x
        by_cases hSame : w' = w
        · subst hSame
          rw [Function.update_self, hw, handles_closing]
          simp
        · rw [Function.update_of_ne hSame]
          constructor
          · intro hx
            refine ⟨?_, hx⟩
            rintro rfl
            have hPlace := hS.custody.once (some w') (some w) x hx (.inr hw)
            exact hSame (Option.some.inj hPlace)
          · exact And.right
  · show s.waiting.map (s.descriptors.close fd).table = _
    refine Eq.trans ?_ hS.line
    apply List.map_congr_left
    intro x hx
    apply Descriptors.table_close_of_ne
    rintro rfl
    exact hNotIn hx
  · intro x
    show x ∈ s.sent ↔ x ∈ (s.descriptors.close fd).closed ∨ ∃ w' y,
      Function.update s.workers w .popping w' = .closing y ∧
        (s.descriptors.close fd).table y = some x
    rw [hS.sent_iff, Descriptors.closed_close hc, List.mem_append,
      List.mem_singleton, or_assoc]
    apply or_congr_right
    constructor
    · rintro ⟨w', y, hw', hy⟩
      by_cases hSame : w' = w
      · subst hSame
        rw [hw, WorkerAt.closing.injEq] at hw'
        subst hw'
        exact .inl (Option.some.inj (hy.symm.trans hc))
      · right
        refine ⟨w', y, ?_, ?_⟩
        · rw [Function.update_of_ne hSame]
          exact hw'
        · rw [Descriptors.table_close_of_ne]
          · exact hy
          · rintro rfl
            have hPlace := hS.custody.once (some w') (some w) y (.inr hw')
              (.inr hw)
            exact hSame (Option.some.inj hPlace)
    · rintro (rfl | ⟨w', y, hw', hy⟩)
      · exact ⟨w, fd, hw, hc⟩
      · by_cases hSame : w' = w
        · subst hSame
          rw [Function.update_self] at hw'
          contradiction
        · rw [Function.update_of_ne hSame] at hw'
          exact ⟨w', y, hw', (update_none_iff.mp hy).2⟩

end Serves

/-- A spurious wake-up changes nothing that the server relies on.  It moves a
thread out of the waiting set of a condition variable, from which it asks
again. -/
theorem spurious_inv (hI : Inv capacity s) {t : Thread W}
    {a : BoundedQueue.Label (Thread W)}
    (hq : BoundedQueue.step s.clientQueue a = some q)
    (ha : a = .spuriousNonfull t ∨ a = .spuriousNonempty t) :
    Inv capacity { s with clientQueue := q } := by
  obtain ⟨hSame, hSock, hNonempty, hNonfull⟩ :=
    BoundedQueue.spurious_turn hq ha
  have hOutside : ∀ u, q.Outside u ↔ s.clientQueue.Outside u := by
    intro u
    show q.condNonempty.places u + q.condNonfull.places u = 0 ↔ _
    rw [hNonempty, hNonfull]
    rfl
  have hS := hI.stands
  refine ⟨reachable_step hI.queue hq, ⟨?_, ?_, ?_, ?_, ?_⟩, ?_⟩
  · exact (hNonempty .main).trans hS.mainNonempty
  · intro w
    exact (hNonfull (.worker w)).trans (hS.workerNonfull w)
  · intro hMain
    exact (hOutside .main).mpr (hS.mainOut hMain)
  · intro fd hMain hIn
    have hStays := hS.mainArg fd hMain fun h => hIn ((hOutside .main).mpr h)
    show q.clientSock .main = fd
    rw [hSock]
    exact hStays
  · intro w hw
    exact (hOutside (.worker w)).mpr (hS.workerOut w hw)
  · refine hI.serves.of_waiting ?_ rfl rfl rfl rfl
    show q.q.contents ++ _ = _
    rw [hSame]
    rfl

/-- A call of `queue_push` that goes on had been waiting, so `main` was inside
the queue. -/
theorem pushResume_inside {q' : BoundedQueue.State (Thread W)}
    {chosen : Multiset (Thread W)}
    (hq : BoundedQueue.step q (.pushResume .main chosen) = some q') :
    ¬q.Outside .main := by
  obtain ⟨c, hc, -⟩ := Option.bind_eq_some_iff.mp hq
  have hLeft := CondVar.places_resume hc .main
  rw [if_pos rfl] at hLeft
  show ¬q.condNonempty.places .main + q.condNonfull.places .main = 0
  omega

theorem init_inv {s : Server W} (h : (serverMachine W capacity).init s) :
    Inv capacity s := by
  obtain ⟨q, ⟨data, clientSock, rfl⟩, rfl⟩ := h
  refine ⟨.init ⟨data, clientSock, rfl⟩, ?_, ?_⟩
  · refine ⟨rfl, fun _ => rfl, fun _ => rfl, ?_, fun _ _ => rfl⟩
    intro fd hMain
    contradiction
  · refine ⟨Custody.empty ?_ ?_, rfl, rfl, rfl, List.nodup_nil, ?_, rfl⟩
    · exact fun _ => Descriptors.not_open_of_free rfl
    · intro p fd
      cases p with
      | none => exact List.not_mem_nil
      | some w => exact not_handles_popping fd
    · simp [Descriptors.empty]

/-- A step of `main` or of a worker at the queue, or beside it.  The cases are
the calls of the two loops, and a signal that kills the process, after which
nothing moves. -/
theorem step_inv (hcap : 0 < capacity) {a : Label W} (hI : Inv capacity s)
    (h : step s a = some next) : Inv capacity next := by
  have hWF := reachable_wellFormed hcap hI.queue
  have hWake := BoundedQueue.reachable_wakeInv hI.queue
  replace h := (step_eq_some h).2
  cases a with
  | accept fd =>
      simp only [Server.call] at h
      split at h
      · rename_i hMain
        obtain ⟨d, hd, rfl⟩ := Option.map_eq_some_iff.mp h
        have hOut := hI.stands.mainOut hMain
        refine ⟨hI.queue, ?_, serves_accept hI.serves hMain hd⟩
        refine ⟨hI.stands.mainNonempty, hI.stands.workerNonfull,
          fun _ => hOut, ?_, hI.stands.workerOut⟩
        intro fd' _ hIn
        exact absurd hOut hIn
      · contradiction
  | acceptFails =>
      simp only [Server.call] at h
      split at h
      · exact Option.some.inj h ▸ hI
      · contradiction
  | push chosen =>
      simp only [Server.call] at h
      split at h
      · contradiction
      · rename_i fd hMain
        obtain ⟨q, hq, rfl⟩ := Option.map_eq_some_iff.mp h
        have hTurn := BoundedQueue.push_turn hq
        exact ⟨reachable_step hI.queue hq,
          stands_afterPush hI.stands hMain hTurn,
          serves_afterPush hI.serves hWF hMain hTurn⟩
  | pushResume chosen =>
      simp only [Server.call] at h
      split at h
      · contradiction
      · rename_i fd hMain
        obtain ⟨q, hq, rfl⟩ := Option.map_eq_some_iff.mp h
        have hTurn := BoundedQueue.pushResume_turn hWake hq
        rw [hI.stands.mainArg fd hMain (pushResume_inside hq)] at hTurn
        exact ⟨reachable_step hI.queue hq,
          stands_afterPush hI.stands hMain hTurn,
          serves_afterPush hI.serves hWF hMain hTurn⟩
  | pop w chosen =>
      simp only [Server.call] at h
      split at h
      · rename_i hw
        obtain ⟨q, hq, rfl⟩ := Option.map_eq_some_iff.mp h
        have hTurn := BoundedQueue.pop_turn hq
        refine ⟨?_, stands_afterPop hI.stands hw hTurn,
          serves_afterPop hI.serves hWF hw hTurn⟩
        rw [clientQueue_afterPop]
        exact reachable_step hI.queue hq
      · contradiction
  | popResume w chosen =>
      simp only [Server.call] at h
      split at h
      · rename_i hw
        obtain ⟨q, hq, rfl⟩ := Option.map_eq_some_iff.mp h
        have hTurn := BoundedQueue.popResume_turn hWake hq
        refine ⟨?_, stands_afterPop hI.stands hw hTurn,
          serves_afterPop hI.serves hWF hw hTurn⟩
        rw [clientQueue_afterPop]
        exact reachable_step hI.queue hq
      · contradiction
  | send w =>
      simp only [Server.call] at h
      split at h
      · rename_i fd hw
        obtain rfl := Option.some.inj h
        refine ⟨hI.queue, ?_, serves_send hI.serves hw⟩
        refine hI.stands.worker (w := w) rfl rfl ?_ (by rw [hw]; simp)
        intro w' hw'
        exact Function.update_of_ne hw' ..
      · contradiction
  | sigpipe w =>
      simp only [Server.call] at h
      split at h
      · obtain rfl := Option.some.inj h
        exact ⟨hI.queue, hI.stands.of_same rfl rfl rfl,
          hI.serves.of_waiting rfl rfl rfl rfl rfl⟩
      · contradiction
  | close w =>
      simp only [Server.call] at h
      split at h
      · rename_i fd hw
        obtain rfl := Option.some.inj h
        refine ⟨hI.queue, ?_, serves_close hI.serves hw⟩
        refine hI.stands.worker (w := w) rfl rfl ?_ (by rw [hw]; simp)
        intro w' hw'
        exact Function.update_of_ne hw' ..
      · contradiction
  | spuriousNonfull t =>
      obtain ⟨q, hq, rfl⟩ := Option.map_eq_some_iff.mp h
      exact spurious_inv hI hq (.inl rfl)
  | spuriousNonempty t =>
      obtain ⟨q, hq, rfl⟩ := Option.map_eq_some_iff.mp h
      exact spurious_inv hI hq (.inr rfl)

theorem reachable_inv (hcap : 0 < capacity)
    (h : (serverMachine W capacity).Reachable s) : Inv capacity s :=
  h.invariant (I := Inv capacity) (fun _ h0 => init_inv h0)
    (fun _ _ _ hI _ hs => step_inv hcap hI hs)

/-- **Descriptors are in good hands.**  In every reachable state of the
server, although the kernel uses the numbers of closed descriptors again,
each open connection has one descriptor in one place, the line or a worker,
and a worker writes to and closes its own open connection only. -/
theorem descriptors_in_custody (hcap : 0 < capacity)
    (h : (serverMachine W capacity).Reachable s) :
    (∀ c, c < s.descriptors.accepted ↔ c ∈ s.descriptors.closed ∨
      ∃ fd, s.descriptors.table fd = some c) ∧
    (∀ fd, (∃ c, s.descriptors.table fd = some c) ↔ ∃! p, s.holds p fd) ∧
    s.waiting.Nodup ∧
    ∀ w fd, (s.workers w).Handles fd → fd ∉ s.waiting ∧
      ∀ w', (s.workers w').Handles fd → w' = w := by
  have hS := (reachable_inv hcap h).serves
  refine ⟨?_, ?_, hS.waiting_nodup, ?_⟩
  · intro c
    constructor
    · intro hc
      exact (Descriptors.open_or_closed hc).symm
    · rintro (hc | ⟨fd, hfd⟩)
      · exact ((s.descriptors.closed_iff c).mp hc).1
      · exact s.descriptors.earlier fd c hfd
  · exact hS.custody.existsUnique_iff
  · intro w fd hw
    refine ⟨hS.notMem_waiting hw, ?_⟩
    intro w' hw'
    exact Option.some.inj (hS.custody.once (some w') (some w) fd hw' hw)

/-- A connection is served and closed, and the next one gets its descriptor
again. -/
theorem descriptors_in_custody_reuse : ∃ s : Server (Fin 2),
    (serverMachine (Fin 2) 1).Reachable s ∧ s.descriptors.closed = [0] ∧
      s.descriptors.table 7 = some 1 ∧ ∃! p, s.holds p 7 := by
  have hrun := Machine.reachable_of_run (m := serverMachine (Fin 2) 1)
    (s := ⟨⟨BoundedQueue.queueInit (fun _ => 0) 1, .empty, .empty,
      fun _ => 0, [], []⟩, .empty, .accepting, fun _ => .popping, [], [],
      false⟩)
    ⟨_, ⟨fun _ => 0, fun _ => 0, rfl⟩, rfl⟩
    (show _ = some _ from rfl : (serverMachine (Fin 2) 1).run _
      [.accept 7, .push 0, .pop 0 0, .send 0, .close 0, .accept 7] = _)
  obtain ⟨-, hPlaces, -⟩ := descriptors_in_custody (by decide) hrun
  exact ⟨_, hrun, rfl, rfl, (hPlaces 7).mp ⟨1, rfl⟩⟩

/-- **Every client is served once, in the order of arrival.**  In every
reachable state the connections popped are the first ones accepted, in the
order of `accept`; no connection is sent the time twice or closed twice, nor is
`close` ever called for a descriptor that is not open; one is closed only after
it was sent the time, and one is sent the time only after it was popped; and a
connection popped is closed or handled by one worker. -/
theorem clients_served_once (hcap : 0 < capacity)
    (h : (serverMachine W capacity).Reachable s) :
    s.started = List.range s.started.length ∧
    s.started.length ≤ s.descriptors.accepted ∧
    s.sent.Nodup ∧ s.descriptors.closed.Nodup ∧ s.descriptors.strays = [] ∧
    (∀ c ∈ s.descriptors.closed, c ∈ s.sent) ∧
    (∀ c ∈ s.sent, c ∈ s.started) ∧
    ∀ c ∈ s.started, c ∉ s.descriptors.closed →
      ∃! w, ∃ fd, (s.workers w).Handles fd ∧
        s.descriptors.table fd = some c := by
  have hS := (reachable_inv hcap h).serves
  have hMem : ∀ c, c ∈ s.started ↔ c < s.started.length := by
    intro c
    rw [hS.started, List.mem_range, List.length_range]
  refine ⟨hS.started, ?_, hS.sentOnce, s.descriptors.closedOnce, hS.strays,
    ?_, ?_, ?_⟩
  · rw [hS.total]
    exact Nat.le_add_right _ _
  · intro c hc
    exact (hS.sent_iff c).mpr (.inl hc)
  · intro c hc
    rw [hMem]
    rcases (hS.sent_iff c).mp hc with hClosed | ⟨w, fd, hw, hfd⟩
    · exact hS.closed_started hClosed
    · exact hS.handles_started (.inr hw) hfd
  · intro c hc hOpen
    have hLt : c < s.descriptors.accepted := by
      have hStarted := (hMem c).mp hc
      have hTotal := hS.total
      omega
    obtain ⟨fd, hfd⟩ := (Descriptors.open_or_closed hLt).resolve_right hOpen
    obtain ⟨p, hp⟩ := hS.custody.held fd ⟨c, hfd⟩
    cases p with
    | none =>
        -- A connection in line has not been popped.
        obtain ⟨i, hi, hGet⟩ := List.getElem_of_mem hp
        have hLine := congrArg (fun l => l[i]?) hS.line
        simp only [List.getElem?_map, List.getElem?_eq_getElem hi, hGet,
          Option.map_some, hfd, List.getElem?_range' hi] at hLine
        have hEq := Option.some.inj (Option.some.inj hLine)
        have hStarted := (hMem c).mp hc
        omega
    | some w =>
        refine ⟨w, ⟨fd, hp, hfd⟩, ?_⟩
        rintro w' ⟨fd', hw', hfd'⟩
        obtain rfl := s.descriptors.distinct fd fd' c hfd hfd'
        exact Option.some.inj (hS.custody.once (some w') (some w) fd hw' hp)

/-- Two clients, of which the second is served to its end first. -/
theorem clients_served_once_overtaking : ∃ s : Server (Fin 2),
    (serverMachine (Fin 2) 2).Reachable s ∧ s.descriptors.closed = [1] ∧
      s.started = [0, 1] ∧ ∀ c ∈ s.descriptors.closed, c ∈ s.sent := by
  have hrun := Machine.reachable_of_run (m := serverMachine (Fin 2) 2)
    (s := ⟨⟨BoundedQueue.queueInit (fun _ => 0) 2, .empty, .empty,
      fun _ => 0, [], []⟩, .empty, .accepting, fun _ => .popping, [], [],
      false⟩)
    ⟨_, ⟨fun _ => 0, fun _ => 0, rfl⟩, rfl⟩
    (show _ = some _ from rfl : (serverMachine (Fin 2) 2).run _
      [.accept 7, .push 0, .accept 8, .push 0, .pop 0 0, .pop 1 0, .send 1,
        .close 1] = _)
  obtain ⟨-, -, -, -, -, hSent, -⟩ := clients_served_once (by decide) hrun
  exact ⟨_, hrun, rfl, rfl, hSent⟩

end UnixHomework.Ports.ThreadPool
