import UnixHomework.Ports.ThreadPoolService
import UnixHomework.Verified.Progress
import UnixHomework.Verified.Tally

/-!
# Every accepted client is served

The threads of the server never wait for each other for ever: whenever a
connection is open, `main` or a worker has a step, because a signal is never
lost (`WakeInv`).  And they come to an end with the connections they have:
a step hands a descriptor on, ends a call or puts a thread to sleep, and each
of these lowers `Server.work`.  So when no further client arrives and no
thread wakes for no reason, all clients accepted are served, whatever the
scheduler does, unless `SIGPIPE` ends the process first.
-/

namespace UnixHomework.Ports.ThreadPool

open UnixHomework.Verified
open UnixHomework.Ports
open UnixHomework.Ports.BoundedQueue (PushTurn PopTurn)

variable {W : Type*} [DecidableEq W] {capacity : Nat} {s next : Server W}
  {q : BoundedQueue.State (Thread W)} {w : W} {fd : Int}

/-- The steps of the server's own threads beside `accept`: the turns in the
queue, `send` with its two outcomes, and `close`. -/
def Label.quiet : Label W → Bool
  | .push _ | .pushResume _ | .pop _ _ | .popResume _ _ => true
  | .send _ | .sigpipe _ | .close _ => true
  | .accept _ | .acceptFails => false
  | .spuriousNonfull _ | .spuriousNonempty _ => false

/-- The server while no client arrives and no thread wakes without a
signal. -/
def quietMachine (W : Type*) [DecidableEq W] (capacity : Nat) :
    Machine (Server W) (Label W) :=
  (serverMachine W capacity).only Label.quiet

/-! ## The work that is left -/

section Work

variable [Fintype W]

/-- What a worker has before it until it sleeps: a turn in `queue_pop`,
which it does not have if it sleeps there already, and the calls of
`handle_client`. -/
def WorkerAt.work (asleep : Nat) : WorkerAt → Nat
  | .popping => 1 - asleep
  | .sending _ => 3
  | .closing _ => 2

/-- What `main` has before it in `queue_push`: it may sleep, and in the end
wakes all workers. -/
def MainAt.work (workers asleep : Nat) : MainAt → Nat
  | .accepting => 0
  | .pushing _ => workers + 6 - asleep

theorem WorkerAt.work_le (asleep : Nat) (a : WorkerAt) :
    a.work asleep ≤ 3 := by
  cases a <;> simp only [WorkerAt.work] <;> omega

theorem WorkerAt.work_le_succ (asleep asleep' : Nat) (a : WorkerAt) :
    a.work asleep' ≤ a.work asleep + 1 := by
  cases a <;> simp only [WorkerAt.work] <;> omega

theorem MainAt.work_le_succ {asleep : Nat} (workers asleep' : Nat)
    (h : asleep ≤ 1) (a : MainAt) :
    a.work workers asleep' ≤ a.work workers asleep + 1 := by
  cases a <;> simp only [MainAt.work] <;> omega

/-- What a worker has before it; a worker in `condNonempty` sleeps. -/
def Server.workerWork (s : Server W) (w : W) : Nat :=
  (s.workers w).work (s.clientQueue.condNonempty.waiting.count (.worker w))

def Server.mainWork (s : Server W) : Nat :=
  s.main.work (Fintype.card W) (s.clientQueue.condNonfull.waiting.count .main)

/-- What the threads have before them until they all sleep.  A descriptor in
the ring is worth the three calls of its worker and the turn that takes it out;
one in the hand of `main` is worth more than that by a turn for each worker,
since the signal behind it may wake them all for nothing. -/
def Server.threadWork (s : Server W) : Nat :=
  s.mainWork + 4 * s.clientQueue.q.count + ∑ w, s.workerWork w

/-- The measure that every quiet step lowers.  `SIGPIPE` may still kill a
process that is alive, and afterwards nothing can. -/
def Server.work (s : Server W) : Nat :=
  s.threadWork + (!s.killed).toNat

theorem Server.work_lt (hKilled : next.killed = s.killed)
    (hLess : next.threadWork < s.threadWork) : next.work < s.work := by
  rw [Server.work, Server.work, hKilled]
  omega

/-- A turn in `queue_push` sleeps or ends the call.  If it ends it, the
descriptor is in the ring, and each worker may have been woken. -/
theorem work_afterPush (hMain : s.main = .pushing fd)
    (hTurn : PushTurn s.clientQueue q .main fd) :
    (s.afterPush q).threadWork < s.threadWork := by
  have hBefore : s.mainWork = Fintype.card W + 6 := by
    rw [Server.mainWork, hMain, hTurn.awake]
    rfl
  rcases hTurn.result with ⟨hIn, hSame, hNonempty, hSleeps⟩ |
    ⟨hOut, -, hEnqueued, -⟩
  · have hStays : (s.afterPush q).main = .pushing fd :=
      (if_neg hIn).trans hMain
    have hAfter : (s.afterPush q).mainWork = Fintype.card W + 5 := by
      rw [Server.mainWork, hStays]
      show _ - q.condNonfull.waiting.count .main = _
      rw [hSleeps, Multiset.count_add, hTurn.awake,
        Multiset.count_singleton_self]
      omega
    have hWorkers : ∀ w, (s.afterPush q).workerWork w = s.workerWork w := by
      intro w
      show (s.workers w).work (q.condNonempty.waiting.count _) = _
      rw [hNonempty]
      rfl
    have hCount : (s.afterPush q).clientQueue.q.count =
        s.clientQueue.q.count := by
      show q.q.count = _
      rw [hSame]
    simp only [Server.threadWork, hBefore, hAfter, hCount, hWorkers]
    omega
  · have hReturns : (s.afterPush q).main = .accepting := if_pos hOut
    have hAfter : (s.afterPush q).mainWork = 0 := by
      rw [Server.mainWork, hReturns]
      rfl
    have hCount : (s.afterPush q).clientQueue.q.count =
        s.clientQueue.q.count + 1 := by
      show q.q.count = _
      rw [hEnqueued]
      rfl
    -- The signal may wake every worker.
    have hWorkers := sum_le_add_card (f := s.workerWork)
      (g := (s.afterPush q).workerWork)
      fun w => WorkerAt.work_le_succ _ _ (s.workers w)
    simp only [Server.threadWork, hBefore, hAfter, hCount]
    omega

/-- A turn in `queue_pop` sleeps or takes a descriptor.  If it takes one, the
worker has its calls before it, and `main` may have been woken. -/
theorem work_afterPop (hw : s.workers w = .popping)
    (hMain : s.clientQueue.condNonfull.places .main ≤ 1)
    (hTurn : PopTurn s.clientQueue q (.worker w)) :
    (s.afterPop w q).threadWork < s.threadWork := by
  have hBefore : s.workerWork w = 1 := by
    rw [Server.workerWork, hw, hTurn.awake]
    rfl
  rcases hTurn.result with ⟨hIn, hSame, hNonfull, hSleeps⟩ |
    ⟨hOut, hSome, hDequeued, hWaiting⟩
  · have hAfter : s.afterPop w q = { s with clientQueue := q } := by
      rw [Server.afterPop, if_neg hIn]
    have hSelf : (s.afterPop w q).workerWork w = 0 := by
      rw [hAfter, Server.workerWork]
      show (s.workers w).work (q.condNonempty.waiting.count _) = 0
      rw [hw, hSleeps, Multiset.count_add, Multiset.count_singleton_self]
      exact Nat.sub_eq_zero_of_le (Nat.le_add_left _ _)
    have hOthers : ∀ w', w' ≠ w →
        (s.afterPop w q).workerWork w' = s.workerWork w' := by
      intro w' hw'
      rw [hAfter, Server.workerWork, Server.workerWork]
      show (s.workers w').work (q.condNonempty.waiting.count _) = _
      rw [hSleeps, Multiset.count_add, Multiset.count_singleton,
        if_neg (by simpa using hw'), Nat.add_zero]
    have hSum := sum_add_of_others (Finset.mem_univ w) hOthers
    have hMainWork : (s.afterPop w q).mainWork = s.mainWork := by
      rw [hAfter, Server.mainWork]
      show s.main.work _ (q.condNonfull.waiting.count _) = _
      rw [hNonfull]
      rfl
    have hCount : (s.afterPop w q).clientQueue.q.count =
        s.clientQueue.q.count := by
      rw [clientQueue_afterPop, hSame]
    simp only [Server.threadWork, hMainWork, hCount]
    omega
  · have hAfter : s.afterPop w q = { s with
        clientQueue := q
        workers := Function.update s.workers w
          (popped s.clientQueue.q.dequeue.1)
        started := s.started ++
          (s.descriptors.table s.clientQueue.q.dequeue.1).toList } := by
      rw [Server.afterPop, if_pos hOut]
    have hSelf : (s.afterPop w q).workerWork w ≤ 3 := WorkerAt.work_le _ _
    have hOthers : ∀ w', w' ≠ w →
        (s.afterPop w q).workerWork w' = s.workerWork w' := by
      intro w' hw'
      rw [hAfter, Server.workerWork, Server.workerWork]
      show (Function.update s.workers w _ w').work
        (q.condNonempty.waiting.count _) = _
      rw [Function.update_of_ne hw', hWaiting]
    have hSum := sum_add_of_others (Finset.mem_univ w) hOthers
    have hMainWork : (s.afterPop w q).mainWork ≤ s.mainWork + 1 := by
      have hLe : s.clientQueue.condNonfull.waiting.count .main ≤ 1 :=
        le_trans (Nat.le_add_right _ _) hMain
      rw [Server.mainWork, main_afterPop]
      exact MainAt.work_le_succ _ _ hLe _
    have hCount : (s.afterPop w q).clientQueue.q.count + 1 =
        s.clientQueue.q.count := by
      rw [clientQueue_afterPop, hDequeued]
      exact Nat.sub_add_cancel (Nat.pos_of_ne_zero hSome)
    simp only [Server.threadWork]
    omega

/-- `send` and `close` lead a worker back to `queue_pop`, one call at a
time. -/
theorem work_handles {a : WorkerAt} (hQueue : next.clientQueue =
      s.clientQueue) (hMain : next.main = s.main)
    (hWorkers : next.workers = Function.update s.workers w a)
    (hLess : ∀ n, a.work n < (s.workers w).work n) :
    next.threadWork < s.threadWork := by
  have hSelf : next.workerWork w < s.workerWork w := by
    rw [Server.workerWork, hWorkers, hQueue, Function.update_self]
    exact hLess _
  have hOthers : ∀ w', w' ≠ w → next.workerWork w' = s.workerWork w' := by
    intro w' hw'
    rw [Server.workerWork, hWorkers, hQueue, Function.update_of_ne hw']
    rfl
  have hSum := sum_add_of_others (Finset.mem_univ w) hOthers
  have hMainWork : next.mainWork = s.mainWork := by
    rw [Server.mainWork, hQueue, hMain]
    rfl
  simp only [Server.threadWork, hMainWork, hQueue]
  omega

/-- Every quiet step lowers the work that is left, so there are only so many
until somebody connects. -/
theorem quiet_descends (hcap : 0 < capacity) :
    (quietMachine W capacity).Descends (Inv capacity) Server.work := by
  intro s a next hI hStep
  obtain ⟨hQuiet, h⟩ := Machine.only_step_eq_some _ hStep
  refine ⟨step_inv hcap hI h, ?_⟩
  have hWake := BoundedQueue.reachable_wakeInv hI.queue
  have hMainPlaces : s.clientQueue.condNonfull.places .main ≤ 1 :=
    le_trans (Nat.le_add_left _ _) (hWake.places .main)
  obtain ⟨hAlive, h⟩ := step_eq_some h
  cases a with
  | accept _ | acceptFails | spuriousNonfull _ | spuriousNonempty _ =>
      contradiction
  | push chosen =>
      simp only [Server.call] at h
      split at h
      · contradiction
      · rename_i fd hMain
        obtain ⟨q, hq, rfl⟩ := Option.map_eq_some_iff.mp h
        exact Server.work_lt rfl <|
          work_afterPush hMain (BoundedQueue.push_turn hq)
  | pushResume chosen =>
      simp only [Server.call] at h
      split at h
      · contradiction
      · rename_i fd hMain
        obtain ⟨q, hq, rfl⟩ := Option.map_eq_some_iff.mp h
        have hTurn := BoundedQueue.pushResume_turn hWake hq
        rw [hI.stands.mainArg fd hMain (pushResume_inside hq)] at hTurn
        exact Server.work_lt rfl <| work_afterPush hMain hTurn
  | pop w chosen =>
      simp only [Server.call] at h
      split at h
      · rename_i hw
        obtain ⟨q, hq, rfl⟩ := Option.map_eq_some_iff.mp h
        exact Server.work_lt (killed_afterPop s w q) <|
          work_afterPop hw hMainPlaces (BoundedQueue.pop_turn hq)
      · contradiction
  | popResume w chosen =>
      simp only [Server.call] at h
      split at h
      · rename_i hw
        obtain ⟨q, hq, rfl⟩ := Option.map_eq_some_iff.mp h
        exact Server.work_lt (killed_afterPop s w q) <|
          work_afterPop hw hMainPlaces (BoundedQueue.popResume_turn hWake hq)
      · contradiction
  | send w =>
      simp only [Server.call] at h
      split at h
      · rename_i fd hw
        obtain rfl := Option.some.inj h
        refine Server.work_lt rfl <|
          work_handles rfl rfl rfl (w := w) fun n => ?_
        rw [hw]
        exact Nat.lt_succ_self _
      · contradiction
  | sigpipe w =>
      simp only [Server.call] at h
      split at h
      · obtain rfl := Option.some.inj h
        show s.threadWork + 0 < s.threadWork + (!s.killed).toNat
        rw [hAlive]
        exact Nat.lt_succ_self _
      · contradiction
  | close w =>
      simp only [Server.call] at h
      split at h
      · rename_i fd hw
        obtain rfl := Option.some.inj h
        refine Server.work_lt rfl <|
          work_handles rfl rfl rfl (w := w) fun n => ?_
        rw [hw]
        exact Nat.lt_succ_of_le (Nat.sub_le _ _)
      · contradiction

end Work

/-! ## When nothing can be done -/

section Settled

variable (hAlive : s.killed = false)
  (hSettled : (quietMachine W capacity).Settled s)

include hAlive hSettled

theorem settled_step {a : Label W} (ha : a.quiet = true) :
    s.call a = none := by
  rw [← step_of_alive hAlive]
  exact (if_pos ha).symm.trans (hSettled a)

/-- No worker is in `handle_client`, since its calls do not wait. -/
theorem settled_workers (w : W) : s.workers w = .popping := by
  cases hw : s.workers w with
  | popping => rfl
  | sending fd =>
      have hNone := settled_step hAlive hSettled (a := .send w) rfl
      simp [Server.call, hw] at hNone
  | closing fd =>
      have hNone := settled_step hAlive hSettled (a := .close w) rfl
      simp [Server.call, hw] at hNone

/-- No worker has returned from its wait, since it could take its turn. -/
theorem settled_notMem_woken (w : W) :
    Thread.worker w ∉ s.clientQueue.condNonempty.woken := by
  intro hMem
  obtain ⟨chosen, q, hq⟩ := BoundedQueue.exists_popResume hMem
  have hNone := settled_step hAlive hSettled (a := .popResume w chosen) rfl
  simp [Server.call, settled_workers hAlive hSettled w, hq] at hNone

theorem settled_count [Nonempty W] (hI : Inv capacity s) :
    s.clientQueue.q.count = 0 := by
  by_contra hCount
  obtain ⟨w⟩ := ‹Nonempty W›
  have hw := settled_workers hAlive hSettled w
  have hIn : ¬s.clientQueue.Outside (.worker w) := by
    intro hOut
    obtain ⟨chosen, q, hq⟩ := BoundedQueue.exists_pop hOut
    have hNone := settled_step hAlive hSettled (a := .pop w chosen) rfl
    simp [Server.call, hw, hq] at hNone
  have hPlaces : s.clientQueue.condNonempty.places (.worker w) ≠ 0 := by
    intro hZero
    apply hIn
    show _ + _ = 0
    rw [hZero, hI.stands.workerNonfull]
  have hAsleep : s.clientQueue.condNonempty.waiting ≠ 0 := by
    intro hZero
    apply hPlaces
    rw [CondVar.places, hZero, Multiset.count_zero, Nat.zero_add,
      Multiset.count_eq_zero]
    exact settled_notMem_woken hAlive hSettled w
  have hWake := BoundedQueue.reachable_wakeInv hI.queue
  obtain ⟨t, ht⟩ := hWake.nonempty.exists_woken
    (Nat.pos_of_ne_zero hCount) hAsleep
  cases t with
  | main =>
      have hMain := hI.stands.mainNonempty
      have hPos := Multiset.count_pos.mpr ht
      rw [CondVar.places] at hMain
      omega
  | worker w' => exact settled_notMem_woken hAlive hSettled w' ht

theorem settled_main [Nonempty W] (hcap : 0 < capacity)
    (hI : Inv capacity s) : s.main = .accepting := by
  cases hMain : s.main with
  | accepting => rfl
  | pushing fd =>
      exfalso
      have hIn : ¬s.clientQueue.Outside .main := by
        intro hOut
        obtain ⟨chosen, q, hq⟩ := BoundedQueue.exists_push hOut fd
        have hNone := settled_step hAlive hSettled (a := .push chosen) rfl
        simp [Server.call, hMain, hq] at hNone
      have hNotWoken : Thread.main ∉ s.clientQueue.condNonfull.woken := by
        intro hMem
        obtain ⟨chosen, q, hq⟩ := BoundedQueue.exists_pushResume hMem
        have hNone := settled_step hAlive hSettled (a := .pushResume chosen) rfl
        simp [Server.call, hMain, hq] at hNone
      have hAsleep : s.clientQueue.condNonfull.waiting ≠ 0 := by
        intro hZero
        apply hIn
        show _ + _ = 0
        rw [hI.stands.mainNonempty, CondVar.places, hZero,
          Multiset.count_zero, Multiset.count_eq_zero.mpr hNotWoken]
      have hWake := BoundedQueue.reachable_wakeInv hI.queue
      have hRoom : 0 < capacity - s.clientQueue.q.count := by
        rw [settled_count hAlive hSettled hI]
        exact hcap
      obtain ⟨t, ht⟩ := hWake.nonfull.exists_woken hRoom hAsleep
      cases t with
      | main => exact hNotWoken ht
      | worker w =>
          have hPlaces := hI.stands.workerNonfull w
          have hPos := Multiset.count_pos.mpr ht
          rw [CondVar.places] at hPlaces
          omega

/-- The server has closed all connections and is back in `accept`.  If all
workers sleep, the ring is empty, because no signal is lost; and then `main` is
not in `queue_push` either. -/
theorem settled_served [Nonempty W] (hcap : 0 < capacity)
    (hI : Inv capacity s) {c : Nat} (hc : c < s.descriptors.accepted) :
    c ∈ s.sent ∧ c ∈ s.descriptors.closed := by
  have hWaiting : s.waiting = [] := by
    rw [Server.waiting, settled_main hAlive hSettled hcap hI,
      BoundedQueue.SocketQueue.contents, settled_count hAlive hSettled hI]
    rfl
  rcases Descriptors.open_or_closed hc with ⟨fd, hfd⟩ | hClosed
  · obtain ⟨p, hp⟩ := hI.serves.custody.held fd ⟨c, hfd⟩
    cases p with
    | none =>
        have hMem : fd ∈ s.waiting := hp
        rw [hWaiting] at hMem
        contradiction
    | some w =>
        have hw : (s.workers w).Handles fd := hp
        rw [settled_workers hAlive hSettled w] at hw
        exact absurd hw (not_handles_popping fd)
  · exact ⟨(hI.serves.sent_iff c).mpr (.inl hClosed), hClosed⟩

end Settled

theorem quiet_step_accepted {a : Label W} (ha : a.quiet = true)
    (h : step s a = some next) :
    next.descriptors.accepted = s.descriptors.accepted := by
  replace h := (step_eq_some h).2
  cases a with
  | accept _ | acceptFails | spuriousNonfull _ | spuriousNonempty _ =>
      contradiction
  | push chosen =>
      simp only [Server.call] at h
      split at h
      · contradiction
      · obtain ⟨q, -, rfl⟩ := Option.map_eq_some_iff.mp h
        rfl
  | pushResume chosen =>
      simp only [Server.call] at h
      split at h
      · contradiction
      · obtain ⟨q, -, rfl⟩ := Option.map_eq_some_iff.mp h
        rfl
  | pop w chosen =>
      simp only [Server.call] at h
      split at h
      · obtain ⟨q, -, rfl⟩ := Option.map_eq_some_iff.mp h
        rw [descriptors_afterPop]
      · contradiction
  | popResume w chosen =>
      simp only [Server.call] at h
      split at h
      · obtain ⟨q, -, rfl⟩ := Option.map_eq_some_iff.mp h
        rw [descriptors_afterPop]
      · contradiction
  | send w =>
      simp only [Server.call] at h
      split at h
      · obtain rfl := Option.some.inj h
        rfl
      · contradiction
  | sigpipe w =>
      simp only [Server.call] at h
      split at h
      · obtain rfl := Option.some.inj h
        rfl
      · contradiction
  | close w =>
      simp only [Server.call] at h
      split at h
      · obtain rfl := Option.some.inj h
        rfl
      · contradiction

/-- Quiet steps accept nothing. -/
theorem quiet_accepted {last : Server W} {as : List (Label W)}
    (hRun : (quietMachine W capacity).run s as = some last) :
    last.descriptors.accepted = s.descriptors.accepted := by
  induction as generalizing s with
  | nil =>
      obtain rfl : s = last := Option.some.inj hRun
      rfl
  | cons a as ih =>
      obtain ⟨next, hStep, hRest⟩ := Machine.run_cons_eq_some hRun
      obtain ⟨hQuiet, h⟩ := Machine.only_step_eq_some _ hStep
      rw [ih hRest]
      change step s a = some next at h
      exact quiet_step_accepted hQuiet h

/-- Only `SIGPIPE` kills the server. -/
theorem killed_step {a : Label W} (h : step s a = some next)
    (hKilled : next.killed = true) : ∃ w, a = .sigpipe w := by
  obtain ⟨hAlive, h⟩ := step_eq_some h
  have hKept : next.killed = s.killed → ∃ w, a = .sigpipe w := by
    intro hSame
    rw [hSame, hAlive] at hKilled
    contradiction
  cases a with
  | sigpipe w => exact ⟨w, rfl⟩
  | accept fd =>
      obtain ⟨-, h⟩ := Option.ite_none_right_eq_some.mp h
      obtain ⟨d, -, rfl⟩ := Option.map_eq_some_iff.mp h
      exact hKept rfl
  | acceptFails =>
      obtain ⟨-, h⟩ := Option.ite_none_right_eq_some.mp h
      exact hKept (Option.some.inj h ▸ rfl)
  | push chosen | pushResume chosen =>
      simp only [Server.call] at h
      split at h
      · contradiction
      · obtain ⟨q, -, rfl⟩ := Option.map_eq_some_iff.mp h
        exact hKept rfl
  | pop w chosen | popResume w chosen =>
      obtain ⟨-, h⟩ := Option.ite_none_right_eq_some.mp h
      obtain ⟨q, -, rfl⟩ := Option.map_eq_some_iff.mp h
      exact hKept (killed_afterPop s w q)
  | send w | close w =>
      simp only [Server.call] at h
      split at h
      · exact hKept (Option.some.inj h ▸ rfl)
      · contradiction
  | spuriousNonfull t | spuriousNonempty t =>
      obtain ⟨q, -, rfl⟩ := Option.map_eq_some_iff.mp h
      exact hKept rfl

theorem quiet_killed {last : Server W} {as : List (Label W)}
    (hRun : (quietMachine W capacity).run s as = some last)
    (hKilled : last.killed = true) :
    s.killed = true ∨ ∃ w, .sigpipe w ∈ as := by
  induction as generalizing s with
  | nil =>
      obtain rfl : s = last := Option.some.inj hRun
      exact .inl hKilled
  | cons a as ih =>
      obtain ⟨next, hStep, hRest⟩ := Machine.run_cons_eq_some hRun
      obtain ⟨-, h⟩ := Machine.only_step_eq_some _ hStep
      rcases ih hRest with hNow | ⟨w, hw⟩
      · obtain ⟨w, rfl⟩ := killed_step h hNow
        exact .inr ⟨w, List.mem_cons_self⟩
      · exact .inr ⟨w, List.mem_cons_of_mem a hw⟩

/-- **Every accepted client is served.**  From any reachable state, however
the threads are scheduled, they make at most `work` steps before a client is
accepted or a thread wakes spuriously; they can always go on until nothing is
left to do; and then every client accepted has been sent the time and its
connection closed, unless the process has been killed.  It is only killed by
a `send` that ends in `SIGPIPE`. -/
theorem accepted_clients_served [Fintype W] [Nonempty W]
    (hcap : 0 < capacity) (h : (serverMachine W capacity).Reachable s)
    {as : List (Label W)} {last : Server W}
    (hRun : (quietMachine W capacity).run s as = some last) :
    as.length ≤ s.work ∧
    (∃ more last', (quietMachine W capacity).run last more = some last' ∧
      (quietMachine W capacity).Settled last') ∧
    ((quietMachine W capacity).Settled last → last.killed = true ∨
      ∀ c < s.descriptors.accepted,
        c ∈ last.sent ∧ c ∈ last.descriptors.closed) ∧
    (last.killed = true → s.killed = true ∨ ∃ w, .sigpipe w ∈ as) := by
  have hDescends := quiet_descends (W := W) hcap
  obtain ⟨hLast, hLength⟩ :=
    hDescends.run_length_le (reachable_inv hcap h) hRun
  refine ⟨by omega, hDescends.exists_settled hLast, ?_, quiet_killed hRun⟩
  intro hSettled
  cases hKilled : last.killed with
  | true => exact .inl rfl
  | false =>
      right
      intro c hc
      rw [← quiet_accepted hRun] at hc
      exact settled_served hKilled hSettled hcap hLast hc

/-- One client and one worker, which sleeps at the end. -/
theorem accepted_clients_served_one : ∃ s last : Server (Fin 1),
    (serverMachine (Fin 1) 1).Reachable s ∧ s.descriptors.accepted = 1 ∧
      (quietMachine (Fin 1) 1).run s
        [.push 0, .pop 0 0, .send 0, .close 0] = some last ∧
      last.killed = false ∧
      ∃ more last', (quietMachine (Fin 1) 1).run last more = some last' ∧
        (quietMachine (Fin 1) 1).Settled last' := by
  have hrun := Machine.reachable_of_run (m := serverMachine (Fin 1) 1)
    (s := ⟨⟨BoundedQueue.queueInit (fun _ => 0) 1, .empty, .empty,
      fun _ => 0, [], []⟩, .empty, .accepting, fun _ => .popping, [], [],
      false⟩)
    ⟨_, ⟨fun _ => 0, fun _ => 0, rfl⟩, rfl⟩
    (show _ = some _ from rfl : (serverMachine (Fin 1) 1).run _ [.accept 7] = _)
  obtain ⟨-, hMore, -⟩ := accepted_clients_served (by decide) hrun
    (show _ = some _ from rfl : (quietMachine (Fin 1) 1).run _
      [.push 0, .pop 0 0, .send 0, .close 0] = _)
  exact ⟨_, _, hrun, rfl, rfl, rfl, hMore⟩

end UnixHomework.Ports.ThreadPool
