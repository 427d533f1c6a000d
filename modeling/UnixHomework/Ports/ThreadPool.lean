import UnixHomework.Ports.BoundedQueueTurns
import UnixHomework.Verified.Custody
import UnixHomework.Verified.Descriptors

/-!
# The thread-pool server

The whole consumer-producer server: `main` accepts connections and pushes
their descriptors into the bounded queue, the workers pop them, send the time
and close them.  The kernel uses the numbers of closed descriptors again, so
that a connection is known by its place in the order of `accept`.

A call of `send` or `close` is one step, and the stretches of the queue are
those of `BoundedQueue`.  What is sent is the time of day; recorded is for
which connection `send` is called.

The server leaves `SIGPIPE` as it is, and its `send` does not suppress it.  A
`send` to a client that has reset its connection may therefore kill the whole
process with all its workers; `killed` says that this has happened, and then
there are no more steps.  A `send` that only returns an error looks like any
other one, since the server ignores its result.

`Inv` is the invariant that everything else is read off.
-/

namespace UnixHomework.Ports.ThreadPool

open UnixHomework.Verified
open UnixHomework.Ports

inductive Thread (W : Type*) where
  | main
  | worker (w : W)
deriving DecidableEq

/-- The loop of `main`: in `accept`, or inside `queue_push`. -/
inductive MainAt where
  | accepting
  | pushing (clientSock : Int)
deriving DecidableEq

/-- The loop of `worker_thread`: in `queue_pop`, or in `handle_client` before
its `send` or its `close`. -/
inductive WorkerAt where
  | popping
  | sending (clientSock : Int)
  | closing (clientSock : Int)
deriving DecidableEq

/-- The descriptors a thread in `queue_push` has taken from `accept`. -/
def MainAt.pending : MainAt → List Int
  | .accepting => []
  | .pushing fd => [fd]

/-- The server, the kernel's descriptors, and what has become of the
clients. -/
structure Server (W : Type*) where
  /-- `client_queue`, with the threads that wait at it. -/
  clientQueue : BoundedQueue.State (Thread W)
  descriptors : Descriptors
  /-- Where `main` stands, -/
  main : MainAt
  /-- and where each worker does. -/
  workers : W → WorkerAt
  /-- The connections that have been popped, in order. -/
  started : List Nat
  /-- Those for which `send` has been called. -/
  sent : List Nat
  /-- `SIGPIPE` has killed the process. -/
  killed : Bool

/-- The next call of a thread, with what the kernel chooses: the descriptor
that `accept` returns, and the threads that a signal of the queue wakes.  A
`send` of a worker may also end in `sigpipe`. -/
inductive Label (W : Type*) where
  | accept (fd : Int)
  | acceptFails
  | push (chosen : Multiset (Thread W))
  | pushResume (chosen : Multiset (Thread W))
  | pop (w : W) (chosen : Multiset (Thread W))
  | popResume (w : W) (chosen : Multiset (Thread W))
  | send (w : W)
  | sigpipe (w : W)
  | close (w : W)
  | spuriousNonfull (t : Thread W)
  | spuriousNonempty (t : Thread W)

variable {W : Type*} [DecidableEq W]

/-- After a turn in `queue_push`: the call has returned unless it waits. -/
def Server.afterPush (s : Server W) (q : BoundedQueue.State (Thread W)) :
    Server W :=
  { s with
    clientQueue := q
    main := if q.Outside .main then .accepting else s.main }

/-- The worker after `queue_pop` has returned `clientSock`. -/
def popped (clientSock : Int) : WorkerAt :=
  if 0 ≤ clientSock then .sending clientSock else .popping

/-- After a turn in `queue_pop`: unless the call waits, it has returned the
descriptor at the front. -/
def Server.afterPop (s : Server W) (w : W)
    (q : BoundedQueue.State (Thread W)) : Server W :=
  if q.Outside (.worker w) then
    { s with
      clientQueue := q
      workers := Function.update s.workers w
        (popped s.clientQueue.q.dequeue.1)
      started := s.started ++
        (s.descriptors.table s.clientQueue.q.dequeue.1).toList }
  else { s with clientQueue := q }

/-- The call that a label stands for, by `main` or by a worker. -/
def Server.call (s : Server W) : Label W → Option (Server W)
  | .accept fd =>
      if s.main = .accepting then
        (s.descriptors.accept? fd).map fun d =>
          { s with descriptors := d, main := .pushing fd }
      else none
  | .acceptFails => if s.main = .accepting then some s else none
  | .push chosen =>
      match s.main with
      | .accepting => none
      | .pushing fd =>
          (BoundedQueue.step s.clientQueue (.push .main fd chosen)).map
            s.afterPush
  | .pushResume chosen =>
      match s.main with
      | .accepting => none
      | .pushing _ =>
          (BoundedQueue.step s.clientQueue (.pushResume .main chosen)).map
            s.afterPush
  | .pop w chosen =>
      if s.workers w = .popping then
        (BoundedQueue.step s.clientQueue (.pop (.worker w) chosen)).map
          (s.afterPop w)
      else none
  | .popResume w chosen =>
      if s.workers w = .popping then
        (BoundedQueue.step s.clientQueue (.popResume (.worker w) chosen)).map
          (s.afterPop w)
      else none
  | .send w =>
      match s.workers w with
      | .sending fd => some { s with
          workers := Function.update s.workers w (.closing fd)
          sent := s.sent ++ (s.descriptors.table fd).toList }
      | _ => none
  | .sigpipe w =>
      match s.workers w with
      | .sending _ => some { s with killed := true }
      | _ => none
  | .close w =>
      match s.workers w with
      | .closing fd => some { s with
          workers := Function.update s.workers w .popping
          descriptors := s.descriptors.close fd }
      | _ => none
  | .spuriousNonfull t =>
      (BoundedQueue.step s.clientQueue (.spuriousNonfull t)).map fun q =>
        { s with clientQueue := q }
  | .spuriousNonempty t =>
      (BoundedQueue.step s.clientQueue (.spuriousNonempty t)).map fun q =>
        { s with clientQueue := q }

/-- A step of the server: while the process lives, a stretch of `queue_push`
in `main`, a stretch of `queue_pop` in a worker, or a call beside them.  The
queue steps as `BoundedQueue.step` says, so its results are used here as they
stand: a thread that sleeps in the queue stays where it is in its loop, and
goes on when its call returns. -/
def step (s : Server W) (a : Label W) : Option (Server W) :=
  if s.killed then none else s.call a

theorem step_eq_some {s next : Server W} {a : Label W}
    (h : step s a = some next) : s.killed = false ∧ s.call a = some next := by
  rcases Option.ite_none_left_eq_some.mp h with ⟨hAlive, hCall⟩
  exact ⟨eq_false_of_ne_true hAlive, hCall⟩

theorem step_of_alive {s : Server W} (h : s.killed = false) (a : Label W) :
    step s a = s.call a :=
  if_neg (by rw [h]; exact Bool.false_ne_true)

/-- The server after `queue_init` and the creation of its workers. -/
def serverMachine (W : Type*) [DecidableEq W] (capacity : Nat) :
    Machine (Server W) (Label W) where
  init s := ∃ q, (BoundedQueue.queueMachine (Thread W) capacity).init q ∧
    s = ⟨q, .empty, .accepting, fun _ => .popping, [], [], false⟩
  step := step

/-! ## Who holds a descriptor -/

/-- Descriptors accepted and not yet popped, oldest first. -/
def Server.waiting (s : Server W) : List Int :=
  s.clientQueue.q.contents ++ s.main.pending

/-- The worker is in `handle_client` with this descriptor. -/
def WorkerAt.Handles (a : WorkerAt) (fd : Int) : Prop :=
  a = .sending fd ∨ a = .closing fd

/-- A descriptor waits in line, or a worker handles it. -/
def Server.holds (s : Server W) : Option W → Int → Prop
  | none, fd => fd ∈ s.waiting
  | some w, fd => (s.workers w).Handles fd

@[simp] theorem not_handles_popping (fd : Int) :
    ¬WorkerAt.popping.Handles fd := by
  simp [WorkerAt.Handles]

@[simp] theorem handles_sending (fd x : Int) :
    (WorkerAt.sending fd).Handles x ↔ x = fd := by
  simp [WorkerAt.Handles, eq_comm]

@[simp] theorem handles_closing (fd x : Int) :
    (WorkerAt.closing fd).Handles x ↔ x = fd := by
  simp [WorkerAt.Handles, eq_comm]

/-- Where the threads stand at the condition variables: `main` waits for room
only, the workers wait for descriptors only, and a thread that is not in a
call waits for nothing. -/
structure Stands (s : Server W) : Prop where
  /-- `main` never waits for a descriptor, -/
  mainNonempty : s.clientQueue.condNonempty.places .main = 0
  /-- and no worker waits for room. -/
  workerNonfull : ∀ w, s.clientQueue.condNonfull.places (.worker w) = 0
  /-- In `accept`, `main` is in no call of the queue; -/
  mainOut : s.main = .accepting → s.clientQueue.Outside .main
  /-- in `queue_push`, its argument is the descriptor that it has accepted. -/
  mainArg : ∀ fd, s.main = .pushing fd → ¬s.clientQueue.Outside .main →
    s.clientQueue.clientSock .main = fd
  /-- A worker in `handle_client` is in no call of the queue. -/
  workerOut : ∀ w, s.workers w ≠ .popping →
    s.clientQueue.Outside (.worker w)

/-- The connections in line are the last ones accepted, in order; those
before them have been popped, in order, and those that were sent the time are
closed or about to be.  Nothing has been closed that was not open. -/
structure Serves (s : Server W) : Prop where
  /-- Each open descriptor has one holder. -/
  custody : Custody s.descriptors.Open s.holds
  /-- The connections in line are the next ones, in order, -/
  line : s.waiting.map s.descriptors.table =
    (List.range' s.started.length s.waiting.length).map some
  /-- and there are no others. -/
  total : s.descriptors.accepted = s.started.length + s.waiting.length
  /-- Those popped are the first ones accepted. -/
  started : s.started = List.range s.started.length
  /-- None has been sent the time twice, -/
  sentOnce : s.sent.Nodup
  /-- and those that were sent it are closed, or about to be. -/
  sent_iff : ∀ c, c ∈ s.sent ↔ c ∈ s.descriptors.closed ∨
    ∃ w fd, s.workers w = .closing fd ∧ s.descriptors.table fd = some c
  /-- Nothing has been closed that was not open. -/
  strays : s.descriptors.strays = []

/-- The invariant of the server.  What the queue itself keeps is taken over
from `BoundedQueue` by reachability; `stands` ties the threads' places in their
loops to the queue's condition variables, without which a thread woken in the
queue could not be said to return to the right place; and `serves` follows the
descriptors from `accept` to `close`. -/
structure Inv (capacity : Nat) (s : Server W) : Prop where
  queue : (BoundedQueue.queueMachine (Thread W) capacity).Reachable
    s.clientQueue
  stands : Stands s
  serves : Serves s

end UnixHomework.Ports.ThreadPool
