import UnixHomework.Verified.CondVar
import UnixHomework.Verified.Machine
import UnixHomework.Verified.Ring

/-!
# The bounded queue of the thread-pool server

`socket_queue_t` of the consumer-producer server: a circular array of client
descriptors guarded by one mutex, with a condition variable for each way of
blocking.  The main thread pushes accepted sockets, the workers pop them.

A stretch of code between acquiring the mutex and releasing it is one atomic
step, whether the release is `pthread_mutex_unlock` or the one inside
`pthread_cond_wait`.  A call therefore starts with a stretch of its own
(`push`, `pop`) and, each time it has waited, continues with another one that
tests the loop condition again (`pushResume`, `popResume`).  Threads are
drawn from an arbitrary type, and nothing decides which of them pushes and
which pops.
-/

namespace UnixHomework.Ports.BoundedQueue

open UnixHomework.Verified
open UnixHomework.Verified.Ring

/-- `socket_queue_t` without its mutex, which the step granularity models,
and its condition variables, which are kept in `State`. -/
structure SocketQueue where
  /-- The ring, of which only indices below `capacity` are used. -/
  data : Nat → Int
  capacity : Nat
  /-- Where the next descriptor is taken from, -/
  front : Nat
  /-- and where the next one is stored. -/
  rear : Nat
  /-- How many descriptors are in the ring. -/
  count : Nat

/-- `queue_init`; `data` is what `malloc` returned. -/
def queueInit (data : Nat → Int) (capacity : Nat) : SocketQueue where
  data := data
  capacity := capacity
  front := 0
  rear := 0
  count := 0

/-- The assignments of `queue_push` after its wait loop. -/
def SocketQueue.enqueue (q : SocketQueue) (clientSock : Int) : SocketQueue :=
  { q with
    data := put q.data q.rear clientSock
    rear := (q.rear + 1) % q.capacity
    count := q.count + 1 }

/-- The assignments of `queue_pop` after its wait loop. -/
def SocketQueue.dequeue (q : SocketQueue) : Int × SocketQueue :=
  (q.data q.front,
    { q with
      front := (q.front + 1) % q.capacity
      count := q.count - 1 })

/-- The descriptors in the queue, oldest first. -/
def SocketQueue.contents (q : SocketQueue) : List Int :=
  Ring.contents q.data q.capacity q.front q.count

/-- The queue with its condition variables, its callers and its history. -/
structure State (Tid : Type*) where
  q : SocketQueue
  /-- Where `queue_pop` waits for a descriptor, -/
  condNonempty : CondVar Tid
  /-- and `queue_push` for room. -/
  condNonfull : CondVar Tid
  /-- The argument of every `queue_push` in progress. -/
  clientSock : Tid → Int
  /-- All descriptors that were ever pushed, in order, -/
  pushed : List Int
  /-- and all that were ever popped. -/
  popped : List Int

/-- One stretch under the mutex, or a spurious wake-up.  `chosen` is the set
of sleepers that the stretch's `pthread_cond_signal` wakes. -/
inductive Label (Tid : Type*) where
  | push (t : Tid) (clientSock : Int) (chosen : Multiset Tid)
  | pushResume (t : Tid) (chosen : Multiset Tid)
  | pop (t : Tid) (chosen : Multiset Tid)
  | popResume (t : Tid) (chosen : Multiset Tid)
  | spuriousNonfull (t : Tid)
  | spuriousNonempty (t : Tid)

variable {Tid : Type*} [DecidableEq Tid]

/-- The thread is inside neither `queue_push` nor `queue_pop`. -/
def State.Outside (s : State Tid) (t : Tid) : Prop :=
  s.condNonempty.places t + s.condNonfull.places t = 0

instance (s : State Tid) (t : Tid) : Decidable (s.Outside t) := by
  unfold State.Outside
  infer_instance

/-- `queue_push` from the test of its wait loop to the release of the
mutex. -/
def pushStretch (s : State Tid) (t : Tid) (chosen : Multiset Tid) :
    Option (State Tid) :=
  if s.q.count = s.q.capacity then
    some { s with condNonfull := s.condNonfull.wait t }
  else
    (s.condNonempty.signal chosen).map fun signalled =>
      { s with
        q := s.q.enqueue (s.clientSock t)
        condNonempty := signalled
        pushed := s.pushed ++ [s.clientSock t] }

/-- `queue_pop` from the test of its wait loop to the release of the mutex. -/
def popStretch (s : State Tid) (t : Tid) (chosen : Multiset Tid) :
    Option (State Tid) :=
  if s.q.count = 0 then
    some { s with condNonempty := s.condNonempty.wait t }
  else
    (s.condNonfull.signal chosen).map fun signalled =>
      { s with
        q := s.q.dequeue.2
        condNonfull := signalled
        popped := s.popped ++ [s.q.dequeue.1] }

/-- One stretch of a thread, from acquiring the mutex to releasing it.  `none`
means that the thread cannot have this stretch now: a call starts in a thread
that is in no other one, and a wait goes on in a thread that has been woken.  A
spurious wake-up moves a sleeper to the woken ones without a signal; it tests
its condition again when it gets the mutex.  The scheduler is in the order of
the labels, and so is the choice of the kernel whom a signal wakes. -/
def step (s : State Tid) : Label Tid → Option (State Tid)
  | .push t clientSock chosen =>
      if s.Outside t then
        pushStretch
          { s with clientSock := Function.update s.clientSock t clientSock }
          t chosen
      else none
  | .pushResume t chosen =>
      (s.condNonfull.resume t).bind fun c =>
        pushStretch { s with condNonfull := c } t chosen
  | .pop t chosen => if s.Outside t then popStretch s t chosen else none
  | .popResume t chosen =>
      (s.condNonempty.resume t).bind fun c =>
        popStretch { s with condNonempty := c } t chosen
  | .spuriousNonfull t =>
      (s.condNonfull.wakeSpurious t).map fun c => { s with condNonfull := c }
  | .spuriousNonempty t =>
      (s.condNonempty.wakeSpurious t).map fun c => { s with condNonempty := c }

/-- The queue of a given capacity under any threads. -/
def queueMachine (Tid : Type*) [DecidableEq Tid] (capacity : Nat) :
    Machine (State Tid) (Label Tid) where
  init s :=
    ∃ data clientSock,
      s = ⟨queueInit data capacity, .empty, .empty, clientSock, [], []⟩
  step := step

end UnixHomework.Ports.BoundedQueue
