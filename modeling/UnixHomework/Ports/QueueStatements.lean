import UnixHomework.Ports.BoundedQueue

/-!
# The bounded queue, statement by statement

`queue_push` and `queue_pop` with a step for each statement: the mutex is a
variable that `pthread_mutex_lock` takes when it is free, and a thread between
locking and unlocking does not look at it.  `pthread_cond_wait` releases the
mutex, sleeps, and takes the mutex again once it has been woken.

Nothing here keeps two threads from changing the queue at the same time, except
what the statements do.
-/

namespace UnixHomework.Ports.QueueStatements

open UnixHomework.Verified
open UnixHomework.Ports.BoundedQueue (SocketQueue queueInit)

/-- `queue_push`, or `queue_pop`. -/
inductive Call where
  | push
  | pop
  deriving DecidableEq

/-- The call that changes the queue for this one. -/
def Call.other : Call → Call
  | .push => .pop
  | .pop => .push

/-- The condition of the wait loop. -/
def Call.Blocked (q : SocketQueue) : Call → Prop
  | .push => q.count = q.capacity
  | .pop => q.count = 0

instance (q : SocketQueue) (call : Call) : Decidable (call.Blocked q) := by
  cases call <;> unfold Call.Blocked <;> infer_instance

/-- The statements behind the wait loop: `data`, `rear` or `front`, `count`,
and `pthread_cond_signal`. -/
inductive Statement where
  | data
  | index
  | count
  | signal
  deriving DecidableEq

/-- Where a thread stands: before `pthread_mutex_lock`, at the test of the wait
loop (`again` if it has waited before), in `pthread_cond_wait`, at a statement
behind the loop, or before `pthread_mutex_unlock`. -/
inductive Place where
  /-- In no call. -/
  | outside
  /-- Before `pthread_mutex_lock`. -/
  | locking (call : Call)
  /-- At the test of the wait loop; `again` if it has waited before. -/
  | testing (call : Call) (again : Bool)
  /-- In `pthread_cond_wait`, -/
  | asleep (call : Call)
  /-- and woken there, without the mutex. -/
  | woken (call : Call)
  /-- At a statement behind the loop. -/
  | body (call : Call) (again : Bool) (statement : Statement)
  /-- Before `pthread_mutex_unlock`. -/
  | unlocking
  deriving DecidableEq

/-- The queue with its mutex and its callers. -/
structure State (Tid : Type*) where
  q : SocketQueue
  /-- The thread that has the mutex. -/
  mutex : Option Tid
  /-- Where each thread stands. -/
  place : Tid → Place
  /-- Those asleep in `cond_nonfull` and in `cond_nonempty`. -/
  sleepers : Call → Multiset Tid
  /-- The variable `client_sock` of each thread. -/
  clientSock : Tid → Int
  /-- The descriptors pushed -/
  pushed : List Int
  /-- and popped so far. -/
  popped : List Int

/-- A thread calls a function, or goes on with its next statement, or wakes
without a signal.  `chosen` are the sleepers that a signal wakes. -/
inductive Label (Tid : Type*) where
  | call (t : Tid) (call : Call) (clientSock : Int)
  | go (t : Tid) (chosen : Multiset Tid)
  | spurious (t : Tid)

/-- An assignment behind the wait loop: the queue and `client_sock`. -/
def assign (q : SocketQueue) (clientSock : Int) :
    Call → Statement → SocketQueue × Int
  | .push, .data => ({ q with data := Ring.put q.data q.rear clientSock },
      clientSock)
  | .push, .index => ({ q with rear := (q.rear + 1) % q.capacity }, clientSock)
  | .push, .count => ({ q with count := q.count + 1 }, clientSock)
  | .pop, .data => (q, q.data q.front)
  | .pop, .index => ({ q with front := (q.front + 1) % q.capacity }, clientSock)
  | .pop, .count => ({ q with count := q.count - 1 }, clientSock)
  | _, .signal => (q, clientSock)

def Statement.next : Statement → Statement
  | .data => .index
  | .index => .count
  | .count | .signal => .signal

variable {Tid : Type*} [DecidableEq Tid]

/-- A thread goes on. -/
def State.move (s : State Tid) (t : Tid) (place : Place) : State Tid :=
  { s with place := Function.update s.place t place }

/-- `pthread_mutex_lock`. -/
def State.lock (s : State Tid) (t : Tid) (place : Place) :
    Option (State Tid) :=
  if s.mutex = none then some { s.move t place with mutex := some t } else none

/-- `pthread_cond_wait` up to the moment when the thread sleeps. -/
def State.wait (s : State Tid) (t : Tid) (call : Call) : State Tid :=
  { s.move t (.asleep call) with
    mutex := none
    sleepers := Function.update s.sleepers call (s.sleepers call + {t}) }

/-- `pthread_cond_signal` for the other call, the last statement before
`pthread_mutex_unlock`. -/
def State.signal (s : State Tid) (t : Tid) (call : Call)
    (chosen : Multiset Tid) : Option (State Tid) :=
  let asleep := s.sleepers call.other
  if chosen ≤ asleep ∧ (asleep = 0 ∨ chosen ≠ 0) then some { s with
    sleepers := Function.update s.sleepers call.other (asleep - chosen)
    place := fun u => if u ∈ chosen then .woken call.other
      else if u = t then .unlocking else s.place u
    pushed := if call = .push then s.pushed ++ [s.clientSock t] else s.pushed
    popped := if call = .pop then s.popped ++ [s.clientSock t] else s.popped }
  else none

/-- The next statement of a thread. -/
def State.go (s : State Tid) (t : Tid) (chosen : Multiset Tid) :
    Option (State Tid) :=
  match s.place t with
  | .outside | .asleep _ => none
  | .locking call => s.lock t (.testing call false)
  | .woken call => s.lock t (.testing call true)
  | .testing call again =>
      if call.Blocked s.q then some (s.wait t call)
      else some (s.move t (.body call again .data))
  | .body call _ .signal => s.signal t call chosen
  | .body call again statement => some { s.move t
        (.body call again statement.next) with
      q := (assign s.q (s.clientSock t) call statement).1
      clientSock := Function.update s.clientSock t
        (assign s.q (s.clientSock t) call statement).2 }
  | .unlocking => some { s.move t .outside with mutex := none }

def step (s : State Tid) : Label Tid → Option (State Tid)
  | .call t call clientSock =>
      if s.place t = .outside then some { s.move t (.locking call) with
        clientSock := Function.update s.clientSock t clientSock }
      else none
  | .go t chosen => s.go t chosen
  | .spurious t =>
      match s.place t with
      | .asleep call => some { s.move t (.woken call) with
          sleepers := Function.update s.sleepers call
            ((s.sleepers call).erase t) }
      | _ => none

/-- The queue of a given capacity under any threads. -/
def statementMachine (Tid : Type*) [DecidableEq Tid] (capacity : Nat) :
    Machine (State Tid) (Label Tid) where
  init s := ∃ data clientSock, s =
    ⟨queueInit data capacity, none, fun _ => .outside, fun _ => 0, clientSock,
      [], []⟩
  step := step

end UnixHomework.Ports.QueueStatements
