import UnixHomework.Verified.CharArray
import UnixHomework.Verified.Traces
import Mathlib.Logic.Function.Basic

/-!
# The pre-forked server

The main process accepts clients and hands each to a worker process, over the
socket pair that `spawn_worker` has made for that worker.  A worker receives a
client's descriptor, serves the client, and reports with one status byte that
it is free again.  Whether a worker is free is known to the main process only
through its flag `busy`, which it sets after a hand-over and clears in the
sweep at the end of its loop.

The model is an interleaving of system calls.  Clients are numbered as they
arrive.  Socket pairs are numbered as they are made, one for each worker;
`comm_fd` is the number of the pair.  A read from a pair without a status byte
blocks (`none`), except that it may also fail when the worker has gone.
-/

namespace UnixHomework.Ports.PreFork

open UnixHomework.Verified

/-- `WORKER_MAX`. -/
def workerMax : Nat := 5

def initialWorkers : Nat := 2

/-- The status `'1'`. -/
def freeStatus : UInt8 := 49

/-- `worker_t`. -/
structure Worker where
  /-- The socket to the worker. -/
  commFd : Nat
  /-- A client has been sent to it, and it has not reported. -/
  busy : Bool

/-- Where a worker stands in `worker_loop`: in `recv_fd`, between receiving a
client and closing it, before the `write`, or past the end. -/
inductive ChildPhase where
  | receiving
  | serving (client : Nat)
  | reporting
  | exited
  deriving DecidableEq

/-- A worker process and its socket pair. -/
structure Child where
  /-- The argument of `spawn_worker`. -/
  index : Nat
  /-- Where the process stands. -/
  phase : ChildPhase
  /-- The descriptors under way to it, -/
  toWorker : List Nat
  /-- and its status bytes under way back. -/
  toMain : List UInt8

/-- A worker at its start. -/
def Child.new (index : Nat) : Child where
  index := index
  phase := .receiving
  toWorker := []
  toMain := []

/-- Where `main` stands.  `sent` is between the return of `send_fd` and the
setting of `busy`; `exited` follows a failed start. -/
inductive MainPhase where
  /-- Before the `spawn_worker` of an initial worker. -/
  | starting (i : Nat)
  /-- Before `accept`. -/
  | accepting
  /-- Before `find_free_worker`. -/
  | accepted (client : Nat)
  /-- Before the `spawn_worker` of one more. -/
  | spawning (client idx : Nat)
  /-- Before `send_fd`, -/
  | sending (client idx : Nat)
  /-- and before it sets `busy`. -/
  | sent (client idx : Nat)
  /-- At this worker, in the loop that reads reports. -/
  | sweeping (i : Nat)
  /-- A start has failed. -/
  | exited
  deriving DecidableEq

/-- All processes, and what has become of the clients. -/
structure State where
  main : MainPhase
  /-- The table, of which the first `worker_count` entries are used. -/
  workers : Nat → Worker
  workerCount : Nat
  /-- The processes, in the order of their creation. -/
  children : List Child
  /-- The clients that wait to be accepted. -/
  backlog : List Nat
  /-- How many have come so far. -/
  arrivals : Nat
  /-- Those that `main` has accepted, -/
  accepted : List Nat
  /-- those that it has sent to the worker at some index, -/
  handed : List (Nat × Nat)
  /-- and those that it has closed without that. -/
  dropped : List Nat

/-! ## The functions of the program -/

/-- `find_free_worker`. -/
def findFreeWorker (workers : Nat → Worker) (workerCount : Nat) :
    Option Nat :=
  (List.range workerCount).find? fun i => !(workers i).busy

/-- Set or clear `busy`. -/
def setBusy (workers : Nat → Worker) (i : Nat) (busy : Bool) :
    Nat → Worker :=
  Function.update workers i { workers i with busy := busy }

/-- `spawn_worker`, when `socketpair` and `fork` succeed. -/
def State.spawnWorker (s : State) (index : Nat) : State :=
  { s with
    children := s.children ++ [Child.new index]
    workers := Function.update s.workers index
      { commFd := s.children.length, busy := false }
    workerCount := s.workerCount + 1 }

/-- The end of a turn without a hand-over: `close` and `continue`. -/
def State.drop (s : State) (client : Nat) : State :=
  { s with main := .accepting, dropped := s.dropped ++ [client] }

/-- Replace one process. -/
def State.setChild (s : State) (k : Nat) (ch : Child) : State :=
  { s with children := s.children.set k ch }

/-- The branches of `main` after `find_free_worker`. -/
def select (s : State) (client : Nat) : State :=
  match findFreeWorker s.workers s.workerCount with
  | some idx => { s with main := .sending client idx }
  | none =>
      if s.workerCount < workerMax then
        { s with main := .spawning client s.workerCount }
      else s.drop client

/-- `send_fd` and the branch on its result; it fails if the worker has closed
its end. -/
def sendFd (s : State) (client idx : Nat) : Option State :=
  s.children[(s.workers idx).commFd]?.map fun ch =>
    if ch.phase = .exited then
      { s with workers := setBusy s.workers idx false }.drop client
    else
      { s.setChild (s.workers idx).commFd
          { ch with toWorker := ch.toWorker ++ [client] } with
        main := .sent client idx
        handed := s.handed ++ [(client, idx)] }

/-- One iteration of the sweep over the workers. -/
def sweep (s : State) (i : Nat) : Option State :=
  if i < s.workerCount then
    if (s.workers i).busy then
      s.children[(s.workers i).commFd]?.bind fun ch =>
        match ch.toMain with
        | [] => none
        | status :: rest =>
            some { s.setChild (s.workers i).commFd
                { ch with toMain := rest } with
              main := .sweeping (i + 1)
              workers :=
                if status = freeStatus then setBusy s.workers i false
                else s.workers }
    else some { s with main := .sweeping (i + 1) }
  else some { s with main := .accepting }

/-! ## Steps -/

/-- One step of the clients, of `main`, or of the worker number `k`.  `ok` is
the success of `spawn_worker`. -/
inductive Label where
  | arrive
  | spawn (ok : Bool)
  | accept
  | select
  | send
  | setBusy
  | sweep
  | readFails
  | recv (k : Nat)
  | serve (k : Nat)
  | report (k : Nat)
  | exit (k : Nat)
  deriving DecidableEq

/-- A step of worker `k`. -/
def State.childStep (s : State) (k : Nat) (f : Child → Option Child) :
    Option State :=
  s.children[k]?.bind fun ch => (f ch).map (s.setChild k)

/-- `recv_fd`, when it succeeds. -/
def Child.recv (ch : Child) : Option Child :=
  match ch.phase, ch.toWorker with
  | .receiving, client :: rest =>
      some { ch with phase := .serving client, toWorker := rest }
  | _, _ => none

/-- Send the time and close the client. -/
def Child.serve (ch : Child) : Option Child :=
  match ch.phase with
  | .serving _ => some { ch with phase := .reporting }
  | _ => none

/-- Write the status byte. -/
def Child.report (ch : Child) : Option Child :=
  match ch.phase with
  | .reporting =>
      some { ch with phase := .receiving, toMain := ch.toMain ++ [freeStatus] }
  | _ => none

/-- Leave the loop after a failed `recv_fd`, or die in any other place; what
is under way to the worker is lost. -/
def Child.exit (ch : Child) : Option Child :=
  if ch.phase = .exited then none
  else some { ch with phase := .exited, toWorker := [] }

/-- One system call of a process, with what it does before the next one.  The
labels of `main` are enabled where `main` stands before that call, those of a
worker where the worker does; `none` is a call that blocks or is not the next
one.  `sweep` blocks at a worker that is marked busy and has not written its
status, which holds up everything behind it; `readFails` is how such a read
returns when the worker has gone.  Workers may die at any time (`exit`), and
`spawn_worker` may fail. -/
def step (s : State) : Label → Option State
  | .arrive =>
      some { s with
        backlog := s.backlog ++ [s.arrivals]
        arrivals := s.arrivals + 1 }
  | .spawn ok =>
      match s.main with
      | .starting i =>
          if ok then
            some { s.spawnWorker i with
              main := if i + 1 < initialWorkers then .starting (i + 1)
                else .accepting }
          else some { s with main := .exited }
      | .spawning client idx =>
          if ok then
            some { s.spawnWorker idx with main := .sending client idx }
          else some (s.drop client)
      | _ => none
  | .accept =>
      match s.main, s.backlog with
      | .accepting, client :: rest =>
          some { s with
            main := .accepted client
            backlog := rest
            accepted := s.accepted ++ [client] }
      | _, _ => none
  | .select =>
      match s.main with
      | .accepted client => some (PreFork.select s client)
      | _ => none
  | .send =>
      match s.main with
      | .sending client idx => sendFd s client idx
      | _ => none
  | .setBusy =>
      match s.main with
      | .sent _ idx =>
          some { s with
            main := .sweeping 0
            workers := PreFork.setBusy s.workers idx true }
      | _ => none
  | .sweep =>
      match s.main with
      | .sweeping i => PreFork.sweep s i
      | _ => none
  | .readFails =>
      match s.main with
      | .sweeping i =>
          if i < s.workerCount ∧ (s.workers i).busy then
            s.children[(s.workers i).commFd]?.bind fun ch =>
              if ch.phase = .exited ∧ ch.toMain = [] then
                some { s with main := .sweeping (i + 1) }
              else none
          else none
      | _ => none
  | .recv k => s.childStep k Child.recv
  | .serve k => s.childStep k Child.serve
  | .report k => s.childStep k Child.report
  | .exit k => s.childStep k Child.exit

/-- `main` before its first `spawn_worker`; the table is zero. -/
def State.start : State where
  main := .starting 0
  workers _ := { commFd := 0, busy := false }
  workerCount := 0
  children := []
  backlog := []
  arrivals := 0
  accepted := []
  handed := []
  dropped := []

def preFork : Machine State Label where
  init s := s = State.start
  step := step

/-- No worker dies. -/
def Label.noDeath : Label → Bool
  | .exit _ => false
  | _ => true

/-- No worker dies, and workers can be spawned. -/
def Label.noFailure : Label → Bool
  | .exit _ | .spawn false => false
  | _ => true

end UnixHomework.Ports.PreFork
