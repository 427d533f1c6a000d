import UnixHomework.Verified.Custody
import UnixHomework.Verified.Descriptors
import UnixHomework.Verified.Machine

/-!
# A thread for each client

The server allocates a block, accepts a connection into it and hands the block
to a new thread, which copies the descriptor, frees the block, sends the time
and closes the connection.  If `accept` or `pthread_create` fails, `main` frees
the block itself, in the second case after closing the connection.

A pointer is an address, and `malloc` uses addresses again, as the kernel uses
descriptors again.  An access to a block that is not allocated, and a `free` of
one, set `undefined` and change nothing else.  A connection is known by its
place in the order of `accept`.

The server leaves `SIGPIPE` as it is, and its `send` does not suppress it.  A
`send` to a client that has reset its connection may therefore kill the whole
process, with all its threads, instead of returning; `killed` says that this
has happened, and then there are no more steps.  A `send` that only returns an
error looks like any other one, since nobody reads its result.
-/

namespace UnixHomework.Ports.ThreadPerClient

open UnixHomework.Verified

abbrev Addr := Nat

/-- The loop of `main`, with its pointer `client_sock`. -/
inductive MainAt where
  /-- Before `malloc`. -/
  | allocating
  /-- Before `accept`. -/
  | accepting (clientSock : Addr)
  /-- Before `pthread_create`. -/
  | creating (clientSock : Addr)
  /-- Before the `close` after it has failed, -/
  | refusing (clientSock : Addr)
  /-- and before the `free` after a failure. -/
  | freeing (clientSock : Addr)
  deriving DecidableEq

/-- A thread in `client_handler`. -/
inductive HandlerAt where
  /-- Before it reads `*arg`. -/
  | starting (arg : Addr)
  /-- Before it frees `arg`. -/
  | copied (arg : Addr) (clientSock : Int)
  /-- Before its `send`, -/
  | sending (clientSock : Int)
  /-- and its `close`. -/
  | closing (clientSock : Int)
  /-- Past the end. -/
  | exited
  deriving DecidableEq

/-- A thread, and the connection that was in the block when it was created. -/
structure Handler where
  place : HandlerAt
  /-- The connection that was in its block when it was created. -/
  client : Nat
  deriving DecidableEq

/-- The server, the kernel's descriptors, and what has become of the
clients. -/
structure Server where
  /-- The allocated blocks with their contents. -/
  heap : Addr → Option Int
  descriptors : Descriptors
  main : MainAt
  /-- How many threads have been created, -/
  threads : Nat
  /-- and where each of them stands. -/
  handlers : Nat → Option Handler
  /-- The connections for which `send` has been called with the time. -/
  sent : List Nat
  /-- Those closed because `pthread_create` failed. -/
  refused : List Nat
  /-- A block has been used that was not allocated. -/
  undefined : Bool
  /-- `SIGPIPE` has killed the process. -/
  killed : Bool

/-- A call of `main` with its result, the next call of a thread, or that call
when it is a `send` which ends in `SIGPIPE`. -/
inductive Label where
  | malloc (block : Addr) (garbage : Int)
  | mallocFails
  | accept (fd : Int)
  | acceptFails
  | create
  | createFails
  | refuse
  | free
  | handler (i : Nat)
  | sigpipe (i : Nat)
  deriving DecidableEq

/-! ## The calls -/

namespace Server

/-- `*a = v`. -/
def write (s : Server) (a : Addr) (v : Int) : Server :=
  if s.heap a = none then { s with undefined := true }
  else { s with heap := Function.update s.heap a (some v) }

/-- `free (a)`. -/
def free (s : Server) (a : Addr) : Server :=
  if s.heap a = none then { s with undefined := true }
  else { s with heap := Function.update s.heap a none }

/-- A thread goes on. -/
def setHandler (s : Server) (i : Nat) (h : Handler) : Server :=
  { s with handlers := Function.update s.handlers i (some h) }

/-- `pthread_create`, with the pointer in `a`. -/
def create (s : Server) (a : Addr) : Server :=
  { s.setHandler s.threads
      ⟨.starting a, ((s.heap a).bind s.descriptors.table).getD 0⟩ with
    threads := s.threads + 1
    main := .allocating }

/-- The `close` after a failed `pthread_create`. -/
def refuse (s : Server) (a : Addr) : Server :=
  match s.heap a with
  | none => { s with undefined := true }
  | some fd => { s with
      descriptors := s.descriptors.close fd
      refused := s.refused ++ (s.descriptors.table fd).toList
      main := .freeing a }

/-- The next call of `client_handler`. -/
def handle (s : Server) (i : Nat) (h : Handler) : Option Server :=
  match h.place with
  | .starting arg =>
      match s.heap arg with
      | none => some { s with undefined := true }
      | some fd => some (s.setHandler i { h with place := .copied arg fd })
  | .copied arg fd =>
      some ((s.free arg).setHandler i { h with place := .sending fd })
  | .sending fd => some { s.setHandler i { h with place := .closing fd } with
      sent := s.sent ++ (s.descriptors.table fd).toList }
  | .closing fd => some { s.setHandler i { h with place := .exited } with
      descriptors := s.descriptors.close fd }
  | .exited => none

/-- `SIGPIPE` in the `send` of a thread. -/
def brokenPipe (s : Server) (h : Handler) : Option Server :=
  match h.place with
  | .sending _ => some { s with killed := true }
  | _ => none

/-- The call that a label stands for, by `main` or by a thread. -/
def call (s : Server) : Label → Option Server
  | .malloc block garbage =>
      if s.main = .allocating ∧ s.heap block = none then some { s with
        heap := Function.update s.heap block (some garbage)
        main := .accepting block }
      else none
  | .mallocFails => if s.main = .allocating then some s else none
  | .accept fd =>
      match s.main with
      | .accepting a =>
          (s.descriptors.accept? fd).map fun d =>
            { s.write a fd with descriptors := d, main := .creating a }
      | _ => none
  | .acceptFails =>
      match s.main with
      | .accepting a => some { s.write a (-1) with main := .freeing a }
      | _ => none
  | .create =>
      match s.main with
      | .creating a => some (s.create a)
      | _ => none
  | .createFails =>
      match s.main with
      | .creating a => some { s with main := .refusing a }
      | _ => none
  | .refuse =>
      match s.main with
      | .refusing a => some (s.refuse a)
      | _ => none
  | .free =>
      match s.main with
      | .freeing a => some { s.free a with main := .allocating }
      | _ => none
  | .handler i => (s.handlers i).bind (s.handle i)
  | .sigpipe i => (s.handlers i).bind s.brokenPipe

end Server

/-- A step of the server: while the process lives, the next call of `main` or
of one of the threads.  `main` and the threads share the heap and the
descriptors and nothing else, so what a step may destroy for the others is a
block or a descriptor that they still use; the invariants of the modules on
this server are about who holds which. -/
def step (s : Server) (l : Label) : Option Server :=
  if s.killed then none else s.call l

theorem step_eq_some {s next : Server} {l : Label}
    (h : step s l = some next) :
    s.killed = false ∧ s.call l = some next := by
  rcases Option.ite_none_left_eq_some.mp h with ⟨hAlive, hCall⟩
  exact ⟨eq_false_of_ne_true hAlive, hCall⟩

theorem step_of_alive {s : Server} (h : s.killed = false) (l : Label) :
    step s l = s.call l :=
  if_neg (by rw [h]; exact Bool.false_ne_true)

def start : Server where
  heap _ := none
  descriptors := .empty
  main := .allocating
  threads := 0
  handlers _ := none
  sent := []
  refused := []
  undefined := false
  killed := false

def serverMachine : Machine Server Label where
  init s := s = start
  step := step

/-! ## Who has been killed -/

section Killed

variable (s : Server) (a : Addr)

@[simp] theorem killed_write (v : Int) : (s.write a v).killed = s.killed := by
  unfold Server.write
  split <;> rfl

@[simp] theorem killed_free : (s.free a).killed = s.killed := by
  unfold Server.free
  split <;> rfl

@[simp] theorem killed_setHandler (i : Nat) (h : Handler) :
    (s.setHandler i h).killed = s.killed := rfl

@[simp] theorem killed_create : (s.create a).killed = s.killed := rfl

@[simp] theorem killed_refuse : (s.refuse a).killed = s.killed := by
  unfold Server.refuse
  split <;> rfl

end Killed

end UnixHomework.Ports.ThreadPerClient
