import UnixHomework.Verified.FdTable
import UnixHomework.Verified.Progress

/-!
# A pipeline, process by process

One turn of the shell for a line with `|`, after `pipe` has returned: the
parent and its two children go on in any order.  Each child closes one end of
the pipe, puts the other one in the place of its standard output or input, and
executes its command; the parent closes both ends and waits for the children.

The first command writes a text, in pieces of any size as the pipe has room,
and exits at its end or by `SIGPIPE`.  The second one reads what there is,
until the end of the file or until it has as many bytes as it wants, and exits.
The text is whatever the first child writes to its standard output.  Where its
command is not found, that is what `exit` flushes of the prompt that the shell
had still in its buffer at the `fork`; a second command that is not found wants
nothing.

Both calls of `fork` succeed here.  What a turn leaves behind in which one of
them fails is in the model of whole sessions.
-/

namespace UnixHomework.Ports.Pipeline

open UnixHomework.Verified

/-- An end of the pipe of this turn, or something else. -/
inductive File where
  | readEnd
  | writeEnd
  | other (n : Nat)
  deriving DecidableEq

/-- A child before its calls of `close`, `dup2` and `close`, at its command,
after it, and when it has been waited for. -/
inductive ChildAt where
  /-- Before the `close` of the end that it does not use, -/
  | closing
  /-- the `dup2` of its own -/
  | duping
  /-- and the `close` of the number it had. -/
  | closingDup
  /-- At its command. -/
  | running
  /-- It has exited, -/
  | exited
  /-- and has been waited for. -/
  | reaped
  deriving DecidableEq

structure Child where
  place : ChildAt
  fds : FdTable File
  deriving DecidableEq

/-- The parent before each of its calls. -/
inductive ParentAt where
  /-- Before its two calls of `fork`, -/
  | forking1
  | forking2
  /-- before it closes the two ends, -/
  | closingRead
  | closingWrite
  /-- before its two calls of `waitpid`, -/
  | waiting1
  | waiting2
  /-- and at the next prompt. -/
  | prompting
  deriving DecidableEq

/-- What a shell has when `pipe` has returned, and what the commands will
do. -/
structure Opened where
  /-- The descriptors that the shell had before. -/
  shellFds : FdTable File
  /-- The read end -/
  fd0 : Nat
  /-- and the write end of the pipe. -/
  fd1 : Nat
  /-- How many bytes fit into it. -/
  capacity : Nat
  /-- What the first command writes. -/
  text : List UInt8
  /-- How many bytes the second one wants; `none` is all. -/
  limit : Option Nat
  /-- `pipe` returns numbers that were free, -/
  fresh0 : shellFds.Fresh fd0
  fresh1 : shellFds.Fresh fd1
  /-- and two of them. -/
  distinct : fd0 ≠ fd1
  /-- The shell's standard input and output are open, -/
  standard : ∀ std < 2, ¬shellFds.Fresh std
  /-- and none of its descriptors is an end of this pipe. -/
  others : shellFds.refers .readEnd = false ∧ shellFds.refers .writeEnd = false
  /-- Something fits. -/
  room : 0 < capacity

/-- All processes, the bytes in the pipe, those the first command has not
written yet, and those the second has read. -/
structure Turn where
  /-- The shell, and its descriptors. -/
  parent : ParentAt
  parentFds : FdTable File
  /-- The first child, once it has been forked, -/
  child1 : Option Child
  /-- and the second. -/
  child2 : Option Child
  /-- The bytes in the pipe, -/
  pipe : List UInt8
  /-- those that the first command has not written yet, -/
  rest : List UInt8
  /-- and those that the second has read. -/
  got : List UInt8
  deriving DecidableEq

/-- Who goes on, and how many bytes it writes or reads if it does. -/
inductive Label where
  | parent
  | child1 (n : Nat)
  | child2 (n : Nat)

/-! ## Children -/

/-- The calls of a child before `execvp`. -/
def Child.prepare (unused used std : Nat) (c : Child) : Option Child :=
  match c.place with
  | .closing => some ⟨.duping, c.fds.close unused⟩
  | .duping => some ⟨.closingDup, c.fds.dup2 used std⟩
  | .closingDup => some ⟨.running, c.fds.close used⟩
  | .running | .exited | .reaped => none

/-- The end of a process closes its descriptors. -/
def Child.exit : Child :=
  ⟨.exited, []⟩

/-- Some process has a descriptor for this file. -/
def Turn.refers (s : Turn) (f : File) : Bool :=
  s.parentFds.refers f || s.child1.any (fun c => c.fds.refers f) ||
    s.child2.any fun c => c.fds.refers f

/-- The command before `|`. -/
def Turn.command1 (o : Opened) (s : Turn) (c : Child) (n : Nat) :
    Option Turn :=
  if s.rest = [] then some { s with child1 := some .exit }
  else
    match c.fds.file 1 with
    | some .writeEnd =>
        -- `SIGPIPE`.
        if s.refers .readEnd = false then some { s with child1 := some .exit }
        else if 0 < n ∧ n ≤ s.rest.length ∧ s.pipe.length + n ≤ o.capacity then
          some { s with
            pipe := s.pipe ++ s.rest.take n
            rest := s.rest.drop n }
        else none
    -- It writes to something else.
    | _ => some { s with rest := [] }

/-- The command after `|`. -/
def Turn.command2 (o : Opened) (s : Turn) (c : Child) (n : Nat) :
    Option Turn :=
  if o.limit = some s.got.length then some { s with child2 := some .exit }
  else
    match c.fds.file 0 with
    | some .readEnd =>
        if s.pipe = [] then
          -- The end of the file, or it blocks.
          if s.refers .writeEnd = false then
            some { s with child2 := some .exit }
          else none
        else if 0 < n ∧ n ≤ s.pipe.length ∧
            ∀ k ∈ o.limit, s.got.length + n ≤ k then
          some { s with
            pipe := s.pipe.drop n
            got := s.got ++ s.pipe.take n }
        else none
    -- It reads something else.
    | _ => some { s with child2 := some .exit }

/-! ## The turn -/

/-- The parent's next call. -/
def Turn.goOn (o : Opened) (s : Turn) : Option Turn :=
  match s.parent with
  | .forking1 => some { s with
      parent := .forking2
      child1 := some ⟨.closing, s.parentFds⟩ }
  | .forking2 => some { s with
      parent := .closingRead
      child2 := some ⟨.closing, s.parentFds⟩ }
  | .closingRead => some { s with
      parent := .closingWrite
      parentFds := s.parentFds.close o.fd0 }
  | .closingWrite => some { s with
      parent := .waiting1
      parentFds := s.parentFds.close o.fd1 }
  | .waiting1 =>
      if s.child1.any (fun c => c.place = .exited) then some { s with
        parent := .waiting2
        child1 := some ⟨.reaped, []⟩ }
      else none
  | .waiting2 =>
      if s.child2.any (fun c => c.place = .exited) then some { s with
        parent := .prompting
        child2 := some ⟨.reaped, []⟩ }
      else none
  | .prompting => none

def step (o : Opened) (s : Turn) : Label → Option Turn
  | .parent => s.goOn o
  | .child1 n => s.child1.bind fun c =>
      if c.place = .running then s.command1 o c n
      else (c.prepare o.fd0 o.fd1 1).map fun c => { s with child1 := some c }
  | .child2 n => s.child2.bind fun c =>
      if c.place = .running then s.command2 o c n
      else (c.prepare o.fd1 o.fd0 0).map fun c => { s with child2 := some c }

/-- The descriptors after `pipe`. -/
def Opened.fds (o : Opened) : FdTable File :=
  (o.fd0, .readEnd) :: (o.fd1, .writeEnd) :: o.shellFds

def Opened.start (o : Opened) : Turn where
  parent := .forking1
  parentFds := o.fds
  child1 := none
  child2 := none
  pipe := []
  rest := o.text
  got := []

def turnMachine (o : Opened) : Machine Turn Label where
  init s := s = o.start
  step := step o

/-- What the second command is to get. -/
def Opened.wanted (o : Opened) : List UInt8 :=
  match o.limit with
  | none => o.text
  | some k => o.text.take k

end UnixHomework.Ports.Pipeline
