import UnixHomework.Verified.CharArray
import UnixHomework.Verified.Decimal
import UnixHomework.Verified.Machine
import Mathlib.Logic.Function.Basic

/-!
# The driver manager

A command-line process creates driver processes and gives them tasks.  At its
start it forks a connection handler, which accepts the drivers' connections on
a stream socket.  The table of drivers is ordinary memory: from the fork on
each of the two processes has a copy of its own, and so has each a table of
file descriptors.

The model runs the three kinds of process side by side.  The command line
executes whole commands; a driver connects, sends its pid, and then works
through its receive loop; the handler accepts a connection, receives the pid
on it, and later receives the driver's answers.  `send` succeeds on a
descriptor that is open in the process that calls it.

Left out are the texts that are only printed, and with them the contents of
`recv_buf`.
-/

namespace UnixHomework.Ports.DriverManager

open UnixHomework.Verified

def maxDrivers : Nat := 100

def bufSize : Nat := 256

/-- `Driver`. -/
structure Driver where
  pid : Int32
  taskTimer : Int32
  /-- When the task is over, in seconds. -/
  taskEndTime : Int
  /-- The descriptor of its connection, `-1` if there is none. -/
  sockFd : Int
  active : Bool
  recvLen : Nat

/-- `find_driver`. -/
def findDriver (drivers : List Driver) (pid : Int32) : Option Nat :=
  drivers.findIdx? fun d => d.pid = pid && d.active

/-- `find_driver_by_fd`. -/
def findDriverByFd (drivers : List Driver) (fd : Int) : Option Nat :=
  drivers.findIdx? fun d => d.active && d.sockFd = fd

/-! ## Commands and the driver's dispatch -/

/-- `cmd` in `send_task`. -/
def taskCommand (timer : Int32) : List UInt8 :=
  (ascii ['T', 'A', 'S', 'K', ':'] ++ printInt timer.toInt ++
    ascii ['\n']).take 63

/-- The command that `exit` sends. -/
def exitCommand : List UInt8 :=
  ascii ['E', 'X', 'I', 'T', '\n']

/-- What a driver recognises. -/
inductive Command where
  | task (timer : Int32)
  | status
  | exit
  deriving DecidableEq

/-- The tests of the driver's loop on the bytes that one `recv` has put into
`buf`, a NUL behind them. -/
def dispatch (chunk : List UInt8) : Option Command :=
  let buf := cstr chunk
  if buf.take 5 = ascii ['T', 'A', 'S', 'K', ':'] then
    (scanInt (buf.drop 5)).map fun timer => .task (Int32.ofInt timer)
  else if buf = ascii ['S', 'T', 'A', 'T', 'U', 'S'] then some .status
  else if buf = ascii ['E', 'X', 'I', 'T'] then some .exit
  else none

/-- The commands recognised by the driver's loop, when its `recv` calls return
the given chunks and then fail or report the end. -/
def driverLoop : List (List UInt8) → List Command
  | [] => []
  | chunk :: chunks =>
      match dispatch chunk with
      | none => driverLoop chunks
      | some .exit => [.exit]
      | some c => c :: driverLoop chunks

/-! ## The command line -/

/-- The entry that `create_driver` makes for its child. -/
def createDriver (pid : Int32) : Driver where
  pid := pid
  taskTimer := 0
  taskEndTime := 0
  sockFd := -1
  active := true
  recvLen := 0

/-- What `send_task` prints. -/
inductive TaskReply where
  | notFound
  | busy (remaining : Int32)
  | sent
  deriving DecidableEq

/-- `send_to_driver`: the descriptor and the bytes of the `send`, if any. -/
def sendToDriver (d : Driver) (cmd : List UInt8) : Option (Int × List UInt8) :=
  if 0 ≤ d.sockFd then some (d.sockFd, cstr cmd) else none

structure TaskOutcome where
  drivers : List Driver
  reply : TaskReply
  send : Option (Int × List UInt8)

/-- `send_task`. -/
def sendTask (drivers : List Driver) (pid timer : Int32) (now : Int) :
    TaskOutcome :=
  match findDriver drivers pid with
  | none => ⟨drivers, .notFound, none⟩
  | some index =>
      match drivers[index]? with
      | none => ⟨drivers, .notFound, none⟩
      | some d =>
          if 0 < d.taskTimer.toInt ∧ now < d.taskEndTime then
            ⟨drivers, .busy (Int32.ofInt (d.taskEndTime - now)), none⟩
          else
            ⟨drivers.set index
                { d with
                  taskTimer := timer
                  taskEndTime := now + timer.toInt },
              .sent, sendToDriver d (taskCommand timer)⟩

/-! ## The system -/

/-- The memory and the descriptors of the command line or of the handler. -/
structure Process where
  /-- The process's own copy of the table. -/
  drivers : List Driver
  /-- Its open descriptors, each with the number of a connection. -/
  fds : Int → Option Nat

/-- A stream between a driver and the handler. -/
structure Connection where
  /-- The driver that has connected. -/
  driver : Int32
  /-- The bytes under way to the handler, -/
  toServer : List UInt8
  /-- and those under way to the driver. -/
  toDriver : List UInt8
  /-- The handler has not closed its end, -/
  serverOpen : Bool
  /-- and the driver has not closed its own. -/
  driverOpen : Bool

def Connection.new (driver : Int32) : Connection where
  driver := driver
  toServer := []
  toDriver := []
  serverOpen := true
  driverOpen := true

/-- Where a driver process stands. -/
inductive DriverPhase where
  /-- No process has this pid. -/
  | absent
  /-- Forked, and before its `connect`. -/
  | connecting
  /-- Connected, and before the `send` of its pid. -/
  | connected (conn : Nat)
  /-- In its loop, before `recv`. -/
  | running (conn : Nat)
  /-- In the `sleep` of a task. -/
  | working (conn : Nat)
  /-- It has returned, or has been killed. -/
  | ended
  deriving DecidableEq

/-- Where the handler stands: in `epoll_wait`, or between `accept` and the
first `recv` on the new descriptor. -/
inductive HandlerPhase where
  | waiting
  | accepted (fd : Int)

/-- All processes, and the streams between them. -/
structure State where
  /-- The process that reads commands, -/
  cli : Process
  /-- unless it has returned. -/
  cliRunning : Bool
  /-- The process that accepts the drivers' connections. -/
  handler : Process
  handlerAt : HandlerPhase
  procs : Int32 → DriverPhase
  /-- All connections there have been, in the order of `connect`. -/
  conns : List Connection
  /-- Those that have not been accepted. -/
  acceptQueue : List Nat
  /-- Every `send` to a driver's connection so far; for the record. -/
  written : List (Nat × List UInt8)

/-- `send` in a process, on one of its descriptors. -/
def State.send (s : State) (p : Process) :
    Option (Int × List UInt8) → State
  | none => s
  | some (fd, bytes) =>
      match p.fds fd with
      | none => s
      | some c =>
          { s with
            conns := s.conns.modify c fun k =>
              { k with toDriver := k.toDriver ++ bytes }
            written := s.written ++ [(c, bytes)] }

/-- `send` in a driver. -/
def State.answer (s : State) (c : Nat) (bytes : List UInt8) : State :=
  { s with
    conns := s.conns.modify c fun k =>
      { k with toServer := k.toServer ++ bytes } }

def State.setPhase (s : State) (pid : Int32) (ph : DriverPhase) : State :=
  { s with procs := Function.update s.procs pid ph }

/-- `close` in the handler. -/
def State.closeServer (s : State) (fd : Int) : State :=
  match s.handler.fds fd with
  | none => s
  | some c =>
      { s with
        handler := { s.handler with
          fds := Function.update s.handler.fds fd none }
        conns := s.conns.modify c fun k => { k with serverOpen := false } }

/-- `close` in a driver, and the end of the process. -/
def State.closeDriver (s : State) (pid : Int32) (c : Nat) : State :=
  { s with
    procs := Function.update s.procs pid .ended
    conns := s.conns.modify c fun k => { k with driverOpen := false } }

/-- `kill` with `SIGTERM`: the driver ends, and with it its descriptor. -/
def State.kill (s : State) (pid : Int32) : State :=
  match s.procs pid with
  | .absent | .ended => s
  | .connecting => s.setPhase pid .ended
  | .connected c | .running c | .working c => s.closeDriver pid c

/-- A `pid_t` as four bytes. -/
def pidBytes (pid : Int32) : List UInt8 :=
  let w := pid.toUInt32
  [w.toUInt8, (w >>> 8).toUInt8, (w >>> 16).toUInt8, (w >>> 24).toUInt8]

/-- `client_pid`, zero before the bytes are received into it. -/
def pidOf (bytes : List UInt8) : Int32 :=
  let w : UInt32 := bytes.foldr (fun b w => (w <<< 8) ||| b.toUInt32) 0
  w.toInt32

/-- The handler after `accept`: receive the pid, look it up, and keep or close
the connection. -/
def handlePid (s : State) (fd : Int) (c : Nat) (bytes : List UInt8) : State :=
  if bytes = [] then s.closeServer fd
  else
    let s := { s with
      conns := s.conns.modify c fun k =>
        { k with toServer := k.toServer.drop 4 } }
    match findDriver s.handler.drivers (pidOf bytes) with
    | some index =>
        { s with
          handler := { s.handler with
            drivers := s.handler.drivers.modify index fun d =>
              { d with sockFd := fd } } }
    | none => s.closeServer fd

/-- One step of a process; `recv` and `accept` choose a length and a
descriptor.  `createDriver` has the result of its `fork`; `none` is a `fork`
that fails. -/
inductive Label where
  /-- `create_driver`, with the pid that `fork` returns. -/
  | createDriver (pid : Option Int32)
  | sendTask (pid timer : Int32) (now : Int)
  /-- The `exit` command, -/
  | exit
  /-- and the end of the input. -/
  | endOfInput
  | connect (pid : Int32)
  | sendPid (pid : Int32)
  /-- A driver's `recv` of so many bytes, -/
  | recvCommand (pid : Int32) (n : Nat)
  /-- the end of its `sleep`, -/
  | finishTask (pid : Int32)
  /-- and its `recv` at the end of the stream. -/
  | recvEnd (pid : Int32)
  | accept (fd : Int)
  /-- The handler's first `recv` on a new connection, -/
  | recvPid
  /-- and a later one. -/
  | driverData (fd : Int) (n : Nat)

/-- The driver's loop on one chunk. -/
def handleCommand (s : State) (pid : Int32) (c : Nat) (chunk : List UInt8) :
    State :=
  match dispatch chunk with
  | some (.task _) =>
      (s.answer c (ascii ['T', 'A', 'S', 'K', '_', 'O', 'K'])).setPhase pid
        (.working c)
  | some .status =>
      s.answer c (ascii ['A', 'V', 'A', 'I', 'L', 'A', 'B', 'L', 'E', '\n'])
  | some .exit =>
      (s.answer c (ascii ['E', 'X', 'I', 'T', '_', 'O', 'K', '\n'])).closeDriver
        pid c
  | none => s

/-- The loop of the `exit` command. -/
def exitLoop (s : State) : List Driver → State
  | [] => s
  | d :: ds =>
      if d.active && decide (0 ≤ d.sockFd) then
        exitLoop ((s.send s.cli (sendToDriver d exitCommand)).kill d.pid) ds
      else exitLoop s ds

/-- A step of one of the processes.  Every step of the command line is a whole
command, and it touches only the command line's memory, the streams and, with
`kill`, the drivers; every step of the handler touches only the handler's
memory and the streams.  So the two tables are never written by one step, which
is what the `fork` in `main` leads to.  A pid that `fork` returns belongs to no
process that there has been. -/
def step (s : State) : Label → Option State
  | .createDriver child =>
      if s.cliRunning = false then none
      else if maxDrivers ≤ s.cli.drivers.length then some s
      else
        match child with
        | none => some s
        | some pid =>
            if s.procs pid = .absent ∧ 0 < pid.toInt then
              some ({ s with
                cli := { s.cli with
                  drivers := s.cli.drivers ++ [createDriver pid] } }.setPhase
                    pid .connecting)
            else none
  | .sendTask pid timer now =>
      if s.cliRunning = false then none
      else
        let r := sendTask s.cli.drivers pid timer now
        some ({ s with cli := { s.cli with drivers := r.drivers } }.send s.cli
          r.send)
  | .exit =>
      if s.cliRunning = false then none
      else some { exitLoop s s.cli.drivers with cliRunning := false }
  | .endOfInput =>
      if s.cliRunning = false then none
      else some { s with cliRunning := false }
  | .connect pid =>
      match s.procs pid with
      | .connecting =>
          some ({ s with
            conns := s.conns ++ [Connection.new pid]
            acceptQueue := s.acceptQueue ++ [s.conns.length] }.setPhase pid
              (.connected s.conns.length))
      | _ => none
  | .sendPid pid =>
      match s.procs pid with
      | .connected c =>
          some ((s.answer c (pidBytes pid)).setPhase pid (.running c))
      | _ => none
  | .recvCommand pid n =>
      match s.procs pid with
      | .running c =>
          s.conns[c]?.bind fun k =>
            if 0 < n ∧ n ≤ bufSize - 1 ∧ n ≤ k.toDriver.length then
              some (handleCommand
                { s with
                  conns := s.conns.modify c fun k =>
                    { k with toDriver := k.toDriver.drop n } }
                pid c (k.toDriver.take n))
            else none
      | _ => none
  | .finishTask pid =>
      match s.procs pid with
      | .working c =>
          some ((s.answer c (ascii
            ['A', 'V', 'A', 'I', 'L', 'A', 'B', 'L', 'E', '\n'])).setPhase pid
              (.running c))
      | _ => none
  | .recvEnd pid =>
      match s.procs pid with
      | .running c =>
          s.conns[c]?.bind fun k =>
            if k.serverOpen = false ∧ k.toDriver = [] then
              some (s.closeDriver pid c)
            else none
      | _ => none
  | .accept fd =>
      match s.handlerAt, s.acceptQueue with
      | .waiting, c :: rest =>
          if 0 ≤ fd ∧ s.handler.fds fd = none then
            some { s with
              handler := { s.handler with
                fds := Function.update s.handler.fds fd (some c) }
              handlerAt := .accepted fd
              acceptQueue := rest }
          else none
      | _, _ => none
  | .recvPid =>
      match s.handlerAt with
      | .accepted fd =>
          (s.handler.fds fd).bind fun c => s.conns[c]?.map fun k =>
            { handlePid s fd c (k.toServer.take 4) with handlerAt := .waiting }
      | .waiting => none
  | .driverData fd n =>
      match s.handlerAt, findDriverByFd s.handler.drivers fd with
      | .waiting, some index =>
          (s.handler.fds fd).bind fun c => s.conns[c]?.bind fun k =>
            s.handler.drivers[index]?.bind fun d =>
            if 0 < n ∧ n ≤ bufSize - d.recvLen - 1 ∧
                n ≤ k.toServer.length then
              some { s with
                conns := s.conns.modify c fun k =>
                  { k with toServer := k.toServer.drop n }
                handler := { s.handler with
                  drivers := s.handler.drivers.modify index fun d =>
                    { d with recvLen := 0 } } }
            else if n = 0 ∧ k.toServer = [] ∧ k.driverOpen = false then
              let closed := s.closeServer fd
              some { closed with
                handler := { closed.handler with
                  drivers := closed.handler.drivers.modify index fun d =>
                    { d with sockFd := -1 } } }
            else none
      | _, _ => none

/-- `main` up to the `fork` of the handler. -/
def Process.start : Process where
  drivers := []
  fds _ := none

/-- The `fork` gives the handler a copy of everything. -/
def State.start : State where
  cli := .start
  cliRunning := true
  handler := .start
  handlerAt := .waiting
  procs _ := .absent
  conns := []
  acceptQueue := []
  written := []

def driverManager : Machine State Label where
  init s := s = State.start
  step := step

/-! ## What a step does -/

/-- The steps with their effects and the conditions under which they are
taken. -/
inductive Transition (s : State) : Label → State → Prop where
  | full (child : Option Int32) (hRunning : s.cliRunning = true)
      (hFull : maxDrivers ≤ s.cli.drivers.length) :
      Transition s (.createDriver child) s
  | forkFails (hRunning : s.cliRunning = true)
      (hRoom : s.cli.drivers.length < maxDrivers) :
      Transition s (.createDriver none) s
  | creates (pid : Int32) (hRunning : s.cliRunning = true)
      (hRoom : s.cli.drivers.length < maxDrivers)
      (hAbsent : s.procs pid = .absent) (hPid : 0 < pid.toInt) :
      Transition s (.createDriver (some pid))
        ({ s with
          cli := { s.cli with
            drivers := s.cli.drivers ++ [createDriver pid] } }.setPhase pid
              .connecting)
  | sendTask (pid timer : Int32) (now : Int)
      (hRunning : s.cliRunning = true) :
      Transition s (.sendTask pid timer now)
        ({ s with
          cli := { s.cli with
            drivers := (sendTask s.cli.drivers pid timer now).drivers } }.send
              s.cli (sendTask s.cli.drivers pid timer now).send)
  | exit (hRunning : s.cliRunning = true) :
      Transition s .exit
        { exitLoop s s.cli.drivers with cliRunning := false }
  | endOfInput (hRunning : s.cliRunning = true) :
      Transition s .endOfInput { s with cliRunning := false }
  | connect (pid : Int32) (hPhase : s.procs pid = .connecting) :
      Transition s (.connect pid)
        ({ s with
          conns := s.conns ++ [Connection.new pid]
          acceptQueue := s.acceptQueue ++ [s.conns.length] }.setPhase pid
            (.connected s.conns.length))
  | sendPid (pid : Int32) (c : Nat) (hPhase : s.procs pid = .connected c) :
      Transition s (.sendPid pid)
        ((s.answer c (pidBytes pid)).setPhase pid (.running c))
  | recvCommand (pid : Int32) (n c : Nat) (k : Connection)
      (hPhase : s.procs pid = .running c) (hConn : s.conns[c]? = some k)
      (hLength : 0 < n ∧ n ≤ bufSize - 1 ∧ n ≤ k.toDriver.length) :
      Transition s (.recvCommand pid n)
        (handleCommand
          { s with
            conns := s.conns.modify c fun k =>
              { k with toDriver := k.toDriver.drop n } }
          pid c (k.toDriver.take n))
  | finishTask (pid : Int32) (c : Nat) (hPhase : s.procs pid = .working c) :
      Transition s (.finishTask pid)
        ((s.answer c (ascii
          ['A', 'V', 'A', 'I', 'L', 'A', 'B', 'L', 'E', '\n'])).setPhase pid
            (.running c))
  | recvEnd (pid : Int32) (c : Nat) (k : Connection)
      (hPhase : s.procs pid = .running c) (hConn : s.conns[c]? = some k)
      (hEnd : k.serverOpen = false ∧ k.toDriver = []) :
      Transition s (.recvEnd pid) (s.closeDriver pid c)
  | accept (fd : Int) (c : Nat) (rest : List Nat)
      (hWaiting : s.handlerAt = .waiting) (hQueue : s.acceptQueue = c :: rest)
      (hFd : 0 ≤ fd) (hFree : s.handler.fds fd = none) :
      Transition s (.accept fd)
        { s with
          handler := { s.handler with
            fds := Function.update s.handler.fds fd (some c) }
          handlerAt := .accepted fd
          acceptQueue := rest }
  | recvPid (fd : Int) (c : Nat) (k : Connection)
      (hAt : s.handlerAt = .accepted fd) (hFd : s.handler.fds fd = some c)
      (hConn : s.conns[c]? = some k) :
      Transition s .recvPid
        { handlePid s fd c (k.toServer.take 4) with handlerAt := .waiting }
  | driverData (fd : Int) (n index c : Nat) (d : Driver) (k : Connection)
      (hWaiting : s.handlerAt = .waiting)
      (hFound : findDriverByFd s.handler.drivers fd = some index)
      (hFd : s.handler.fds fd = some c) (hConn : s.conns[c]? = some k)
      (hEntry : s.handler.drivers[index]? = some d)
      (hLength : 0 < n ∧ n ≤ bufSize - d.recvLen - 1 ∧
        n ≤ k.toServer.length) :
      Transition s (.driverData fd n)
        { s with
          conns := s.conns.modify c fun k =>
            { k with toServer := k.toServer.drop n }
          handler := { s.handler with
            drivers := s.handler.drivers.modify index fun d =>
              { d with recvLen := 0 } } }
  | driverEnd (fd : Int) (n index c : Nat) (k : Connection)
      (hWaiting : s.handlerAt = .waiting)
      (hFound : findDriverByFd s.handler.drivers fd = some index)
      (hFd : s.handler.fds fd = some c) (hConn : s.conns[c]? = some k)
      (hEnd : n = 0 ∧ k.toServer = [] ∧ k.driverOpen = false) :
      Transition s (.driverData fd n)
        { s.closeServer fd with
          handler := { (s.closeServer fd).handler with
            drivers := (s.closeServer fd).handler.drivers.modify index
              fun d => { d with sockFd := -1 } } }

theorem step_transition {s next : State} {a : Label}
    (h : step s a = some next) : Transition s a next := by
  cases a with
  | createDriver child =>
      simp only [step] at h
      rcases Option.ite_none_left_eq_some.mp h with ⟨hCli, h⟩
      have hRunning := eq_true_of_ne_false hCli
      split at h
      · rename_i hFull
        obtain rfl := Option.some.inj h
        exact .full child hRunning hFull
      · rename_i hFull
        have hRoom := Nat.lt_of_not_le hFull
        cases child with
        | none =>
            obtain rfl := Option.some.inj h
            exact .forkFails hRunning hRoom
        | some pid =>
            rcases Option.ite_none_right_eq_some.mp h with ⟨⟨hAbsent, hPid⟩, h⟩
            obtain rfl := Option.some.inj h
            exact .creates pid hRunning hRoom hAbsent hPid
  | sendTask pid timer now =>
      simp only [step] at h
      rcases Option.ite_none_left_eq_some.mp h with ⟨hCli, h⟩
      obtain rfl := Option.some.inj h
      exact .sendTask pid timer now (eq_true_of_ne_false hCli)
  | exit =>
      simp only [step] at h
      rcases Option.ite_none_left_eq_some.mp h with ⟨hCli, h⟩
      obtain rfl := Option.some.inj h
      exact .exit (eq_true_of_ne_false hCli)
  | endOfInput =>
      simp only [step] at h
      rcases Option.ite_none_left_eq_some.mp h with ⟨hCli, h⟩
      obtain rfl := Option.some.inj h
      exact .endOfInput (eq_true_of_ne_false hCli)
  | connect pid =>
      simp only [step] at h
      split at h
      · rename_i hPhase
        obtain rfl := Option.some.inj h
        exact .connect pid hPhase
      · contradiction
  | sendPid pid =>
      simp only [step] at h
      split at h
      · rename_i c hPhase
        obtain rfl := Option.some.inj h
        exact .sendPid pid c hPhase
      · contradiction
  | recvCommand pid n =>
      simp only [step] at h
      split at h
      · rename_i c hPhase
        rcases Option.bind_eq_some_iff.mp h with ⟨k, hConn, h⟩
        rcases Option.ite_none_right_eq_some.mp h with ⟨hLength, h⟩
        obtain rfl := Option.some.inj h
        exact .recvCommand pid n c k hPhase hConn hLength
      · contradiction
  | finishTask pid =>
      simp only [step] at h
      split at h
      · rename_i c hPhase
        obtain rfl := Option.some.inj h
        exact .finishTask pid c hPhase
      · contradiction
  | recvEnd pid =>
      simp only [step] at h
      split at h
      · rename_i c hPhase
        rcases Option.bind_eq_some_iff.mp h with ⟨k, hConn, h⟩
        rcases Option.ite_none_right_eq_some.mp h with ⟨hEnd, h⟩
        obtain rfl := Option.some.inj h
        exact .recvEnd pid c k hPhase hConn hEnd
      · contradiction
  | accept fd =>
      simp only [step] at h
      split at h
      · rename_i c rest hWaiting hQueue
        rcases Option.ite_none_right_eq_some.mp h with ⟨⟨hFd, hFree⟩, h⟩
        obtain rfl := Option.some.inj h
        exact .accept fd c rest hWaiting hQueue hFd hFree
      · contradiction
  | recvPid =>
      simp only [step] at h
      split at h
      · rename_i fd hAt
        rcases Option.bind_eq_some_iff.mp h with ⟨c, hFd, h⟩
        rcases Option.map_eq_some_iff.mp h with ⟨k, hConn, rfl⟩
        exact .recvPid fd c k hAt hFd hConn
      · contradiction
  | driverData fd n =>
      simp only [step] at h
      split at h
      · rename_i index hWaiting hFound
        rcases Option.bind_eq_some_iff.mp h with ⟨c, hFd, h⟩
        rcases Option.bind_eq_some_iff.mp h with ⟨k, hConn, h⟩
        rcases Option.bind_eq_some_iff.mp h with ⟨d, hEntry, h⟩
        split at h
        · rename_i hLength
          obtain rfl := Option.some.inj h
          exact .driverData fd n index c d k hWaiting hFound hFd hConn hEntry
            hLength
        · rcases Option.ite_none_right_eq_some.mp h with ⟨hEnd, h⟩
          obtain rfl := Option.some.inj h
          exact .driverEnd fd n index c k hWaiting hFound hFd hConn hEnd
      · contradiction

end UnixHomework.Ports.DriverManager
