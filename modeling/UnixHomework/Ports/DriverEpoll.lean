import UnixHomework.Ports.DriverManager
import UnixHomework.Verified.Traces

/-!
# The connection handler's event loop

The handler waits in `epoll_wait` for the server socket and the drivers'
sockets, all of them edge-triggered: a descriptor is reported once after
something new has happened on it.  For each report the handler does one thing,
one `accept` or one `recv` of at most 255 bytes.

The model keeps one flag for each descriptor, `edge`, set when data or a
connection arrives and cleared when `epoll_wait` reports the descriptor.
Connections and data arrive at any time, also between the report and its
handling.  `epoll_wait` may report any of the descriptors that have an edge.

What must not happen is that the handler waits while something is left on a
descriptor that has no edge (`Drained`).  `Drains` is the guard under which it
does not: a report never finds more than one `accept` or one `recv` can take,
or a new edge has come in the meantime.
-/

namespace UnixHomework.Ports.DriverEpoll

open UnixHomework.Verified
open UnixHomework.Ports.DriverManager
  (Driver findDriver findDriverByFd pidOf pidBytes bufSize createDriver)

/-- `MAX_EVENTS`. -/
def maxEvents : Nat := 50

/-- A driver's connection with its place in the epoll set. -/
structure Channel where
  /-- What the driver has sent and the handler has not read. -/
  unread : List UInt8
  /-- The driver has not closed its end. -/
  driverOpen : Bool
  /-- The handler has not closed its own. -/
  serverOpen : Bool
  /-- The connection is in the epoll set. -/
  watched : Bool
  /-- Something has happened on it since `epoll_wait` last reported it. -/
  edge : Bool

def Channel.new : Channel where
  unread := []
  driverOpen := true
  serverOpen := true
  watched := false
  edge := false

/-- A `recv` would return at once. -/
def Channel.readable (k : Channel) : Bool :=
  !k.unread.isEmpty || !k.driverOpen

/-- Something new has happened on the connection. -/
def Channel.notify (k : Channel) : Channel :=
  { k with edge := k.edge || k.watched }

/-- A report of `epoll_wait`: the server socket, or another descriptor. -/
inductive Event where
  | server
  | data (fd : Int)
  deriving DecidableEq

/-- In the loop over `events`, or between `accept` and the `recv` of the
pid. -/
inductive Phase where
  | looping
  | accepted (fd : Int)
  deriving DecidableEq

/-- The handler and the sockets. -/
structure State where
  /-- The handler's copy of the table. -/
  drivers : List Driver
  /-- The connection behind each open descriptor. -/
  fds : Int → Option Nat
  /-- All connections there have been, in the order of `connect`. -/
  channels : List Channel
  /-- Those that have not been accepted. -/
  acceptQueue : List Nat
  /-- A driver has connected since the server's socket was last reported. -/
  serverEdge : Bool
  /-- The reports that the handler has still to go through; when it is empty,
  `epoll_wait` is next. -/
  batch : List Event
  phase : Phase

/-! ## The handler -/

def State.modifyChannel (s : State) (c : Nat) (f : Channel → Channel) :
    State :=
  { s with channels := s.channels.modify c f }

/-- `add_to_epoll`; a socket that is readable is reported. -/
def State.addToEpoll (s : State) (c : Nat) : State :=
  s.modifyChannel c fun k => { k with watched := true, edge := k.readable }

/-- `modify_epoll` on the server socket; the same. -/
def State.modifyEpoll (s : State) : State :=
  { s with serverEdge := s.serverEdge || !s.acceptQueue.isEmpty }

/-- `close` of a connection; it leaves the epoll set. -/
def State.closeFd (s : State) (fd : Int) (c : Nat) : State :=
  { s with fds := Function.update s.fds fd none }.modifyChannel c fun k =>
    { k with serverOpen := false, watched := false, edge := false }

def State.setSock (s : State) (index : Nat) (fd : Int) : State :=
  { s with drivers := s.drivers.modify index fun d => { d with sockFd := fd } }

/-- The pid is received, or nothing is there: register the driver, or close
the connection. -/
def State.receivePid (s : State) (fd : Int) (c : Nat) (bytes : List UInt8) :
    State :=
  if bytes = [] then s.closeFd fd c
  else
    let s := s.modifyChannel c fun k => { k with unread := k.unread.drop 4 }
    match findDriver s.drivers (pidOf bytes) with
    | some index => (s.setSock index fd).addToEpoll c
    | none => s.closeFd fd c

/-- The driver has disconnected. -/
def State.disconnect (s : State) (fd : Int) (index c : Nat) : State :=
  ((s.closeFd fd c).setSock index (-1)).modifyEpoll

/-- Data from a driver.  A `recv` without anything to read does nothing if the
driver is still there. -/
def State.receiveData (s : State) (index : Nat) (d : Driver) (fd : Int)
    (c : Nat) (k : Channel) : State :=
  let n := min k.unread.length (bufSize - d.recvLen - 1)
  if 0 < n then
    { s with
      drivers := s.drivers.modify index fun d => { d with recvLen := 0 }
      }.modifyChannel c fun k => { k with unread := k.unread.drop n }
  else if k.readable then s.disconnect fd index c
  else s

/-- The branch for a descriptor other than the server socket.  The descriptor
of a driver in the table is open. -/
def State.handleData (s : State) (fd : Int) : Option State :=
  match findDriverByFd s.drivers fd with
  | none => some s
  | some index =>
      s.drivers[index]?.bind fun d => (s.fds fd).bind fun c =>
        s.channels[c]?.map fun k => s.receiveData index d fd c k

/-- The branch for the server socket, up to `accept`; `fd` is the new
descriptor. -/
def State.acceptDriver (s : State) (fd : Int) : Option State :=
  match s.acceptQueue with
  | [] => some s
  | c :: rest =>
      if 0 ≤ fd ∧ s.fds fd = none then
        some { s with
          fds := Function.update s.fds fd (some c)
          acceptQueue := rest
          phase := .accepted fd }
      else none

/-! ## `epoll_wait` -/

/-- The connection that a report is about. -/
def Event.channel (fds : Int → Option Nat) : Event → Option Nat
  | .server => none
  | .data fd => fds fd

/-- The descriptor has an edge. -/
def State.pending (s : State) (e : Event) : Bool :=
  match e with
  | .server => s.serverEdge
  | .data fd => (s.fds fd).any fun c =>
      s.channels[c]?.any fun k => k.watched && k.edge

/-- Report these descriptors and clear their edges. -/
def State.report (s : State) (events : List Event) : State :=
  { s with
    serverEdge := s.serverEdge && decide (.server ∉ events)
    channels := s.channels.mapIdx fun c k =>
      { k with edge := k.edge &&
          !events.any fun e => e.channel s.fds = some c }
    batch := events }

/-! ## Steps -/

/-- A driver connects, sends, or closes its end; `epoll_wait` returns; the
handler goes on with the next report, or receives the pid. -/
inductive Label where
  | connect
  | send (c : Nat) (bytes : List UInt8)
  | close (c : Nat)
  | epollWait (events : List Event)
  | event (fd : Int)
  | recvPid

/-- A step of a driver or of the handler.  The drivers are free: any of them
may connect, send any bytes in any pieces and close at any time.
`epoll_wait` returns some of the descriptors that have an edge, each of them
once, and clears their edges; it is not called before all that it has reported
last has been handled.  The `recv` of the pid follows the `accept` of a new
connection and does not wait.  It is a step of its own because the driver may
send or close in between; where nothing has come yet the connection is
closed. -/
def step (s : State) : Label → Option State
  | .connect =>
      some { s with
        channels := s.channels ++ [Channel.new]
        acceptQueue := s.acceptQueue ++ [s.channels.length]
        serverEdge := true }
  | .send c bytes =>
      s.channels[c]?.bind fun k =>
        if k.driverOpen ∧ k.serverOpen ∧ bytes ≠ [] then
          some (s.modifyChannel c fun k =>
            { k.notify with unread := k.unread ++ bytes })
        else none
  | .close c =>
      s.channels[c]?.bind fun k =>
        if k.driverOpen then
          some (s.modifyChannel c fun k => { k.notify with driverOpen := false })
        else none
  | .epollWait events =>
      if s.phase = .looping ∧ s.batch = [] ∧ events.Nodup ∧
          events.length ≤ maxEvents ∧ events.all s.pending then
        some (s.report events)
      else none
  | .event fd =>
      match s.phase, s.batch with
      | .looping, .server :: rest => { s with batch := rest }.acceptDriver fd
      | .looping, .data fd' :: rest => { s with batch := rest }.handleData fd'
      | _, _ => none
  | .recvPid =>
      match s.phase with
      | .accepted fd =>
          (s.fds fd).bind fun c => s.channels[c]?.map fun k =>
            { s.receivePid fd c (k.unread.take 4) with phase := .looping }
      | .looping => none

/-- The handler enters its loop.  No driver is connected yet; the table is as
`create_driver` leaves it. -/
structure Initial (s : State) : Prop where
  drivers : ∀ d ∈ s.drivers, d.sockFd = -1 ∧ d.recvLen = 0
  fds : ∀ fd, s.fds fd = none
  channels : s.channels = []
  acceptQueue : s.acceptQueue = []
  batch : s.batch = []
  phase : s.phase = .looping

def handler : Machine State Label where
  init := Initial
  step := step

/-! ## What must not be left behind -/

/-- The descriptor is that of a driver's connection. -/
def State.Registered (s : State) (fd : Int) (c : Nat) : Prop :=
  (∃ d ∈ s.drivers, d.active = true ∧ d.sockFd = fd) ∧ s.fds fd = some c

/-- The next thing that the handler does is to call `epoll_wait`. -/
def State.AboutToWait (s : State) : Prop :=
  s.phase = .looping ∧ s.batch = []

/-- Nothing waits on a descriptor without an edge. -/
structure Drained (s : State) : Prop where
  /-- While connections wait to be accepted, the server's socket will be
  reported; -/
  connections : s.acceptQueue ≠ [] → s.serverEdge = true
  /-- and while a registered connection has bytes to read, it will be. -/
  data : ∀ fd c k, s.Registered fd c → s.channels[c]? = some k →
    k.unread ≠ [] → k.edge = true

/-- One `accept` or one `recv` takes all that is there, or a new edge has come
since the report. -/
def State.DrainsEvent (s : State) : Event → Prop
  | .server => s.acceptQueue.length ≤ 1 ∨ s.serverEdge = true
  | .data fd => findDriverByFd s.drivers fd ≠ none →
      ∀ c ∈ s.fds fd, ∀ k ∈ s.channels[c]?,
        k.unread.length ≤ bufSize - 1 ∨ k.edge = true

/-- The next report is drained, if the step is about one. -/
def Drains (s : State) : Label → Prop
  | .event _ => ∀ e ∈ s.batch.head?, s.DrainsEvent e
  | _ => True

instance (s : State) : (e : Event) → Decidable (s.DrainsEvent e)
  | .server => inferInstanceAs (Decidable (_ ∨ s.serverEdge = true))
  | .data fd => inferInstanceAs
      (Decidable (findDriverByFd s.drivers fd ≠ none → ∀ c ∈ s.fds fd, _))

instance (s : State) : (a : Label) → Decidable (Drains s a)
  | .event _ => inferInstanceAs (Decidable (∀ e ∈ s.batch.head?, _))
  | .connect | .send .. | .close _ | .epollWait _ | .recvPid => .isTrue trivial

/-! ## What a step does -/

/-- The steps with their effects and the conditions under which they are
taken. -/
inductive Transition (s : State) : Label → State → Prop where
  | connect : Transition s .connect
      { s with
        channels := s.channels ++ [Channel.new]
        acceptQueue := s.acceptQueue ++ [s.channels.length]
        serverEdge := true }
  | send (c : Nat) (bytes : List UInt8) :
      Transition s (.send c bytes)
        (s.modifyChannel c fun k =>
          { k.notify with unread := k.unread ++ bytes })
  | close (c : Nat) :
      Transition s (.close c)
        (s.modifyChannel c fun k => { k.notify with driverOpen := false })
  | wait (events : List Event) (hPhase : s.phase = .looping)
      (hBatch : s.batch = []) (hNodup : events.Nodup) :
      Transition s (.epollWait events) (s.report events)
  | acceptsNone (fd : Int) (rest : List Event)
      (hBatch : s.batch = .server :: rest) (hQueue : s.acceptQueue = []) :
      Transition s (.event fd) { s with batch := rest }
  | accepts (fd : Int) (rest : List Event) (c : Nat) (queue : List Nat)
      (hBatch : s.batch = .server :: rest)
      (hQueue : s.acceptQueue = c :: queue) (hFd : 0 ≤ fd)
      (hFree : s.fds fd = none) :
      Transition s (.event fd)
        { s with
          batch := rest
          fds := Function.update s.fds fd (some c)
          acceptQueue := queue
          phase := .accepted fd }
  | ignores (fd fd' : Int) (rest : List Event)
      (hBatch : s.batch = .data fd' :: rest)
      (hUnknown : findDriverByFd s.drivers fd' = none) :
      Transition s (.event fd) { s with batch := rest }
  | handles (fd fd' : Int) (rest : List Event) (index : Nat) (d : Driver)
      (c : Nat) (k : Channel) (hPhase : s.phase = .looping)
      (hBatch : s.batch = .data fd' :: rest)
      (hFound : findDriverByFd s.drivers fd' = some index)
      (hEntry : s.drivers[index]? = some d) (hFd : s.fds fd' = some c)
      (hChannel : s.channels[c]? = some k) :
      Transition s (.event fd)
        ({ s with batch := rest }.receiveData index d fd' c k)
  | registers (fd : Int) (c index : Nat) (k : Channel)
      (hPhase : s.phase = .accepted fd) (hFd : s.fds fd = some c)
      (hChannel : s.channels[c]? = some k)
      (hFound : findDriver s.drivers (pidOf (k.unread.take 4)) = some index) :
      Transition s .recvPid
        { ((s.modifyChannel c fun k =>
            { k with unread := k.unread.drop 4 }).setSock index fd).addToEpoll
              c with
          phase := .looping }
  | rejects (fd : Int) (c : Nat) (f : Channel → Channel)
      (hPhase : s.phase = .accepted fd) (hFd : s.fds fd = some c) :
      Transition s .recvPid
        { s with
          fds := Function.update s.fds fd none
          channels := s.channels.modify c f
          phase := .looping }

theorem receivePid_transition {s : State} {fd : Int} {c : Nat} {k : Channel}
    (hPhase : s.phase = .accepted fd) (hFd : s.fds fd = some c)
    (hChannel : s.channels[c]? = some k) :
    Transition s .recvPid
      { s.receivePid fd c (k.unread.take 4) with phase := .looping } := by
  unfold State.receivePid
  by_cases hEmpty : k.unread.take 4 = []
  · rw [if_pos hEmpty]
    exact .rejects fd c _ hPhase hFd
  · rw [if_neg hEmpty]
    simp only [State.modifyChannel]
    cases hFound : findDriver s.drivers (pidOf (k.unread.take 4)) with
    | some index => exact .registers fd c index k hPhase hFd hChannel hFound
    | none =>
        simp only [State.closeFd, State.modifyChannel, List.modify_modify_eq]
        exact .rejects fd c _ hPhase hFd

theorem event_transition {s next : State} {fd : Int}
    (h : step s (.event fd) = some next) : Transition s (.event fd) next := by
  simp only [step] at h
  split at h
  · rename_i rest hPhase hBatch
    unfold State.acceptDriver at h
    split at h
    · rename_i hQueue
      obtain rfl := Option.some.inj h
      exact .acceptsNone fd rest hBatch hQueue
    · rename_i c queue hQueue
      obtain ⟨⟨hFd, hFree⟩, h⟩ := Option.ite_none_right_eq_some.mp h
      obtain rfl := Option.some.inj h
      exact .accepts fd rest c queue hBatch hQueue hFd hFree
  · rename_i fd' rest hPhase hBatch
    unfold State.handleData at h
    split at h
    · rename_i hUnknown
      obtain rfl := Option.some.inj h
      exact .ignores fd fd' rest hBatch hUnknown
    · rename_i index hFound
      obtain ⟨d, hEntry, h⟩ := Option.bind_eq_some_iff.mp h
      obtain ⟨c, hFd, h⟩ := Option.bind_eq_some_iff.mp h
      obtain ⟨k, hChannel, rfl⟩ := Option.map_eq_some_iff.mp h
      exact .handles fd fd' rest index d c k hPhase hBatch hFound hEntry hFd
        hChannel
  · contradiction

theorem step_transition {s next : State} {a : Label}
    (h : step s a = some next) : Transition s a next := by
  cases a with
  | connect =>
      obtain rfl := Option.some.inj h
      exact .connect
  | send c bytes =>
      obtain ⟨k, hChannel, h⟩ := Option.bind_eq_some_iff.mp h
      obtain ⟨-, h⟩ := Option.ite_none_right_eq_some.mp h
      obtain rfl := Option.some.inj h
      exact .send c bytes
  | close c =>
      obtain ⟨k, hChannel, h⟩ := Option.bind_eq_some_iff.mp h
      obtain ⟨-, h⟩ := Option.ite_none_right_eq_some.mp h
      obtain rfl := Option.some.inj h
      exact .close c
  | epollWait events =>
      obtain ⟨⟨hPhase, hBatch, hNodup, -⟩, h⟩ :=
        Option.ite_none_right_eq_some.mp h
      obtain rfl := Option.some.inj h
      exact .wait events hPhase hBatch hNodup
  | event fd => exact event_transition h
  | recvPid =>
      simp only [step] at h
      split at h
      · rename_i fd hPhase
        obtain ⟨c, hFd, h⟩ := Option.bind_eq_some_iff.mp h
        obtain ⟨k, hChannel, rfl⟩ := Option.map_eq_some_iff.mp h
        exact receivePid_transition hPhase hFd hChannel
      · contradiction

end UnixHomework.Ports.DriverEpoll
