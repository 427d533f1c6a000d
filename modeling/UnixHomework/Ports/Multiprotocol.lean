import UnixHomework.Verified.Datagrams
import UnixHomework.Verified.Machine

/-!
# One server for two protocols

The server waits with `epoll_wait` for connections on its TCP socket and for
datagrams on its UDP socket, at the same port, and handles the events that it
is given one after the other: it accepts a connection, reads once, answers
`Hello` and closes; it receives a datagram and answers `Hi`.  Both protocols
receive into one buffer.

A connection is known by its place in the order of `connect`, in which `accept`
returns them, and a datagram by its place in the order of arrival.  The network
is free: whoever has connected sends what it likes when it likes, finishes or
resets, and anybody may send datagrams.  `handled` is what `read` and
`recvfrom` have returned, `printed` and `written` are what the server has put
out.
-/

namespace UnixHomework.Ports.Multiprotocol

open UnixHomework.Verified

/-- `"Hello"` and `"Hi"`, and what is answered. -/
def hello : List UInt8 := ascii "Hello".toList

def salutTcp : List UInt8 := ascii "Salut from TCP\n".toList

def hi : List UInt8 := ascii "Hi".toList

def salutUdp : List UInt8 := ascii "Salut form UDP\n".toList

/-- `sizeof(buffer) - 1` leaves a byte for the NUL. -/
theorem room_for_nul : 1023 ≤ 1024 := by decide

/-- `tcp_socket` and `udp_socket`. -/
inductive Socket where
  | tcp
  | udp
  deriving DecidableEq

/-- Bytes from a connection or an address, or for one. -/
inductive Message (A : Type*) where
  | tcp (c : Nat) (bytes : List UInt8)
  | udp (addr : A) (bytes : List UInt8)
  deriving DecidableEq

/-- Where `main` stands.  In all places `rest` are the events behind the one
that it is at. -/
inductive Place (A : Type*) where
  /-- In `epoll_wait`. -/
  | waiting
  /-- Before the `accept` or the `recvfrom` for an event. -/
  | event (socket : Socket) (rest : List Socket)
  /-- Before the `read` of a connection, -/
  | reading (c : Nat) (rest : List Socket)
  /-- its `write` -/
  | replying (c : Nat) (rest : List Socket)
  /-- and its `close`. -/
  | closing (c : Nat) (rest : List Socket)
  /-- Before the `sendto` to this address. -/
  | sending (addr : A) (rest : List Socket)
  /-- `epoll_wait` has failed. -/
  | ended
  /-- `SIGPIPE` has come of the `write` to this connection. -/
  | killed (c : Nat)
  /-- The buffer has been left. -/
  | undefined
  deriving DecidableEq

/-- The server and the network at it. -/
structure Server (A : Type*) where
  /-- Where `main` stands, and its buffer. -/
  place : Place A
  buffer : CharArray 1024
  /-- How many clients have connected, -/
  connected : Nat
  /-- and how many of them have been accepted. -/
  accepted : Nat
  /-- What each client has sent and the server has not read. -/
  sent : Nat → List UInt8
  /-- The clients that have closed their side. -/
  hungUp : Nat → Bool
  /-- The connections that the server has closed, in order. -/
  closed : List Nat
  /-- All datagrams that have come, -/
  arrived : List (A × List UInt8)
  /-- of which so many have been received. -/
  taken : Nat
  /-- The messages received on either socket, -/
  handled : List (Message A)
  /-- the lines printed, -/
  printed : List (Message A)
  /-- and the answers sent, each in order. -/
  written : List (Message A)

/-- What the network does, and the calls of `main` with their results. -/
inductive Label (A : Type*) where
  | connect
  | send (c : Nat) (bytes : List UInt8)
  | finish (c : Nat)
  | datagram (addr : A) (bytes : List UInt8)
  | epoll (events : List Socket)
  | epollFails
  | accept
  | acceptFails
  | read (bytes : Nat)
  | readNothing
  | write
  | sigpipe
  | close
  | recvfrom
  | recvfromFails
  | sendto

/-- The next event, or `epoll_wait`. -/
def next {A : Type*} : List Socket → Place A
  | [] => .waiting
  | socket :: rest => .event socket rest

namespace Server

variable {A : Type*}

/-- EPOLLIN, level-triggered. -/
def Ready (s : Server A) : Socket → Prop
  | .tcp => s.accepted < s.connected
  | .udp => s.taken < s.arrived.length

instance (s : Server A) (socket : Socket) : Decidable (s.Ready socket) := by
  cases socket <;> unfold Ready <;> infer_instance

/-- From `buffer[bytes] = '\0'` to `strcmp`, for bytes from the connection. -/
def readTcp (s : Server A) (c : Nat) (rest : List Socket)
    (bytes : List UInt8) : Server A :=
  match s.buffer.recvText? 1023 room_for_nul bytes with
  | none => { s with place := .undefined }
  | some (buffer, text) => { s with
      place := if text = hello then .replying c rest else .closing c rest
      buffer := buffer
      handled := s.handled ++ [.tcp c bytes]
      printed := s.printed ++ [.tcp c text] }

/-- The same for a datagram, of which `recvfrom` returns what fits. -/
def readUdp (s : Server A) (rest : List Socket) (addr : A)
    (bytes : List UInt8) : Server A :=
  match s.buffer.recvText? 1023 room_for_nul bytes with
  | none => { s with place := .undefined }
  | some (buffer, text) => { s with
      place := if text = hi then .sending addr rest else next rest
      buffer := buffer
      taken := s.taken + 1
      handled := s.handled ++ [.udp addr (bytes.take 1023)]
      printed := s.printed ++ [.udp addr text] }

end Server

variable {A : Type*}

/-- One call of `main`, or one thing that the network does to it.  A call has
its result in its label: how many bytes `read` has returned, which events
`epoll_wait` has reported, or that it has failed.  `none` means that the call
is not the next one, that it cannot have this result, or that it blocks.
`read` returns at least one byte of what has been sent, or nothing when the
client has finished; a `write` to a client that has gone may end the process by
SIGPIPE.  Nothing is undefined but a text that leaves the buffer, which has a
place of its own. -/
def step (s : Server A) : Label A → Option (Server A)
  | .connect => some { s with connected := s.connected + 1 }
  | .send c bytes =>
      if c < s.connected ∧ s.hungUp c = false then
        some { s with sent := Function.update s.sent c (s.sent c ++ bytes) }
      else none
  | .finish c =>
      if c < s.connected then
        some { s with hungUp := Function.update s.hungUp c true }
      else none
  | .datagram addr bytes =>
      some { s with arrived := s.arrived ++ [(addr, bytes)] }
  | .epoll events =>
      match s.place with
      | .waiting =>
          if events ≠ [] ∧ events.Nodup ∧ ∀ socket ∈ events, s.Ready socket
          then some { s with place := next events }
          else none
      | _ => none
  | .epollFails =>
      match s.place with
      | .waiting => some { s with place := .ended }
      | _ => none
  | .accept =>
      match s.place with
      | .event .tcp rest =>
          if s.accepted < s.connected then some { s with
            place := .reading s.accepted rest
            accepted := s.accepted + 1 }
          else none
      | _ => none
  | .acceptFails =>
      match s.place with
      | .event .tcp rest => some { s with place := next rest }
      | _ => none
  | .read bytes =>
      match s.place with
      | .reading c rest =>
          if 1 ≤ bytes ∧ bytes ≤ min (s.sent c).length 1023 then
            some (s.readTcp c rest ((s.sent c).take bytes))
          else none
      | _ => none
  | .readNothing =>
      match s.place with
      | .reading c rest =>
          if s.hungUp c = true then some { s with place := .closing c rest }
          else none
      | _ => none
  | .write =>
      match s.place with
      | .replying c rest => some { s with
          place := .closing c rest
          written := s.written ++ [.tcp c salutTcp] }
      | _ => none
  | .sigpipe =>
      match s.place with
      | .replying c _ =>
          if s.hungUp c = true then some { s with place := .killed c } else none
      | _ => none
  | .close =>
      match s.place with
      | .closing c rest => some { s with
          place := next rest
          closed := s.closed ++ [c] }
      | _ => none
  | .recvfrom =>
      match s.place with
      | .event .udp rest =>
          (s.arrived[s.taken]?).map fun d => s.readUdp rest d.1 d.2
      | _ => none
  | .recvfromFails =>
      match s.place with
      | .event .udp rest => some { s with place := next rest }
      | _ => none
  | .sendto =>
      match s.place with
      | .sending addr rest => some { s with
          place := next rest
          written := s.written ++ [.udp addr salutUdp] }
      | _ => none

def start (buffer : CharArray 1024) : Server A where
  place := .waiting
  buffer := buffer
  connected := 0
  accepted := 0
  sent _ := []
  hungUp _ := false
  closed := []
  arrived := []
  taken := 0
  handled := []
  printed := []
  written := []

def serverMachine (A : Type*) : Machine (Server A) (Label A) where
  init s := ∃ buffer, s = start buffer
  step := step

end UnixHomework.Ports.Multiprotocol
