import UnixHomework.Ports.Multiprotocol
import UnixHomework.Verified.Traces

/-!
# The clients of the server of two protocols

The client connects, writes `Hello`, reads once and prints what it has read;
then it sends `Hi` as a datagram and prints the answer.  Any number of clients
and the server are one system, in which TCP may cut `Hello` in two, a datagram
may be lost and the calls of the server may fail.  A run is calm if these last
two do not happen.
-/

namespace UnixHomework.Ports.Multiprotocol

open UnixHomework.Verified

/-- `main` of the client: before `connect`, `write` and `read`, before `sendto`
and `recvfrom`, and at the end; `c` is its connection. -/
inductive ClientAt where
  | connecting
  | writing (c : Nat)
  | reading (c : Nat)
  | sending (c : Nat)
  | receiving (c : Nat)
  | exited (c : Nat)
  | undefined
  deriving DecidableEq

/-- A client, and what it has printed of the two answers. -/
structure Client where
  /-- Where it stands, and its buffer. -/
  place : ClientAt
  buffer : CharArray 1024
  /-- What it has printed of the answer on the stream, -/
  tcp : Option (List UInt8)
  /-- and of the datagram. -/
  udp : Option (List UInt8)

/-- The server and `n` clients, whose addresses are their numbers. -/
structure System (n : Nat) where
  server : Server (Fin n)
  clients : Fin n → Client

/-- A call of the server, or of a client.  `lose` is a `sendto` whose datagram
does not arrive. -/
inductive Act (n : Nat) where
  | main (l : Label (Fin n))
  | connect (i : Fin n)
  | write (i : Fin n)
  | read (i : Fin n) (bytes : Nat)
  | readNothing (i : Fin n)
  | sendto (i : Fin n)
  | lose (i : Fin n)
  | recvfrom (i : Fin n)

/-- A call of the server, and not of the network. -/
def Label.isMain {A : Type*} : Label A → Bool
  | .connect | .send _ _ | .finish _ | .datagram _ _ => false
  | .epoll _ | .epollFails | .accept | .acceptFails | .read _ | .readNothing
  | .write | .sigpipe | .close | .recvfrom | .recvfromFails | .sendto => true

/-- The bytes for a connection, and the texts for an address. -/
def Message.forConnection {A : Type*} (c : Nat) : Message A → List UInt8
  | .tcp c' bytes => if c' = c then bytes else []
  | .udp _ _ => []

def Message.forAddr {A : Type*} [DecidableEq A] (addr : A) :
    Message A → Option (List UInt8)
  | .tcp _ _ => none
  | .udp addr' bytes => if addr' = addr then some bytes else none

/-- What has been written to a connection. -/
def Server.told {A : Type*} (s : Server A) (c : Nat) : List UInt8 :=
  s.written.flatMap (Message.forConnection c)

/-- The first datagram for an address. -/
def Server.answer {A : Type*} [DecidableEq A] (s : Server A) (addr : A) :
    Option (List UInt8) :=
  (s.written.filterMap (Message.forAddr addr)).head?

/-- The server has ended, which closes its connections. -/
def Place.stopped {A : Type*} : Place A → Bool
  | ended | killed _ => true
  | waiting | event _ _ | reading _ _ | replying _ _ | closing _ _
  | sending _ _ | undefined => false

namespace System

variable {n : Nat}

/-- A client goes on, with what the network makes of it. -/
def go (s : System n) (i : Fin n) (client : Client) (server : Server (Fin n)) :
    System n where
  server := server
  clients := Function.update s.clients i client

/-- The client closes its connection. -/
def hangUp (s : System n) (c : Nat) : Server (Fin n) :=
  { s.server with hungUp := Function.update s.server.hungUp c true }

/-- The first answer is printed, and the connection closed. -/
def readTcp (s : System n) (i : Fin n) (c : Nat) (bytes : List UInt8) :
    System n :=
  let client := s.clients i
  match client.buffer.recvText? 1023 room_for_nul bytes with
  | none => s.go i { client with place := .undefined } s.server
  | some (buffer, text) => s.go i { client with
      place := .sending c
      buffer := buffer
      tcp := some text } (s.hangUp c)

/-- The second answer is printed. -/
def readUdp (s : System n) (i : Fin n) (c : Nat) (bytes : List UInt8) :
    System n :=
  let client := s.clients i
  match client.buffer.recvText? 1023 room_for_nul bytes with
  | none => s.go i { client with place := .undefined } s.server
  | some (buffer, text) => s.go i { client with
      place := .exited c
      buffer := buffer
      udp := some text } s.server

end System

variable {n : Nat}

/-- The next call of a client. -/
def System.client (s : System n) (i : Fin n) (place : ClientAt)
    (server : Server (Fin n)) : System n :=
  s.go i { s.clients i with place := place } server

def act (s : System n) : Act n → Option (System n)
  | .main l =>
      if l.isMain then
        (step s.server l).map fun server => { s with server := server }
      else none
  | .connect i =>
      match (s.clients i).place with
      | .connecting => some (s.client i (.writing s.server.connected)
          { s.server with connected := s.server.connected + 1 })
      | _ => none
  | .write i =>
      match (s.clients i).place with
      | .writing c => some (s.client i (.reading c) { s.server with
          sent := Function.update s.server.sent c
            (s.server.sent c ++ hello) })
      | _ => none
  | .read i bytes =>
      match (s.clients i).place with
      | .reading c =>
          if 1 ≤ bytes ∧ bytes ≤ min (s.server.told c).length 1023 then
            some (s.readTcp i c ((s.server.told c).take bytes))
          else none
      | _ => none
  | .readNothing i =>
      match (s.clients i).place with
      | .reading c =>
          if s.server.told c = [] ∧
              (c ∈ s.server.closed ∨ s.server.place.stopped = true) then
            some (s.client i (.sending c) (s.hangUp c))
          else none
      | _ => none
  | .sendto i =>
      match (s.clients i).place with
      | .sending c => some (s.client i (.receiving c) { s.server with
          arrived := s.server.arrived ++ [(i, hi)] })
      | _ => none
  | .lose i =>
      match (s.clients i).place with
      | .sending c => some (s.client i (.receiving c) s.server)
      | _ => none
  | .recvfrom i =>
      match (s.clients i).place with
      | .receiving c => (s.server.answer i).map fun text => s.readUdp i c text
      | _ => none

/-- The server and `n` clients. -/
def systemMachine (n : Nat) : Machine (System n) (Act n) where
  init s := ∃ (buffer : CharArray 1024) (buffers : Fin n → CharArray 1024),
    s = ⟨start buffer, fun i => ⟨.connecting, buffers i, none, none⟩⟩
  step := act

/-- No datagram is lost, and no call of the server fails. -/
def Act.calm : Act n → Bool
  | .main .epollFails | .main .acceptFails | .main .recvfromFails => false
  | .lose _ => false
  | .main _ | .connect _ | .write _ | .read _ _ | .readNothing _ | .sendto _
  | .recvfrom _ => true

def calmMachine (n : Nat) : Machine (System n) (Act n) :=
  (systemMachine n).only Act.calm

end UnixHomework.Ports.Multiprotocol
