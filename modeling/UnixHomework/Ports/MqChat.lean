import UnixHomework.Verified.CharArray
import UnixHomework.Verified.Machine
import UnixHomework.Verified.MessageQueue
import Mathlib.Algebra.Group.Nat.Defs

/-!
# The message-queue chat

One server reads `/chat_queue` and sends every chat message to all registered
clients; each client has a queue of its own, named after the user, and writes
to whatever `/chat_queue` names when it starts.  All queues hold ten messages.

The model is an interleaving of system calls.  A client goes through the start
of its `main` (`mq_unlink`, two `mq_open`, the registration), then its main
loop sends and its `receive_thread` receives, until the user types `q`; the
queue is then closed and, in a later step, unlinked.  The server's loop
receives one message and, where that starts a broadcast, sends to one client
after the other; each of these sends may block.

Names and texts are byte strings, descriptors are queue numbers, and the
server's own queue is number `0`.
-/

namespace UnixHomework.Ports.MqChat

open UnixHomework.Verified

def maxClients : Nat := 10

/-- `mq_maxmsg`, the same for every queue. -/
def maxMsg : Nat := 10

def maxMessageSize : Nat := 256

/-- `CHAT_QUEUE`. -/
def chatQueue : List UInt8 :=
  ascii ['/', 'c', 'h', 'a', 't', '_', 'q', 'u', 'e', 'u', 'e']

/-- `chat_message_t`. -/
structure ChatMessage where
  type : Int
  name : CharArray 32
  queueName : CharArray 64
  text : CharArray maxMessageSize

/-- `chat_message_t msg = {0}`. -/
def ChatMessage.zero : ChatMessage where
  type := 0
  name := .zeros _
  queueName := .zeros _
  text := .zeros _

abbrev Kernel := MqKernel (List UInt8) ChatMessage maxMsg

/-- A name that the client program accepts: what `fgets` delivers into
`client_name[32]`, cut at the newline and not empty. -/
structure ClientName where
  chars : List UInt8
  nonempty : chars ≠ []
  short : chars.length ≤ 31
  noNul : (0 : UInt8) ∉ chars
  noNewline : (10 : UInt8) ∉ chars

/-- `snprintf(client_queue_name, 64, "/%s_queue", client_name)`. -/
def ClientName.queueName (n : ClientName) : List UInt8 :=
  (ascii ['/'] ++ n.chars ++ ascii ['_', 'q', 'u', 'e', 'u', 'e']).take 63

/-! ## Messages built by a client -/

/-- `reg` in the client's `main`. -/
def registration (n : ClientName) : ChatMessage :=
  { ChatMessage.zero with
    type := 0
    name := (CharArray.zeros 32).strncpy n.chars 31 (by decide)
    queueName := (CharArray.zeros 64).strncpy n.queueName 63 (by decide) }

/-- `msg` in the client's main loop. -/
def chatMessage (n : ClientName) (input : List UInt8) : ChatMessage :=
  { ChatMessage.zero with
    type := 1
    name := (CharArray.zeros 32).strncpy n.chars 31 (by decide)
    text := (CharArray.zeros maxMessageSize).strncpy input
      (maxMessageSize - 1) (by decide) }

/-! ## The server's functions -/

/-- `client_info_t`; `registeredAt` is not in the program, it records how many
chat messages the server had processed when it made the entry. -/
structure ClientInfo where
  name : CharArray 32
  queueName : CharArray 64
  /-- The descriptor that the server has opened for it. -/
  dqueue : Nat
  /-- How many chat messages had been processed by then. -/
  registeredAt : Nat

/-- The entry written by `add_client`. -/
def clientEntry (name queueName : List UInt8) (qd registeredAt : Nat) :
    ClientInfo where
  name := (CharArray.zeros 32).strncpy name 31 (by decide)
  queueName := (CharArray.zeros 64).strncpy queueName 63 (by decide)
  dqueue := qd
  registeredAt := registeredAt

/-- `add_client`: the table with the new entry, or `none` for `-1`. -/
def addClient (k : Kernel) (clients : List ClientInfo)
    (name queueName : List UInt8) (registeredAt : Nat) :
    Option (List ClientInfo) :=
  if maxClients ≤ clients.length then none
  else
    (k.openExisting queueName).map fun qd =>
      clients ++ [clientEntry name queueName qd registeredAt]

/-- A bound `sizeof(msg.text) - strlen(msg.text) - k`, computed in `size_t`. -/
def textBound (text : List UInt8) (k : Nat) : Nat :=
  (maxMessageSize + 2 ^ 64 - text.length - k) % 2 ^ 64

/-- One iteration of the loop of `broadcast_new_clients` that builds the
text: two `strncat`. -/
def appendClient (text : List UInt8) (e : ClientInfo) : List UInt8 :=
  let text := text ++ e.name.str.take (textBound text 2)
  text ++ (ascii ['\n']).take (textBound text 1)

/-- The text that this loop writes from `msg.text` on.  Bytes past the end of
the array are kept here, so that the list is what the program wrote. -/
def clientListText (clients : List ClientInfo) : List UInt8 :=
  clients.foldl appendClient []

/-- `msg` in `broadcast_new_clients`; `mq_send` transmits `sizeof(msg)` bytes,
of which the text is the last `maxMessageSize`. -/
def newClientsMessage (clients : List ClientInfo) : ChatMessage :=
  let written := (clientListText clients).take maxMessageSize
  { ChatMessage.zero with
    type := 2
    name := (CharArray.zeros 32).strncpy
      (ascii ['S', 'e', 'r', 'v', 'e', 'r']) 31 (by decide)
    text := (CharArray.zeros maxMessageSize).splice 0 written
      (by
        rw [Nat.zero_add]
        exact List.length_take_le _ _) }

/-- `msg` in `broadcast_message`. -/
def broadcastMessage (sender text : List UInt8) : ChatMessage :=
  { ChatMessage.zero with
    type := 1
    name := (CharArray.zeros 32).strncpy sender 31 (by decide)
    text := (CharArray.zeros maxMessageSize).strncpy text
      (maxMessageSize - 1) (by decide) }

/-! ## The system -/

/-- Where the server's loop stands: before `mq_receive`, or inside a broadcast
of `msg` with `clients[i]` next. -/
inductive ServerPhase where
  | receiving
  | broadcasting (msg : ChatMessage) (i : Nat)

/-- Where a client's `main` stands. -/
inductive Phase where
  /-- Before its `mq_unlink`. -/
  | notStarted
  /-- Before the `mq_open` of its own queue, -/
  | unlinked
  /-- and before that of the server's. -/
  | opened
  /-- Before its registration. -/
  | connected
  /-- In its loop. -/
  | running
  /-- After `q`, with its queues closed, -/
  | closed
  /-- and with its queue's name removed. -/
  | gone
  /-- The server's queue could not be opened, -/
  | failed
  /-- and the client has left for that. -/
  | exited
  deriving DecidableEq

/-- A client process. -/
structure Proc where
  phase : Phase
  /-- The descriptor of its own queue, valid from the phase that opens it on, -/
  clientMq : Nat
  /-- and that of the server's. -/
  serverMq : Nat
  /-- The chat messages that its main loop has sent, -/
  sent : List ChatMessage
  /-- and the messages that its thread has received. -/
  received : List ChatMessage

def Proc.initial : Proc where
  phase := .notStarted
  clientMq := 0
  serverMq := 0
  sent := []
  received := []

/-- All processes and the kernel. -/
structure State (Pid : Type*) where
  kernel : Kernel
  /-- The server's table. -/
  clients : List ClientInfo
  /-- Where the server stands. -/
  server : ServerPhase
  procs : Pid → Proc
  /-- The chat messages that the server's loop has taken from its queue. -/
  processed : List ChatMessage

/-- The server's descriptor `server_mq`. -/
def serverMq : Nat := 0

/-- One system call of a client or of the server. -/
inductive Label (Pid : Type*) where
  | unlinkOwn (p : Pid)
  | openOwn (p : Pid)
  | openServer (p : Pid)
  | unlinkFailed (p : Pid)
  | register (p : Pid)
  | sendChat (p : Pid) (input : List UInt8)
  | receive (p : Pid)
  | quit (p : Pid)
  | unlinkQuit (p : Pid)
  | serverReceive
  | serverSend
  | serverDone

/-- The branches of the server's loop on a message it has received. -/
def handle {Pid : Type*} (s : State Pid) (m : ChatMessage) : State Pid :=
  if m.type = 0 then
    match addClient s.kernel s.clients m.name.str m.queueName.str
        s.processed.length with
    | some clients =>
        { s with
          clients := clients
          server := .broadcasting (newClientsMessage clients) 0 }
    | none => s
  else if m.type = 1 then
    { s with
      processed := s.processed ++ [m]
      server := .broadcasting (broadcastMessage m.name.str m.text.str) 0 }
  else s

variable {Pid : Type*} [DecidableEq Pid]

def State.setProc (s : State Pid) (p : Pid) (c : Proc) : State Pid :=
  { s with procs := Function.update s.procs p c }

/-- One system call, with the assignments around it that no other process
sees.  A label is enabled where its process has come to this call.
`mq_receive` needs a message and `mq_send` needs room, so a process may have to
wait for others, and for ever.  `serverSend` is one turn of the loop over the
clients; while the server broadcasts it receives nothing. -/
def step (name : Pid → ClientName) (s : State Pid) :
    Label Pid → Option (State Pid)
  | .unlinkOwn p =>
      if (s.procs p).phase = .notStarted then
        some ({ s with kernel := s.kernel.unlink (name p).queueName }.setProc p
          { s.procs p with phase := .unlinked })
      else none
  | .openOwn p =>
      if (s.procs p).phase = .unlinked then
        let r := s.kernel.openCreate (name p).queueName
        some ({ s with kernel := r.1 }.setProc p
          { s.procs p with phase := .opened, clientMq := r.2 })
      else none
  | .openServer p =>
      if (s.procs p).phase = .opened then
        match s.kernel.openExisting chatQueue with
        | some q =>
            some (s.setProc p
              { s.procs p with phase := .connected, serverMq := q })
        | none => some (s.setProc p { s.procs p with phase := .failed })
      else none
  | .unlinkFailed p =>
      if (s.procs p).phase = .failed then
        some ({ s with kernel := s.kernel.unlink (name p).queueName }.setProc p
          { s.procs p with phase := .exited })
      else none
  | .register p =>
      if (s.procs p).phase = .connected then
        (s.kernel.send (s.procs p).serverMq (registration (name p))).map
          fun k => { s with kernel := k }.setProc p
            { s.procs p with phase := .running }
      else none
  | .sendChat p input =>
      -- the input "q" leaves the loop instead
      if (s.procs p).phase = .running ∧ cstr input ≠ ascii ['q'] then
        let m := chatMessage (name p) input
        (s.kernel.send (s.procs p).serverMq m).map
          fun k => { s with kernel := k }.setProc p
            { s.procs p with sent := (s.procs p).sent ++ [m] }
      else none
  | .receive p =>
      if (s.procs p).phase = .running then
        (s.kernel.receive (s.procs p).clientMq).map
          fun (m, k) => { s with kernel := k }.setProc p
            { s.procs p with received := (s.procs p).received ++ [m] }
      else none
  | .quit p =>
      if (s.procs p).phase = .running then
        some (s.setProc p { s.procs p with phase := .closed })
      else none
  | .unlinkQuit p =>
      if (s.procs p).phase = .closed then
        some ({ s with kernel := s.kernel.unlink (name p).queueName }.setProc p
          { s.procs p with phase := .gone })
      else none
  | .serverReceive =>
      match s.server with
      | .receiving =>
          (s.kernel.receive serverMq).map
            fun (m, k) => handle { s with kernel := k } m
      | .broadcasting _ _ => none
  | .serverSend =>
      match s.server with
      | .receiving => none
      | .broadcasting m i =>
          s.clients[i]?.bind fun e =>
            (s.kernel.send e.dqueue m).map fun k =>
              { s with kernel := k, server := .broadcasting m (i + 1) }
  | .serverDone =>
      match s.server with
      | .receiving => none
      | .broadcasting _ i =>
          if s.clients.length ≤ i then some { s with server := .receiving }
          else none

/-- The kernel after the server's start: only `/chat_queue` exists. -/
def startKernel : Kernel :=
  ((MqKernel.empty chatQueue).openCreate chatQueue).1

def State.start (Pid : Type*) : State Pid where
  kernel := startKernel
  clients := []
  server := .receiving
  procs _ := .initial
  processed := []

/-- The chat with a client process for every element of `Pid`. -/
def chatMachine (name : Pid → ClientName) :
    Machine (State Pid) (Label Pid) where
  init s := s = State.start Pid
  step := step name

end UnixHomework.Ports.MqChat
