import UnixHomework.Verified.CharArray
import UnixHomework.Verified.Ring

/-!
# The shared-memory chat room

One `chat_room_t` lives in a shared segment.  The server initialises it and
offers `add_client`, `remove_client` and `add_message`; the clients contain
the same operations inlined in `main`.  Every operation runs between
`sem_wait` and `sem_post`, so each is one function on the room, and a run is
a list of them.

The display side is a client's `receive_thread`: each poll compares the two
counters with the values of its last poll and redraws a window when the
counter has changed.
-/

namespace UnixHomework.Ports.ShmChat

open UnixHomework.Verified
open UnixHomework.Verified.Ring

def maxClients : Nat := 10

def maxMessages : Nat := 50

def maxNameLen : Nat := 32

def maxMsgLen : Nat := 256

/-- `chat_message_t`. -/
structure ChatMessage where
  name : CharArray maxNameLen
  text : CharArray maxMsgLen

/-- `client_t`. -/
structure Client where
  name : CharArray maxNameLen
  active : Bool

/-- `chat_room_t` without its semaphore.  The two arrays are functions of the
index; only indices below `maxClients` and `maxMessages` are used. -/
structure ChatRoom where
  /-- The slots of the users, -/
  clients : Nat → Client
  /-- and how many are said to be active. -/
  clientCount : Int
  /-- The ring of messages, -/
  messages : Nat → ChatMessage
  /-- the index of the oldest, -/
  msgStart : Nat
  /-- and how many there are. -/
  msgCount : Nat

/-- A name and a text as they appear on the screen. -/
abbrev Line := List UInt8 × List UInt8

def ChatMessage.line (m : ChatMessage) : Line := (m.name.str, m.text.str)

/-! ## Operations of the server program -/

/-- The segment as `ftruncate` creates it: all bytes zero. -/
def zeroSegment : ChatRoom where
  clients _ := { name := .zeros _, active := false }
  clientCount := 0
  messages _ := { name := .zeros _, text := .zeros _ }
  msgStart := 0
  msgCount := 0

/-- The initialisation in the server's `main`, on whatever the segment held
before. -/
def initRoom (old : ChatRoom) : ChatRoom where
  clients i :=
    if i < maxClients then
      { name := (old.clients i).name.set 0 0, active := false }
    else old.clients i
  clientCount := 0
  messages := old.messages
  msgStart := 0
  msgCount := 0

/-- `strncpy(dst, name, MAX_NAME_LEN - 1); dst[MAX_NAME_LEN - 1] = '\0'`. -/
def copyName (dst : CharArray maxNameLen) (name : List UInt8) :
    CharArray maxNameLen :=
  (dst.strncpy name (maxNameLen - 1) (by decide)).set (maxNameLen - 1) 0

/-- The same for a message text. -/
def copyText (dst : CharArray maxMsgLen) (text : List UInt8) :
    CharArray maxMsgLen :=
  (dst.strncpy text (maxMsgLen - 1) (by decide)).set (maxMsgLen - 1) 0

/-- The loop `for (i = 0; i < MAX_CLIENTS; i++) if (!clients[i].active)`. -/
def ChatRoom.freeSlot (room : ChatRoom) : Option Nat :=
  (List.range maxClients).find? fun i => !(room.clients i).active

/-- The body of that loop: take slot `i` for `name`. -/
def ChatRoom.occupy (room : ChatRoom) (i : Nat) (name : List UInt8) :
    ChatRoom :=
  { room with
    clients := put room.clients i
      { name := copyName (room.clients i).name name, active := true }
    clientCount := room.clientCount + 1 }

/-- `add_client`. -/
def addClient (room : ChatRoom) (name : List UInt8) : ChatRoom × Int :=
  if (maxClients : Int) ≤ room.clientCount then (room, -1)
  else
    match room.freeSlot with
    | some i => (room.occupy i name, i)
    | none => (room, -1)

/-- `remove_client`. -/
def removeClient (room : ChatRoom) (clientIndex : Int) : ChatRoom :=
  if 0 ≤ clientIndex ∧ clientIndex < maxClients ∧
      (room.clients clientIndex.toNat).active then
    { room with
      clients := put room.clients clientIndex.toNat
        { room.clients clientIndex.toNat with active := false }
      clientCount := room.clientCount - 1 }
  else room

/-- Copy a name and a text into `messages[pos]`. -/
def ChatRoom.storeMessage (room : ChatRoom) (pos : Nat)
    (name text : List UInt8) : ChatRoom :=
  { room with
    messages := put room.messages pos
      { name := copyName (room.messages pos).name name
        text := copyText (room.messages pos).text text } }

/-- `add_message`. -/
def addMessage (room : ChatRoom) (name text : List UInt8) : ChatRoom :=
  let pos := (room.msgStart + room.msgCount) % maxMessages
  let room := room.storeMessage pos name text
  if room.msgCount < maxMessages then
    { room with msgCount := room.msgCount + 1 }
  else
    { room with msgStart := (room.msgStart + 1) % maxMessages }

/-! ## Operations inlined in the client program -/

/-- Joining, in the client's `main`: the room and `client_idx`. -/
def clientJoin (room : ChatRoom) (clientName : List UInt8) : ChatRoom × Int :=
  match room.freeSlot with
  | some i => (room.occupy i clientName, i)
  | none => (room, -1)

/-- Posting `input`, in the client's `main`. -/
def clientPost (room : ChatRoom) (clientName input : List UInt8) : ChatRoom :=
  let pos := (room.msgStart + room.msgCount) % maxMessages
  let room := room.storeMessage pos clientName input
  if room.msgCount < maxMessages then
    { room with msgCount := room.msgCount + 1 }
  else
    { room with msgStart := (room.msgStart + 1) % maxMessages }

/-- Leaving, in the client's `main`; unlike `remove_client` it does not look
at the slot first. -/
def clientLeave (room : ChatRoom) (clientIdx : Nat) : ChatRoom :=
  { room with
    clients := put room.clients clientIdx
      { room.clients clientIdx with active := false }
    clientCount := room.clientCount - 1 }

/-! ## Runs of the room -/

/-- One operation under the semaphore, by whichever process. -/
inductive RoomOp where
  | addClient (name : List UInt8)
  | removeClient (clientIndex : Int)
  | addMessage (name text : List UInt8)
  | clientJoin (clientName : List UInt8)
  | clientPost (clientName input : List UInt8)
  | clientLeave (clientIdx : Nat)

def ChatRoom.apply (room : ChatRoom) : RoomOp → ChatRoom
  | .addClient name => (ShmChat.addClient room name).1
  | .removeClient clientIndex => ShmChat.removeClient room clientIndex
  | .addMessage name text => ShmChat.addMessage room name text
  | .clientJoin clientName => (ShmChat.clientJoin room clientName).1
  | .clientPost clientName input => ShmChat.clientPost room clientName input
  | .clientLeave clientIdx => ShmChat.clientLeave room clientIdx

/-- The room after the server's start and the operations `ops`. -/
def runRoom (old : ChatRoom) (ops : List RoomOp) : ChatRoom :=
  ops.foldl ChatRoom.apply (initRoom old)

/-- The messages as `print_messages` walks them: `msg_count` entries from
`msg_start` on. -/
def ChatRoom.history (room : ChatRoom) : List ChatMessage :=
  Ring.contents room.messages maxMessages room.msgStart room.msgCount

/-! ## The display thread -/

/-- The loop of `print_messages` from index `i` on, `n` messages before
`msg_count`: the rows it writes in a window with `getmaxy` equal to `maxY`. -/
def printMessagesFrom (room : ChatRoom) (maxY : Nat) :
    Nat → Nat → List (Nat × Line)
  | _, 0 => []
  | i, n + 1 =>
      let idx := (room.msgStart + i) % maxMessages
      (i + 1, (room.messages idx).line) ::
        if maxY ≤ i + 2 then [] else printMessagesFrom room maxY (i + 1) n

/-- `print_messages`. -/
def printMessages (room : ChatRoom) (maxY : Nat) : List (Nat × Line) :=
  printMessagesFrom room maxY 0 room.msgCount

/-- The loop of `print_clients` over the slots `slots`, with `row` the next
row to write. -/
def printClientsFrom (room : ChatRoom) (maxY : Nat) :
    List Nat → Nat → List (Nat × List UInt8)
  | [], _ => []
  | i :: slots, row =>
      if row + 1 < maxY then
        if (room.clients i).active then
          (row, (room.clients i).name.str) ::
            printClientsFrom room maxY slots (row + 1)
        else printClientsFrom room maxY slots row
      else []

/-- `print_clients`. -/
def printClients (room : ChatRoom) (maxY : Nat) : List (Nat × List UInt8) :=
  printClientsFrom room maxY (List.range maxClients) 1

/-- `receive_thread` with its windows. -/
structure ReceiveThread where
  /-- The counts that it saw at its last poll. -/
  lastMsgCount : Nat
  lastClientCount : Int
  /-- The rows in the window of the messages, -/
  winChat : List (Nat × Line)
  /-- and those in the window of the users. -/
  winUsers : List (Nat × List UInt8)
  /-- The history that was in the room when `print_messages` was last called;
  empty before the first call, like the window that `main` draws. -/
  passed : List Line

/-- The thread when `main` creates it. -/
def ReceiveThread.start : ReceiveThread where
  lastMsgCount := 0
  lastClientCount := 0
  winChat := []
  winUsers := []
  passed := []

/-- `if (msg_count != last_msg_count)` of the loop body. -/
def ReceiveThread.pollMessages (t : ReceiveThread) (room : ChatRoom)
    (maxY : Nat) : ReceiveThread :=
  if room.msgCount ≠ t.lastMsgCount then
    { t with
      winChat := printMessages room maxY
      passed := room.history.map ChatMessage.line
      lastMsgCount := room.msgCount }
  else t

/-- `if (client_count != last_client_count)` of the loop body. -/
def ReceiveThread.pollClients (t : ReceiveThread) (room : ChatRoom)
    (maxY : Nat) : ReceiveThread :=
  if room.clientCount ≠ t.lastClientCount then
    { t with
      winUsers := printClients room maxY
      lastClientCount := room.clientCount }
  else t

/-- One iteration of `receive_thread` while it holds the semaphore. -/
def ReceiveThread.poll (t : ReceiveThread) (room : ChatRoom) (maxY : Nat) :
    ReceiveThread :=
  (t.pollMessages room maxY).pollClients room maxY

end UnixHomework.Ports.ShmChat
