import UnixHomework.Ports.EchoFrame
import UnixHomework.Verified.Decimal

/-!
# The echo server

The server's loop receives a frame, filters it, counts the sender's messages
in its table, and writes the reply into the buffer that it has received the
request in.  The pointers `ip`, `udp` and `client_mac` keep pointing into that
buffer, so what they read depends on what has been written before; the model
performs the reads and writes in the order of the program.

`none` is an access outside an array, or a counter that overflows: the
counters are of type `int`, and incrementing the largest one is undefined.
-/

namespace UnixHomework.Ports.Echo

open UnixHomework.Verified

/-! ## The table of clients -/

/-- `client_t`; the port is in host order.  The counter is any integer here,
so that the table can be studied by itself; the bound of its type is tested
where it matters, when the loop has incremented it (`incremented`). -/
structure Client where
  ip : CharArray 4
  port : Nat
  counter : Int

def maxClients : Nat := 100

/-- `clients` up to `client_count`. -/
structure ClientTable where
  entries : List Client
  bounded : entries.length ≤ maxClients

/-- `find_client`. -/
def findClient (t : ClientTable) (ip : CharArray 4) (port : Nat) :
    Option Nat :=
  t.entries.findIdx? fun c => c.ip = ip && c.port = port

/-- `add_client`, which does nothing when the table is full. -/
def addClient (t : ClientTable) (ip : CharArray 4) (port : Nat) :
    ClientTable :=
  if room : t.entries.length < maxClients then
    { entries := t.entries ++ [⟨ip, port, 0⟩]
      bounded := by
        rw [List.length_append, List.length_singleton]
        exact room }
  else t

/-- Write the counter of one entry. -/
def ClientTable.setCounter (t : ClientTable) (i : Nat) (n : Int) :
    ClientTable where
  entries := t.entries.modify i fun c => { c with counter := n }
  bounded := by
    rw [List.length_modify]
    exact t.bounded

def ClientTable.counter (t : ClientTable) (i : Nat) : Int :=
  match t.entries[i]? with
  | some c => c.counter
  | none => 0

/-- `"CLOSE"`. -/
def closeText : List UInt8 :=
  ascii ['C', 'L', 'O', 'S', 'E']

/-- The lookup, with the insertion of a client that is not found. -/
def lookupClient (t : ClientTable) (ip : CharArray 4) (port : Nat) :
    ClientTable × Nat :=
  match findClient t ip port with
  | some i => (t, i)
  | none =>
      let t := addClient t ip port
      (t, t.entries.length - 1)

/-- A datagram that has passed the loop's filters; `data` is the C string at
its payload. -/
structure Datagram where
  ip : CharArray 4
  port : Nat
  data : List UInt8

/-- The part of the loop that counts: the new table, and the counter for the
reply unless the datagram says `CLOSE`. -/
def countDatagram (t : ClientTable) (d : Datagram) :
    ClientTable × Option Int :=
  let (t, i) := lookupClient t d.ip d.port
  if d.data = closeText then (t.setCounter i 0, none)
  else
    let counter := t.counter i + 1
    (t.setCounter i counter, some counter)

/-! ## The filters -/

/-- A datagram with the pointers into the buffer that it was received in. -/
structure Request where
  buffer : Buffer
  /-- The length of the IP header, which says where the UDP header is. -/
  ipLen : Nat
  datagram : Datagram

/-- The tests of the loop on the first `bytes` bytes of the buffer. -/
def accept (b : Buffer) (bytes : Nat) : Option (Option Request) :=
  if bytes < ethHlen + sizeofIphdr then some none
  else do
    let protocol ← b.read? (ethHlen + 9) 1
    if protocol ≠ [17] then some none
    else do
      let vihl ← b.read? ethHlen 1
      let ipLen := headerLength vihl
      let udp := ethHlen + ipLen
      let dest ← b.read? (udp + 2) 2
      let source ← b.read? udp 2
      if ntohs dest ≠ serverPort ∨ ntohs source ≠ clientPort then some none
      else do
        let ip ← b.load? (ethHlen + 12) 4
        let dataLen : Int := bytes - ethHlen - ipLen - sizeofUdphdr
        if dataLen ≤ 0 ∨ bufSize ≤ dataLen then some none
        else do
          let data := udp + sizeofUdphdr
          let b ← b.write? (data + dataLen.toNat) [0]
          some (some
            { buffer := b
              ipLen := ipLen
              datagram := ⟨ip, ntohs source, b.strAt data⟩ })

/-! ## The reply -/

/-- `reply` after `snprintf(reply, sizeof(reply), "%s %d", data, counter)`. -/
def replyText (data : List UInt8) (counter : Int) : List UInt8 :=
  (data ++ 32 :: printInt counter).take (bufSize - 1)

/-- The Ethernet header; `client_mac` is `buffer + 6`. -/
def replyEth (serverMac : CharArray 6) (b : Buffer) : Option Buffer := do
  let mac ← b.read? 6 6
  ethHeader mac serverMac.bytes b

/-- The IP header, written where `ip` points to. -/
def replyIp (length : Nat) (b : Buffer) : Option Buffer := do
  let b ← ipHeader 12345 length b
  let daddr ← b.read? (ethHlen + 16) 4
  let b ← b.write? (ethHlen + 12) daddr
  let saddr ← b.read? (ethHlen + 12) 4
  let b ← b.write? (ethHlen + 16) saddr
  ipCheck b

/-- The UDP header; `udp` still points behind the request's IP header. -/
def replyUdp (ipLen length : Nat) (b : Buffer) : Option Buffer := do
  let off ← udpOffset b
  let b ← b.write? off (htons serverPort)
  let source ← b.read? (ethHlen + ipLen) 2
  let b ← b.write? (off + 2) source
  let b ← b.write? (off + 4) (htons (sizeofUdphdr + length))
  b.write? (off + 6) [0, 0]

/-- `strcpy(reply_data, reply)`. -/
def replyData (reply : List UInt8) (b : Buffer) : Option Buffer := do
  let off ← udpOffset b
  b.write? (off + sizeofUdphdr) (reply ++ [0])

/-- The largest `int`. -/
def intMax : Int := 2147483647

/-- The value of a counter behind `++`; beyond `INT_MAX` there is none. -/
def incremented (counter : Int) : Option Int :=
  if counter ≤ intMax then some counter else none

/-- What `sendto` is given: the frame and `sll_addr`. -/
structure Sent where
  frame : List UInt8
  /-- Where the kernel is to send it. -/
  sllAddr : CharArray 6

/-- From the reply's text to `sendto`; the buffer is kept for the next
iteration. -/
def sendReply (serverMac : CharArray 6) (r : Request) (counter : Int) :
    Option (Buffer × Sent) := do
  let reply := replyText r.datagram.data counter
  let b ← replyEth serverMac r.buffer
  let b ← replyIp reply.length b
  let b ← replyUdp r.ipLen reply.length b
  let b ← replyData reply b
  let sllAddr ← b.load? 6 6
  let totLen ← b.read? (ethHlen + 2) 2
  let frame ← b.read? 0 (ethHlen + ntohs totLen)
  some (b, ⟨frame, sllAddr⟩)

/-- The reply with a counter that has just been incremented. -/
def replyCounted (serverMac : CharArray 6) (r : Request) (counter : Int) :
    Option (Buffer × Sent) := do
  let counter ← incremented counter
  sendReply serverMac r counter

theorem replyCounted_eq (serverMac : CharArray 6) (r : Request)
    {counter : Int} (h : counter ≤ intMax) :
    replyCounted serverMac r counter = sendReply serverMac r counter := by
  rw [replyCounted, incremented, if_pos h]
  rfl

theorem replyCounted_overflow (serverMac : CharArray 6) (r : Request)
    {counter : Int} (h : ¬counter ≤ intMax) :
    replyCounted serverMac r counter = none := by
  rw [replyCounted, incremented, if_neg h]
  rfl

theorem replyCounted_eq_some {serverMac : CharArray 6} {r : Request}
    {counter : Int} {out : Buffer × Sent}
    (h : replyCounted serverMac r counter = some out) :
    counter ≤ intMax ∧ sendReply serverMac r counter = some out := by
  by_cases hMax : counter ≤ intMax
  · rw [replyCounted_eq serverMac r hMax] at h
    exact ⟨hMax, h⟩
  · rw [replyCounted_overflow serverMac r hMax] at h
    contradiction

/-! ## The loop -/

/-- What one iteration leaves to the next: the buffer, with all the bytes of
earlier frames and replies that have not been overwritten, and the table. -/
structure Server where
  buffer : Buffer
  clients : ClientTable

/-- One iteration of the loop: receive, filter, count, and reply unless the
datagram says `CLOSE`.  The server answers at most one frame in an iteration,
and what it does not accept leaves only the buffer changed. -/
def serverStep (serverMac : CharArray 6) (s : Server) (frame : List UInt8) :
    Option (Server × Option Sent) := do
  let (b, bytes) := recvfrom s.buffer frame
  match ← accept b bytes with
  | none => some ({ s with buffer := b }, none)
  | some r =>
      let (clients, counter) := countDatagram s.clients r.datagram
      match counter with
      | none => some (⟨r.buffer, clients⟩, none)
      | some counter => do
          let (b, sent) ← replyCounted serverMac r counter
          some (⟨b, clients⟩, some sent)

end UnixHomework.Ports.Echo
