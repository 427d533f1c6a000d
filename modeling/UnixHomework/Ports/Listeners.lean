import Mathlib.Data.List.ReduceOption
import UnixHomework.Ports.RawClients
import UnixHomework.Verified.Datagrams

/-!
# Clients that listen

The broadcast and the multicast client print every datagram that arrives.  The
client with a raw UDP socket has sent a request from its buffer, skips packets
until one has the whole UDP header and comes from the server's port, and
prints what follows the header.

All three receive into one array again and again and terminate what they have
received.  `listeners_print` and `udpClient_outcome` say what a run of them
prints in terms of the datagrams alone, so nothing of the request or of an
earlier datagram is ever shown; and that a run leaves the array exactly at a
datagram that fills it.
-/

namespace UnixHomework.Ports.Listeners

open UnixHomework.Verified
open UnixHomework.Ports.Echo (htons ntohs headerLength headerLength_le
  serverPort clientPort sizeofUdphdr)
open UnixHomework.Ports.RawClients (printData ntohs_eq_iff Packet)

/-- One call of `recvfrom`: an error, or a datagram. -/
abbrev Received := Option (List UInt8)

/-! ## Broadcast and multicast -/

def maxline : Nat := 1024

/-- The loop of a client that prints every datagram: the texts. -/
def listenLoop (buffer : CharArray maxline) :
    List Received → Option (List (List UInt8))
  | [] => some []
  -- `perror`, `continue`
  | none :: rest => listenLoop buffer rest
  | some datagram :: rest => do
      let (buffer, text) ←
        buffer.recvText? maxline (Nat.le_refl _) datagram
      let texts ← listenLoop buffer rest
      some (text :: texts)

/-- `main` of the broadcast client. -/
def broadcastClient (buffer : CharArray maxline) (received : List Received) :
    Option (List (List UInt8)) :=
  listenLoop buffer received

/-- `main` of the multicast client, the same loop on another socket. -/
def multicastClient (buffer : CharArray maxline) (received : List Received) :
    Option (List (List UInt8)) :=
  listenLoop buffer received

/-- The datagrams that leave room for the terminator. -/
def LeavesRoom (received : List Received) : Prop :=
  ∀ datagram ∈ received.reduceOption, datagram.length < maxline

instance (received : List Received) : Decidable (LeavesRoom received) :=
  inferInstanceAs (Decidable (∀ _ ∈ _, _))

theorem leavesRoom_some_iff (datagram : List UInt8) (rest : List Received) :
    LeavesRoom (some datagram :: rest) ↔
      datagram.length < maxline ∧ LeavesRoom rest := by
  rw [LeavesRoom, List.reduceOption_cons_of_some, List.forall_mem_cons]
  rfl

/-- **The loop** prints the datagrams, each up to its first NUL. -/
theorem listenLoop_eq (buffer : CharArray maxline) (received : List Received) :
    listenLoop buffer received =
      if LeavesRoom received then some (received.reduceOption.map cstr)
      else none := by
  induction received generalizing buffer with
  | nil => rfl
  | cons r rest ih =>
      cases r with
      | none => exact ih buffer
      | some datagram =>
          by_cases hRoom : datagram.length < maxline
          · have hLength : CharArray.recvLength maxline datagram < maxline :=
              Nat.lt_of_le_of_lt (Nat.min_le_left _ _) hRoom
            obtain ⟨next, hText⟩ := buffer.exists_recvText? (Nat.le_refl _)
              datagram hLength
            rw [List.take_of_length_le (Nat.le_of_lt hRoom)] at hText
            simp only [listenLoop, hText, Option.bind_eq_bind,
              Option.bind_some, ih next, leavesRoom_some_iff, hRoom, true_and,
              List.reduceOption_cons_of_some, List.map_cons]
            by_cases hRest : LeavesRoom rest
            · rw [if_pos hRest, if_pos hRest, Option.bind_some]
            · rw [if_neg hRest, if_neg hRest, Option.bind_none]
          · have hFull : maxline ≤ CharArray.recvLength maxline datagram :=
              Nat.le_min.mpr ⟨Nat.le_of_not_lt hRoom, Nat.le_refl _⟩
            have hNone := buffer.recvText?_of_full (Nat.le_refl _) datagram
              hFull
            rw [if_neg fun h => hRoom ((leavesRoom_some_iff ..).mp h).1]
            simp only [listenLoop, hNone, Option.bind_eq_bind,
              Option.bind_none]

/-- **The listening clients.**  Whatever the buffer held, a run prints the
datagrams in the order of their arrival, each up to its first NUL, and it is
undefined exactly if one of them fills the buffer. -/
theorem listeners_print (buffer : CharArray maxline)
    (received : List Received) :
    broadcastClient buffer received =
        (if LeavesRoom received then some (received.reduceOption.map cstr)
        else none) ∧
      multicastClient buffer received = broadcastClient buffer received :=
  ⟨listenLoop_eq buffer received, rfl⟩

/-! ## The client with a raw UDP socket -/

def bufSize : Nat := 1024

/-- `"Hello, server"`. -/
def msg : List UInt8 :=
  ascii "Hello, server".toList

/-- The UDP header and the message that are sent. -/
def request : List UInt8 :=
  htons clientPort ++ htons serverPort ++ htons (sizeofUdphdr + msg.length) ++
    [0, 0] ++ msg

/-- The loop after `recvfrom`: the text, or nothing for `continue`. -/
def udpReceive (buffer : CharArray bufSize) (bytes : Nat) :
    Option (Option (List UInt8)) := do
  let vihl ← buffer.read? 0 1
  let ipHdrLen := headerLength vihl
  if bytes < ipHdrLen + sizeofUdphdr then some none
  else do
    let source ← buffer.read? ipHdrLen 2
    if ntohs source ≠ serverPort then some none
    else do
      let text ← printData buffer bytes (ipHdrLen + sizeofUdphdr)
      some (some text)

/-- How far the client has come: it still waits, an error of `recvfrom` has
ended it, or it has printed its text. -/
inductive Outcome where
  | waiting
  | failed
  | printed (text : List UInt8)
  deriving DecidableEq

def udpLoop (buffer : CharArray bufSize) : List Received → Option Outcome
  | [] => some .waiting
  | none :: _ => some .failed
  | some datagram :: rest => do
      let buffer := buffer.recv bufSize (Nat.le_refl _) datagram
      let text ← udpReceive buffer (CharArray.recvLength bufSize datagram)
      match text with
      | some text => some (.printed text)
      | none => udpLoop buffer rest

/-- `main`: the request is built in the buffer that the loop uses. -/
def udpClient (buffer : CharArray bufSize) (received : List Received) :
    Option Outcome :=
  udpLoop (buffer.splice 0 request (by decide)) received

/-- The offset of the data in a packet. -/
def dataAt (datagram : List UInt8) : Nat :=
  headerLength (datagram.take 1) + sizeofUdphdr

/-- The packet has its UDP header, and the server's port in it. -/
def Answers (datagram : List UInt8) : Prop :=
  dataAt datagram ≤ datagram.length ∧
    (datagram.drop (headerLength (datagram.take 1))).take 2 = htons serverPort

instance (datagram : List UInt8) : Decidable (Answers datagram) :=
  inferInstanceAs (Decidable (_ ∧ _))

theorem dataAt_bounds (datagram : List UInt8) :
    8 ≤ dataAt datagram ∧ dataAt datagram ≤ 68 := by
  have hLength := headerLength_le (datagram.take 1)
  rw [dataAt, sizeofUdphdr]
  omega

/-- What the printing does with the packet at the start of the buffer. -/
theorem printData_recv (buffer : CharArray bufSize) (datagram : List UInt8)
    (hData : dataAt datagram ≤ datagram.length) :
    printData (buffer.recv bufSize (Nat.le_refl _) datagram)
        (CharArray.recvLength bufSize datagram) (dataAt datagram) =
      if datagram.length < bufSize then
        some (cstr (datagram.drop (dataAt datagram)))
      else none := by
  have hBounds := dataAt_bounds datagram
  by_cases hRoom : datagram.length < bufSize
  · have hLength : CharArray.recvLength bufSize datagram = datagram.length :=
      Nat.min_eq_left (Nat.le_of_lt hRoom)
    let packet : Packet bufSize := ⟨datagram, hRoom⟩
    have hIn : packet.In (buffer.recv bufSize (Nat.le_refl _) datagram) := by
      show CharArray.slice _ 0 datagram.length = datagram
      rw [buffer.slice_recv _ _ (by rw [hLength, Nat.zero_add]),
        List.take_of_length_le (Nat.le_of_lt hRoom), List.drop_zero,
        List.take_length]
    rw [if_pos hRoom, hLength]
    exact hIn.printData_eq hData
  · -- the terminator would be behind the buffer
    have hLength : CharArray.recvLength bufSize datagram = bufSize :=
      Nat.min_eq_right (Nat.le_of_not_lt hRoom)
    have hIndex : ((dataAt datagram : Int) +
        ((bufSize : Int) - dataAt datagram)).toNat = bufSize := by omega
    have hSmall : ¬(bufSize : Int) ≤ (bufSize : Int) - dataAt datagram := by
      omega
    rw [if_neg hRoom, hLength, printData, if_neg hSmall, hIndex,
      CharArray.write?, dif_neg (by decide)]
    rfl

/-- **One packet**, whatever was in the buffer before. -/
theorem udpReceive_recv (buffer : CharArray bufSize) (datagram : List UInt8) :
    udpReceive (buffer.recv bufSize (Nat.le_refl _) datagram)
        (CharArray.recvLength bufSize datagram) =
      if Answers datagram then
        if datagram.length < bufSize then
          some (some (cstr (datagram.drop (dataAt datagram))))
        else none
      else some none := by
  generalize hReceived : buffer.recv bufSize (Nat.le_refl _) datagram = b
  have hIhl : b.read? 0 1 = some (b.slice 0 1) := b.read?_of_fits (by decide)
  have hBounds := dataAt_bounds datagram
  by_cases hEmpty : datagram = []
  · -- the header length is an old one, but no length is long enough
    have hNone : datagram.length = 0 := List.length_eq_zero_iff.mpr hEmpty
    have hAnswers : ¬Answers datagram := fun h => by
      have hData := h.1
      omega
    have hShort : CharArray.recvLength bufSize datagram <
        headerLength (b.slice 0 1) + sizeofUdphdr := by
      rw [CharArray.recvLength, hNone, Nat.zero_min]
      exact Nat.succ_pos _
    rw [if_neg hAnswers, udpReceive, hIhl, Option.bind_eq_bind,
      Option.bind_some, if_pos hShort]
  · have hSome : 1 ≤ CharArray.recvLength bufSize datagram :=
      Nat.le_min.mpr ⟨List.length_pos_iff.mpr hEmpty, by decide⟩
    have hFirst : b.slice 0 1 = datagram.take 1 := by
      rw [← hReceived, buffer.slice_recv _ _ (by omega), List.drop_zero,
        List.take_take, Nat.min_eq_left (by decide)]
    have hHeader : headerLength (datagram.take 1) ≤ 60 := headerLength_le _
    by_cases hShort : datagram.length < dataAt datagram
    · have hAnswers : ¬Answers datagram :=
        fun h => Nat.not_le.mpr hShort h.1
      have hBytes : CharArray.recvLength bufSize datagram <
          headerLength (datagram.take 1) + sizeofUdphdr :=
        Nat.lt_of_le_of_lt (Nat.min_le_left _ _) hShort
      rw [if_neg hAnswers, udpReceive, hIhl, hFirst, Option.bind_eq_bind,
        Option.bind_some, if_pos hBytes]
    · have hLong : dataAt datagram ≤ datagram.length :=
        Nat.le_of_not_lt hShort
      have hBytes : dataAt datagram ≤ CharArray.recvLength bufSize datagram :=
        Nat.le_min.mpr ⟨hLong, Nat.le_trans hBounds.2 (by decide)⟩
      have hPort : b.slice (headerLength (datagram.take 1)) 2 =
          (datagram.drop (headerLength (datagram.take 1))).take 2 := by
        rw [← hReceived, buffer.slice_recv _ _ (by
          rw [dataAt, sizeofUdphdr] at hBytes
          omega), List.drop_take, List.take_take, Nat.min_eq_left (by
          rw [bufSize]
          omega)]
      have hSource : b.read? (headerLength (datagram.take 1)) 2 =
          some ((datagram.drop (headerLength (datagram.take 1))).take 2) := by
        rw [b.read?_of_fits (by rw [bufSize]; omega), hPort]
      have hTwo : ((datagram.drop
          (headerLength (datagram.take 1))).take 2).length = 2 := by
        rw [← hPort, b.length_slice (by rw [bufSize]; omega)]
      have hPrint := printData_recv buffer datagram hLong
      rw [hReceived] at hPrint
      rw [udpReceive, hIhl, hFirst]
      simp only [Option.bind_eq_bind, Option.bind_some]
      have hEnough : ¬CharArray.recvLength bufSize datagram <
          headerLength (datagram.take 1) + sizeofUdphdr :=
        Nat.not_lt.mpr hBytes
      rw [if_neg hEnough, hSource, Option.bind_some]
      by_cases hFrom : Answers datagram
      · rw [if_pos hFrom, if_neg (not_not_intro
          ((ntohs_eq_iff hTwo (by decide)).mpr hFrom.2)), ← dataAt, hPrint]
        split <;> rfl
      · rw [if_neg hFrom, if_pos fun h => hFrom
          ⟨hLong, (ntohs_eq_iff hTwo (by decide)).mp h⟩]

/-- What ends the loop: an error, or the first packet that answers. -/
def ends : Received → Bool
  | none => true
  | some datagram => decide (Answers datagram)

/-- What has been printed then. -/
def outcome : Option Received → Option Outcome
  | none => some .waiting
  | some none => some .failed
  | some (some datagram) =>
      if datagram.length < bufSize then
        some (.printed (cstr (datagram.drop (dataAt datagram))))
      else none

theorem udpLoop_eq (buffer : CharArray bufSize) (received : List Received) :
    udpLoop buffer received = outcome (received.find? ends) := by
  induction received generalizing buffer with
  | nil => rfl
  | cons r rest ih =>
      cases r with
      | none => rfl
      | some datagram =>
          rw [udpLoop]
          simp only [udpReceive_recv, Option.bind_eq_bind]
          by_cases hAnswers : Answers datagram
          · have hEnds : ends (some datagram) = true :=
              decide_eq_true hAnswers
            rw [List.find?_cons_of_pos hEnds, if_pos hAnswers, outcome]
            split <;> rfl
          · have hGoes : ¬ends (some datagram) = true := by
              simpa [ends] using hAnswers
            rw [List.find?_cons_of_neg hGoes, if_neg hAnswers]
            exact ih _

/-- **The client with a raw socket.**  Whatever the buffer held, and whatever
has been received before, the first packet with a whole UDP header and the
server's port ends the loop: what follows its header is printed up to the first
NUL, unless the packet fills the buffer, where the run is undefined. -/
theorem udpClient_outcome (buffer : CharArray bufSize)
    (received : List Received) :
    udpClient buffer received = outcome (received.find? ends) :=
  udpLoop_eq _ received

end UnixHomework.Ports.Listeners
