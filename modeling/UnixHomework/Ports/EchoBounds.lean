import UnixHomework.Ports.EchoFilter

/-!
# The bounds of the echo server's buffers

All accesses of one iteration are inside the two arrays of 1500 bytes except
in two cases (`serverStep_isSome_iff`), as long as the sender's counter has not
reached the largest `int`.  A frame that fills the buffer has its
terminator written behind it: `data_len` is tested against the size of the
buffer, not against what the headers leave of it.  And the reply is longer
than the payload by a space and the counter, so a long payload overflows the
buffer when the reply is copied back over it; the copy is a `strcpy`.

Wherever the IP header's length puts the UDP header, its ports are inside the
buffer.
-/

namespace UnixHomework.Ports.Echo

open UnixHomework.Verified

/-- The counter that the next message of a sender is answered with.  A sender
that the full table has no room for is counted with the last entry. -/
def nextCounter (t : ClientTable) (ip : CharArray 4) (port : Nat) : Int :=
  match findClient t ip port with
  | some i => t.counter i + 1
  | none =>
      if t.entries.length < maxClients then 1
      else t.counter (t.entries.length - 1) + 1

theorem countDatagram_counter (t : ClientTable) (d : Datagram) :
    (countDatagram t d).2 =
      if d.data = closeText then none
      else some (nextCounter t d.ip d.port) := by
  unfold countDatagram lookupClient nextCounter
  by_cases hClose : d.data = closeText
  · simp only [if_pos hClose]
  · simp only [if_neg hClose]
    cases hFind : findClient t d.ip d.port with
    | some i => rfl
    | none =>
        by_cases hRoom : t.entries.length < maxClients
        · simp [addClient, dif_pos hRoom, if_pos hRoom, ClientTable.counter]
        · simp only [addClient, dif_neg hRoom, if_neg hRoom]

theorem length_replyText (data : List UInt8) (counter : Int) :
    (replyText data counter).length =
      min (bufSize - 1) (data.length + 1 + (printInt counter).length) := by
  rw [replyText, List.length_take, List.length_append, List.length_cons]
  omega

theorem sendReply_isSome_iff (serverMac : CharArray 6) (r : Request)
    (counter : Int) (hIp : r.ipLen ≤ 60) :
    (sendReply serverMac r counter).isSome ↔
      42 + (r.datagram.data.length + 1 + (printInt counter).length) <
        bufSize := by
  have hLength := length_replyText r.datagram.data counter
  have hSize : bufSize = 1500 := rfl
  by_cases hFits :
      42 + (replyText r.datagram.data counter).length + 1 ≤ bufSize
  · obtain ⟨b, sent, dest, hSend, -⟩ :=
      sendReply_carries serverMac r counter hIp hFits
    rw [hSend]
    exact iff_of_true rfl (by omega)
  · rw [sendReply_overflow serverMac r counter hIp (by omega)]
    exact iff_of_false Bool.false_ne_true (by omega)

/-- The frames that the server handles inside its buffers: those it ignores,
and of the others those that leave room for a NUL behind them and, unless they
are `CLOSE`, for the reply.  The reply has at most 11 characters of the counter
if this is an `int`; one that overflows has no text that the program could be
relied on to write. -/
def FitsBuffers (clients : ClientTable) (w : List UInt8) : Prop :=
  ∀ h : Admitted w, w.length < bufSize ∧
    (payload w = closeText ∨
      nextCounter clients h.datagram.ip clientPort ≤ intMax ∧
        42 + ((payload w).length + 1 +
          (printInt (nextCounter clients h.datagram.ip clientPort)).length) <
            bufSize)

/-- The reply is written if the counter is still an `int` and there is room
for its digits. -/
theorem replyCounted_isSome_iff (serverMac : CharArray 6) (r : Request)
    (counter : Int) (hIp : r.ipLen ≤ 60) :
    (replyCounted serverMac r counter).isSome ↔ counter ≤ intMax ∧
      42 + (r.datagram.data.length + 1 + (printInt counter).length) <
        bufSize := by
  by_cases hMax : counter ≤ intMax
  · rw [replyCounted_eq serverMac r hMax,
      sendReply_isSome_iff serverMac r counter hIp]
    exact (and_iff_right hMax).symm
  · rw [replyCounted_overflow serverMac r hMax]
    exact iff_of_false Bool.false_ne_true fun h => hMax h.1

theorem serve_isSome_iff (serverMac : CharArray 6) (clients : ClientTable)
    (r : Request) (hIp : r.ipLen ≤ 60) :
    (serve serverMac clients r).isSome ↔
      r.datagram.data = closeText ∨
        nextCounter clients r.datagram.ip r.datagram.port ≤ intMax ∧
          42 + (r.datagram.data.length + 1 + (printInt (nextCounter clients
            r.datagram.ip r.datagram.port)).length) < bufSize := by
  have hCounter := countDatagram_counter clients r.datagram
  by_cases hClose : r.datagram.data = closeText
  · rw [if_pos hClose] at hCounter
    simp only [serve, hCounter, Option.isSome_some, hClose, true_or]
  · rw [if_neg hClose] at hCounter
    rw [← replyCounted_isSome_iff serverMac r _ hIp]
    simp only [serve, hCounter, hClose, false_or, Option.bind_eq_bind]
    cases replyCounted serverMac r
      (nextCounter clients r.datagram.ip r.datagram.port) <;> simp

/-- **The bounds of one iteration**, for every frame, every table and whatever
the buffer holds. -/
theorem serverStep_isSome_iff (serverMac : CharArray 6) (s : Server)
    (frame : List UInt8) :
    (serverStep serverMac s frame).isSome ↔
      FitsBuffers s.clients (received frame) := by
  by_cases ha : Admitted (received frame)
  · by_cases hFull : (received frame).length = bufSize
    · rw [serverStep_of_full serverMac s ha hFull]
      refine iff_of_false Bool.false_ne_true fun hFits => ?_
      have hLess := (hFits ha).1
      omega
    · have hLen : frame.length < bufSize := by
        rw [received, List.length_take] at hFull
        omega
      rw [received_of_le (Nat.le_of_lt hLen)] at ha ⊢
      obtain ⟨b, -, hServe⟩ := ha.serverStep_eq serverMac s hLen
      rw [hServe, serve_isSome_iff serverMac s.clients _ (headerLength_le _)]
      exact ⟨fun h _ => ⟨hLen, h⟩, fun h => (h ha).2⟩
  · rw [serverStep_of_not_admitted serverMac s ha]
    exact iff_of_true rfl fun h => absurd h ha

/-- A request of a text. -/
def requestFrame (text : List UInt8) : List UInt8 :=
  List.replicate 12 2 ++ [8, 0, 0x45, 0, 0, 0, 0, 0, 0, 0, 64, 17, 0, 0,
    192, 168, 1, 100, 192, 168, 1, 1, 212, 49, 48, 57, 0, 0, 0, 0] ++ text

/-- The longest frame, and one of a byte less whose reply is longer. -/
theorem long_frames_overflow :
    (requestFrame (List.replicate 1458 97)).length = 1500 ∧
      serverStep (.zeros 6) newServer
        (requestFrame (List.replicate 1458 97)) = none ∧
      (requestFrame (List.replicate 1457 97)).length = 1499 ∧
      serverStep (.zeros 6) newServer
        (requestFrame (List.replicate 1457 97)) = none := by
  have hNone : ∀ x : Option (Server × Option Sent), x.isNone = true →
      x = none := fun x => Option.isNone_iff_eq_none.mp
  refine ⟨by decide +kernel, hNone _ ?_, by decide +kernel, hNone _ ?_⟩
  · decide +kernel
  · decide +kernel

end UnixHomework.Ports.Echo
