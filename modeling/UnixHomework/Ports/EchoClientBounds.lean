import UnixHomework.Ports.EchoFilter

/-!
# The bounds of the echo client's buffer

The input line and the frame have arrays of the same size, but the frame has
42 bytes of headers before the line, and a NUL behind it: a line of more than
1457 bytes is copied beyond the buffer.  A reply that fills the buffer has its
terminator written behind it, if it passes the client's filter
(`clientTurn_isSome_iff`).

Both conditions are about the line and about the frame that is received, and
neither is about what the buffer holds.
-/

namespace UnixHomework.Ports.Echo

open UnixHomework.Verified

/-- One iteration of the loop: the text printed, if any, and `none` if a byte
is written behind the buffer.  There is no reply to `CLOSE`, and none is waited
for when `sendto` fails. -/
def clientTurn (cfg : ClientConfig) (b : Buffer) (line : List UInt8)
    (sent : Bool) (reply : List UInt8) : Option (Option (List UInt8)) := do
  let (b, _) ← clientSend cfg b line
  if sent = false then some none
  else if line = closeText then some none
  else clientReceive b reply

/-- The frames that pass the client's filter. -/
structure FromServer (w : List UInt8) : Prop where
  /-- The protocol field says UDP. -/
  protocol : field w 23 1 = [17]
  /-- It comes from the server's port, -/
  source : ntohs (field w (14 + ipLength w) 2) = serverPort
  /-- and goes to the client's. -/
  dest : ntohs (field w (16 + ipLength w) 2) = clientPort

instance (w : List UInt8) : Decidable (FromServer w) :=
  decidable_of_iff
    (field w 23 1 = [17] ∧
      ntohs (field w (14 + ipLength w) 2) = serverPort ∧
        ntohs (field w (16 + ipLength w) 2) = clientPort)
    ⟨fun ⟨h1, h2, h3⟩ => ⟨h1, h2, h3⟩, fun ⟨h1, h2, h3⟩ => ⟨h1, h2, h3⟩⟩

theorem clientSend_isSome_iff (cfg : ClientConfig) (b : Buffer)
    (line : List UInt8) :
    (clientSend cfg b line).isSome ↔ line.length ≤ 1457 := by
  have hSize : bufSize = 1500 := rfl
  by_cases hFits : 42 + line.length + 1 ≤ bufSize
  · obtain ⟨next, frame, hSend, -⟩ := clientSend_carries cfg b hFits
    rw [hSend]
    exact iff_of_true rfl (by omega)
  · rw [clientSend_overflow cfg b (by omega)]
    exact iff_of_false Bool.false_ne_true (by omega)

section Receive

variable {b : Buffer} {w : List UInt8}

/-- The client behind the test of the protocol. -/
theorem clientReceive_eq (frame : List UInt8)
    (hHeader : 34 ≤ (received frame).length)
    (hProtocol : field (received frame) 23 1 = [17]) :
    clientReceive b frame =
      if ntohs ((recvfrom b frame).1.slice
            (14 + ipLength (received frame)) 2) ≠ serverPort ∨
          ntohs ((recvfrom b frame).1.slice
            (16 + ipLength (received frame)) 2) ≠ clientPort then some none
      else if 22 + ipLength (received frame) < (received frame).length then
        ((recvfrom b frame).1.write? (received frame).length [0]).bind
          fun b' => some (some (b'.strAt (22 + ipLength (received frame))))
      else some none := by
  obtain ⟨hHolds, hBytes⟩ := recvfrom_holds b frame
  have hIp : ipLength (received frame) ≤ 60 := headerLength_le _
  have hVihl : headerLength ((recvfrom b frame).1.slice 14 1) =
      ipLength (received frame) := by
    rw [hHolds.slice (by omega), ipLength]
  have hProto : (recvfrom b frame).1.slice 23 1 = [17] := by
    rw [hHolds.slice (by omega), hProtocol]
  have hDest : 14 + ipLength (received frame) + 2 =
      16 + ipLength (received frame) := by omega
  have hData : 14 + ipLength (received frame) + 8 =
      22 + ipLength (received frame) := by omega
  have hPorts : 16 + ipLength (received frame) + 2 ≤ bufSize := by
    simp only [bufSize]
    omega
  have hSome : (0 < ((received frame).length : Int) - (14 : Nat) -
      (ipLength (received frame) : Nat) - (8 : Nat)) ↔
      22 + ipLength (received frame) < (received frame).length := by
    omega
  simp only [clientReceive, hBytes, ethHlen, sizeofIphdr, sizeofUdphdr,
    Nat.reduceAdd, Option.bind_eq_bind, if_neg (Nat.not_lt.mpr hHeader),
    CharArray.read?_of_fits _ (by decide : 23 + 1 ≤ bufSize),
    Option.bind_some, hProto, ne_eq, not_true, if_false,
    CharArray.read?_of_fits _ (by decide : 14 + 1 ≤ bufSize), hVihl, hDest,
    hData, CharArray.read?_of_fits _ hPorts,
    CharArray.read?_of_fits _ (Nat.le_trans (by omega) hPorts :
      14 + ipLength (received frame) + 2 ≤ bufSize), hSome]
  by_cases hPayload : 22 + ipLength (received frame) < (received frame).length
  · have hEnd : 22 + ipLength (received frame) +
        (((received frame).length : Int) - (14 : Nat) -
          (ipLength (received frame) : Nat) - (8 : Nat)).toNat =
        (received frame).length := by
      omega
    rw [if_pos hPayload, if_pos hPayload, hEnd]
  · rw [if_neg hPayload, if_neg hPayload]

/-- A frame that is shorter than its headers is not looked at. -/
theorem clientReceive_of_short (b : Buffer) (frame : List UInt8)
    (hShort : (received frame).length < 34) :
    clientReceive b frame = some none := by
  rcases recvfrom_holds b frame with ⟨-, hBytes⟩
  simp only [clientReceive, hBytes, ethHlen, sizeofIphdr, Nat.reduceAdd,
    if_pos hShort]

theorem clientReceive_of_protocol (b : Buffer) (frame : List UInt8)
    (hHeader : 34 ≤ (received frame).length)
    (hProtocol : field (received frame) 23 1 ≠ [17]) :
    clientReceive b frame = some none := by
  rcases recvfrom_holds b frame with ⟨hHolds, hBytes⟩
  have hProto : (recvfrom b frame).1.slice 23 1 ≠ [17] := by
    rw [hHolds.slice (by omega)]
    exact hProtocol
  simp only [clientReceive, hBytes, ethHlen, sizeofIphdr, Nat.reduceAdd,
    if_neg (Nat.not_lt.mpr hHeader), Option.bind_eq_bind,
    CharArray.read?_of_fits _ (by decide : 23 + 1 ≤ bufSize),
    Option.bind_some, if_pos hProto]

/-- A reply that leaves a byte of the buffer free. -/
theorem clientReceive_isSome_of_room (frame : List UInt8)
    (hHeader : 34 ≤ (received frame).length)
    (hProtocol : field (received frame) 23 1 = [17])
    (hRoom : (received frame).length < bufSize) :
    (clientReceive b frame).isSome := by
  rcases (recvfrom b frame).1.exists_write? (received frame).length [0] 1 rfl
    (by omega) with ⟨b', hWrite, -⟩
  rw [clientReceive_eq frame hHeader hProtocol, hWrite]
  split
  · rfl
  · split <;> rfl

/-- A reply that fills the buffer: its terminator is written behind the array,
unless the ports are not those of the exchange. -/
theorem clientReceive_isSome_of_full (frame : List UInt8)
    (hFull : (received frame).length = bufSize)
    (hProtocol : field (received frame) 23 1 = [17]) :
    (clientReceive b frame).isSome ↔
      ntohs (field (received frame)
          (14 + ipLength (received frame)) 2) ≠ serverPort ∨
        ntohs (field (received frame)
          (16 + ipLength (received frame)) 2) ≠ clientPort := by
  rcases recvfrom_holds b frame with ⟨hHolds, -⟩
  have hIp : ipLength (received frame) ≤ 60 := headerLength_le _
  have hSize : bufSize = 1500 := rfl
  have hWrite : (recvfrom b frame).1.write? (received frame).length [0] =
      none := by
    apply dif_neg
    rw [List.length_singleton]
    omega
  rw [clientReceive_eq frame (by omega) hProtocol, hHolds.slice (by omega),
    hHolds.slice (by omega), hWrite, if_pos (by omega :
      22 + ipLength (received frame) < (received frame).length)]
  by_cases hPorts : ntohs (field (received frame)
        (14 + ipLength (received frame)) 2) ≠ serverPort ∨
      ntohs (field (received frame)
        (16 + ipLength (received frame)) 2) ≠ clientPort
  · rw [if_pos hPorts]
    exact iff_of_true rfl hPorts
  · rw [if_neg hPorts]
    exact iff_of_false Bool.false_ne_true hPorts

/-- **The terminator** is inside the buffer unless the reply fills it.
`recvfrom` is asked for as many bytes as the buffer has. -/
theorem clientReceive_isSome_iff (b : Buffer) (frame : List UInt8) :
    (clientReceive b frame).isSome ↔
      ¬(bufSize ≤ frame.length ∧ FromServer (received frame)) := by
  have hLength : (received frame).length = min bufSize frame.length :=
    List.length_take
  have hSize : bufSize = 1500 := rfl
  by_cases hHeader : 34 ≤ (received frame).length
  · by_cases hProtocol : field (received frame) 23 1 = [17]
    · by_cases hFull : bufSize ≤ frame.length
      · rw [clientReceive_isSome_of_full frame (by omega) hProtocol]
        constructor
        · rintro (hSource | hDest) hBoth
          · exact hSource hBoth.2.source
          · exact hDest hBoth.2.dest
        · intro hNot
          by_contra hPorts
          rw [not_or, not_ne_iff, not_ne_iff] at hPorts
          exact hNot ⟨hFull, hProtocol, hPorts.1, hPorts.2⟩
      · have hSome := clientReceive_isSome_of_room (b := b) frame hHeader
          hProtocol (by omega)
        exact iff_of_true hSome fun hBoth => hFull hBoth.1
    · rw [clientReceive_of_protocol b frame hHeader hProtocol]
      exact iff_of_true rfl fun hBoth => hProtocol hBoth.2.protocol
  · rw [clientReceive_of_short b frame (Nat.lt_of_not_le hHeader)]
    exact iff_of_true rfl fun hBoth => by omega

end Receive

/-- **The bounds of one iteration**, for every line, every reply and whatever
the buffer holds. -/
theorem clientTurn_isSome_iff (cfg : ClientConfig) (b : Buffer)
    (line : List UInt8) (sent : Bool) (reply : List UInt8) :
    (clientTurn cfg b line sent reply).isSome ↔
      line.length ≤ 1457 ∧
        (sent = true → line ≠ closeText →
          ¬(bufSize ≤ reply.length ∧ FromServer (received reply))) := by
  rw [← clientSend_isSome_iff cfg b line, clientTurn]
  cases hSend : clientSend cfg b line with
  | none => exact iff_of_false Bool.false_ne_true fun h => nomatch h.1
  | some next =>
      simp only [Option.bind_eq_bind, Option.bind_some, Option.isSome_some,
        true_and]
      cases sent with
      | false => exact iff_of_true rfl fun h => nomatch h
      | true =>
          by_cases hClose : line = closeText
          · rw [if_neg Bool.noConfusion, if_pos hClose]
            exact iff_of_true rfl fun _ h => absurd hClose h
          · rw [if_neg Bool.noConfusion, if_neg hClose,
              clientReceive_isSome_iff]
            exact ⟨fun h _ _ => h, fun h => h rfl hClose⟩

/-- A reply of a text. -/
def replyFrame (text : List UInt8) : List UInt8 :=
  List.replicate 12 2 ++ [8, 0, 0x45, 0, 0, 0, 0, 0, 0, 0, 64, 17, 0, 0,
    192, 168, 1, 1, 192, 168, 1, 100, 48, 57, 212, 49, 0, 0, 0, 0] ++ text

/-- A line of a byte too many, and the reply that fills the buffer. -/
theorem long_lines_and_replies_overflow :
    (clientTurn ⟨.zeros 4, .zeros 4, .zeros 6, .zeros 6⟩ (.zeros bufSize)
        (List.replicate 1458 97) true []) = none ∧
      (replyFrame (List.replicate 1458 97)).length = 1500 ∧
      (clientTurn ⟨.zeros 4, .zeros 4, .zeros 6, .zeros 6⟩ (.zeros bufSize)
        [104, 105] true (replyFrame (List.replicate 1458 97))) = none := by
  have hNone : ∀ x : Option (Option (List UInt8)), x.isNone = true →
      x = none := fun x => Option.isNone_iff_eq_none.mp
  refine ⟨hNone _ ?_, by decide +kernel, hNone _ ?_⟩
  · decide +kernel
  · decide +kernel

end UnixHomework.Ports.Echo
