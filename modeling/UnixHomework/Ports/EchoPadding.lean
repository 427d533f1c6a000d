import UnixHomework.Ports.EchoFilter

/-!
# Padding behind a request

A link fills short frames up with zero bytes.  The server takes the length of
the payload from the length of the frame, so the padding becomes part of it,
but the payload is then used as a string, and the padding is behind its
terminator.  What the server does is the same, with one exception
(`padding_harmless_iff`): an empty line is ignored because it has no data, and
with padding it has.
-/

namespace UnixHomework.Ports.Echo

open UnixHomework.Verified

/-- A field of a frame is not moved by what is behind the frame. -/
theorem field_append {frame : List UInt8} (pad : List UInt8) {o k : Nat}
    (h : o + k ≤ frame.length) :
    field (frame ++ pad) o k = field frame o k := by
  rw [field, field, List.drop_append_of_le_length (by omega),
    List.take_append_of_le_length (by rw [List.length_drop]; omega)]

section Padding

variable {frame ethDst ethSrc ipSrc ipDst text : List UInt8}
  {source dest : Nat} (k : Nat)

theorem Carries.ipLength_padded
    (h : Carries frame ethDst ethSrc ipSrc ipDst source dest text) :
    ipLength (frame ++ List.replicate k 0) = 20 := by
  have hLength := h.length
  rw [ipLength, field_append _ (by omega), h.vihl]
  rfl

theorem Carries.payload_padded
    (h : Carries frame ethDst ethSrc ipSrc ipDst source dest text)
    (hNoNul : (0 : UInt8) ∉ text) :
    payload (frame ++ List.replicate k 0) = text := by
  have hLength := h.length
  have hDrop : frame.drop 42 = text := by
    have hText := h.text
    rwa [field, List.take_of_length_le
      (by rw [List.length_drop]; omega)] at hText
  rw [payload, h.ipLength_padded, List.drop_append_of_le_length (by omega),
    hDrop, cstr_append_zeros, cstr_of_noNul hNoNul]

/-- A padded request is admitted if there is anything behind its headers, text
or padding: the server looks at the length of the frame alone. -/
theorem Carries.admitted_padded
    (h : Carries frame ethDst ethSrc ipSrc ipDst clientPort serverPort text) :
    Admitted (frame ++ List.replicate k 0) ↔ text ≠ [] ∨ k ≠ 0 := by
  have hLength := h.length
  have hAll : (frame ++ List.replicate k (0 : UInt8)).length =
      42 + (text.length + k) := by
    rw [List.length_append, List.length_replicate]
    omega
  have hText : text ≠ [] ↔ text.length ≠ 0 := by
    rw [ne_eq, ne_eq, List.length_eq_zero_iff]
  rw [hText]
  constructor
  · intro ha
    have hData := ha.data
    rw [h.ipLength_padded, hAll] at hData
    omega
  · intro hSome
    constructor
    · omega
    · rw [field_append _ (by omega), h.protocol]
    · rw [h.ipLength_padded, field_append _ (by omega), h.source]
      rfl
    · rw [h.ipLength_padded, field_append _ (by omega), h.dest]
      rfl
    · rw [h.ipLength_padded, hAll]
      omega

/-- The message of a padded request: the sender's address and the text.  The
padding begins with a zero byte, which ends the string if the text does not. -/
theorem Carries.respond_padded
    (h : Carries frame ethDst ethSrc ipSrc ipDst clientPort serverPort text)
    (hIp : ipSrc.length = 4) (hNoNul : (0 : UInt8) ∉ text)
    (clients : ClientTable) :
    respond clients (frame ++ List.replicate k 0) =
      if text ≠ [] ∨ k ≠ 0 then
        answer clients ⟨⟨ipSrc, hIp⟩, clientPort, text⟩
      else (clients, .skip) := by
  have hLength := h.length
  have hSource : field (frame ++ List.replicate k 0) 26 4 = ipSrc := by
    rw [field_append _ (by omega), h.ipSrc]
  by_cases ha : Admitted (frame ++ List.replicate k 0)
  · rw [respond, dif_pos ha, if_pos ((h.admitted_padded k).mp ha)]
    simp only [Admitted.datagram, hSource, h.payload_padded k hNoNul]
  · rw [respond, dif_neg ha,
      if_neg fun hSome => ha ((h.admitted_padded k).mpr hSome)]

end Padding

/-- A message is never ignored, it is counted or closes the count. -/
theorem answer_ne_skip (clients : ClientTable) (d : Datagram) :
    (answer clients d).2 ≠ .skip := by
  unfold answer
  rcases countDatagram clients d with ⟨next, counter⟩
  cases counter with
  | none => exact Decision.noConfusion
  | some counter => exact Decision.noConfusion

/-- What the server makes of a frame that does not fill its buffer. -/
theorem judge_eq_respond (clients : ClientTable) (b : Buffer)
    {frame : List UInt8} (h : frame.length < bufSize) :
    judge clients (recvfrom b frame).1 (recvfrom b frame).2 =
      some (respond clients frame) := by
  rw [judge_received, received_of_le (Nat.le_of_lt h),
    if_neg fun hBoth => Nat.ne_of_lt h hBoth.2]

/-- **Padding does no harm, except to an empty line.**  Without padding such a
line is no data at all and is ignored; with padding it is a message without
text, and is counted and answered. -/
theorem padding_harmless_iff {cfg : ClientConfig} {b next : Buffer}
    {line frame : List UInt8} {k : Nat} (hNoNul : (0 : UInt8) ∉ line)
    (hSend : clientSend cfg b line = some (next, frame))
    (hLen : (frame ++ List.replicate k 0).length < bufSize)
    (clients : ClientTable) (b1 b2 : Buffer) :
    judge clients (recvfrom b1 (frame ++ List.replicate k 0)).1
          (recvfrom b1 (frame ++ List.replicate k 0)).2 =
        judge clients (recvfrom b2 frame).1 (recvfrom b2 frame).2 ↔
      line ≠ [] ∨ k = 0 := by
  have hCarries := carries_of_clientSend hSend
  have hShort : frame.length < bufSize := by
    rw [List.length_append] at hLen
    omega
  have hPadded := hCarries.respond_padded k cfg.clientIp.size_eq hNoNul clients
  have hPlain := hCarries.respond_padded 0 cfg.clientIp.size_eq hNoNul clients
  rw [List.replicate_zero, List.append_nil] at hPlain
  rw [judge_eq_respond clients b1 hLen, judge_eq_respond clients b2 hShort,
    hPadded, hPlain, Option.some.injEq]
  by_cases hLine : line = []
  · by_cases hk : k = 0
    · simp [hLine, hk]
    · have hSkip := answer_ne_skip clients
        ⟨⟨cfg.clientIp.bytes, cfg.clientIp.size_eq⟩, clientPort, line⟩
      rw [if_pos (Or.inr hk), if_neg (by simp [hLine])]
      refine iff_of_false (fun hEq => hSkip (congrArg Prod.snd hEq)) ?_
      simp [hLine, hk]
  · rw [if_pos (Or.inl hLine), if_pos (Or.inl hLine)]
    exact iff_of_true rfl (Or.inl hLine)

/-- `hi`, filled up to the 60 bytes of the shortest frame. -/
theorem padded_hi_harmless :
    ∃ next frame, clientSend firstExchange.cfg (.zeros bufSize)
        (ascii ['h', 'i']) = some (next, frame) ∧
      judge newServer.clients
          (recvfrom (.zeros bufSize) (frame ++ List.replicate 16 0)).1
          (recvfrom (.zeros bufSize) (frame ++ List.replicate 16 0)).2 =
        judge newServer.clients (recvfrom (.zeros bufSize) frame).1
          (recvfrom (.zeros bufSize) frame).2 := by
  obtain ⟨⟨next, frame⟩, hSend⟩ := Option.isSome_iff_exists.mp
    (show (clientSend firstExchange.cfg (.zeros bufSize)
      (ascii ['h', 'i'])).isSome = true by decide +kernel)
  have hLen : (frame ++ List.replicate 16 (0 : UInt8)).length < bufSize := by
    rw [List.length_append, (carries_of_clientSend hSend).length]
    decide
  exact ⟨next, frame, hSend, (padding_harmless_iff (by decide) hSend hLen
    newServer.clients _ _).mpr (Or.inl (by decide))⟩

/-- The empty line: 42 bytes are ignored, 60 are answered. -/
theorem padded_empty_line_answered :
    ∃ next frame, clientSend firstExchange.cfg (.zeros bufSize) [] =
        some (next, frame) ∧
      (frame ++ List.replicate 18 0).length = 60 ∧
      judge newServer.clients
          (recvfrom (.zeros bufSize) (frame ++ List.replicate 18 0)).1
          (recvfrom (.zeros bufSize) (frame ++ List.replicate 18 0)).2 ≠
        judge newServer.clients (recvfrom (.zeros bufSize) frame).1
          (recvfrom (.zeros bufSize) frame).2 := by
  have hRun : (clientSend firstExchange.cfg (.zeros bufSize) []).map
      (fun sent =>
        let padded := sent.2 ++ List.replicate 18 0
        (padded.length,
          (judge newServer.clients (recvfrom (.zeros bufSize) padded).1
            (recvfrom (.zeros bufSize) padded).2).map (·.2),
          (judge newServer.clients (recvfrom (.zeros bufSize) sent.2).1
            (recvfrom (.zeros bufSize) sent.2).2).map (·.2))) =
      some (60, some (.reply (ascii [' ', '1'])), some .skip) := by
    decide +kernel
  obtain ⟨⟨next, frame⟩, hSend, hValues⟩ := Option.map_eq_some_iff.mp hRun
  simp only [Prod.mk.injEq] at hValues
  refine ⟨next, frame, hSend, hValues.1, fun hSame => ?_⟩
  rw [hSame, hValues.2.2] at hValues
  simp at hValues

end UnixHomework.Ports.Echo
