import UnixHomework.Ports.EchoClient
import UnixHomework.Ports.EchoServer

/-!
# Request and reply of the echo pair

The frame that the client builds carries its addresses, ports and line, and
the server reads them back.  The frame that the server answers with carries
the right text to the right machine, but not the right addresses and port:
`reply_ip->saddr = ip->daddr` copies a field that the `memset` before it has
cleared, and `reply_udp->dest = udp->source` one that the statement before it
has overwritten, because both pointers lead into the same buffer.  The client
refuses the frame.
-/

namespace UnixHomework.Ports.Echo

open UnixHomework.Verified

/-! ## Frames in layers -/

/-- A frame of which the four parts are written one after the other, each
leaving the parts before it alone.  Request and reply are built in this way, so
one lemma puts both together. -/
theorem carries_of_layers {b1 b2 b3 b4 : Buffer}
    {ethDst ethSrc ipSrc ipDst text : List UInt8} {source dest : Nat}
    (e1 : b1.slice 0 6 = ethDst) (e2 : b1.slice 6 6 = ethSrc)
    (e3 : b1.slice 12 2 = [8, 0])
    (s2 : ∀ o j, o + j ≤ 14 ∨ 34 ≤ o → b2.slice o j = b1.slice o j)
    (i1 : b2.slice 14 1 = [0x45])
    (i2 : b2.slice 16 2 = htons (28 + text.length))
    (i3 : b2.slice 23 1 = [17]) (i4 : b2.slice 26 4 = ipSrc)
    (i5 : b2.slice 30 4 = ipDst)
    (s3 : ∀ o j, o + j ≤ 34 ∨ 42 ≤ o → b3.slice o j = b2.slice o j)
    (u1 : b3.slice 34 2 = htons source) (u2 : b3.slice 36 2 = htons dest)
    (s4 : ∀ o j, o + j ≤ 42 → b4.slice o j = b3.slice o j)
    (d1 : b4.slice 42 text.length = text)
    (hAll : 0 + (42 + text.length) ≤ bufSize) :
    Carries (b4.slice 0 (42 + text.length)) ethDst ethSrc ipSrc ipDst
      source dest text := by
  have hField : ∀ o k, o + k ≤ 42 + text.length →
      field (b4.slice 0 (42 + text.length)) o k = b4.slice o k :=
    fun o k h => field_slice b4 h
  exact
    { length := b4.length_slice hAll
      ethDst := by
        rw [hField 0 6 (by omega), s4 0 6 (by decide), s3 0 6 (by decide),
          s2 0 6 (by decide), e1]
      ethSrc := by
        rw [hField 6 6 (by omega), s4 6 6 (by decide), s3 6 6 (by decide),
          s2 6 6 (by decide), e2]
      ethType := by
        rw [hField 12 2 (by omega), s4 12 2 (by decide),
          s3 12 2 (by decide), s2 12 2 (by decide), e3]
      vihl := by
        rw [hField 14 1 (by omega), s4 14 1 (by decide),
          s3 14 1 (by decide), i1]
      totLen := by
        rw [hField 16 2 (by omega), s4 16 2 (by decide),
          s3 16 2 (by decide), i2]
      protocol := by
        rw [hField 23 1 (by omega), s4 23 1 (by decide),
          s3 23 1 (by decide), i3]
      ipSrc := by
        rw [hField 26 4 (by omega), s4 26 4 (by decide),
          s3 26 4 (by decide), i4]
      ipDst := by
        rw [hField 30 4 (by omega), s4 30 4 (by decide),
          s3 30 4 (by decide), i5]
      source := by rw [hField 34 2 (by omega), s4 34 2 (by decide), u1]
      dest := by rw [hField 36 2 (by omega), s4 36 2 (by decide), u2]
      text := by rw [hField 42 _ (by omega), d1] }

/-- The length that both programs pass to `sendto`: the Ethernet header, and
what the IP header says. -/
theorem packetLength_eq {b : Buffer} {n : Nat}
    (hTot : b.slice 16 2 = htons (28 + n)) (hFits : 42 + n ≤ bufSize) :
    14 + ntohs (b.slice 16 2) = 42 + n := by
  simp only [bufSize] at hFits
  rw [hTot, ntohs_htons (by omega)]
  omega

/-! ## The request -/

section Request

variable (cfg : ClientConfig) (b : Buffer)

theorem requestIp_eq (length : Nat) :
    ∃ b', requestIp cfg length b = some b' ∧
      b'.slice 14 1 = [0x45] ∧ b'.slice 16 2 = htons (28 + length) ∧
        b'.slice 23 1 = [17] ∧ b'.slice 26 4 = cfg.clientIp.bytes ∧
          b'.slice 30 4 = cfg.serverIp.bytes ∧
            ∀ o j, o + j ≤ 14 ∨ 34 ≤ o → b'.slice o j = b.slice o j := by
  rcases ipHeader_eq b 54321 length with ⟨b1, h1, i1, i2, i3, -, s1⟩
  rcases ipAddresses_eq b1 cfg.clientIp.size_eq cfg.serverIp.size_eq i1 with
    ⟨b2, b3, b4, h2, -, h3, h4, a1, a2, s4⟩
  refine ⟨b4, ?_, ?_, ?_, ?_, a1, a2, ?_⟩
  · simp only [requestIp, ethHlen, Nat.reduceAdd, Option.bind_eq_bind, h1, h2,
      h3, h4, Option.bind_some]
  · rw [s4 14 1 (by decide), i1]
  · rw [s4 16 2 (by decide), i2]
  · rw [s4 23 1 (by decide), i3]
  · intro o j h
    rw [s4 o j (by omega), s1 o j (by omega)]

theorem requestUdp_eq (length : Nat) (hVihl : b.slice 14 1 = [0x45]) :
    ∃ b', requestUdp length b = some b' ∧
      b'.slice 34 2 = htons clientPort ∧ b'.slice 36 2 = htons serverPort ∧
        ∀ o j, o + j ≤ 34 ∨ 42 ≤ o → b'.slice o j = b.slice o j := by
  rcases udpFields_eq b clientPort serverPort length with
    ⟨b1, b2, b3, b4, h1, -, h2, h3, h4, u1, u2, s4⟩
  refine ⟨b4, ?_, u1, u2, s4⟩
  simp only [requestUdp, udpOffset_eq b hVihl, sizeofUdphdr, Nat.reduceAdd,
    Option.bind_eq_bind, Option.bind_some, h1, h2, h3, h4]

theorem requestData_eq {line : List UInt8} (hVihl : b.slice 14 1 = [0x45])
    (hFits : 42 + line.length + 1 ≤ bufSize) :
    ∃ b', requestData line b = some b' ∧
      b'.slice 42 line.length = line ∧
        ∀ o j, o + j ≤ 42 → b'.slice o j = b.slice o j := by
  rcases b.exists_write? 42 line line.length rfl (by omega) with
    ⟨b1, h1, w1, s1⟩
  rcases b1.exists_write? (42 + line.length) [0] 1 rfl hFits with
    ⟨b2, h2, w2, s2⟩
  refine ⟨b2, ?_, ?_, ?_⟩
  · simp only [requestData, udpOffset_eq b hVihl, sizeofUdphdr,
      Nat.reduceAdd, Option.bind_eq_bind, Option.bind_some, h1, h2]
  · rw [s2 42 _ (Or.inl (Nat.le_refl _)), w1]
  · intro o j h
    rw [s2 o j (by omega), s1 o j (by omega)]

/-- A line that leaves no room for its NUL. -/
theorem requestData_overflow {line : List UInt8}
    (hVihl : b.slice 14 1 = [0x45])
    (hLong : bufSize < 42 + line.length + 1) : requestData line b = none := by
  simp only [requestData, udpOffset_eq b hVihl, sizeofUdphdr, Nat.reduceAdd,
    Option.bind_eq_bind, Option.bind_some]
  refine Option.bind_eq_none_iff.mpr fun b1 _ => dif_neg ?_
  rw [List.length_singleton]
  omega

end Request

/-- The request: the configured machines and addresses, the two ports and the
line.  There must be room for the NUL that `strcpy` writes behind the line. -/
theorem clientSend_carries (cfg : ClientConfig) (b : Buffer)
    {line : List UInt8} (hFits : 42 + line.length + 1 ≤ bufSize) :
    ∃ b' frame, clientSend cfg b line = some (b', frame) ∧
      Carries frame cfg.serverMac.bytes cfg.clientMac.bytes
        cfg.clientIp.bytes cfg.serverIp.bytes clientPort serverPort line := by
  rcases ethHeader_eq b cfg.serverMac.size_eq cfg.clientMac.size_eq with
    ⟨b1, h1, e1, e2, e3, -⟩
  rcases requestIp_eq cfg b1 line.length with
    ⟨b2, h2, i1, i2, i3, i4, i5, s2⟩
  rcases requestUdp_eq b2 line.length i1 with ⟨b3, h3, u1, u2, s3⟩
  have hVihl : b3.slice 14 1 = [0x45] := by rw [s3 14 1 (by decide), i1]
  rcases requestData_eq b3 hVihl hFits with ⟨b4, h4, d1, s4⟩
  have hTot : b4.slice 16 2 = htons (28 + line.length) := by
    rw [s4 16 2 (by decide), s3 16 2 (by decide), i2]
  have hLength := packetLength_eq hTot (Nat.le_of_succ_le hFits)
  have hAll : 0 + (42 + line.length) ≤ bufSize := by omega
  refine ⟨b4, b4.slice 0 (42 + line.length), ?_, ?_⟩
  · simp only [clientSend, requestEth, Option.bind_eq_bind, h1, h2, h3, h4,
      Option.bind_some, ethHlen, Nat.reduceAdd,
      b4.read?_of_fits (by decide : 16 + 2 ≤ bufSize), hLength,
      b4.read?_of_fits hAll]
  · exact carries_of_layers e1 e2 e3 s2 i1 i2 i3 i4 i5 s3 u1 u2 s4 d1 hAll

/-- The client sends no longer line: its own buffer ends before. -/
theorem clientSend_overflow (cfg : ClientConfig) (b : Buffer)
    {line : List UInt8} (hLong : bufSize < 42 + line.length + 1) :
    clientSend cfg b line = none := by
  rcases ethHeader_eq b cfg.serverMac.size_eq cfg.clientMac.size_eq with
    ⟨b1, h1, -⟩
  rcases requestIp_eq cfg b1 line.length with ⟨b2, h2, i1, -⟩
  rcases requestUdp_eq b2 line.length i1 with ⟨b3, h3, -, -, s3⟩
  have hVihl : b3.slice 14 1 = [0x45] := by rw [s3 14 1 (by decide), i1]
  simp only [clientSend, requestEth, Option.bind_eq_bind, h1, h2, h3,
    Option.bind_some, requestData_overflow b3 hVihl hLong, Option.bind_none]

/-- Whatever the client sends is a request. -/
theorem carries_of_clientSend {cfg : ClientConfig} {b next : Buffer}
    {line frame : List UInt8} (h : clientSend cfg b line = some (next, frame)) :
    Carries frame cfg.serverMac.bytes cfg.clientMac.bytes
      cfg.clientIp.bytes cfg.serverIp.bytes clientPort serverPort line := by
  by_cases hFits : 42 + line.length + 1 ≤ bufSize
  · rcases clientSend_carries cfg b hFits with ⟨b', frame', hSend, hCarries⟩
    obtain ⟨-, rfl⟩ :=
      Prod.mk.inj (Option.some.inj (hSend.symm.trans h))
    exact hCarries
  · rw [clientSend_overflow cfg b (by omega)] at h
    contradiction

/-! ## The reply -/

def zeroIp : List UInt8 := [0, 0, 0, 0]

section Reply

variable (b : Buffer)

/-- The Ethernet header names the request's sender and the server.  The sender
is copied before it is overwritten. -/
theorem replyEth_eq (serverMac : CharArray 6) :
    ∃ b', replyEth serverMac b = some b' ∧
      b'.slice 0 6 = b.slice 6 6 ∧ b'.slice 6 6 = serverMac.bytes ∧
        b'.slice 12 2 = [8, 0] ∧
          ∀ o j, 14 ≤ o → b'.slice o j = b.slice o j := by
  rw [replyEth, b.read?_of_fits (by decide)]
  exact ethHeader_eq b (b.length_slice (by decide)) serverMac.size_eq

/-- The IP header has no addresses: both were cleared by the `memset` of the
header before they are copied from it. -/
theorem replyIp_eq (length : Nat) :
    ∃ b', replyIp length b = some b' ∧
      b'.slice 14 1 = [0x45] ∧ b'.slice 16 2 = htons (28 + length) ∧
        b'.slice 23 1 = [17] ∧ b'.slice 26 4 = zeroIp ∧
          b'.slice 30 4 = zeroIp ∧
            ∀ o j, o + j ≤ 14 ∨ 34 ≤ o → b'.slice o j = b.slice o j := by
  rcases ipHeader_eq b 12345 length with ⟨b1, h1, i1, i2, i3, i4, s1⟩
  rcases ipAddresses_eq b1 (rfl : zeroIp.length = 4)
    (rfl : zeroIp.length = 4) i1 with ⟨b2, b3, b4, h2, w2, h3, h4, a1, a2, s4⟩
  refine ⟨b4, ?_, ?_, ?_, ?_, a1, a2, ?_⟩
  · have hDaddr : b1.read? 30 4 = some zeroIp := by
      rw [b1.read?_of_fits (by decide), i4]
      rfl
    simp only [replyIp, ethHlen, Nat.reduceAdd, Option.bind_eq_bind, h1,
      hDaddr, h2, b2.read?_of_fits (by decide : 26 + 4 ≤ bufSize), w2, h3, h4,
      Option.bind_some]
  · rw [s4 14 1 (by decide), i1]
  · rw [s4 16 2 (by decide), i2]
  · rw [s4 23 1 (by decide), i3]
  · intro o j h
    rw [s4 o j (by omega), s1 o j (by omega)]

/-- The source port is the server's; the other one is read behind the
request's IP header, wherever that has ended.  Behind a header without options
it is the source port just written. -/
theorem replyUdp_eq {ipLen : Nat} (length : Nat) (hIp : ipLen ≤ 60)
    (hVihl : b.slice 14 1 = [0x45]) :
    ∃ b' dest, replyUdp ipLen length b = some b' ∧
      (ipLen = 20 → dest = serverPort) ∧
        b'.slice 34 2 = htons serverPort ∧ b'.slice 36 2 = htons dest ∧
          ∀ o j, o + j ≤ 34 ∨ 42 ≤ o → b'.slice o j = b.slice o j := by
  rcases b.exists_write? 34 (htons serverPort) 2 rfl (by decide) with
    ⟨b1, h1, -⟩
  have hRead : 14 + ipLen + 2 ≤ bufSize := by
    simp only [bufSize]
    omega
  have hDest : htons (ntohs (b1.slice (14 + ipLen) 2)) =
      b1.slice (14 + ipLen) 2 :=
    htons_ntohs (b1.length_slice hRead)
  rcases udpFields_eq b serverPort (ntohs (b1.slice (14 + ipLen) 2)) length
    with ⟨b1', b2, b3, b4, h1', w1, h2, h3, h4, u1, u2, s4⟩
  obtain rfl : b1 = b1' := Option.some.inj (h1.symm.trans h1')
  refine ⟨b4, _, ?_, ?_, u1, u2, s4⟩
  · rw [hDest] at h2
    simp only [replyUdp, udpOffset_eq b hVihl, ethHlen, sizeofUdphdr,
      Nat.reduceAdd, Option.bind_eq_bind, Option.bind_some, h1,
      b1.read?_of_fits hRead, h2, h3, h4]
  · rintro rfl
    rw [w1]
    rfl

theorem replyData_eq {reply : List UInt8} (hVihl : b.slice 14 1 = [0x45])
    (hFits : 42 + reply.length + 1 ≤ bufSize) :
    ∃ b', replyData reply b = some b' ∧
      b'.slice 42 reply.length = reply ∧
        ∀ o j, o + j ≤ 42 → b'.slice o j = b.slice o j := by
  rcases b.exists_write? 42 (reply ++ [0]) (reply.length + 1)
    (by simp) (by omega) with ⟨b1, h1, w1, s1⟩
  refine ⟨b1, ?_, ?_, fun o j h => s1 o j (Or.inl h)⟩
  · simp only [replyData, udpOffset_eq b hVihl, sizeofUdphdr, Nat.reduceAdd,
      Option.bind_eq_bind, Option.bind_some, h1]
  · have hPart : b1.slice (42 + 0) reply.length =
        ((b1.slice 42 (reply.length + 1)).drop 0).take reply.length :=
      b1.slice_of_slice (by omega)
    rw [Nat.add_zero, w1, List.drop_zero] at hPart
    rw [hPart, List.take_append_of_le_length (Nat.le_refl _),
      List.take_length]

/-- `strcpy` past the end of the buffer. -/
theorem replyData_overflow {reply : List UInt8}
    (hVihl : b.slice 14 1 = [0x45])
    (hLong : bufSize < 42 + reply.length + 1) : replyData reply b = none := by
  simp only [replyData, udpOffset_eq b hVihl, sizeofUdphdr, Nat.reduceAdd,
    Option.bind_eq_bind, Option.bind_some]
  refine dif_neg ?_
  rw [List.length_append, List.length_singleton]
  omega

end Reply

section SendReply

variable (serverMac : CharArray 6) (r : Request) (counter : Int)

/-- The reply: the right machines and the right text, no IP addresses, and the
server's port, twice unless the request has IP options. -/
theorem sendReply_carries (hIp : r.ipLen ≤ 60)
    (hFits : 42 + (replyText r.datagram.data counter).length + 1 ≤ bufSize) :
    ∃ b sent dest, sendReply serverMac r counter = some (b, sent) ∧
      (r.ipLen = 20 → dest = serverPort) ∧
        Carries sent.frame (r.buffer.slice 6 6) serverMac.bytes zeroIp zeroIp
          serverPort dest (replyText r.datagram.data counter) := by
  generalize hText : replyText r.datagram.data counter = reply at hFits
  rcases replyEth_eq r.buffer serverMac with ⟨b1, h1, e1, e2, e3, s1⟩
  rcases replyIp_eq b1 reply.length with ⟨b2, h2, i1, i2, i3, i4, i5, s2⟩
  rcases replyUdp_eq b2 reply.length hIp i1 with
    ⟨b3, dest, h3, hDest, u1, u2, s3⟩
  have hVihl : b3.slice 14 1 = [0x45] := by rw [s3 14 1 (by decide), i1]
  rcases replyData_eq b3 hVihl hFits with ⟨b4, h4, d1, s4⟩
  have hTot : b4.slice 16 2 = htons (28 + reply.length) := by
    rw [s4 16 2 (by decide), s3 16 2 (by decide), i2]
  have hLength := packetLength_eq hTot (Nat.le_of_succ_le hFits)
  have hAll : 0 + (42 + reply.length) ≤ bufSize := by omega
  refine ⟨b4, ⟨b4.slice 0 (42 + reply.length), ⟨b4.slice 6 6,
    b4.length_slice (by decide)⟩⟩, dest, ?_, hDest, ?_⟩
  · simp only [sendReply, hText, Option.bind_eq_bind, h1, h2, h3, h4,
      Option.bind_some, b4.load?_of_fits (by decide : 6 + 6 ≤ bufSize),
      ethHlen, Nat.reduceAdd,
      b4.read?_of_fits (by decide : 16 + 2 ≤ bufSize), hLength,
      b4.read?_of_fits hAll]
  · exact carries_of_layers e1 e2 e3 s2 i1 i2 i3 i4 i5 s3 u1 u2 s4 d1 hAll

/-- A reply that leaves no room for its NUL. -/
theorem sendReply_overflow (hIp : r.ipLen ≤ 60)
    (hLong : bufSize < 42 + (replyText r.datagram.data counter).length + 1) :
    sendReply serverMac r counter = none := by
  generalize hText : replyText r.datagram.data counter = reply at hLong
  rcases replyEth_eq r.buffer serverMac with ⟨b1, h1, e1, e2, e3, s1⟩
  rcases replyIp_eq b1 reply.length with ⟨b2, h2, i1, i2, i3, i4, i5, s2⟩
  rcases replyUdp_eq b2 reply.length hIp i1 with
    ⟨b3, dest, h3, -, u1, u2, s3⟩
  have hVihl : b3.slice 14 1 = [0x45] := by rw [s3 14 1 (by decide), i1]
  simp only [sendReply, hText, Option.bind_eq_bind, h1, h2, h3,
    Option.bind_some, replyData_overflow b3 hVihl hLong, Option.bind_none]

end SendReply

/-! ## Receiving a frame -/

section Receive

variable (b : Buffer) {frame ethDst ethSrc ipSrc ipDst text : List UInt8}
  {source dest : Nat}

/-- What the buffer holds after `recvfrom`. -/
theorem Carries.received
    (h : Carries frame ethDst ethSrc ipSrc ipDst source dest text)
    (hFits : 42 + text.length ≤ bufSize) :
    (recvfrom b frame).2 = 42 + text.length ∧
      ∀ o k, o + k ≤ 42 + text.length →
        (recvfrom b frame).1.slice o k = field frame o k := by
  have hFrame : frame.length ≤ bufSize := by rw [h.length]; exact hFits
  refine ⟨?_, fun o k hk => slice_recvfrom b hFrame ?_⟩
  · rw [recvfrom, h.length, Nat.min_eq_left hFits]
  · rw [h.length]
    exact hk

/-- The fields that both programs test, as they read them. -/
structure Headers (b : Buffer) (source dest : Nat) : Prop where
  /-- The protocol field says UDP. -/
  protocol : b.read? 23 1 = some [17]
  /-- The IP header has no options. -/
  vihl : b.read? 14 1 = some [0x45]
  /-- The port it comes from, -/
  source : b.read? 34 2 = some (htons source)
  /-- and the port it goes to. -/
  dest : b.read? 36 2 = some (htons dest)

theorem Carries.headers
    (h : Carries frame ethDst ethSrc ipSrc ipDst source dest text)
    (hFits : 42 + text.length ≤ bufSize) :
    Headers (recvfrom b frame).1 source dest := by
  rcases h.received b hFits with ⟨-, hSlice⟩
  constructor
  · rw [CharArray.read?_of_fits _ (by decide), hSlice 23 1 (by omega),
      h.protocol]
  · rw [CharArray.read?_of_fits _ (by decide), hSlice 14 1 (by omega), h.vihl]
  · rw [CharArray.read?_of_fits _ (by decide), hSlice 34 2 (by omega),
      h.source]
  · rw [CharArray.read?_of_fits _ (by decide), hSlice 36 2 (by omega), h.dest]

/-- Both programs write a NUL behind the text, and then read it as a
string. -/
theorem Carries.terminate
    (h : Carries frame ethDst ethSrc ipSrc ipDst source dest text)
    (hNoNul : (0 : UInt8) ∉ text) (hFits : 42 + text.length + 1 ≤ bufSize) :
    ∃ b', (recvfrom b frame).1.write? (42 + text.length) [0] = some b' ∧
      b'.strAt 42 = text ∧
        ∀ o k, o + k ≤ 42 → b'.slice o k = field frame o k := by
  rcases h.received b (by omega) with ⟨-, hSlice⟩
  rcases (recvfrom b frame).1.exists_write? (42 + text.length) [0] 1 rfl hFits
    with ⟨b', hWrite, hEnd, hBefore⟩
  refine ⟨b', hWrite, ?_, ?_⟩
  · refine b'.strAt_eq ?_ hEnd hNoNul
    rw [hBefore 42 _ (Or.inl (Nat.le_refl _)), hSlice 42 _ (Nat.le_refl _),
      h.text]
  · intro o k hk
    rw [hBefore o k (by omega), hSlice o k (by omega)]

/-- The server accepts a frame from the client's port to its own, and reads the
sender's address and the text out of it, as the client has put them in. -/
theorem Carries.accept
    (h : Carries frame ethDst ethSrc ipSrc ipDst clientPort serverPort text)
    (hIp : ipSrc.length = 4) (hNonempty : text ≠ [])
    (hNoNul : (0 : UInt8) ∉ text) (hFits : 42 + text.length + 1 ≤ bufSize) :
    ∃ b', accept (recvfrom b frame).1 (recvfrom b frame).2 =
        some (some ⟨b', 20, ⟨ipSrc, hIp⟩, clientPort, text⟩) ∧
      ∀ o k, o + k ≤ 42 → b'.slice o k = field frame o k := by
  rcases h.received b (by omega) with ⟨hBytes, hSlice⟩
  rcases h.terminate b hNoNul hFits with ⟨b', hWrite, hText, hFrame⟩
  have hHeaders := h.headers b (by omega)
  have hPos : 0 < text.length := List.length_pos_iff.mpr hNonempty
  have hLen : ((42 + text.length : Nat) : Int) - (14 : Nat) - (20 : Nat) -
      (8 : Nat) = (text.length : Int) := by omega
  have hShort : ¬(42 + text.length < 34) := by omega
  have hInside : ¬((text.length : Int) ≤ 0 ∨
      ((bufSize : Nat) : Int) ≤ (text.length : Int)) := by
    simp only [bufSize] at hFits ⊢
    omega
  refine ⟨b', ?_, hFrame⟩
  simp only [Echo.accept, hBytes, ethHlen, sizeofIphdr, sizeofUdphdr,
    Nat.reduceAdd, Option.bind_eq_bind, Option.bind_some, if_neg hShort,
    hHeaders.protocol, ne_eq, not_true, if_false, hHeaders.vihl,
    show headerLength [0x45] = 20 from rfl, hHeaders.dest, hHeaders.source,
    show ntohs (htons serverPort) = serverPort from rfl,
    show ntohs (htons clientPort) = clientPort from rfl, or_self,
    CharArray.load?_of_fits _ (by decide : 26 + 4 ≤ bufSize),
    hSlice 26 4 (by omega), h.ipSrc, hLen, if_neg hInside,
    Int.toNat_natCast, hWrite, hText]

/-- The server ignores a frame without text. -/
theorem Carries.ignored
    (h : Carries frame ethDst ethSrc ipSrc ipDst clientPort serverPort []) :
    Echo.accept (recvfrom b frame).1 (recvfrom b frame).2 = some none := by
  have hBytes : (recvfrom b frame).2 = 42 := (h.received b (by decide)).1
  have hHeaders := h.headers b (by decide)
  simp only [Echo.accept, hBytes, ethHlen, sizeofIphdr, sizeofUdphdr,
    Nat.reduceAdd, Option.bind_eq_bind, Option.bind_some, Nat.reduceLT,
    if_false, hHeaders.protocol, ne_eq, not_true, hHeaders.vihl,
    show headerLength [0x45] = 20 from rfl, hHeaders.dest, hHeaders.source,
    show ntohs (htons serverPort) = serverPort from rfl,
    show ntohs (htons clientPort) = clientPort from rfl, or_self,
    CharArray.load?_of_fits _ (by decide : 26 + 4 ≤ bufSize)]
  rfl

/-- The client refuses a frame for any port but its own.  This is what becomes
of the reply. -/
theorem Carries.refused
    (h : Carries frame ethDst ethSrc ipSrc ipDst source dest text)
    (hPort : dest < 65536) (hDest : dest ≠ clientPort)
    (hFits : 42 + text.length ≤ bufSize) :
    clientReceive b frame = some none := by
  have hBytes := (h.received b hFits).1
  have hHeaders := h.headers b hFits
  have hShort : ¬(42 + text.length < 34) := by omega
  simp only [clientReceive, hBytes, ethHlen, sizeofIphdr, Nat.reduceAdd,
    Option.bind_eq_bind, Option.bind_some, if_neg hShort, hHeaders.protocol,
    ne_eq, not_true, if_false, hHeaders.vihl,
    show headerLength [0x45] = 20 from rfl, hHeaders.source, hHeaders.dest,
    ntohs_htons hPort, hDest, not_false_iff, or_true, if_true]

/-- The client prints the text of a frame from the server's port to its own, so
it would print a reply that had the right port. -/
theorem Carries.printed
    (h : Carries frame ethDst ethSrc ipSrc ipDst serverPort clientPort text)
    (hNonempty : text ≠ []) (hNoNul : (0 : UInt8) ∉ text)
    (hFits : 42 + text.length + 1 ≤ bufSize) :
    clientReceive b frame = some (some text) := by
  have hBytes := (h.received b (by omega)).1
  rcases h.terminate b hNoNul hFits with ⟨b', hWrite, hText, -⟩
  have hHeaders := h.headers b (by omega)
  have hPos : 0 < text.length := List.length_pos_iff.mpr hNonempty
  have hLen : ((42 + text.length : Nat) : Int) - (14 : Nat) - (20 : Nat) -
      (8 : Nat) = (text.length : Int) := by omega
  have hShort : ¬(42 + text.length < 34) := by omega
  have hSome : (0 : Int) < (text.length : Int) := by omega
  simp only [clientReceive, hBytes, ethHlen, sizeofIphdr, sizeofUdphdr,
    Nat.reduceAdd, Option.bind_eq_bind, Option.bind_some, if_neg hShort,
    hHeaders.protocol, ne_eq, not_true, if_false, hHeaders.vihl,
    show headerLength [0x45] = 20 from rfl, hHeaders.source, hHeaders.dest,
    show ntohs (htons serverPort) = serverPort from rfl,
    show ntohs (htons clientPort) = clientPort from rfl, or_self, hLen,
    if_pos hSome, Int.toNat_natCast, hWrite, hText]

end Receive

/-! ## The sender's counter -/

/-- The new counter of a sender that has an entry, or gets one. -/
def senderCounter (t : ClientTable) (ip : CharArray 4) (port : Nat) : Int :=
  match findClient t ip port with
  | some i => t.counter i + 1
  | none => 1

/-- The sender has an entry, or there is one left.  Otherwise its message would
be counted for somebody else. -/
def Admits (t : ClientTable) (ip : CharArray 4) (port : Nat) : Prop :=
  (findClient t ip port).isSome ∨ t.entries.length < maxClients

theorem Admits.counter {t : ClientTable} {d : Datagram}
    (h : Admits t d.ip d.port) (hText : d.data ≠ closeText) :
    (countDatagram t d).2 = some (senderCounter t d.ip d.port) := by
  unfold countDatagram lookupClient senderCounter
  cases hFind : findClient t d.ip d.port with
  | some i => simp only [if_neg hText]
  | none =>
      have hRoom : t.entries.length < maxClients := by
        rcases h with h | h
        · rw [hFind] at h
          contradiction
        · exact h
      have hEntries : (addClient t d.ip d.port).entries =
          t.entries ++ [⟨d.ip, d.port, 0⟩] := by
        rw [addClient, dif_pos hRoom]
      have hNew : (addClient t d.ip d.port).counter
          ((addClient t d.ip d.port).entries.length - 1) = 0 := by
        simp [ClientTable.counter, hEntries]
      simp only [if_neg hText, hNew, Int.zero_add]

/-! ## One exchange -/

/-- An input line of the client and a server that it is sent to: the server
admits the client, and neither frame is longer than the buffers. -/
structure EchoExchange where
  /-- The addresses with which the client was started, -/
  cfg : ClientConfig
  /-- the server's own, -/
  serverMac : CharArray 6
  /-- what the client's buffer holds, -/
  clientBuffer : Buffer
  /-- the server's buffer and table, -/
  server : Server
  /-- and the line that is typed. -/
  line : List UInt8
  /-- The sender can be counted. -/
  admits : Admits server.clients cfg.clientIp clientPort
  /-- A line without text is not answered. -/
  nonempty : line ≠ []
  /-- A line is a C string. -/
  noNul : (0 : UInt8) ∉ line
  /-- There is no reply to `CLOSE`. -/
  notClose : line ≠ closeText
  /-- The answer fits into a frame of 1500 bytes. -/
  fits : 42 + (line.length + 1 + (printInt
    (senderCounter server.clients cfg.clientIp clientPort)).length) ≤ bufSize

namespace EchoExchange

variable (x : EchoExchange)

/-- The counter that the reply should carry. -/
def counter : Int :=
  senderCounter x.server.clients x.cfg.clientIp clientPort

/-- What the server should make of the request. -/
def datagram : Datagram :=
  ⟨x.cfg.clientIp, clientPort, x.line⟩

/-- The line, a space and the counter. -/
def answer : List UInt8 :=
  x.line ++ 32 :: printInt x.counter

/-- What the two programs are for: the client prints the answer, and the
reply goes back along the addresses that the request came with. -/
def Agrees : Prop :=
  ∃ b request next reply,
    clientSend x.cfg x.clientBuffer x.line = some (b, request) ∧
    serverStep x.serverMac x.server request = some (next, some reply) ∧
    clientReceive b reply.frame = some (some x.answer) ∧
    field reply.frame 0 6 = field request 6 6 ∧
    field reply.frame 6 6 = x.serverMac.bytes ∧
    field reply.frame 26 4 = field request 30 4 ∧
    field reply.frame 30 4 = field request 26 4

theorem length_answer :
    x.answer.length = x.line.length + 1 + (printInt x.counter).length := by
  rw [answer, List.length_append, List.length_cons]
  omega

theorem answer_fits : 42 + x.answer.length ≤ bufSize := by
  rw [length_answer]
  exact x.fits

theorem replyText_eq : replyText x.line x.counter = x.answer := by
  have hFits := x.answer_fits
  exact List.take_of_length_le (by
    change x.answer.length ≤ bufSize - 1
    omega)

/-- The request arrives: the server has all it needs for its reply, and passes
it on to `replyCounted`.  Up to here the two programs agree. -/
theorem request_served :
    ∃ b request b',
      clientSend x.cfg x.clientBuffer x.line = some (b, request) ∧
      Carries request x.cfg.serverMac.bytes x.cfg.clientMac.bytes
        x.cfg.clientIp.bytes x.cfg.serverIp.bytes clientPort serverPort
        x.line ∧
      b'.slice 6 6 = x.cfg.clientMac.bytes ∧
      serverStep x.serverMac x.server request =
        (replyCounted x.serverMac ⟨b', 20, x.datagram⟩ x.counter).map fun out =>
          (⟨out.1, (countDatagram x.server.clients x.datagram).1⟩,
            some out.2) := by
  have hFits : 42 + x.line.length + 1 ≤ bufSize := by
    have hAnswer := x.answer_fits
    rw [length_answer] at hAnswer
    omega
  rcases clientSend_carries x.cfg x.clientBuffer hFits with
    ⟨b, request, hSend, hCarries⟩
  rcases hCarries.accept x.server.buffer x.cfg.clientIp.size_eq x.nonempty
    x.noNul hFits with ⟨b', hAccept, hSlice⟩
  have hAccept' : accept (recvfrom x.server.buffer request).1
      (recvfrom x.server.buffer request).2 =
        some (some ⟨b', 20, x.datagram⟩) := hAccept
  have hCounter :
      (countDatagram x.server.clients x.datagram).2 = some x.counter :=
    Admits.counter x.admits x.notClose
  refine ⟨b, request, b', hSend, hCarries, ?_, ?_⟩
  · rw [hSlice 6 6 (by decide), hCarries.ethSrc]
  · simp only [serverStep, hAccept', Option.bind_eq_bind, Option.bind_some,
      hCounter]
    cases replyCounted x.serverMac ⟨b', 20, x.datagram⟩ x.counter <;> rfl

/-- The reply when the counter does not overflow and there is room for the NUL:
the right machines and text, no IP addresses and a port that is not the
client's, so the client prints nothing. -/
theorem reply_refused (hMax : x.counter ≤ intMax)
    (hRoom : 42 + x.answer.length < bufSize) :
    ∃ b request next reply,
      clientSend x.cfg x.clientBuffer x.line = some (b, request) ∧
      serverStep x.serverMac x.server request = some (next, some reply) ∧
      Carries reply.frame x.cfg.clientMac.bytes x.serverMac.bytes
        zeroIp zeroIp serverPort serverPort x.answer ∧
      clientReceive b reply.frame = some none := by
  rcases x.request_served with ⟨b, request, b', hSend, -, hMac, hStep⟩
  have hText : replyText x.datagram.data x.counter = x.answer := x.replyText_eq
  rcases sendReply_carries x.serverMac ⟨b', 20, x.datagram⟩ x.counter
    (show 20 ≤ 60 by decide) (by rw [hText]; exact hRoom) with
    ⟨b'', reply, dest, hReply, hDest, hCarries⟩
  obtain rfl : dest = serverPort := hDest rfl
  rw [hText, hMac] at hCarries
  rw [replyCounted_eq _ _ hMax, hReply, Option.map_some] at hStep
  exact ⟨b, request, _, reply, hSend, hStep, hCarries,
    hCarries.refused b (by decide) (by decide) x.answer_fits⟩

/-- Otherwise the counter overflows, or `strcpy` writes behind the buffer. -/
theorem reply_overflows
    (hOver : ¬(x.counter ≤ intMax ∧ 42 + x.answer.length < bufSize)) :
    ∃ b request, clientSend x.cfg x.clientBuffer x.line = some (b, request) ∧
      serverStep x.serverMac x.server request = none := by
  rcases x.request_served with ⟨b, request, b', hSend, -, -, hStep⟩
  have hText : replyText x.datagram.data x.counter = x.answer := x.replyText_eq
  refine ⟨b, request, hSend, ?_⟩
  by_cases hMax : x.counter ≤ intMax
  · have hFull : ¬42 + x.answer.length < bufSize := fun h => hOver ⟨hMax, h⟩
    rw [hStep, replyCounted_eq _ _ hMax,
      sendReply_overflow x.serverMac ⟨b', 20, x.datagram⟩ x.counter
        (show 20 ≤ 60 by decide) (by rw [hText]; omega), Option.map_none]
  · rw [hStep, replyCounted_overflow _ _ hMax, Option.map_none]

/-- **The echo pair never agrees**, whatever the addresses, the line and the
table. -/
theorem not_agrees : ¬x.Agrees := by
  rintro ⟨b, request, next, reply, hSend, hStep, hReceive, -⟩
  by_cases hRoom : x.counter ≤ intMax ∧ 42 + x.answer.length < bufSize
  · rcases x.reply_refused hRoom.1 hRoom.2 with
      ⟨b', request', next', reply', hSend', hStep', -, hNothing⟩
    rw [hSend, Option.some.injEq, Prod.mk.injEq] at hSend'
    rcases hSend' with ⟨rfl, rfl⟩
    rw [hStep, Option.some.injEq, Prod.mk.injEq, Option.some.injEq] at hStep'
    rcases hStep' with ⟨-, rfl⟩
    rw [hReceive, Option.some.injEq] at hNothing
    contradiction
  · rcases x.reply_overflows hRoom with ⟨b', request', hSend', hStep'⟩
    rw [hSend, Option.some.injEq, Prod.mk.injEq] at hSend'
    rcases hSend' with ⟨rfl, rfl⟩
    rw [hStep] at hStep'
    contradiction

end EchoExchange

/-- `hi` from 192.168.1.100 to a server that has just started. -/
def firstExchange : EchoExchange where
  cfg :=
    { clientIp := ⟨[192, 168, 1, 100], rfl⟩
      serverIp := ⟨[192, 168, 1, 1], rfl⟩
      clientMac := ⟨[2, 0, 0, 0, 0, 1], rfl⟩
      serverMac := ⟨[0x94, 0xbb, 0x43, 0x0d, 0x56, 0xa3], rfl⟩ }
  serverMac := ⟨[0x94, 0xbb, 0x43, 0x0d, 0x56, 0xa3], rfl⟩
  clientBuffer := .zeros bufSize
  server := ⟨.zeros bufSize, ⟨[], Nat.zero_le _⟩⟩
  line := ascii ['h', 'i']
  admits := Or.inr (by decide)
  nonempty := by decide
  noNul := by decide
  notClose := by decide
  fits := by decide

/-- The request of that exchange, the server's answer and what the client
makes of it, by computation. -/
theorem firstExchange_refused :
    ((clientSend firstExchange.cfg firstExchange.clientBuffer
      firstExchange.line).bind fun sent =>
        (serverStep firstExchange.serverMac firstExchange.server sent.2).bind
          fun served => served.2.map fun reply =>
            (field reply.frame 26 8, field reply.frame 34 4,
              clientReceive sent.1 reply.frame)) =
      some ([0, 0, 0, 0, 0, 0, 0, 0], [48, 57, 48, 57], some none) := by
  decide +kernel

/-- The reply to `hi` is not printed. -/
theorem first_exchange_disagrees : ¬∀ x : EchoExchange, x.Agrees := by
  intro hAll
  rcases hAll firstExchange with
    ⟨b, request, next, reply, hSend, hStep, hReceive, -⟩
  have hRun := firstExchange_refused
  rw [hSend, Option.bind_some, hStep, Option.bind_some, Option.map_some,
    hReceive] at hRun
  simp only [Option.some.injEq, Prod.mk.injEq, reduceCtorEq, and_false]
    at hRun

end UnixHomework.Ports.Echo
