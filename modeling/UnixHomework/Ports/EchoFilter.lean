import UnixHomework.Ports.EchoPair

/-!
# What the echo server answers to

The filter of the server's loop reads a buffer of which the frame has filled
only the front.  This module says what it accepts in terms of the frame alone
(`Admitted`): a UDP header from the client's port to the server's, behind
whatever header length the first byte of the IP header gives, and at least one
byte behind it.  The ports may be read behind the end of the frame, but then
the data is not long enough and the frame is ignored all the same.

Nothing else of the headers is looked at.  The Ethernet type, the version, the
fragment offset and the UDP length can be anything, and the payload is what is
left of the frame.

`judge` is the loop up to the reply, and `respond` what it does in terms of
the frame (`judge_received`).
-/

namespace UnixHomework.Ports.Echo

open UnixHomework.Verified

/-! ## What a frame asks for -/

/-- What `recvfrom` keeps of a frame. -/
def received (frame : List UInt8) : List UInt8 :=
  frame.take bufSize

theorem length_received_le (frame : List UInt8) :
    (received frame).length ≤ bufSize :=
  List.length_take_le _ _

theorem received_of_le {frame : List UInt8} (h : frame.length ≤ bufSize) :
    received frame = frame :=
  List.take_of_length_le h

/-- `ip->ihl * 4`. -/
def ipLength (w : List UInt8) : Nat :=
  headerLength (field w 14 1)

/-- The string behind the UDP header. -/
def payload (w : List UInt8) : List UInt8 :=
  cstr (w.drop (22 + ipLength w))

/-- The frames that the loop does not ignore. -/
structure Admitted (w : List UInt8) : Prop where
  /-- It has an Ethernet and an IP header without options, -/
  header : 34 ≤ w.length
  /-- says UDP, -/
  protocol : field w 23 1 = [17]
  /-- and has the client's port as its source -/
  source : ntohs (field w (14 + ipLength w) 2) = clientPort
  /-- and the server's as its destination. -/
  dest : ntohs (field w (16 + ipLength w) 2) = serverPort
  /-- There is a byte behind its UDP header. -/
  data : 22 + ipLength w < w.length

instance (w : List UInt8) : Decidable (Admitted w) :=
  decidable_of_iff
    (34 ≤ w.length ∧ field w 23 1 = [17] ∧
      ntohs (field w (14 + ipLength w) 2) = clientPort ∧
        ntohs (field w (16 + ipLength w) 2) = serverPort ∧
          22 + ipLength w < w.length)
    ⟨fun ⟨h1, h2, h3, h4, h5⟩ => ⟨h1, h2, h3, h4, h5⟩,
      fun ⟨h1, h2, h3, h4, h5⟩ => ⟨h1, h2, h3, h4, h5⟩⟩

theorem length_field {w : List UInt8} {o k : Nat} (h : o + k ≤ w.length) :
    (field w o k).length = k := by
  rw [field, List.length_take, List.length_drop]
  omega

/-- The message of an admitted frame. -/
def Admitted.datagram {w : List UInt8} (h : Admitted w) : Datagram where
  ip := ⟨field w 26 4, length_field (by have := h.header; omega)⟩
  port := clientPort
  data := payload w

/-! ## The buffer -/

/-- The front of the buffer is `w`; behind it there is whatever was there
before. -/
def Holds (b : Buffer) (w : List UInt8) : Prop :=
  b.slice 0 w.length = w

theorem Holds.slice {b : Buffer} {w : List UInt8} (h : Holds b w) {o k : Nat}
    (hk : o + k ≤ w.length) : b.slice o k = field w o k := by
  rw [← field_slice b hk, h]

theorem recvfrom_holds (b : Buffer) (frame : List UInt8) :
    Holds (recvfrom b frame).1 (received frame) ∧
      (recvfrom b frame).2 = (received frame).length := by
  constructor
  · exact CharArray.slice_splice_self b
      (by rw [Nat.zero_add]; exact length_received_le frame)
  · rw [recvfrom, received, List.length_take, Nat.min_comm]

/-- The terminator written behind the frame ends its payload. -/
theorem Holds.strAt_terminated {b b' : Buffer} {w : List UInt8}
    (h : Holds b w) {off : Nat} (hOff : off ≤ w.length)
    (hEnd : b'.slice w.length 1 = [0])
    (hBefore : ∀ o j, o + j ≤ w.length → b'.slice o j = b.slice o j) :
    b'.strAt off = cstr (w.drop off) := by
  have hSum : off + (w.drop off).length = w.length := by
    rw [List.length_drop]
    omega
  apply b'.strAt_terminated
  · rw [hBefore off _ (by omega), h.slice (by omega), field,
      List.take_length]
  · rw [hSum, hEnd]

/-! ## The filter -/

section Accept

variable {b : Buffer} {w : List UInt8}

/-- The loop behind the test of the protocol: the ports are those of the
buffer, and everything else is said by the length. -/
theorem accept_eq (h : Holds b w) (hLe : w.length ≤ bufSize)
    (hHeader : 34 ≤ w.length) (hProtocol : field w 23 1 = [17]) :
    accept b w.length =
      if ntohs (b.slice (16 + ipLength w) 2) ≠ serverPort ∨
          ntohs (b.slice (14 + ipLength w) 2) ≠ clientPort then some none
      else if w.length ≤ 22 + ipLength w then some none
      else (b.write? w.length [0]).bind fun b' =>
        some (some ⟨b', ipLength w,
          ⟨⟨b.slice 26 4, b.length_slice (by decide)⟩,
            ntohs (b.slice (14 + ipLength w) 2),
            b'.strAt (22 + ipLength w)⟩⟩) := by
  have hIp : ipLength w ≤ 60 := headerLength_le _
  have hVihl : headerLength (b.slice 14 1) = ipLength w := by
    rw [h.slice (by omega), ipLength]
  have hProto : b.slice 23 1 = [17] := by rw [h.slice (by omega), hProtocol]
  have hDest : 14 + ipLength w + 2 = 16 + ipLength w := by omega
  have hData : 14 + ipLength w + 8 = 22 + ipLength w := by omega
  have hPorts : 16 + ipLength w + 2 ≤ bufSize := by
    simp only [bufSize]
    omega
  have hRefuse : ((w.length : Int) - (14 : Nat) - (ipLength w : Nat) -
      (8 : Nat) ≤ 0 ∨ ((bufSize : Nat) : Int) ≤ (w.length : Int) -
        (14 : Nat) - (ipLength w : Nat) - (8 : Nat)) ↔
      w.length ≤ 22 + ipLength w := by
    omega
  simp only [accept, ethHlen, sizeofIphdr, sizeofUdphdr, Nat.reduceAdd,
    Option.bind_eq_bind, if_neg (Nat.not_lt.mpr hHeader),
    b.read?_of_fits (by decide : 23 + 1 ≤ bufSize), Option.bind_some, hProto,
    ne_eq, not_true, if_false, b.read?_of_fits (by decide : 14 + 1 ≤ bufSize),
    hVihl, hDest, hData, b.read?_of_fits hPorts,
    b.read?_of_fits (Nat.le_trans (by omega) hPorts :
      14 + ipLength w + 2 ≤ bufSize),
    b.load?_of_fits (by decide : 26 + 4 ≤ bufSize), hRefuse]
  by_cases hShort : w.length ≤ 22 + ipLength w
  · rw [if_pos hShort, if_pos hShort]
  · have hEnd : 22 + ipLength w + ((w.length : Int) - (14 : Nat) -
        (ipLength w : Nat) - (8 : Nat)).toNat = w.length := by
      omega
    rw [if_neg hShort, if_neg hShort, hEnd]

/-- **What is ignored**, whatever the buffer holds behind the frame. -/
theorem accept_of_not_admitted (h : Holds b w) (hLe : w.length ≤ bufSize)
    (hNot : ¬Admitted w) : accept b w.length = some none := by
  by_cases hHeader : 34 ≤ w.length
  · by_cases hProtocol : field w 23 1 = [17]
    · rw [accept_eq h hLe hHeader hProtocol]
      by_cases hShort : w.length ≤ 22 + ipLength w
      · simp only [if_pos hShort, ite_self]
      · refine if_pos ?_
        rw [h.slice (by omega), h.slice (by omega), or_comm,
          ← not_and_or]
        rintro ⟨hSource, hDest⟩
        exact hNot ⟨hHeader, hProtocol, hSource, hDest, by omega⟩
    · have hProto : b.slice 23 1 ≠ [17] := by
        rw [h.slice (by omega)]
        exact hProtocol
      simp only [accept, ethHlen, sizeofIphdr, Nat.reduceAdd,
        if_neg (Nat.not_lt.mpr hHeader), Option.bind_eq_bind,
        b.read?_of_fits (by decide : 23 + 1 ≤ bufSize), Option.bind_some,
        if_pos hProto]
  · exact if_pos (Nat.lt_of_not_le hHeader)

/-- An admitted frame passes all tests, and it remains to write the
terminator behind it. -/
theorem Admitted.accept_eq (ha : Admitted w) (h : Holds b w)
    (hLe : w.length ≤ bufSize) :
    accept b w.length = (b.write? w.length [0]).bind fun b' =>
      some (some ⟨b', ipLength w, ha.datagram⟩) := by
  have hData := ha.data
  have hHeader := ha.header
  have hSource : ntohs (b.slice (14 + ipLength w) 2) = clientPort := by
    rw [h.slice (by omega), ha.source]
  have hDest : ntohs (b.slice (16 + ipLength w) 2) = serverPort := by
    rw [h.slice (by omega), ha.dest]
  rw [Echo.accept_eq h hLe hHeader ha.protocol, hSource, hDest,
    if_neg (by simp), if_neg (by omega)]
  by_cases hRoom : w.length + 1 ≤ bufSize
  · obtain ⟨b', hWrite, hEnd, hBefore⟩ :=
      b.exists_write? w.length [0] 1 rfl hRoom
    have hText : b'.strAt (22 + ipLength w) = payload w :=
      h.strAt_terminated (Nat.le_of_lt hData) hEnd
        fun o j ho => hBefore o j (Or.inl ho)
    have hIp : b.slice 26 4 = field w 26 4 := h.slice (by omega)
    simp only [hWrite, Option.bind_some, hText, hIp, Admitted.datagram]
  · have hWrite : b.write? w.length [0] = none := dif_neg hRoom
    simp only [hWrite, Option.bind_none]

end Accept

/-! ## The decision -/

/-- What an iteration of the loop does with a frame. -/
inductive Decision where
  | skip
  | close
  | reply (text : List UInt8)
  deriving DecidableEq

/-- The table and the decision for a message. -/
def answer (clients : ClientTable) (d : Datagram) : ClientTable × Decision :=
  let (clients, counter) := countDatagram clients d
  match counter with
  | none => (clients, .close)
  | some counter => (clients, .reply (replyText d.data counter))

/-- The loop up to the reply. -/
def judge (clients : ClientTable) (b : Buffer) (bytes : Nat) :
    Option (ClientTable × Decision) := do
  match ← accept b bytes with
  | none => some (clients, .skip)
  | some r => some (answer clients r.datagram)

/-- The same for a frame. -/
def respond (clients : ClientTable) (w : List UInt8) :
    ClientTable × Decision :=
  if h : Admitted w then answer clients h.datagram else (clients, .skip)

section Judge

variable (clients : ClientTable) {b : Buffer} {w : List UInt8}

/-- **The decision depends on the frame alone.**  A frame that fills the
buffer leaves no room for the terminator, unless it is ignored. -/
theorem judge_of_holds (h : Holds b w) (hLe : w.length ≤ bufSize) :
    judge clients b w.length =
      if Admitted w ∧ w.length = bufSize then none
      else some (respond clients w) := by
  by_cases ha : Admitted w
  · rw [judge, ha.accept_eq h hLe, respond, dif_pos ha]
    by_cases hFull : w.length = bufSize
    · have hWrite : b.write? w.length [0] = none :=
        dif_neg (by rw [List.length_singleton]; omega)
      rw [if_pos ⟨ha, hFull⟩, hWrite]
      rfl
    · obtain ⟨b', hWrite, -⟩ :=
        b.exists_write? w.length [0] 1 rfl (by omega)
      rw [if_neg fun hBoth => hFull hBoth.2, hWrite]
      rfl
  · rw [judge, accept_of_not_admitted h hLe ha, respond, dif_neg ha,
      if_neg fun hBoth => ha hBoth.1]
    rfl

theorem judge_received (b : Buffer) (frame : List UInt8) :
    judge clients (recvfrom b frame).1 (recvfrom b frame).2 =
      if Admitted (received frame) ∧ (received frame).length = bufSize
      then none else some (respond clients (received frame)) := by
  obtain ⟨hHolds, hCount⟩ := recvfrom_holds b frame
  rw [hCount]
  exact judge_of_holds clients hHolds (length_received_le frame)

end Judge

/-! ## One iteration -/

/-- The loop behind the filter. -/
def serve (serverMac : CharArray 6) (clients : ClientTable) (r : Request) :
    Option (Server × Option Sent) :=
  let (clients, counter) := countDatagram clients r.datagram
  match counter with
  | none => some (⟨r.buffer, clients⟩, none)
  | some counter => do
      let (b, sent) ← replyCounted serverMac r counter
      some (⟨b, clients⟩, some sent)

section Iteration

variable (serverMac : CharArray 6) (s : Server) {frame : List UInt8}

theorem serverStep_of_not_admitted (h : ¬Admitted (received frame)) :
    serverStep serverMac s frame =
      some ({ s with buffer := (recvfrom s.buffer frame).1 }, none) := by
  obtain ⟨hHolds, hCount⟩ := recvfrom_holds s.buffer frame
  have hAccept := accept_of_not_admitted hHolds (length_received_le frame) h
  simp only [serverStep, hCount, hAccept, Option.bind_eq_bind,
    Option.bind_some]

/-- A frame that fills the buffer: `data[data_len] = 0` is behind it. -/
theorem serverStep_of_full (h : Admitted (received frame))
    (hFull : (received frame).length = bufSize) :
    serverStep serverMac s frame = none := by
  obtain ⟨hHolds, hCount⟩ := recvfrom_holds s.buffer frame
  have hAccept := h.accept_eq hHolds (length_received_le frame)
  have hWrite : (recvfrom s.buffer frame).1.write?
      (received frame).length [0] = none :=
    dif_neg (by rw [List.length_singleton]; omega)
  simp only [serverStep, hCount, hAccept, hWrite, Option.bind_eq_bind,
    Option.bind_none]

/-- Any other admitted frame is served, out of the buffer with the terminator
in it. -/
theorem Admitted.serverStep_eq (h : Admitted frame)
    (hLen : frame.length < bufSize) :
    ∃ b, (recvfrom s.buffer frame).1.write? frame.length [0] = some b ∧
      serverStep serverMac s frame =
        serve serverMac s.clients ⟨b, ipLength frame, h.datagram⟩ := by
  obtain ⟨hHolds, hCount⟩ := recvfrom_holds s.buffer frame
  rw [received_of_le (Nat.le_of_lt hLen)] at hHolds hCount
  have hAccept := h.accept_eq hHolds (Nat.le_of_lt hLen)
  obtain ⟨b, hWrite, -⟩ := (recvfrom s.buffer frame).1.exists_write?
    frame.length [0] 1 rfl hLen
  refine ⟨b, hWrite, ?_⟩
  simp only [serverStep, hCount, hAccept, hWrite, Option.bind_eq_bind,
    Option.bind_some]
  rfl

/-- What is served is counted, and a reply carries the text made of the
payload. -/
theorem serve_eq_some {clients : ClientTable} {r : Request} {next : Server}
    {sent : Option Sent} (hIp : r.ipLen ≤ 60)
    (h : serve serverMac clients r = some (next, sent)) :
    next.clients = (countDatagram clients r.datagram).1 ∧
      ∀ reply, sent = some reply → ∃ counter,
        (countDatagram clients r.datagram).2 = some counter ∧
          field reply.frame 42 (replyText r.datagram.data counter).length =
            replyText r.datagram.data counter := by
  unfold serve at h
  cases hCounter : (countDatagram clients r.datagram).2 with
  | none =>
      simp only [hCounter, Option.some.injEq, Prod.mk.injEq] at h
      obtain ⟨rfl, rfl⟩ := h
      exact ⟨rfl, fun reply hReply => absurd hReply (by simp)⟩
  | some counter =>
      simp only [hCounter, Option.bind_eq_bind] at h
      obtain ⟨out, hAnswer, hOut⟩ := Option.bind_eq_some_iff.mp h
      have hSend := (replyCounted_eq_some hAnswer).2
      simp only [Option.some.injEq, Prod.mk.injEq] at hOut
      obtain ⟨rfl, rfl⟩ := hOut
      refine ⟨rfl, fun reply hReply => ⟨counter, rfl, ?_⟩⟩
      obtain rfl : out.2 = reply := Option.some.inj hReply
      by_cases hFits :
          42 + (replyText r.datagram.data counter).length + 1 ≤ bufSize
      · obtain ⟨b, sent, dest, hSend', -, hCarries⟩ :=
          sendReply_carries serverMac r counter hIp hFits
        obtain rfl := Option.some.inj (hSend'.symm.trans hSend)
        exact hCarries.text
      · rw [sendReply_overflow serverMac r counter hIp (by omega)] at hSend
        contradiction

end Iteration

/-! ## Genuine requests -/

/-- A request as the protocols define it: an IPv4 header of at least five
words that is not that of a later fragment, and a UDP header whose length
gives the payload. -/
structure Genuine (w : List UInt8) : Prop where
  /-- IPv4, by the Ethernet header -/
  etherType : field w 12 2 = [8, 0]
  /-- and by the IP header. -/
  version : (field w 14 1).headD 0 >>> 4 = 4
  /-- The IP header has its five words at least. -/
  headerLength : 20 ≤ ipLength w
  /-- The fragment offset is 0, so the UDP header is here. -/
  notLater : ntohs (field w 20 2) % 8192 = 0
  protocol : field w 23 1 = [17]
  source : ntohs (field w (14 + ipLength w) 2) = clientPort
  dest : ntohs (field w (16 + ipLength w) 2) = serverPort
  /-- The UDP length stays within the frame, -/
  inside : 14 + ipLength w + ntohs (field w (18 + ipLength w) 2) ≤ w.length
  /-- and the payload is what it says. -/
  payload : Echo.payload w = cstr (field w (22 + ipLength w)
    (ntohs (field w (18 + ipLength w) 2) - 8))

/-- **What the server acts on.**  It is less than a genuine request: a UDP
header from the client's port to the server's inside the frame, where the
header length says, and the payload is all that is behind it. -/
theorem acts_only_on_admitted {serverMac : CharArray 6} {s next : Server}
    {frame : List UInt8} {sent : Option Sent}
    (hStep : serverStep serverMac s frame = some (next, sent))
    (hActs : next.clients ≠ s.clients ∨ sent ≠ none) :
    ∃ h : Admitted frame, frame.length < bufSize ∧
      next.clients = (countDatagram s.clients h.datagram).1 ∧
        ∀ reply, sent = some reply → ∃ counter,
          (countDatagram s.clients h.datagram).2 = some counter ∧
            field reply.frame 42
                (replyText (payload frame) counter).length =
              replyText (payload frame) counter := by
  by_cases ha : Admitted (received frame)
  · have hNotFull : (received frame).length ≠ bufSize := by
      intro hFull
      rw [serverStep_of_full serverMac s ha hFull] at hStep
      contradiction
    have hLen : frame.length < bufSize := by
      rw [received, List.length_take] at hNotFull
      omega
    rw [received_of_le (Nat.le_of_lt hLen)] at ha
    obtain ⟨b, -, hServe⟩ := ha.serverStep_eq serverMac s hLen
    rw [hServe] at hStep
    exact ⟨ha, hLen, serve_eq_some serverMac (headerLength_le _) hStep⟩
  · rw [serverStep_of_not_admitted serverMac s ha, Option.some.injEq,
      Prod.mk.injEq] at hStep
    obtain ⟨rfl, rfl⟩ := hStep
    simp at hActs

/-- A frame of Ethernet type `0x86dd` with an IP header of version 6 and three
words, in which the ports are the source address; it is a later fragment, and
its UDP length is that of the first of the two letters. -/
def forgedFrame : List UInt8 :=
  List.replicate 12 2 ++ [0x86, 0xdd, 0x63, 0, 0, 0, 0, 0, 0, 1, 64, 17,
    0, 0, 212, 49, 48, 57, 0, 9, 0, 0] ++ ascii ['h', 'i']

/-- The server that has just started. -/
def newServer : Server :=
  ⟨.zeros bufSize, ⟨[], Nat.zero_le _⟩⟩

theorem acts_on_forgedFrame :
    ∃ h : Admitted forgedFrame, h.datagram.data = ascii ['h', 'i'] := by
  have hRun : (serverStep (.zeros 6) newServer forgedFrame).any
      (fun out => out.2.isSome) = true := by
    decide +kernel
  cases hStep : serverStep (.zeros 6) newServer forgedFrame with
  | none => simp [hStep] at hRun
  | some out =>
      have hActs : out.2 ≠ none := by
        intro hNone
        simp [hStep, hNone] at hRun
      obtain ⟨h, -⟩ := acts_only_on_admitted hStep (Or.inr hActs)
      exact ⟨h, show payload forgedFrame = ascii ['h', 'i'] by decide⟩

/-- The server answers it, and none of what it has not looked at is right. -/
theorem forgedFrame_answered :
    ((serverStep (.zeros 6) newServer forgedFrame).any fun out =>
        out.2.isSome && out.1.clients.entries.length == 1) = true ∧
      field forgedFrame 12 2 ≠ [8, 0] ∧
      (field forgedFrame 14 1).headD 0 >>> 4 ≠ 4 ∧
      ipLength forgedFrame < 20 ∧
      ntohs (field forgedFrame 20 2) % 8192 ≠ 0 ∧
      payload forgedFrame ≠ cstr (field forgedFrame
        (22 + ipLength forgedFrame)
        (ntohs (field forgedFrame (18 + ipLength forgedFrame) 2) - 8)) ∧
      ¬Genuine forgedFrame := by
  refine ⟨by decide +kernel, by decide, by decide, by decide, by decide,
    by decide, fun h => absurd h.etherType (by decide)⟩

end UnixHomework.Ports.Echo
