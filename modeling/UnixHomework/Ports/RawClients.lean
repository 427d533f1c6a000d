import UnixHomework.Ports.EchoFrame
import UnixHomework.Verified.Agreement
import UnixHomework.Verified.Fields

/-!
# What the raw-socket clients print

The clients with their own IP header and with their own MAC header receive
into the buffer they have sent from.  Both skip what is shorter than the
smallest headers, take the length of the IP header from the packet, compare
fields behind it and print what follows, up to a NUL that they write behind
the packet.

With a long IP header in a short packet these fields, and the text, are behind
the packet, where the buffer holds anything: `printsReceived_iff` says for
which packets this does not matter.
-/

namespace UnixHomework.Ports.RawClients

open UnixHomework.Verified
open UnixHomework.Ports.Echo (htons ntohs htons_ntohs headerLength
  headerLength_le serverPort clientPort ethHlen sizeofIphdr sizeofUdphdr)

/-! ## The receive loops -/

/-- From `data_len` on: the text that is printed, with the data at this offset
of the buffer. -/
def printData {n : Nat} (b : CharArray n) (bytes data : Nat) :
    Option (List UInt8) := do
  let dataLen : Int := bytes - data
  let dataLen : Int := if n ≤ dataLen then n - 1 else dataLen
  let b ← b.write? (data + dataLen).toNat [0]
  b.readString? data

/-- The client with its own IP header, after `recvfrom`: the text, or nothing
for `continue`. -/
def ipReceive (b : CharArray 1024) (bytes : Nat) :
    Option (Option (List UInt8)) :=
  if bytes < sizeofIphdr + sizeofUdphdr then some none
  else do
    let vihl ← b.read? 0 1
    let recvIpHeaderLen := headerLength vihl
    let source ← b.read? recvIpHeaderLen 2
    if ntohs source ≠ serverPort then some none
    else do
      let text ← printData b bytes (recvIpHeaderLen + sizeofUdphdr)
      some (some text)

/-- The client with its own MAC header.  It also compares the protocol and the
destination port, both at offsets that the packet decides. -/
def macReceive (b : CharArray 1500) (bytes : Nat) :
    Option (Option (List UInt8)) :=
  if bytes < ethHlen + sizeofIphdr + sizeofUdphdr then some none
  else do
    let vihl ← b.read? ethHlen 1
    let recvIpHeaderLen := headerLength vihl
    let protocol ← b.read? (ethHlen + 9) 1
    if protocol ≠ [17] then some none
    else do
      let source ← b.read? (ethHlen + recvIpHeaderLen) 2
      if ntohs source ≠ serverPort then some none
      else do
        let dest ← b.read? (ethHlen + recvIpHeaderLen + 2) 2
        if ntohs dest ≠ clientPort then some none
        else do
          let text ← printData b bytes
            (ethHlen + recvIpHeaderLen + sizeofUdphdr)
          some (some text)

/-! ## What they have in common -/

/-- Where the IP header is, whether the protocol is compared, and the bytes
that are expected at the start of the UDP header. -/
structure Filter (n : Nat) where
  /-- Where the IP header begins. -/
  ipAt : Nat
  /-- The protocol in the IP header is compared. -/
  udpOnly : Bool
  /-- What is expected of the UDP header, from its first byte on. -/
  ports : List UInt8
  /-- No more than the UDP header is compared. -/
  portsInside : ports.length ≤ 8
  /-- The longest IP header and the UDP header are in the buffer, with room for
  more. -/
  room : ipAt + 70 ≤ n

def ipFilter : Filter 1024 where
  ipAt := 0
  udpOnly := false
  ports := htons serverPort
  portsInside := by decide
  room := by decide

def macFilter : Filter 1500 where
  ipAt := ethHlen
  udpOnly := true
  ports := htons serverPort ++ htons clientPort
  portsInside := by decide
  room := by decide

/-- The receive loop with a filter.  What is read is read from the buffer,
whether or not it belongs to the packet. -/
def receive {n : Nat} (f : Filter n) (b : CharArray n) (bytes : Nat) :
    Option (Option (List UInt8)) :=
  if bytes < f.ipAt + 28 then some none
  else do
    let vihl ← b.read? f.ipAt 1
    let protocol ← b.read? (f.ipAt + 9) 1
    let ports ← b.read? (f.ipAt + headerLength vihl) f.ports.length
    if (f.udpOnly = true → protocol = [17]) ∧ ports = f.ports then do
      let text ← printData b bytes (f.ipAt + headerLength vihl + 8)
      some (some text)
    else some none

/-! ## What is asked for -/

/-- A packet that leaves room in the buffer for the terminator. -/
structure Packet (n : Nat) where
  bytes : List UInt8
  below : bytes.length < n

section Packets

variable {n : Nat}

/-- Bytes of the packet. -/
def Packet.slice (p : Packet n) (off k : Nat) : List UInt8 :=
  (p.bytes.drop off).take k

/-- Where the UDP header of the packet is. -/
def Packet.udpAt (p : Packet n) (ipAt : Nat) : Nat :=
  ipAt + headerLength (p.slice ipAt 1)

/-- The buffer after `recvfrom`. -/
def Packet.In (p : Packet n) (b : CharArray n) : Prop :=
  b.slice 0 p.bytes.length = p.bytes

/-- What is decided and printed does not depend on what the buffer holds
behind the packet, and the text consists of the bytes of the packet from
`data` on. -/
def PrintsReceived
    (loop : CharArray n → Nat → Option (Option (List UInt8)))
    (data : Nat) (p : Packet n) : Prop :=
  ∀ a b : CharArray n, p.In a → CharArray.AgreeBelow p.bytes.length a b →
    loop a p.bytes.length = loop b p.bytes.length ∧
      ∃ outcome, loop a p.bytes.length = some outcome ∧
        ∀ text, outcome = some text → text <+: p.bytes.drop data

/-- No byte of the packet keeps it from being accepted.  What the packet does
not have of the fields may be anything in the buffer. -/
def Acceptable (f : Filter n) (p : Packet n) : Prop :=
  (f.udpOnly = true → p.slice (f.ipAt + 9) 1 = [17]) ∧
    p.slice (p.udpAt f.ipAt) f.ports.length <+: f.ports

/-- The packet is too short, or has all of its UDP header, or is not
accepted whatever follows it. -/
def Complete (f : Filter n) (p : Packet n) : Prop :=
  p.bytes.length < f.ipAt + 28 ∨
    p.udpAt f.ipAt + 8 ≤ p.bytes.length ∨ ¬Acceptable f p

instance (f : Filter n) (p : Packet n) : Decidable (Acceptable f p) :=
  inferInstanceAs (Decidable (_ ∧ _))

instance (f : Filter n) (p : Packet n) : Decidable (Complete f p) :=
  inferInstanceAs (Decidable (_ ∨ _))

end Packets

/-! ## The loops and the filter -/

section Loops

theorem ntohs_eq_iff {bytes : List UInt8} (hLength : bytes.length = 2)
    {port : Nat} (hPort : port < 65536) :
    ntohs bytes = port ↔ bytes = htons port := by
  constructor
  · intro h
    rw [← h, htons_ntohs hLength]
  · intro h
    rw [h, Echo.ntohs_htons hPort]

/-- Where the loop looks for the UDP header. -/
def udpHeaderAt {n : Nat} (f : Filter n) (b : CharArray n) : Nat :=
  f.ipAt + headerLength (b.slice f.ipAt 1)

/-- The fields that are compared have the values expected. -/
def Admits {n : Nat} (f : Filter n) (b : CharArray n) : Prop :=
  (f.udpOnly = true → b.slice (f.ipAt + 9) 1 = [17]) ∧
    b.slice (udpHeaderAt f b) f.ports.length = f.ports

instance {n : Nat} (f : Filter n) (b : CharArray n) : Decidable (Admits f b) :=
  inferInstanceAs (Decidable (_ ∧ _))

theorem udpHeaderAt_le {n : Nat} (f : Filter n) (b : CharArray n) :
    udpHeaderAt f b ≤ f.ipAt + 60 :=
  Nat.add_le_add_left (headerLength_le _) _

/-- **The loop**: everything it compares is in the buffer, so it is defined up
to the printing. -/
theorem receive_eq {n : Nat} (f : Filter n) (b : CharArray n) (bytes : Nat) :
    receive f b bytes =
      if bytes < f.ipAt + 28 then some none
      else if Admits f b then
        (printData b bytes (udpHeaderAt f b + 8)).map some
      else some none := by
  have hRoom := f.room
  have hPorts := f.portsInside
  have hUdp := udpHeaderAt_le f b
  have hIhl : b.read? f.ipAt 1 = some (b.slice f.ipAt 1) :=
    b.read?_of_fits (by omega)
  have hProtocol : b.read? (f.ipAt + 9) 1 = some (b.slice (f.ipAt + 9) 1) :=
    b.read?_of_fits (by omega)
  have hFields : b.read? (f.ipAt + headerLength (b.slice f.ipAt 1))
      f.ports.length = some (b.slice (udpHeaderAt f b) f.ports.length) :=
    b.read?_of_fits (by rw [← udpHeaderAt]; omega)
  simp only [receive, hIhl, hProtocol, hFields, Option.bind_eq_bind,
    Option.bind_some, Option.map_eq_bind]
  rfl

theorem ipReceive_eq (b : CharArray 1024) (bytes : Nat) :
    ipReceive b bytes = receive ipFilter b bytes := by
  have hLength := headerLength_le (b.slice 0 1)
  have hIhl : b.read? 0 1 = some (b.slice 0 1) := b.read?_of_fits (by decide)
  have hSource : b.read? (headerLength (b.slice 0 1)) 2 =
      some (b.slice (headerLength (b.slice 0 1)) 2) :=
    b.read?_of_fits (by omega)
  have hAdmits : Admits ipFilter b ↔
      ntohs (b.slice (headerLength (b.slice 0 1)) 2) = serverPort := by
    rw [ntohs_eq_iff (b.length_slice (by omega)) (by decide), Admits,
      udpHeaderAt]
    simp [ipFilter, htons]
  rw [receive_eq]
  simp only [ipReceive, hIhl, hSource, Option.bind_eq_bind, Option.bind_some,
    Option.map_eq_bind, hAdmits, ite_not]
  rw [udpHeaderAt]
  simp only [ipFilter, Nat.zero_add]
  rfl

theorem macReceive_eq (b : CharArray 1500) (bytes : Nat) :
    macReceive b bytes = receive macFilter b bytes := by
  have hLength := headerLength_le (b.slice ethHlen 1)
  generalize hLen : headerLength (b.slice ethHlen 1) = len at hLength
  have hUdp : udpHeaderAt macFilter b = ethHlen + len := by
    rw [← hLen]
    rfl
  have hFits : ethHlen + len + 4 ≤ 1500 := by
    rw [ethHlen]
    omega
  have hIhl : b.read? ethHlen 1 = some (b.slice ethHlen 1) :=
    b.read?_of_fits (by decide)
  have hProtocol : b.read? (ethHlen + 9) 1 = some (b.slice (ethHlen + 9) 1) :=
    b.read?_of_fits (by decide)
  have hSource : b.read? (ethHlen + len) 2 = some (b.slice (ethHlen + len) 2) :=
    b.read?_of_fits (by omega)
  have hDest : b.read? (ethHlen + len + 2) 2 =
      some (b.slice (ethHlen + len + 2) 2) :=
    b.read?_of_fits (by omega)
  -- the four bytes of the ports are compared in two steps
  have hPorts : b.slice (ethHlen + len) 4 =
      htons serverPort ++ htons clientPort ↔
        ntohs (b.slice (ethHlen + len) 2) = serverPort ∧
          ntohs (b.slice (ethHlen + len + 2) 2) = clientPort := by
    rw [ntohs_eq_iff (b.length_slice (by omega)) (by decide),
      ntohs_eq_iff (b.length_slice (by omega)) (by decide),
      b.slice_add (ethHlen + len) 2 2]
    constructor
    · exact fun h => List.append_inj h (b.length_slice (by omega))
    · exact fun h => by rw [h.1, h.2]
  have hAdmits : Admits macFilter b ↔ b.slice (ethHlen + 9) 1 = [17] ∧
      ntohs (b.slice (ethHlen + len) 2) = serverPort ∧
        ntohs (b.slice (ethHlen + len + 2) 2) = clientPort := by
    rw [← hPorts, Admits, hUdp]
    exact and_congr_left' (by simp [macFilter])
  rw [receive_eq, hUdp]
  simp only [macReceive, hIhl, hLen, hProtocol, hSource, hDest,
    Option.bind_eq_bind, Option.bind_some, Option.map_eq_bind, hAdmits,
    ite_not]
  refine congrArg (ite _ _) ?_
  by_cases hUdpOnly : b.slice (ethHlen + 9) 1 = [17]
  · by_cases hFrom : ntohs (b.slice (ethHlen + len) 2) = serverPort
    · simp only [hUdpOnly, hFrom, if_true, true_and]
      rfl
    · simp only [hUdpOnly, hFrom, if_true, if_false, false_and, and_false]
  · simp only [hUdpOnly, if_false, false_and]

end Loops

/-! ## The packet in the buffer -/

section Received

variable {n : Nat} {f : Filter n} {p : Packet n} {a b : CharArray n}

/-- What the packet has of a range of the buffer is the beginning of what the
buffer has there. -/
theorem Packet.In.slice_prefix (h : p.In a) (off k : Nat) :
    p.slice off k <+: a.slice off k := by
  have hBytes : p.bytes = a.bytes.take p.bytes.length := by
    rw [Packet.In, CharArray.slice, List.drop_zero] at h
    exact h.symm
  rw [Packet.slice, CharArray.slice, hBytes, List.drop_take, List.take_take,
    Nat.min_comm, ← List.take_take]
  exact List.take_prefix _ _

theorem Packet.In.slice_eq (h : p.In a) {off k : Nat}
    (hInside : off + k ≤ p.bytes.length) : a.slice off k = p.slice off k := by
  have hSlice : a.slice (0 + off) k =
      ((a.slice 0 p.bytes.length).drop off).take k :=
    a.slice_of_slice hInside
  rw [Nat.zero_add] at hSlice
  rw [hSlice, h, Packet.slice]

theorem Packet.In.of_agree (h : p.In a)
    (hAgree : CharArray.AgreeBelow p.bytes.length a b) : p.In b := by
  rw [Packet.In, ← hAgree.slice_eq (Nat.le_of_eq (Nat.zero_add _)), h]

theorem Packet.In.getElem?_eq (h : p.In a) {i : Nat}
    (hi : i < p.bytes.length) : a.bytes[i]? = p.bytes[i]? := by
  rw [← h, CharArray.slice, List.drop_zero, List.getElem?_take_of_lt hi]

theorem Packet.In.agree (ha : p.In a) (hb : p.In b) :
    CharArray.AgreeBelow p.bytes.length a b := by
  intro i hi
  rw [ha.getElem?_eq hi, hb.getElem?_eq hi]

theorem Packet.In.udpHeaderAt_eq (h : p.In a)
    (hLong : f.ipAt + 28 ≤ p.bytes.length) :
    udpHeaderAt f a = p.udpAt f.ipAt := by
  rw [udpHeaderAt, Packet.udpAt, h.slice_eq (by omega)]

theorem Packet.udpAt_le (p : Packet n) (ipAt : Nat) :
    p.udpAt ipAt ≤ ipAt + 60 :=
  Nat.add_le_add_left (headerLength_le _) _

/-- The terminator is written behind the packet, whatever the header length
says: `data_len` is counted from the data on. -/
theorem printData_eq (b : CharArray n) {bytes : Nat} (h : bytes < n)
    (data : Nat) :
    printData b bytes data = (b.splice bytes [0] h).readString? data := by
  have hSmall : ¬(n : Int) ≤ (bytes : Int) - data := by omega
  have hIndex : ((data : Int) + ((bytes : Int) - data)).toNat = bytes := by
    omega
  simp only [printData, if_neg hSmall, hIndex, Option.bind_eq_bind]
  rw [b.write?_of_fits h, Option.bind_some]

/-- **Data inside the packet**: they are printed up to a NUL of theirs or to
the end of the packet. -/
theorem Packet.In.printData_eq (h : p.In a) {data : Nat}
    (hData : data ≤ p.bytes.length) :
    printData a p.bytes.length data = some (cstr (p.bytes.drop data)) := by
  have hLength : (p.bytes.drop data).length = p.bytes.length - data :=
    List.length_drop
  rw [RawClients.printData_eq a p.below]
  apply CharArray.readString?_terminated
  · rw [CharArray.slice_splice_before a p.below (by omega),
      h.slice_eq (by omega), Packet.slice, List.take_length]
  · rw [hLength, Nat.add_sub_cancel' hData]
    exact CharArray.slice_splice_self a p.below

/-! ## Complete packets -/

/-- What is decided and printed, as far as it depends on the packet alone. -/
def outcome (f : Filter n) (p : Packet n) : Option (List UInt8) :=
  if p.bytes.length < f.ipAt + 28 ∨ ¬Acceptable f p then none
  else some (cstr (p.bytes.drop (p.udpAt f.ipAt + 8)))

/-- Whatever is behind the packet, it is admitted only if it is acceptable: the
fields that the packet has are compared, too. -/
theorem Packet.In.acceptable (h : p.In a)
    (hLong : f.ipAt + 28 ≤ p.bytes.length) (hAdmits : Admits f a) :
    Acceptable f p := by
  rcases hAdmits with ⟨hUdp, hPorts⟩
  constructor
  · rw [← h.slice_eq (by omega)]
    exact hUdp
  · have hPrefix := h.slice_prefix (p.udpAt f.ipAt) f.ports.length
    rw [h.udpHeaderAt_eq hLong] at hPorts
    rw [hPorts] at hPrefix
    exact hPrefix

/-- With all of the UDP header in the packet, an acceptable one is admitted. -/
theorem Packet.In.admits (h : p.In a) (hLong : f.ipAt + 28 ≤ p.bytes.length)
    (hHeader : p.udpAt f.ipAt + 8 ≤ p.bytes.length)
    (hAcc : Acceptable f p) : Admits f a := by
  have hPorts := f.portsInside
  rcases hAcc with ⟨hUdp, hPrefix⟩
  constructor
  · rw [h.slice_eq (by omega)]
    exact hUdp
  · have hSlice : a.slice (p.udpAt f.ipAt) f.ports.length =
        p.slice (p.udpAt f.ipAt) f.ports.length := h.slice_eq (by omega)
    have hSize : p.udpAt f.ipAt + f.ports.length ≤ n := by
      have hBelow := p.below
      omega
    rw [h.udpHeaderAt_eq hLong, hSlice]
    apply hPrefix.eq_of_length
    rw [← hSlice, a.length_slice hSize]

theorem Packet.In.receive_eq (h : p.In a) (hComplete : Complete f p) :
    receive f a p.bytes.length = some (outcome f p) := by
  rw [RawClients.receive_eq, outcome]
  by_cases hShort : p.bytes.length < f.ipAt + 28
  · rw [if_pos hShort, if_pos (Or.inl hShort)]
  · have hLong : f.ipAt + 28 ≤ p.bytes.length := Nat.le_of_not_lt hShort
    rw [if_neg hShort]
    by_cases hAcc : Acceptable f p
    · have hHeader : p.udpAt f.ipAt + 8 ≤ p.bytes.length :=
        (hComplete.resolve_left hShort).resolve_right (not_not_intro hAcc)
      rw [if_pos (h.admits hLong hHeader hAcc), h.udpHeaderAt_eq hLong,
        h.printData_eq hHeader, if_neg (by simp [hShort, hAcc])]
      rfl
    · rw [if_neg (fun hAdmits => hAcc (h.acceptable hLong hAdmits)),
        if_pos (Or.inr hAcc)]

/-- **Complete packets**: the buffer behind them does not matter. -/
theorem printsReceived_of_complete (hComplete : Complete f p) :
    PrintsReceived (receive f) (p.udpAt f.ipAt + 8) p := by
  intro a b ha hAgree
  have hb := ha.of_agree hAgree
  rw [ha.receive_eq hComplete, hb.receive_eq hComplete]
  refine ⟨rfl, _, rfl, fun text hText => ?_⟩
  rw [outcome] at hText
  split at hText
  · contradiction
  · rw [← Option.some.inj hText]
    exact List.takeWhile_prefix _

/-! ## Packets without their UDP header -/

theorem packet_fits (p : Packet n) : 0 + p.bytes.length ≤ n := by
  rw [Nat.zero_add]
  exact Nat.le_of_lt p.below

theorem ports_fit (f : Filter n) (p : Packet n) :
    p.udpAt f.ipAt + f.ports.length ≤ n := by
  have hUdp := p.udpAt_le f.ipAt
  have hPorts := f.portsInside
  have hRoom := f.room
  omega

theorem data_fits (f : Filter n) (p : Packet n) :
    p.udpAt f.ipAt + 8 + 2 ≤ n := by
  have hUdp := p.udpAt_le f.ipAt
  have hRoom := f.room
  omega

/-- The packet and, where the client looks for them, the ports. -/
def withPorts (f : Filter n) (p : Packet n) : CharArray n :=
  ((CharArray.zeros n).splice 0 p.bytes (packet_fits p)).splice
    (p.udpAt f.ipAt) f.ports (ports_fit f p)

/-- The same with a byte where the client looks for the data.  Two such buffers
differ in this byte only, and the client prints it. -/
def withData (f : Filter n) (p : Packet n) (x : UInt8) : CharArray n :=
  (withPorts f p).splice (p.udpAt f.ipAt + 8) [x]
    (Nat.le_of_succ_le (data_fits f p))

/-- The ports do not change the packet, since it has part of them at most. -/
theorem withPorts_in (hAcc : Acceptable f p) : p.In (withPorts f p) := by
  have hPacket : p.In ((CharArray.zeros n).splice 0 p.bytes (packet_fits p)) :=
    CharArray.slice_splice_self _ (packet_fits p)
  apply hPacket.of_agree
  intro i hi
  rw [withPorts, CharArray.getElem?_splice _ (ports_fit f p)]
  split
  · rfl
  · split
    · rename_i hBefore hBehind
      have hIndex : i - p.udpAt f.ipAt <
          (p.slice (p.udpAt f.ipAt) f.ports.length).length := by
        rw [Packet.slice, List.length_take, List.length_drop]
        omega
      have hSame : (p.slice (p.udpAt f.ipAt) f.ports.length)[i -
          p.udpAt f.ipAt]? = p.bytes[i]? := by
        rw [Packet.slice, List.getElem?_take_of_lt (by omega),
          List.getElem?_drop, Nat.add_sub_cancel' (Nat.le_of_not_lt hBefore)]
      rw [hPacket.getElem?_eq hi, ← hSame, List.getElem?_eq_getElem hIndex]
      exact (List.prefix_iff_getElem?.mp hAcc.2 _ hIndex).symm
    · rfl

/-- A packet that is not complete. -/
structure Open (f : Filter n) (p : Packet n) : Prop where
  /-- It is not skipped for its length, -/
  long : f.ipAt + 28 ≤ p.bytes.length
  /-- its UDP header is not all there, -/
  behind : p.bytes.length < p.udpAt f.ipAt + 8
  /-- and what is there is as expected. -/
  acceptable : Acceptable f p

theorem open_of_not_complete (h : ¬Complete f p) : Open f p := by
  rw [Complete, not_or, not_or, not_not] at h
  exact ⟨Nat.le_of_not_lt h.1, Nat.lt_of_not_le h.2.1, h.2.2⟩

theorem Open.withData_in (h : Open f p) (x : UInt8) :
    p.In (withData f p x) := by
  rw [Packet.In, withData, CharArray.slice_splice_before _ _
    (by have hBehind := h.behind; omega)]
  exact withPorts_in h.acceptable

theorem Open.withData_admits (h : Open f p) (x : UInt8) :
    Admits f (withData f p x) := by
  have hIn := h.withData_in x
  have hLong := h.long
  have hPorts := f.portsInside
  constructor
  · rw [hIn.slice_eq (by omega)]
    exact h.acceptable.1
  · rw [hIn.udpHeaderAt_eq hLong, withData,
      CharArray.slice_splice_before _ _ (by omega)]
    exact CharArray.slice_splice_self _ (ports_fit f p)

/-- **What is printed** is the byte behind the packet. -/
theorem Open.printData_withData (h : Open f p) (x : UInt8) :
    printData (withData f p x) p.bytes.length (p.udpAt f.ipAt + 8) =
      some (cstr [x]) := by
  have hBehind := h.behind
  have hFits := data_fits f p
  have hPorts := f.portsInside
  rw [RawClients.printData_eq _ p.below]
  apply CharArray.readString?_terminated
  · rw [CharArray.slice_splice_after _ p.below hBehind]
    exact CharArray.slice_splice_self _ _
  · rw [CharArray.slice_splice_after _ p.below (by
        rw [List.length_singleton, List.length_singleton]; omega),
      withData, CharArray.slice_splice_after _ _ (Nat.le_refl _), withPorts,
      CharArray.slice_splice_after _ _ (by rw [List.length_singleton]; omega),
      CharArray.slice_splice_after _ _ (by rw [List.length_singleton]; omega)]
    show ((List.replicate n 0).drop _).take 1 = [0]
    rw [List.drop_replicate, List.take_replicate, List.length_singleton,
      Nat.min_eq_left (by omega)]
    rfl

theorem Open.receive_withData (h : Open f p) (x : UInt8) :
    receive f (withData f p x) p.bytes.length = some (some (cstr [x])) := by
  rw [RawClients.receive_eq, if_neg (Nat.not_lt.mpr h.long),
    if_pos (h.withData_admits x), (h.withData_in x).udpHeaderAt_eq h.long,
    h.printData_withData x]
  rfl

/-- **Other packets**: what is printed depends on a byte behind them.  The
buffer has the ports that are expected there, and two different bytes after
them. -/
theorem Open.not_printsReceived (h : Open f p) (data : Nat) :
    ¬PrintsReceived (receive f) data p := by
  intro hPrints
  have hIn := h.withData_in 0
  have hSame := (hPrints _ _ hIn (hIn.agree (h.withData_in 65))).1
  rw [h.receive_withData, h.receive_withData] at hSame
  exact absurd hSame (by decide)

theorem printsReceived_iff :
    PrintsReceived (receive f) (p.udpAt f.ipAt + 8) p ↔ Complete f p := by
  constructor
  · intro hPrints
    by_contra hNot
    exact (open_of_not_complete hNot).not_printsReceived _ hPrints
  · exact printsReceived_of_complete

end Received

/-! ## The two clients -/

/-- **The clients** print only what they have received, whatever the buffer
holds behind it, exactly for the packets that are complete. -/
theorem clients_print_received_iff (p : Packet 1024) (q : Packet 1500) :
    (PrintsReceived ipReceive (p.udpAt 0 + sizeofUdphdr) p ↔
        Complete ipFilter p) ∧
      (PrintsReceived macReceive (q.udpAt ethHlen + sizeofUdphdr) q ↔
        Complete macFilter q) := by
  have hIp : ipReceive = receive ipFilter := by
    funext b bytes
    exact ipReceive_eq b bytes
  have hMac : macReceive = receive macFilter := by
    funext b bytes
    exact macReceive_eq b bytes
  rw [hIp, hMac]
  exact ⟨printsReceived_iff, printsReceived_iff⟩

/-- The shortest packet that is looked at, whose IP header would have 60
bytes. -/
def longHeader : List UInt8 :=
  0x4f :: (List.replicate 8 0 ++ 17 :: List.replicate 18 0)

theorem longHeader_below :
    longHeader.length < 1024 ∧
      (List.replicate ethHlen 0 ++ longHeader).length < 1500 := by
  decide

def ipPacket : Packet 1024 := ⟨longHeader, longHeader_below.1⟩

def macPacket : Packet 1500 :=
  ⟨List.replicate ethHlen 0 ++ longHeader, longHeader_below.2⟩

/-- An `A` is behind these packets, and is printed. -/
theorem stale_text_printed :
    ipReceive (withData ipFilter ipPacket 65) 28 = some (some [65]) ∧
      macReceive (withData macFilter macPacket 65) 42 = some (some [65]) ∧
      ¬∀ (p : Packet 1024) (q : Packet 1500),
        PrintsReceived ipReceive (p.udpAt 0 + sizeofUdphdr) p ∧
          PrintsReceived macReceive (q.udpAt ethHlen + sizeofUdphdr) q := by
  have hIp : Open ipFilter ipPacket := by
    constructor <;> decide +kernel
  have hMac : Open macFilter macPacket := by
    constructor <;> decide +kernel
  refine ⟨(ipReceive_eq _ _).trans (hIp.receive_withData 65),
    (macReceive_eq _ _).trans (hMac.receive_withData 65), fun hAll => ?_⟩
  have hPrints := (hAll ipPacket macPacket).1
  rw [show ipReceive = receive ipFilter from
    funext fun b => funext (ipReceive_eq b)] at hPrints
  exact hIp.not_printsReceived _ hPrints

end UnixHomework.Ports.RawClients
