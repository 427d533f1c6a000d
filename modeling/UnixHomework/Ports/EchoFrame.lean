import UnixHomework.Verified.CharArray
import Mathlib.Algebra.Group.Nat.Defs

/-!
# Frames of the raw-socket echo programs

What the two echo programs share: the offsets of the header fields, the ports,
the checksum, `recvfrom` into a buffer, and the headers that both write into
it.  The buffer is one array of bytes and a header is a view of it, so a field
is a pair of an offset and a size.  A number in network order is the list of
its two bytes.
-/

namespace UnixHomework.Ports.Echo

open UnixHomework.Verified

def bufSize : Nat := 1500

def serverPort : Nat := 12345

def clientPort : Nat := 54321

/-- `ETH_HLEN`, `sizeof(struct iphdr)` and `sizeof(struct udphdr)`. -/
def ethHlen : Nat := 14

def sizeofIphdr : Nat := 20

def sizeofUdphdr : Nat := 8

abbrev Buffer := CharArray bufSize

/-- The bytes of a `uint16_t` after `htons`. -/
def htons (n : Nat) : List UInt8 :=
  [(n / 256).toUInt8, n.toUInt8]

/-- The value of a `uint16_t` in network order. -/
def ntohs : List UInt8 → Nat
  | [hi, lo] => 256 * hi.toNat + lo.toNat
  | _ => 0

theorem ntohs_htons {n : Nat} (h : n < 65536) : ntohs (htons n) = n := by
  simp only [htons, ntohs, Nat.toUInt8_eq, UInt8.toNat_ofNat']
  omega

/-- Two bytes in network order are those of the number that they make. -/
theorem htons_ntohs : ∀ {bytes : List UInt8}, bytes.length = 2 →
    htons (ntohs bytes) = bytes
  | [hi, lo], _ => by
      have hHi := hi.toNat_lt
      have hLo := lo.toNat_lt
      simp only [htons, ntohs, List.cons.injEq, and_true, ← UInt8.toNat_inj,
        Nat.toUInt8_eq, UInt8.toNat_ofNat']
      omega

/-! ## The checksum -/

/-- One word added to the accumulator, with the end-around carry. -/
def addWord (acc word : Nat) : Nat :=
  if 65535 < acc + word then acc + word - 65535 else acc + word

/-- The loop over the words; an odd byte at the end counts as a high byte. -/
def checksumLoop (acc : Nat) : List UInt8 → Nat
  | hi :: lo :: rest => checksumLoop (addWord acc (ntohs [hi, lo])) rest
  | [last] => addWord acc (ntohs [last, 0])
  | [] => acc

/-- `checksum`: the bytes of the result as they are stored. -/
def checksum (data : List UInt8) : List UInt8 :=
  htons ((2 ^ 32 - 1 - checksumLoop 65535 data) % 65536)

/-! ## Receiving -/

/-- `recvfrom` into a buffer: its contents and the number of bytes. -/
def recvfrom (b : Buffer) (frame : List UInt8) : Buffer × Nat :=
  (b.splice 0 (frame.take bufSize)
      (by
        rw [Nat.zero_add]
        exact List.length_take_le _ _),
    min frame.length bufSize)

/-- The header length that the first byte of an IP header gives. -/
def headerLength (vihl : List UInt8) : Nat :=
  (vihl.headD 0 &&& 15).toNat * 4

theorem headerLength_le (vihl : List UInt8) : headerLength vihl ≤ 60 := by
  have hAnd : (vihl.headD 0 &&& 15).toNat ≤ 15 := by
    rw [UInt8.toNat_and]
    exact Nat.and_le_right
  rw [headerLength]
  omega

/-! ## Writing headers -/

/-- The Ethernet header: `memcpy` of both addresses, then the type. -/
def ethHeader (dst src : List UInt8) (b : Buffer) : Option Buffer := do
  let b ← b.write? 0 dst
  let b ← b.write? 6 src
  b.write? 12 [8, 0]

/-- The IP header up to the protocol: cleared, then set field by field. -/
def ipHeader (id length : Nat) (b : Buffer) : Option Buffer := do
  let b ← b.write? ethHlen (List.replicate sizeofIphdr 0)
  let b ← b.write? ethHlen [0x45]
  let b ← b.write? (ethHlen + 2)
    (htons (sizeofIphdr + sizeofUdphdr + length))
  let b ← b.write? (ethHlen + 4) (htons id)
  let b ← b.write? (ethHlen + 6) [0, 0]
  let b ← b.write? (ethHlen + 8) [64]
  b.write? (ethHlen + 9) [17]

/-- `ip->check = checksum(ip, ip->ihl*4)`. -/
def ipCheck (b : Buffer) : Option Buffer := do
  let vihl ← b.read? ethHlen 1
  let header ← b.read? ethHlen (headerLength vihl)
  b.write? (ethHlen + 10) (checksum header)

/-- Where the UDP header is written: behind the new IP header. -/
def udpOffset (b : Buffer) : Option Nat := do
  let vihl ← b.read? ethHlen 1
  some (ethHlen + headerLength vihl)

section Headers

variable (b : Buffer)

theorem ethHeader_eq {dst src : List UInt8} (hDst : dst.length = 6)
    (hSrc : src.length = 6) :
    ∃ b', ethHeader dst src b = some b' ∧
      b'.slice 0 6 = dst ∧ b'.slice 6 6 = src ∧ b'.slice 12 2 = [8, 0] ∧
        ∀ o j, 14 ≤ o → b'.slice o j = b.slice o j := by
  rcases b.exists_write? 0 dst 6 hDst (by decide) with ⟨b1, h1, w1, s1⟩
  rcases b1.exists_write? 6 src 6 hSrc (by decide) with ⟨b2, h2, w2, s2⟩
  rcases b2.exists_write? 12 [8, 0] 2 rfl (by decide) with ⟨b3, h3, w3, s3⟩
  refine ⟨b3, ?_, ?_, ?_, w3, ?_⟩
  · simp only [ethHeader, Option.bind_eq_bind, h1, h2, h3, Option.bind_some]
  · rw [s3 0 6 (by decide), s2 0 6 (by decide), w1]
  · rw [s3 6 6 (by decide), w2]
  · intro o j ho
    rw [s3 o j (Or.inr ho), s2 o j (Or.inr (by omega)),
      s1 o j (Or.inr (by omega))]

/-- Both addresses are zero after the `memset`. -/
theorem ipHeader_eq (id length : Nat) :
    ∃ b', ipHeader id length b = some b' ∧
      b'.slice 14 1 = [0x45] ∧ b'.slice 16 2 = htons (28 + length) ∧
        b'.slice 23 1 = [17] ∧ b'.slice 30 4 = [0, 0, 0, 0] ∧
          ∀ o j, o + j ≤ 14 ∨ 34 ≤ o → b'.slice o j = b.slice o j := by
  rcases b.exists_write? 14 (List.replicate 20 0) 20 rfl (by decide) with
    ⟨b1, h1, w1, s1⟩
  rcases b1.exists_write? 14 [0x45] 1 rfl (by decide) with ⟨b2, h2, w2, s2⟩
  rcases b2.exists_write? 16 (htons (28 + length)) 2 rfl (by decide) with
    ⟨b3, h3, w3, s3⟩
  rcases b3.exists_write? 18 (htons id) 2 rfl (by decide) with
    ⟨b4, h4, w4, s4⟩
  rcases b4.exists_write? 20 [0, 0] 2 rfl (by decide) with ⟨b5, h5, w5, s5⟩
  rcases b5.exists_write? 22 [64] 1 rfl (by decide) with ⟨b6, h6, w6, s6⟩
  rcases b6.exists_write? 23 [17] 1 rfl (by decide) with ⟨b7, h7, w7, s7⟩
  have hCleared : b1.slice 30 4 = [0, 0, 0, 0] := by
    have hPart : b1.slice (14 + 16) 4 = ((b1.slice 14 20).drop 16).take 4 :=
      b1.slice_of_slice (by decide)
    rw [hPart, w1]
    rfl
  refine ⟨b7, ?_, ?_, ?_, w7, ?_, ?_⟩
  · simp only [ipHeader, ethHlen, sizeofIphdr, sizeofUdphdr, Nat.reduceAdd,
      Option.bind_eq_bind, h1, h2, h3, h4, h5, h6, h7, Option.bind_some]
  · rw [s7 14 1 (by decide), s6 14 1 (by decide), s5 14 1 (by decide),
      s4 14 1 (by decide), s3 14 1 (by decide), w2]
  · rw [s7 16 2 (by decide), s6 16 2 (by decide), s5 16 2 (by decide),
      s4 16 2 (by decide), w3]
  · rw [s7 30 4 (by decide), s6 30 4 (by decide), s5 30 4 (by decide),
      s4 30 4 (by decide), s3 30 4 (by decide), s2 30 4 (by decide), hCleared]
  · intro o j h
    rw [s7 o j (by omega), s6 o j (by omega), s5 o j (by omega),
      s4 o j (by omega), s3 o j (by omega), s2 o j (by omega),
      s1 o j (by omega)]

theorem ipCheck_eq (hVihl : b.slice 14 1 = [0x45]) :
    ∃ b', ipCheck b = some b' ∧
      ∀ o j, o + j ≤ 24 ∨ 26 ≤ o → b'.slice o j = b.slice o j := by
  rcases b.exists_write? 24 (checksum (b.slice 14 20)) 2 rfl (by decide)
    with ⟨b1, h1, -, s1⟩
  refine ⟨b1, ?_, s1⟩
  rw [ipCheck, ethHlen, b.read?_of_fits (by decide), hVihl]
  simp only [Option.bind_eq_bind, Option.bind_some,
    show headerLength [0x45] = 20 from rfl,
    b.read?_of_fits (by decide : 14 + 20 ≤ bufSize), h1]

/-- The two addresses written into the header, and its checksum. -/
theorem ipAddresses_eq {src dst : List UInt8} (hSrc : src.length = 4)
    (hDst : dst.length = 4) (hVihl : b.slice 14 1 = [0x45]) :
    ∃ b1 b2 b3, b.write? 26 src = some b1 ∧ b1.slice 26 4 = src ∧
      b1.write? 30 dst = some b2 ∧ ipCheck b2 = some b3 ∧
        b3.slice 26 4 = src ∧ b3.slice 30 4 = dst ∧
          ∀ o j, o + j ≤ 24 ∨ 34 ≤ o → b3.slice o j = b.slice o j := by
  rcases b.exists_write? 26 src 4 hSrc (by decide) with ⟨b1, h1, w1, s1⟩
  rcases b1.exists_write? 30 dst 4 hDst (by decide) with ⟨b2, h2, w2, s2⟩
  have hVihl' : b2.slice 14 1 = [0x45] := by
    rw [s2 14 1 (by decide), s1 14 1 (by decide), hVihl]
  rcases ipCheck_eq b2 hVihl' with ⟨b3, h3, s3⟩
  refine ⟨b1, b2, b3, h1, w1, h2, h3, ?_, ?_, ?_⟩
  · rw [s3 26 4 (by decide), s2 26 4 (by decide), w1]
  · rw [s3 30 4 (by decide), w2]
  · intro o j h
    rw [s3 o j (by omega), s2 o j (by omega), s1 o j (by omega)]

theorem udpOffset_eq (hVihl : b.slice 14 1 = [0x45]) :
    udpOffset b = some 34 := by
  rw [udpOffset, ethHlen, b.read?_of_fits (by decide), hVihl]
  rfl

/-- The four fields of the UDP header, one after the other. -/
theorem udpFields_eq (source dest length : Nat) :
    ∃ b1 b2 b3 b4, b.write? 34 (htons source) = some b1 ∧
      b1.slice 34 2 = htons source ∧ b1.write? 36 (htons dest) = some b2 ∧
        b2.write? 38 (htons (8 + length)) = some b3 ∧
          b3.write? 40 [0, 0] = some b4 ∧ b4.slice 34 2 = htons source ∧
            b4.slice 36 2 = htons dest ∧
              ∀ o j, o + j ≤ 34 ∨ 42 ≤ o → b4.slice o j = b.slice o j := by
  rcases b.exists_write? 34 (htons source) 2 rfl (by decide) with
    ⟨b1, h1, w1, s1⟩
  rcases b1.exists_write? 36 (htons dest) 2 rfl (by decide) with
    ⟨b2, h2, w2, s2⟩
  rcases b2.exists_write? 38 (htons (8 + length)) 2 rfl (by decide) with
    ⟨b3, h3, w3, s3⟩
  rcases b3.exists_write? 40 [0, 0] 2 rfl (by decide) with ⟨b4, h4, w4, s4⟩
  refine ⟨b1, b2, b3, b4, h1, w1, h2, h3, h4, ?_, ?_, ?_⟩
  · rw [s4 34 2 (by decide), s3 34 2 (by decide), s2 34 2 (by decide), w1]
  · rw [s4 36 2 (by decide), s3 36 2 (by decide), w2]
  · intro o j h
    rw [s4 o j (by omega), s3 o j (by omega), s2 o j (by omega),
      s1 o j (by omega)]

end Headers

/-! ## What a frame says -/

/-- A field of a frame. -/
def field (frame : List UInt8) (off k : Nat) : List UInt8 :=
  (frame.drop off).take k

/-- The addresses, ports and text of an IPv4 frame without IP options. -/
structure Carries (frame ethDst ethSrc ipSrc ipDst : List UInt8)
    (source dest : Nat) (text : List UInt8) : Prop where
  /-- Nothing stands behind the text. -/
  length : frame.length = 42 + text.length
  ethDst : field frame 0 6 = ethDst
  ethSrc : field frame 6 6 = ethSrc
  /-- IPv4. -/
  ethType : field frame 12 2 = [8, 0]
  /-- Version 4, and a header of five words. -/
  vihl : field frame 14 1 = [0x45]
  /-- The length of the IP header, the UDP header and the text. -/
  totLen : field frame 16 2 = htons (28 + text.length)
  /-- UDP. -/
  protocol : field frame 23 1 = [17]
  ipSrc : field frame 26 4 = ipSrc
  ipDst : field frame 30 4 = ipDst
  source : field frame 34 2 = htons source
  dest : field frame 36 2 = htons dest
  text : field frame 42 text.length = text

/-- A field of the first bytes of a buffer. -/
theorem field_slice (b : Buffer) {m o k : Nat} (h : o + k ≤ m) :
    field (b.slice 0 m) o k = b.slice o k := by
  have hSlice : b.slice (0 + o) k = ((b.slice 0 m).drop o).take k :=
    b.slice_of_slice h
  rw [Nat.zero_add] at hSlice
  exact hSlice.symm

/-- The received bytes, when the frame is not longer than the buffer. -/
theorem slice_recvfrom (b : Buffer) {frame : List UInt8} {o k : Nat}
    (hFrame : frame.length ≤ bufSize) (h : o + k ≤ frame.length) :
    (recvfrom b frame).1.slice o k = field frame o k := by
  have hTake : frame.take bufSize = frame := List.take_of_length_le hFrame
  rw [recvfrom, CharArray.slice_splice_inside _ _ (Nat.zero_le _)
    (by rw [hTake, Nat.zero_add]; exact h), Nat.sub_zero, hTake, field]

end UnixHomework.Ports.Echo
