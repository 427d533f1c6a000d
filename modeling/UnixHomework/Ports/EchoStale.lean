import UnixHomework.Ports.EchoFilter
import UnixHomework.Verified.Agreement

/-!
# Stale bytes in the echo server's buffer

Behind the frame just received the buffer holds bytes of earlier traffic.  Two
iterations on the same frame, with different bytes behind it, decide the same,
leave the same table and send the same frame (`stale_bytes_unused`).

The decision is a function of the frame (`judge_received`).  For the frame
that is sent, the two runs are followed through the code that builds it.  What
they keep is `Twin`: the buffers agree as far as they have been filled, and
the first byte and the length of the IP header are those just written, so both
runs go on writing at the same offsets.
-/

namespace UnixHomework.Ports.Echo

open UnixHomework.Verified

/-! ## The invariant of the two runs -/

/-- Two buffers that agree below `m`, with the header of a reply of `length`
bytes in them. -/
structure Twin (length m : Nat) (a b : Buffer) : Prop where
  /-- What has been written so far is the same, -/
  agree : CharArray.AgreeBelow m a b
  /-- the header of the reply has no options, -/
  vihl : a.slice 14 1 = [0x45]
  /-- and its length is that of the reply. -/
  totLen : a.slice 16 2 = htons (28 + length)

section Twins

variable {length m m' off k : Nat} {a b : Buffer} {src : List UInt8}

theorem Twin.read?_eq (h : Twin length m a b) (hk : off + k ≤ m) :
    a.read? off k = b.read? off k :=
  h.agree.read?_eq hk

/-- A write behind the length field, in both buffers.  It may widen the part in
which they agree. -/
theorem Twin.write? (h : Twin length m a b) (hLo : 18 ≤ off) (hHi : off ≤ m)
    (hm : m' ≤ max m (off + src.length)) :
    Option.Rel (Twin length m') (a.write? off src) (b.write? off src) := by
  by_cases fits : off + src.length ≤ bufSize
  · rw [a.write?_of_fits fits, b.write?_of_fits fits]
    apply Option.Rel.some
    constructor
    · exact (h.agree.splice hHi fits).mono hm
    · rw [CharArray.slice_splice_before a fits (by omega), h.vihl]
    · rw [CharArray.slice_splice_before a fits (by omega), h.totLen]
  · rw [CharArray.write?, CharArray.write?, dif_neg fits, dif_neg fits]
    exact .none

/-- Both runs find the UDP header at the same place. -/
theorem Twin.udpOffset_eq (h : Twin length m a b) (hm : 15 ≤ m) :
    udpOffset a = some 34 ∧ udpOffset b = some 34 := by
  have hVihl : b.slice 14 1 = [0x45] := by
    rw [← h.agree.slice_eq hm, h.vihl]
  exact ⟨Echo.udpOffset_eq a h.vihl, Echo.udpOffset_eq b hVihl⟩

end Twins

/-! ## The reply, layer by layer -/

section Layers

variable {length m : Nat} {a b : Buffer}

theorem replyEth_agree (serverMac : CharArray 6)
    (h : CharArray.AgreeBelow m a b) (hm : 34 ≤ m) :
    Option.Rel (CharArray.AgreeBelow m) (replyEth serverMac a)
      (replyEth serverMac b) := by
  simp only [replyEth, ethHeader, Option.bind_eq_bind]
  apply rel_bind_same (h.read?_eq (by omega))
  intro mac _
  apply rel_bind (h.write? (by omega) (Nat.le_max_left _ _))
  intro a b h
  apply rel_bind (h.write? (by omega) (Nat.le_max_left _ _))
  intro a b h
  exact h.write? (by omega) (Nat.le_max_left _ _)

theorem ipHeader_agree (id : Nat) (h : CharArray.AgreeBelow m a b)
    (hm : 34 ≤ m) :
    Option.Rel (CharArray.AgreeBelow m) (ipHeader id length a)
      (ipHeader id length b) := by
  simp only [ipHeader, ethHlen, Option.bind_eq_bind]
  apply rel_bind (h.write? (by omega) (Nat.le_max_left _ _))
  intro a b h
  apply rel_bind (h.write? (by omega) (Nat.le_max_left _ _))
  intro a b h
  apply rel_bind (h.write? (by omega) (Nat.le_max_left _ _))
  intro a b h
  apply rel_bind (h.write? (by omega) (Nat.le_max_left _ _))
  intro a b h
  apply rel_bind (h.write? (by omega) (Nat.le_max_left _ _))
  intro a b h
  apply rel_bind (h.write? (by omega) (Nat.le_max_left _ _))
  intro a b h
  exact h.write? (by omega) (Nat.le_max_left _ _)

theorem ipCheck_twin (h : Twin length m a b) (hm : 34 ≤ m) :
    Option.Rel (Twin length m) (ipCheck a) (ipCheck b) := by
  simp only [ipCheck, ethHlen, Option.bind_eq_bind]
  apply rel_bind_same (h.read?_eq (by omega))
  intro vihl hVihl
  -- both runs sum up the 20 bytes that they have just written
  rw [a.read?_of_fits (by decide), h.vihl, Option.some.injEq] at hVihl
  subst hVihl
  have hRead : 14 + headerLength [0x45] ≤ m := hm
  apply rel_bind_same (h.read?_eq hRead)
  intro header _
  exact h.write? (by omega) (by omega) (Nat.le_max_left _ _)

theorem replyIp_twin (h : CharArray.AgreeBelow m a b) (hm : 34 ≤ m) :
    Option.Rel (Twin length m) (replyIp length a) (replyIp length b) := by
  rcases ipHeader_eq a 12345 length with ⟨a1, ha, i1, i2, -⟩
  rcases ipHeader_eq b 12345 length with ⟨b1, hb, -⟩
  have hAgree : Option.Rel (CharArray.AgreeBelow m)
      (ipHeader 12345 length a) (ipHeader 12345 length b) :=
    ipHeader_agree 12345 h hm
  rw [ha, hb, Option.rel_some_some] at hAgree
  have hTwin : Twin length m a1 b1 := ⟨hAgree, i1, i2⟩
  simp only [replyIp, ethHlen, Option.bind_eq_bind, ha, hb, Option.bind_some]
  apply rel_bind_same (hTwin.read?_eq (by omega))
  intro daddr _
  apply rel_bind
    (hTwin.write? (by omega) (by omega) (Nat.le_max_left _ _))
  intro a b h
  apply rel_bind_same (h.read?_eq (by omega))
  intro saddr _
  apply rel_bind (h.write? (by omega) (by omega) (Nat.le_max_left _ _))
  intro a b h
  exact ipCheck_twin h hm

/-- The destination port is read below `m` as well, since the frame has data
behind its UDP header. -/
theorem replyUdp_twin {ipLen : Nat} (h : Twin length m a b) (hm : 34 ≤ m)
    (hIp : 16 + ipLen ≤ m) :
    Option.Rel (Twin length (max m 42)) (replyUdp ipLen length a)
      (replyUdp ipLen length b) := by
  rcases h.udpOffset_eq (by omega) with ⟨ha, hb⟩
  simp only [replyUdp, ethHlen, Option.bind_eq_bind, ha, hb,
    Option.bind_some]
  apply rel_bind (R := Twin length (max m 36))
    (h.write? (by omega) (by omega) (Nat.le_refl _))
  intro a b h
  apply rel_bind_same (h.read?_eq (by omega))
  intro source hSource
  have hTwo : source.length = 2 := CharArray.length_of_read? hSource
  apply rel_bind (R := Twin length (max m 38))
    (h.write? (by omega) (by omega) (by omega))
  intro a b h
  apply rel_bind (R := Twin length (max m 40))
    (h.write? (by omega) (by omega) (by simp only [htons, List.length]; omega))
  intro a b h
  exact h.write? (by omega) (by omega) (by simp only [List.length]; omega)

theorem replyData_twin {reply : List UInt8} (h : Twin length m a b)
    (hm : 42 ≤ m) :
    Option.Rel (Twin length (max m (43 + reply.length))) (replyData reply a)
      (replyData reply b) := by
  rcases h.udpOffset_eq (by omega) with ⟨ha, hb⟩
  simp only [replyData, sizeofUdphdr, Option.bind_eq_bind, ha, hb,
    Option.bind_some]
  apply h.write? (by omega) (by omega)
  rw [List.length_append, List.length_singleton]
  omega

/-- **The frame that is sent** does not depend on what the buffer holds behind
the ports of the request.  Each layer of the reply has its lemma above. -/
theorem sendReply_sent (serverMac : CharArray 6) {ipLen : Nat}
    (d : Datagram) (counter : Int) (h : CharArray.AgreeBelow m a b)
    (hm : 34 ≤ m) (hIp : 16 + ipLen ≤ m) :
    (sendReply serverMac ⟨a, ipLen, d⟩ counter).map Prod.snd =
      (sendReply serverMac ⟨b, ipLen, d⟩ counter).map Prod.snd := by
  have hLength : (replyText d.data counter).length ≤ bufSize - 1 :=
    List.length_take_le _ _
  have hSize : bufSize = 1500 := rfl
  generalize hReply : replyText d.data counter = reply at hLength
  apply map_eq_of_rel (R := fun x y => x.2 = y.2)
  · simp only [sendReply, hReply, ethHlen, Option.bind_eq_bind]
    apply rel_bind (replyEth_agree serverMac h hm)
    intro a b h
    apply rel_bind (replyIp_twin h hm : Option.Rel (Twin reply.length m) _ _)
    intro a b h
    apply rel_bind (replyUdp_twin h hm hIp)
    intro a b h
    apply rel_bind (replyData_twin h (by omega))
    intro a b h
    apply rel_bind_same (h.agree.load?_eq (by omega))
    intro sllAddr _
    apply rel_bind_same (h.read?_eq (by omega))
    intro totLen hTotLen
    have hTot : ntohs totLen = 28 + reply.length := by
      rw [a.read?_of_fits (by decide), h.totLen, Option.some.injEq] at hTotLen
      rw [← hTotLen, ntohs_htons (by omega)]
    apply rel_bind_same (h.read?_eq (by omega))
    intro frame _
    exact .some rfl
  · intro x y hSame
    exact hSame

theorem replyCounted_sent (serverMac : CharArray 6) {ipLen : Nat}
    (d : Datagram) (counter : Int) (h : CharArray.AgreeBelow m a b)
    (hm : 34 ≤ m) (hIp : 16 + ipLen ≤ m) :
    (replyCounted serverMac ⟨a, ipLen, d⟩ counter).map Prod.snd =
      (replyCounted serverMac ⟨b, ipLen, d⟩ counter).map Prod.snd := by
  by_cases hMax : counter ≤ intMax
  · rw [replyCounted_eq _ _ hMax, replyCounted_eq _ _ hMax]
    exact sendReply_sent serverMac d counter h hm hIp
  · rw [replyCounted_overflow _ _ hMax, replyCounted_overflow _ _ hMax]

end Layers

/-! ## Two iterations -/

/-- What both buffers have of the frame. -/
theorem recvfrom_agree (b1 b2 : Buffer) {frame : List UInt8}
    (hLen : frame.length < bufSize) :
    CharArray.AgreeBelow frame.length (recvfrom b1 frame).1
      (recvfrom b2 frame).1 := by
  have hTake : frame.take bufSize = frame :=
    List.take_of_length_le (Nat.le_of_lt hLen)
  intro i hi
  rw [recvfrom, recvfrom, CharArray.getElem?_splice, CharArray.getElem?_splice,
    hTake, if_neg (Nat.not_lt_zero i), if_neg (Nat.not_lt_zero i),
    if_pos (by omega), if_pos (by omega)]

theorem agree_of_write {m : Nat} {a b a' b' : Buffer} {src : List UInt8}
    (h : CharArray.AgreeBelow m a b) (ha : a.write? m src = some a')
    (hb : b.write? m src = some b') : CharArray.AgreeBelow m a' b' := by
  have hWrite : Option.Rel (CharArray.AgreeBelow m) (a.write? m src)
      (b.write? m src) :=
    h.write? (Nat.le_refl m) (Nat.le_max_left _ _)
  rw [ha, hb, Option.rel_some_some] at hWrite
  exact hWrite

/-- What an iteration leaves behind, apart from the buffer: the table and the
frame that is sent. -/
def visible (out : Server × Option Sent) : ClientTable × Option Sent :=
  (out.1.clients, out.2)

theorem serve_visible (serverMac : CharArray 6) (clients : ClientTable)
    (r : Request) :
    (serve serverMac clients r).map visible =
      match (countDatagram clients r.datagram).2 with
      | none => some ((countDatagram clients r.datagram).1, none)
      | some counter =>
          ((replyCounted serverMac r counter).map Prod.snd).map fun sent =>
            ((countDatagram clients r.datagram).1, some sent) := by
  unfold serve
  rcases countDatagram clients r.datagram with ⟨next, counter⟩
  cases counter with
  | none => rfl
  | some counter =>
      show ((replyCounted serverMac r counter).bind _).map visible =
        ((replyCounted serverMac r counter).map Prod.snd).map _
      cases replyCounted serverMac r counter with
      | none => rfl
      | some out => rfl

/-- **Nothing of the earlier traffic leaks.**  `b1` and `b2` are whatever the
buffer held when the frame arrived: the decision with the text of the reply,
the table and the frame sent are the same, and one iteration stays inside the
buffer if the other does. -/
theorem stale_bytes_unused (serverMac : CharArray 6) (clients : ClientTable)
    (b1 b2 : Buffer) {frame : List UInt8} (hLen : frame.length < bufSize) :
    judge clients (recvfrom b1 frame).1 (recvfrom b1 frame).2 =
        judge clients (recvfrom b2 frame).1 (recvfrom b2 frame).2 ∧
      (serverStep serverMac ⟨b1, clients⟩ frame).map visible =
        (serverStep serverMac ⟨b2, clients⟩ frame).map visible := by
  constructor
  · rw [judge_received, judge_received]
  · by_cases ha : Admitted frame
    · rcases ha.serverStep_eq serverMac ⟨b1, clients⟩ hLen with
        ⟨b1', hWrite1, hStep1⟩
      rcases ha.serverStep_eq serverMac ⟨b2, clients⟩ hLen with
        ⟨b2', hWrite2, hStep2⟩
      have hAgree := agree_of_write (recvfrom_agree b1 b2 hLen) hWrite1 hWrite2
      have hData := ha.data
      rw [hStep1, hStep2, serve_visible, serve_visible]
      cases (countDatagram clients ha.datagram).2 with
      | none => rfl
      | some counter =>
          exact congrArg (Option.map _) (replyCounted_sent serverMac ha.datagram
            counter hAgree ha.header (by omega))
    · have ha' : ¬Admitted (received frame) := by
        rw [received_of_le (Nat.le_of_lt hLen)]
        exact ha
      rw [serverStep_of_not_admitted serverMac ⟨b1, clients⟩ ha',
        serverStep_of_not_admitted serverMac ⟨b2, clients⟩ ha']
      rfl

/-- A frame in a fresh buffer, and in one with a byte of earlier traffic. -/
theorem stale_byte_unused_forged :
    judge newServer.clients (recvfrom (.zeros bufSize) forgedFrame).1
          (recvfrom (.zeros bufSize) forgedFrame).2 =
        judge newServer.clients
          (recvfrom ((CharArray.zeros bufSize).set 40 255) forgedFrame).1
          (recvfrom ((CharArray.zeros bufSize).set 40 255) forgedFrame).2 ∧
      (serverStep (.zeros 6) ⟨.zeros bufSize, newServer.clients⟩
          forgedFrame).map visible =
        (serverStep (.zeros 6) ⟨(CharArray.zeros bufSize).set 40 255,
          newServer.clients⟩ forgedFrame).map visible :=
  stale_bytes_unused (.zeros 6) newServer.clients (.zeros bufSize)
    ((CharArray.zeros bufSize).set 40 255)
    (show forgedFrame.length < bufSize by decide)

end UnixHomework.Ports.Echo
