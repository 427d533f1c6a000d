import UnixHomework.Ports.Multiprotocol

/-!
# What the server of two protocols answers

Everything that is received goes through one buffer, one call after another,
and still the server is as if it had none: what it prints and what it sends is,
in the order of the calls, what each message deserves by itself
(`answers_in_order`).  No byte is written behind the buffer, every connection
is read at most once and closed before the next event, and every datagram is
received once.

`Does` lists the calls once, each with what it finds and leaves; the
invariants are proved from this list.  `Logs` ties what is printed and sent to
what was received, and `Order` says which connections and datagrams have been
taken so far, and in which order.  Neither needs anything of the clients, of
the sizes of their segments or of the calls that fail.
-/

namespace UnixHomework.Ports.Multiprotocol

open UnixHomework.Verified

/-! ## A message by itself -/

namespace Message

variable {A : Type*}

/-- What is printed: the bytes up to the first NUL, which is at the latest the
one that `main` puts behind them. -/
def line : Message A → Message A
  | tcp c bytes => tcp c (cstr bytes)
  | udp addr bytes => udp addr (cstr bytes)

/-- What is answered: one text for each protocol, if `strcmp` finds the
greeting of that protocol. -/
def reply : Message A → Option (Message A)
  | tcp c bytes => if cstr bytes = hello then some (tcp c salutTcp) else none
  | udp addr bytes => if cstr bytes = hi then some (udp addr salutUdp) else none

def connection? : Message A → Option Nat
  | tcp c _ => some c
  | udp _ _ => none

def datagram? : Message A → Option (A × List UInt8)
  | tcp _ _ => none
  | udp addr bytes => some (addr, bytes)

end Message

namespace Place

variable {A : Type*}

/-- The answer that has not been sent.  `SIGPIPE` ends the process with the
answer unsent, so a killed server owes it for ever. -/
def owes : Place A → List (Message A)
  | replying c _ | killed c => [.tcp c salutTcp]
  | sending addr _ => [.udp addr salutUdp]
  | waiting | event _ _ | reading _ _ | closing _ _ | ended | undefined => []

/-- The connection that is open: at most one at a time. -/
def conn : Place A → List Nat
  | reading c _ | replying c _ | closing c _ | killed c => [c]
  | waiting | event _ _ | sending _ _ | ended | undefined => []

/-- The connection, once `read` has returned. -/
def heard : Place A → List Nat
  | replying c _ | closing c _ | killed c => [c]
  | waiting | event _ _ | reading _ _ | sending _ _ | ended | undefined => []

/-- The events that are still to be handled. -/
def events : Place A → List Socket
  | event socket rest => socket :: rest
  | reading _ rest | replying _ rest | closing _ rest | sending _ rest => rest
  | waiting | ended | killed _ | undefined => []

end Place

section Next

variable {A : Type*} (rest : List Socket)

@[simp] theorem owes_next : (next rest : Place A).owes = [] := by
  cases rest <;> rfl

@[simp] theorem conn_next : (next rest : Place A).conn = [] := by
  cases rest <;> rfl

@[simp] theorem heard_next : (next rest : Place A).heard = [] := by
  cases rest <;> rfl

@[simp] theorem events_next : (next rest : Place A).events = rest := by
  cases rest <;> rfl

theorem next_ne_undefined : (next rest : Place A) ≠ .undefined := by
  cases rest <;> simp [next]

end Next

/-! ## Steps -/

variable {A : Type*} {s s' : Server A} {l : Label A}

/-- What a call of `main`, or the network, does.  The invariants go by these
cases, each with the state it leads to. -/
inductive Does (s : Server A) : Label A → Server A → Prop where
  | connect : Does s .connect { s with connected := s.connected + 1 }
  | send (c bytes) (hc : c < s.connected) : Does s (.send c bytes) { s with
      sent := Function.update s.sent c (s.sent c ++ bytes) }
  | finish (c) : Does s (.finish c) { s with
      hungUp := Function.update s.hungUp c true }
  | datagram (addr bytes) : Does s (.datagram addr bytes) { s with
      arrived := s.arrived ++ [(addr, bytes)] }
  | epoll (events) (hPlace : s.place = .waiting) (hOnce : events.Nodup)
      (hReady : ∀ socket ∈ events, s.Ready socket) (hSome : events ≠ []) :
      Does s (.epoll events) { s with place := next events }
  | epollFails (hPlace : s.place = .waiting) :
      Does s .epollFails { s with place := .ended }
  | accept (rest) (hPlace : s.place = .event .tcp rest)
      (hMore : s.accepted < s.connected) : Does s .accept { s with
        place := .reading s.accepted rest
        accepted := s.accepted + 1 }
  | skip (socket rest l) (hPlace : s.place = .event socket rest)
      (hl : l = .acceptFails ∨ l = .recvfromFails) :
      Does s l { s with place := next rest }
  | read (c rest k buffer) (hPlace : s.place = .reading c rest) (hOne : 1 ≤ k)
      (hLe : k ≤ (s.sent c).length) (hRoom : k ≤ 1023) :
      Does s (.read k) { s with
        place := if cstr ((s.sent c).take k) = hello then .replying c rest
          else .closing c rest
        buffer := buffer
        handled := s.handled ++ [.tcp c ((s.sent c).take k)]
        printed := s.printed ++ [.tcp c (cstr ((s.sent c).take k))] }
  | readNothing (c rest) (hPlace : s.place = .reading c rest)
      (hOver : s.hungUp c = true) :
      Does s .readNothing { s with place := .closing c rest }
  | write (c rest) (hPlace : s.place = .replying c rest) :
      Does s .write { s with
        place := .closing c rest
        written := s.written ++ [.tcp c salutTcp] }
  | sigpipe (c rest) (hPlace : s.place = .replying c rest)
      (hOver : s.hungUp c = true) :
      Does s .sigpipe { s with place := .killed c }
  | close (c rest) (hPlace : s.place = .closing c rest) : Does s .close { s with
      place := next rest
      closed := s.closed ++ [c] }
  | recvfrom (rest addr bytes buffer) (hPlace : s.place = .event .udp rest)
      (hNext : s.arrived[s.taken]? = some (addr, bytes)) :
      Does s .recvfrom { s with
        place := if cstr (bytes.take 1023) = hi then .sending addr rest
          else next rest
        buffer := buffer
        taken := s.taken + 1
        handled := s.handled ++ [.udp addr (bytes.take 1023)]
        printed := s.printed ++ [.udp addr (cstr (bytes.take 1023))] }
  | sendto (addr rest) (hPlace : s.place = .sending addr rest) :
      Does s .sendto { s with
        place := next rest
        written := s.written ++ [.udp addr salutUdp] }

/-- There is always room for the NUL: `read` and `recvfrom` are asked for one
byte less than the buffer has. -/
theorem recvText_in_room (buffer : CharArray 1024) (bytes : List UInt8) :
    ∃ b, buffer.recvText? 1023 room_for_nul bytes =
      some (b, cstr (bytes.take 1023)) :=
  buffer.exists_recvText? _ bytes
    (Nat.lt_of_le_of_lt (Nat.min_le_right _ _) (by decide))

theorem does_of_step (h : step s l = some s') : Does s l s' := by
  cases l with
  | connect =>
      obtain rfl := Option.some.inj h
      exact .connect
  | send c bytes =>
      obtain ⟨⟨hc, -⟩, hNext⟩ := Option.ite_none_right_eq_some.mp h
      obtain rfl := Option.some.inj hNext
      exact .send c bytes hc
  | finish c =>
      obtain ⟨-, hNext⟩ := Option.ite_none_right_eq_some.mp h
      obtain rfl := Option.some.inj hNext
      exact .finish c
  | datagram addr bytes =>
      obtain rfl := Option.some.inj h
      exact .datagram addr bytes
  | epoll events =>
      cases hPlace : s.place <;> simp only [step, hPlace, reduceCtorEq] at h
      obtain ⟨⟨hSome, hOnce, hReady⟩, hNext⟩ :=
        Option.ite_none_right_eq_some.mp h
      obtain rfl := Option.some.inj hNext
      exact .epoll events hPlace hOnce hReady hSome
  | epollFails =>
      cases hPlace : s.place <;> simp only [step, hPlace, reduceCtorEq] at h
      obtain rfl := Option.some.inj h
      exact .epollFails hPlace
  | accept =>
      cases hPlace : s.place with
      | event socket rest =>
          cases socket <;> simp only [step, hPlace, reduceCtorEq] at h
          obtain ⟨hMore, hNext⟩ := Option.ite_none_right_eq_some.mp h
          obtain rfl := Option.some.inj hNext
          exact .accept rest hPlace hMore
      | _ => simp only [step, hPlace, reduceCtorEq] at h
  | acceptFails =>
      cases hPlace : s.place with
      | event socket rest =>
          cases socket <;> simp only [step, hPlace, reduceCtorEq] at h
          obtain rfl := Option.some.inj h
          exact .skip _ rest _ hPlace (.inl rfl)
      | _ => simp only [step, hPlace, reduceCtorEq] at h
  | read k =>
      cases hPlace : s.place <;> simp only [step, hPlace, reduceCtorEq] at h
      rename_i c rest
      obtain ⟨⟨hOne, hMost⟩, hNext⟩ := Option.ite_none_right_eq_some.mp h
      obtain ⟨hLe, hRoom⟩ := Nat.le_min.mp hMost
      obtain ⟨b, hText⟩ := recvText_in_room s.buffer ((s.sent c).take k)
      rw [List.take_take, Nat.min_eq_right hRoom] at hText
      rw [Server.readTcp, hText] at hNext
      obtain rfl := Option.some.inj hNext
      exact .read c rest k b hPlace hOne hLe hRoom
  | readNothing =>
      cases hPlace : s.place <;> simp only [step, hPlace, reduceCtorEq] at h
      obtain ⟨hOver, hNext⟩ := Option.ite_none_right_eq_some.mp h
      obtain rfl := Option.some.inj hNext
      exact .readNothing _ _ hPlace hOver
  | write =>
      cases hPlace : s.place <;> simp only [step, hPlace, reduceCtorEq] at h
      obtain rfl := Option.some.inj h
      exact .write _ _ hPlace
  | sigpipe =>
      cases hPlace : s.place <;> simp only [step, hPlace, reduceCtorEq] at h
      obtain ⟨hOver, hNext⟩ := Option.ite_none_right_eq_some.mp h
      obtain rfl := Option.some.inj hNext
      exact .sigpipe _ _ hPlace hOver
  | close =>
      cases hPlace : s.place <;> simp only [step, hPlace, reduceCtorEq] at h
      obtain rfl := Option.some.inj h
      exact .close _ _ hPlace
  | recvfrom =>
      cases hPlace : s.place with
      | event socket rest =>
          cases socket <;> simp only [step, hPlace, reduceCtorEq] at h
          obtain ⟨⟨addr, bytes⟩, hArrived, hNext⟩ :=
            Option.map_eq_some_iff.mp h
          obtain ⟨b, hText⟩ := recvText_in_room s.buffer bytes
          rw [Server.readUdp, hText] at hNext
          subst hNext
          exact .recvfrom rest addr bytes b hPlace hArrived
      | _ => simp only [step, hPlace, reduceCtorEq] at h
  | recvfromFails =>
      cases hPlace : s.place with
      | event socket rest =>
          cases socket <;> simp only [step, hPlace, reduceCtorEq] at h
          obtain rfl := Option.some.inj h
          exact .skip _ rest _ hPlace (.inr rfl)
      | _ => simp only [step, hPlace, reduceCtorEq] at h
  | sendto =>
      cases hPlace : s.place <;> simp only [step, hPlace, reduceCtorEq] at h
      obtain rfl := Option.some.inj h
      exact .sendto _ _ hPlace

/-! ## Invariants -/

/-- What has been put out. -/
structure Logs (s : Server A) : Prop where
  /-- Nothing has been written behind the buffer. -/
  defined : s.place ≠ .undefined
  /-- What was printed is what was received, as text. -/
  printed : s.printed = s.handled.map Message.line
  /-- What was sent, with the answer still to be sent, is what the messages
  received deserve. -/
  written : s.written ++ s.place.owes = s.handled.filterMap Message.reply

/-- What has been taken from the network. -/
structure Order (s : Server A) : Prop where
  /-- No more is accepted than has connected, -/
  accepted_le : s.accepted ≤ s.connected
  /-- and no more received than has arrived. -/
  taken_le : s.taken ≤ s.arrived.length
  /-- The connections closed and the open one are those accepted, in order. -/
  opened : s.closed ++ s.place.conn = List.range s.accepted
  /-- A connection is heard once, before it is closed. -/
  readOnce : (s.handled.filterMap Message.connection?).Sublist
    (s.closed ++ s.place.heard)
  /-- What was read is the beginning of what has been sent, and not empty. -/
  received : ∀ c bytes, Message.tcp c bytes ∈ s.handled →
    bytes ≠ [] ∧ bytes <+: s.sent c
  /-- The datagrams are heard in the order in which they came. -/
  datagrams : s.handled.filterMap Message.datagram? =
    (s.arrived.take s.taken).map fun d => (d.1, d.2.take 1023)

/-- One message more, which is answered, or not.  The buffer takes no part in
it: what it held before is behind the new NUL. -/
theorem Logs.hear (h : Logs s) (m : Message A) (hOwes : s.place.owes = [])
    (hHandled : s'.handled = s.handled ++ [m])
    (hPrinted : s'.printed = s.printed ++ [m.line])
    (hWritten : s'.written = s.written)
    (hPlace : s'.place.owes = m.reply.toList)
    (hDefined : s'.place ≠ .undefined) : Logs s' := by
  refine ⟨hDefined, ?_, ?_⟩
  · rw [hPrinted, hHandled, h.printed, List.map_append]
    rfl
  · have hBefore := h.written
    rw [hOwes, List.append_nil] at hBefore
    rw [hWritten, hPlace, hHandled, List.filterMap_append, hBefore]
    cases hReply : m.reply with
    | none => rw [List.filterMap_cons_none hReply]; rfl
    | some answer => rw [List.filterMap_cons_some hReply]; rfl

/-- A step of `main` that neither receives nor sends. -/
theorem Logs.stay (h : Logs s) (hHandled : s'.handled = s.handled)
    (hPrinted : s'.printed = s.printed) (hWritten : s'.written = s.written)
    (hPlace : s'.place.owes = s.place.owes)
    (hDefined : s'.place ≠ .undefined) : Logs s' := by
  refine ⟨hDefined, ?_, ?_⟩
  · rw [hPrinted, hHandled, h.printed]
  · rw [hWritten, hPlace, hHandled, h.written]

/-- The answer that was owed is sent. -/
theorem Logs.answer (h : Logs s) (hHandled : s'.handled = s.handled)
    (hPrinted : s'.printed = s.printed)
    (hWritten : s'.written = s.written ++ s.place.owes)
    (hPlace : s'.place.owes = [])
    (hDefined : s'.place ≠ .undefined) : Logs s' := by
  refine ⟨hDefined, ?_, ?_⟩
  · rw [hPrinted, hHandled, h.printed]
  · rw [hWritten, hPlace, List.append_nil, hHandled, h.written]

theorem Logs.step (h : Logs s) (hDoes : Does s l s') : Logs s' := by
  have hOf : ∀ {p : Place A}, s.place = p → s.place.owes = p.owes :=
    fun hp => congrArg Place.owes hp
  cases hDoes with
  | connect | send _ _ _ | finish _ | datagram _ _ =>
      exact h.stay rfl rfl rfl rfl h.defined
  | epoll events hPlace _ _ _ =>
      exact h.stay rfl rfl rfl ((owes_next events).trans (hOf hPlace).symm)
        (next_ne_undefined events)
  | epollFails hPlace =>
      exact h.stay rfl rfl rfl (hOf hPlace).symm (by simp)
  | accept rest hPlace _ =>
      exact h.stay rfl rfl rfl (hOf hPlace).symm (by simp)
  | skip socket rest l hPlace _ =>
      exact h.stay rfl rfl rfl ((owes_next rest).trans (hOf hPlace).symm)
        (next_ne_undefined rest)
  | read c rest k buffer hPlace _ _ _ =>
      refine h.hear (.tcp c ((s.sent c).take k)) (hOf hPlace) rfl rfl rfl ?_
        ?_
      · show (if _ then _ else _ : Place A).owes = _
        rw [Message.reply]
        split <;> rfl
      · show (if _ then _ else _ : Place A) ≠ _
        split <;> simp
  | readNothing c rest hPlace _ =>
      exact h.stay rfl rfl rfl (hOf hPlace).symm (by simp)
  | write c rest hPlace =>
      refine h.answer rfl rfl ?_ rfl (by simp)
      rw [hOf hPlace]
      rfl
  | sigpipe c rest hPlace _ =>
      exact h.stay rfl rfl rfl (hOf hPlace).symm (by simp)
  | close c rest hPlace =>
      exact h.stay rfl rfl rfl ((owes_next rest).trans (hOf hPlace).symm)
        (next_ne_undefined rest)
  | recvfrom rest addr bytes buffer hPlace _ =>
      refine h.hear (.udp addr (bytes.take 1023)) (hOf hPlace) rfl rfl rfl ?_
        ?_
      · show (if _ then _ else _ : Place A).owes = _
        rw [Message.reply]
        split
        · rfl
        · exact owes_next rest
      · show (if _ then _ else _ : Place A) ≠ _
        split
        · simp
        · exact next_ne_undefined rest
  | sendto addr rest hPlace =>
      refine h.answer rfl rfl ?_ (owes_next rest) (next_ne_undefined rest)
      rw [hOf hPlace]
      rfl

/-- A step that takes nothing from the network. -/
theorem Order.stay (h : Order s) (hConnected : s'.connected = s.connected)
    (hAccepted : s'.accepted = s.accepted) (hSent : s'.sent = s.sent)
    (hArrived : s'.arrived = s.arrived) (hTaken : s'.taken = s.taken)
    (hHandled : s'.handled = s.handled)
    (hOpened : s'.closed ++ s'.place.conn = s.closed ++ s.place.conn)
    (hHeard : (s.closed ++ s.place.heard).Sublist
      (s'.closed ++ s'.place.heard)) : Order s' where
  accepted_le := by
    rw [hAccepted, hConnected]
    exact h.accepted_le
  taken_le := by
    rw [hTaken, hArrived]
    exact h.taken_le
  opened := by rw [hOpened, h.opened, hAccepted]
  readOnce := by
    rw [hHandled]
    exact h.readOnce.trans hHeard
  received := by
    rw [hHandled, hSent]
    exact h.received
  datagrams := by rw [hHandled, hArrived, hTaken, h.datagrams]

/-- A step that only goes on, past no connection. -/
theorem Order.move (h : Order s) {place : Place A}
    (hConn : place.conn = s.place.conn)
    (hHeard : s.place.heard.Sublist place.heard) :
    Order { s with place := place } :=
  h.stay rfl rfl rfl rfl rfl rfl (congrArg (s.closed ++ ·) hConn)
    (List.Sublist.append (List.Sublist.refl _) hHeard)

/-- More is sent on a connection: what has been read of it is still the
beginning. -/
theorem Order.send (h : Order s) (c : Nat) (bytes : List UInt8) :
    Order { s with sent := Function.update s.sent c (s.sent c ++ bytes) } := by
  refine { h with received := fun c' text hMem => ?_ }
  obtain ⟨hSome, hPrefix⟩ := h.received c' text hMem
  refine ⟨hSome, ?_⟩
  by_cases hcc : c' = c
  · subst hcc
    show text <+: Function.update s.sent c' _ c'
    rw [Function.update_self]
    exact hPrefix.trans (List.prefix_append _ _)
  · show text <+: Function.update s.sent c _ c'
    rw [Function.update_of_ne hcc]
    exact hPrefix

/-- A datagram arrives behind those that have been received. -/
theorem Order.arrive (h : Order s) (d : A × List UInt8) :
    Order { s with arrived := s.arrived ++ [d] } := by
  refine { h with taken_le := ?_, datagrams := ?_ }
  · show s.taken ≤ (s.arrived ++ [d]).length
    rw [List.length_append]
    exact Nat.le_add_right_of_le h.taken_le
  · show _ = ((s.arrived ++ [d]).take s.taken).map _
    rw [List.take_append_of_le_length h.taken_le]
    exact h.datagrams

/-- **`accept`** opens the next connection, when no other one is open. -/
theorem Order.accept (h : Order s) {rest : List Socket}
    (hPlace : s.place = .event .tcp rest) (hMore : s.accepted < s.connected) :
    Order { s with
      place := .reading s.accepted rest
      accepted := s.accepted + 1 } := by
  have hOpened := h.opened
  have hRead := h.readOnce
  rw [hPlace] at hOpened hRead
  rw [show (Place.event Socket.tcp rest : Place A).conn = [] from rfl,
    List.append_nil] at hOpened
  refine { h with accepted_le := hMore, opened := ?_, readOnce := hRead }
  show s.closed ++ [s.accepted] = List.range (s.accepted + 1)
  rw [List.range_succ, hOpened]

/-- **`read`** returns a beginning of what has been sent on the connection that
is open, which has not been read before. -/
theorem Order.read (h : Order s) {c k : Nat} {rest : List Socket}
    {place : Place A} (hPlace : s.place = .reading c rest)
    (hNext : place = .replying c rest ∨ place = .closing c rest)
    (hOne : 1 ≤ k) (hLe : k ≤ (s.sent c).length) (buffer : CharArray 1024)
    (printed : List (Message A)) :
    Order { s with
      place := place
      buffer := buffer
      handled := s.handled ++ [.tcp c ((s.sent c).take k)]
      printed := printed } := by
  have hAt : place.conn = [c] ∧ place.heard = [c] := by
    rcases hNext with rfl | rfl <;> exact ⟨rfl, rfl⟩
  have hOpened := h.opened
  have hRead := h.readOnce
  rw [hPlace] at hOpened hRead
  refine { h with
    opened := (congrArg (s.closed ++ ·) hAt.1).trans hOpened
    readOnce := ?_
    received := ?_
    datagrams := ?_ }
  · show List.Sublist (List.filterMap Message.connection?
      (s.handled ++ [.tcp c ((s.sent c).take k)])) (s.closed ++ place.heard)
    rw [hAt.2, List.filterMap_append]
    refine List.Sublist.append ?_ (List.Sublist.refl _)
    rw [show (Place.reading c rest : Place A).heard = [] from rfl,
      List.append_nil] at hRead
    exact hRead
  · intro c' text hMem
    rcases List.mem_append.mp hMem with hOld | hNew
    · exact h.received c' text hOld
    · obtain ⟨rfl, rfl⟩ := Message.tcp.inj (List.mem_singleton.mp hNew)
      refine ⟨?_, List.take_prefix _ _⟩
      rw [← List.length_pos_iff, List.length_take]
      omega
  · show List.filterMap Message.datagram?
      (s.handled ++ [.tcp c ((s.sent c).take k)]) = _
    rw [List.filterMap_append, h.datagrams]
    exact List.append_nil _

/-- **`close`** ends the connection that is open. -/
theorem Order.close (h : Order s) {c : Nat} {rest : List Socket}
    (hPlace : s.place = .closing c rest) :
    Order { s with place := next rest, closed := s.closed ++ [c] } := by
  refine h.stay rfl rfl rfl rfl rfl rfl ?_ ?_
  · show (s.closed ++ [c]) ++ (next rest : Place A).conn = _
    rw [conn_next, List.append_nil, hPlace]
    rfl
  · show List.Sublist _ ((s.closed ++ [c]) ++ (next rest : Place A).heard)
    rw [heard_next, List.append_nil, hPlace]
    exact List.Sublist.refl _

/-- **`recvfrom`** takes the next datagram, cut at the size of the buffer. -/
theorem Order.recvfrom (h : Order s) {rest : List Socket} {addr : A}
    {bytes : List UInt8} {place : Place A}
    (hPlace : s.place = .event .udp rest)
    (hNext : s.arrived[s.taken]? = some (addr, bytes))
    (hAt : place = .sending addr rest ∨ place = next rest)
    (buffer : CharArray 1024) (printed : List (Message A)) :
    Order { s with
      place := place
      buffer := buffer
      taken := s.taken + 1
      handled := s.handled ++ [.udp addr (bytes.take 1023)]
      printed := printed } := by
  have hNone : place.conn = [] ∧ place.heard = [] := by
    rcases hAt with rfl | rfl
    · exact ⟨rfl, rfl⟩
    · exact ⟨conn_next rest, heard_next rest⟩
  have hOpened := h.opened
  have hRead := h.readOnce
  rw [hPlace] at hOpened hRead
  obtain ⟨hLt, -⟩ := List.getElem?_eq_some_iff.mp hNext
  have hTake : s.arrived.take (s.taken + 1) =
      s.arrived.take s.taken ++ [(addr, bytes)] := by
    rw [List.take_add_one, hNext]
    rfl
  refine { h with
    taken_le := hLt
    opened := (congrArg (s.closed ++ ·) hNone.1).trans hOpened
    readOnce := ?_
    received := ?_
    datagrams := ?_ }
  · show List.Sublist (List.filterMap Message.connection?
      (s.handled ++ [.udp addr (bytes.take 1023)])) (s.closed ++ place.heard)
    rw [hNone.2, List.filterMap_append]
    exact (List.append_nil _).symm ▸ hRead
  · intro c text hMem
    rcases List.mem_append.mp hMem with hOld | hNew
    · exact h.received c text hOld
    · simp at hNew
  · show List.filterMap Message.datagram?
      (s.handled ++ [.udp addr (bytes.take 1023)]) =
        (s.arrived.take (s.taken + 1)).map _
    rw [List.filterMap_append, h.datagrams, hTake, List.map_append]
    rfl

/-- **Every step** keeps the order: calls that take nothing from the network
only move on. -/
theorem Order.step (h : Order s) (hDoes : Does s l s') : Order s' := by
  have hOn : ∀ rest, s.place.conn = [] → s.place.heard = [] →
      Order { s with place := next rest } := fun rest hConn hHeard =>
    h.move ((conn_next rest).trans hConn.symm)
      (by rw [hHeard]; exact List.nil_sublist _)
  cases hDoes with
  | connect => exact { h with accepted_le := Nat.le_succ_of_le h.accepted_le }
  | send c bytes hc => exact h.send c bytes
  | finish c => exact { h with }
  | datagram addr bytes => exact h.arrive (addr, bytes)
  | epoll events hPlace _ _ _ =>
      exact hOn events (by rw [hPlace]; rfl) (by rw [hPlace]; rfl)
  | epollFails hPlace =>
      apply h.move <;> rw [hPlace]
      · rfl
      · exact List.Sublist.refl _
  | accept rest hPlace hMore => exact h.accept hPlace hMore
  | skip socket rest l hPlace _ =>
      exact hOn rest (by rw [hPlace]; rfl) (by rw [hPlace]; rfl)
  | read c rest k buffer hPlace hOne hLe hRoom =>
      exact h.read hPlace (by split <;> simp) hOne hLe buffer _
  | readNothing c rest hPlace _ =>
      apply h.move <;> rw [hPlace]
      · rfl
      · exact List.nil_sublist _
  | write c rest hPlace =>
      refine h.stay rfl rfl rfl rfl rfl rfl ?_ ?_ <;> rw [hPlace]
      · rfl
      · exact List.Sublist.refl _
  | sigpipe c rest hPlace _ =>
      apply h.move <;> rw [hPlace]
      · rfl
      · exact List.Sublist.refl _
  | close c rest hPlace => exact h.close hPlace
  | recvfrom rest addr bytes buffer hPlace hNext =>
      exact h.recvfrom hPlace hNext (by split <;> simp) buffer _
  | sendto addr rest hPlace =>
      refine h.stay rfl rfl rfl rfl rfl rfl ?_ ?_
      · rw [hPlace]
        exact congrArg (s.closed ++ ·) (conn_next rest)
      · show List.Sublist _ (s.closed ++ (next rest : Place A).heard)
        rw [hPlace, heard_next]
        exact List.Sublist.refl _

/-! ## Every state -/

/-- What holds in every reachable state of the server. -/
structure Inv (s : Server A) : Prop where
  logs : Logs s
  order : Order s

theorem inv_start (buffer : CharArray 1024) :
    Inv (start buffer : Server A) where
  logs := ⟨by simp [start], rfl, rfl⟩
  order := {
    accepted_le := Nat.le_refl _
    taken_le := Nat.le_refl _
    opened := rfl
    readOnce := List.Sublist.refl _
    received := fun _ _ h => absurd h List.not_mem_nil
    datagrams := rfl }

theorem Inv.step (h : Inv s) (hStep : step s l = some s') : Inv s' :=
  have hDoes := does_of_step hStep
  ⟨h.logs.step hDoes, h.order.step hDoes⟩

theorem reachable_inv (h : (serverMachine A).Reachable s) : Inv s := by
  refine h.invariant ?_ fun s l next hI _ hStep => hI.step hStep
  rintro _ ⟨buffer, rfl⟩
  exact inv_start buffer

end UnixHomework.Ports.Multiprotocol
