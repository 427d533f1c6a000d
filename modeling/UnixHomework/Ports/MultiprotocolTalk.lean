import UnixHomework.Ports.MultiprotocolAnswers
import UnixHomework.Ports.MultiprotocolClients

/-!
# The server as its clients see it

In a calm run the server has always events to handle where it believes so
(`Events`), and it has looked at a connection for the last time before the
client can hang up (`Talk`).  What a client can read is then the whole answer
or nothing.

A calm run is one in which no datagram is lost and no call of the server fails.
The two invariants are kept by the server's steps and by those of the clients
alike, so they hold in the whole system.

The second half says what the logs mean for one client: at most one answer has
been written to its connection, in one piece, and if the server has closed the
connection after a whole `Hello` there is one (`told_eq`, `told_of_closed`);
and whatever has been sent to its address is the one text of the second
protocol (`answer_eq`).
-/

namespace UnixHomework.Ports.Multiprotocol

open UnixHomework.Verified

/-! ## The server in a calm run -/

section Calm

variable {A : Type*} {s s' : Server A} {l : Label A}

/-- The events that are still to be handled are there.  `epoll_wait` returned
them as ready, and until their turn only the server itself could take them. -/
structure Events (s : Server A) : Prop where
  /-- A socket is in the list once. -/
  once : s.place.events.Nodup
  /-- What is in the list is ready, so no call of the loop waits. -/
  ready : ∀ socket ∈ s.place.events, s.Ready socket

/-- The server has looked at the connection for the last time: it has closed
it, or will do so next. -/
def Server.Done (s : Server A) (c : Nat) : Prop :=
  c ∈ s.closed ∨ ∃ rest, s.place = .closing c rest

/-- The server goes on, and a client hangs up only when the server has done
with it. -/
structure Talk (s : Server A) : Prop where
  /-- The process has not stopped. -/
  going : s.place.stopped = false
  /-- After its answer a connection is closed. -/
  told : ∀ c bytes, Message.tcp c bytes ∈ s.written → s.Done c
  /-- Whoever has hung up was done with. -/
  hungUp : ∀ c, s.hungUp c = true → s.Done c
  /-- A connection is read before it is closed. -/
  heard : ∀ c, c ∈ s.closed ++ s.place.heard →
    ∃ bytes, Message.tcp c bytes ∈ s.handled

theorem Server.Ready.of_le {socket : Socket} (h : s.Ready socket)
    (hAccepted : s'.accepted = s.accepted)
    (hConnected : s.connected ≤ s'.connected) (hTaken : s'.taken = s.taken)
    (hArrived : s.arrived.length ≤ s'.arrived.length) :
    s'.Ready socket := by
  cases socket with
  | tcp =>
      show s'.accepted < s'.connected
      rw [hAccepted]
      exact Nat.lt_of_lt_of_le h hConnected
  | udp =>
      show s'.taken < s'.arrived.length
      rw [hTaken]
      exact Nat.lt_of_lt_of_le h hArrived

/-- A step that handles no event.  It may only add to what has arrived, so what
was ready stays ready. -/
theorem Events.stay (h : Events s)
    (hEvents : s'.place.events = s.place.events)
    (hAccepted : s'.accepted = s.accepted)
    (hConnected : s.connected ≤ s'.connected) (hTaken : s'.taken = s.taken)
    (hArrived : s.arrived.length ≤ s'.arrived.length) : Events s' where
  once := hEvents ▸ h.once
  ready socket hMem :=
    (h.ready socket (hEvents ▸ hMem)).of_le hAccepted hConnected hTaken
      hArrived

/-- A step that handles an event, and takes from its own socket only. -/
theorem Events.handle (h : Events s) {socket : Socket} {rest : List Socket}
    (hPlace : s.place = .event socket rest) (hRest : s'.place.events = rest)
    (hReady : ∀ other, other ≠ socket → s.Ready other → s'.Ready other) :
    Events s' := by
  have hEvents : s.place.events = socket :: rest :=
    congrArg Place.events hPlace
  have hOnce := h.once
  rw [hEvents] at hOnce
  obtain ⟨hNot, hOnce⟩ := List.nodup_cons.mp hOnce
  refine ⟨hRest ▸ hOnce, fun other hMem => ?_⟩
  rw [hRest] at hMem
  refine hReady other (fun hEq => hNot (hEq ▸ hMem)) (h.ready other ?_)
  rw [hEvents]
  exact List.mem_cons_of_mem _ hMem

theorem Events.step (h : Events s) (hDoes : Does s l s') : Events s' := by
  have hOf : ∀ {p : Place A}, s.place = p → s.place.events = p.events :=
    fun hp => congrArg Place.events hp
  have hSame : ∀ {s' : Server A}, s'.place.events = s.place.events →
      s'.accepted = s.accepted → s'.connected = s.connected →
      s'.taken = s.taken → s'.arrived = s.arrived → Events s' :=
    fun hEvents hAccepted hConnected hTaken hArrived =>
      h.stay hEvents hAccepted (Nat.le_of_eq hConnected.symm) hTaken
        (Nat.le_of_eq (congrArg List.length hArrived.symm))
  cases hDoes with
  | connect => exact h.stay rfl rfl (Nat.le_succ _) rfl (Nat.le_refl _)
  | datagram addr bytes =>
      exact h.stay rfl rfl (Nat.le_refl _) rfl
        (by rw [List.length_append]; exact Nat.le_add_right _ _)
  | send _ _ _ | finish _ => exact hSame rfl rfl rfl rfl rfl
  | epoll events hPlace hOnce hReady _ =>
      refine ⟨?_, ?_⟩
      · rw [show ((next events : Place A)).events = events from
          events_next events]
        exact hOnce
      · intro socket hMem
        rw [show ((next events : Place A)).events = events from
          events_next events] at hMem
        exact hReady socket hMem
  | epollFails hPlace => exact hSame (hOf hPlace).symm rfl rfl rfl rfl
  | accept rest hPlace hMore =>
      refine h.handle hPlace rfl fun other hOther hReady => ?_
      cases other with
      | tcp => exact absurd rfl hOther
      | udp => exact hReady
  | skip socket rest l hPlace _ =>
      exact h.handle hPlace (events_next rest) fun _ _ hReady => hReady
  | read c rest k buffer hPlace _ _ _ =>
      refine hSame ?_ rfl rfl rfl rfl
      rw [hOf hPlace]
      show (if _ then _ else _ : Place A).events = _
      split <;> rfl
  | readNothing c rest hPlace _ =>
      exact hSame (hOf hPlace).symm rfl rfl rfl rfl
  | write c rest hPlace => exact hSame (hOf hPlace).symm rfl rfl rfl rfl
  | sigpipe c rest hPlace _ => exact ⟨List.nodup_nil, nofun⟩
  | close c rest hPlace =>
      exact hSame ((events_next rest).trans (hOf hPlace).symm) rfl rfl rfl rfl
  | recvfrom rest addr bytes buffer hPlace _ =>
      refine h.handle hPlace ?_ fun other hOther hReady => ?_
      · show (if _ then _ else _ : Place A).events = rest
        split
        · rfl
        · exact events_next rest
      · cases other with
        | udp => exact absurd rfl hOther
        | tcp => exact hReady
  | sendto addr rest hPlace =>
      exact hSame ((events_next rest).trans (hOf hPlace).symm) rfl rfl rfl rfl

theorem going_next (rest : List Socket) :
    (next rest : Place A).stopped = false := by
  cases rest <;> rfl

theorem not_mem_heard_next (rest : List Socket) (c : Nat) :
    c ∉ (next rest : Place A).heard := by
  rw [heard_next]
  exact List.not_mem_nil

theorem Order.not_closed {c : Nat} (h : Order s) (hConn : c ∈ s.place.conn) :
    c ∉ s.closed := by
  have hNodup : (s.closed ++ s.place.conn).Nodup := by
    rw [h.opened]
    exact List.nodup_range
  obtain ⟨-, -, hApart⟩ := List.nodup_append.mp hNodup
  exact fun hClosed => hApart c hClosed c hConn rfl

/-- The connection that is read or answered is not done, since it has not been
closed. -/
theorem Order.not_done {c : Nat} (h : Order s) (hConn : s.place.conn = [c])
    (hNot : ∀ rest, s.place ≠ .closing c rest) : ¬s.Done c := by
  rintro (hClosed | ⟨rest, hPlace⟩)
  · refine h.not_closed ?_ hClosed
    rw [hConn]
    exact List.mem_singleton_self c
  · exact hNot rest hPlace

/-- A step from a place where no connection is being closed: the same
connections stay closed, and an answer is written to one that is done with
then. -/
theorem Talk.move (h : Talk s) (hNot : ∀ c rest, s.place ≠ .closing c rest)
    (hGoing : s'.place.stopped = false) (hClosed : s'.closed = s.closed)
    (hOver : s'.hungUp = s.hungUp) (hHandled : s.handled ⊆ s'.handled)
    (hTold : ∀ c bytes, Message.tcp c bytes ∈ s'.written →
      Message.tcp c bytes ∈ s.written ∨ s'.Done c)
    (hHeard : ∀ c ∈ s'.place.heard,
      ∃ bytes, Message.tcp c bytes ∈ s'.handled) : Talk s' := by
  have hDone : ∀ c, s.Done c → s'.Done c := by
    rintro c (hc | ⟨rest, hPlace⟩)
    · exact .inl (hClosed ▸ hc)
    · exact absurd hPlace (hNot c rest)
  refine ⟨hGoing, fun c bytes hMem => ?_, fun c hc => ?_, fun c hc => ?_⟩
  · rcases hTold c bytes hMem with hOld | hNew
    · exact hDone c (h.told c bytes hOld)
    · exact hNew
  · exact hDone c (h.hungUp c (hOver ▸ hc))
  · rcases List.mem_append.mp hc with hOld | hNew
    · obtain ⟨bytes, hBytes⟩ :=
        h.heard c (List.mem_append_left _ (hClosed ▸ hOld))
      exact ⟨bytes, hHandled hBytes⟩
    · exact hHeard c hNew

theorem Talk.step (h : Talk s) (hOrder : Order s) (hDoes : Does s l s')
    (hCalm : l ≠ .epollFails) (hFinish : ∀ c, l = .finish c → s.Done c) :
    Talk s' := by
  have hAt : ∀ {p : Place A}, s.place = p →
      (∀ c rest, p ≠ .closing c rest) → ∀ c rest, s.place ≠ .closing c rest :=
    fun hp hNot c rest hc => hNot c rest (hp.symm.trans hc)
  cases hDoes with
  | connect | send _ _ _ | datagram _ _ =>
      exact ⟨h.going, h.told, h.hungUp, h.heard⟩
  | finish c =>
      refine ⟨h.going, h.told, fun c' hc => ?_, h.heard⟩
      by_cases hcc : c' = c
      · subst hcc
        exact hFinish c' rfl
      · have hOld : Function.update s.hungUp c true c' = true := hc
        rw [Function.update_of_ne hcc] at hOld
        exact h.hungUp c' hOld
  | epoll events hPlace _ _ _ =>
      exact h.move (hAt hPlace (by simp)) (going_next events) rfl rfl
        (List.Subset.refl _) (fun _ _ => .inl) fun c hc =>
          absurd hc (not_mem_heard_next events c)
  | epollFails hPlace => exact absurd rfl hCalm
  | accept rest hPlace _ =>
      exact h.move (hAt hPlace (by simp)) rfl rfl rfl (List.Subset.refl _)
        (fun _ _ => .inl) fun c hc => absurd hc List.not_mem_nil
  | skip socket rest l hPlace _ =>
      exact h.move (hAt hPlace (by simp)) (going_next rest) rfl rfl
        (List.Subset.refl _) (fun _ _ => .inl) fun c hc =>
          absurd hc (not_mem_heard_next rest c)
  | read c rest k buffer hPlace _ _ _ =>
      have hAfter : ∀ p : Place A, p = .replying c rest ∨ p = .closing c rest →
          p.stopped = false ∧ p.heard = [c] := by
        rintro p (rfl | rfl) <;> exact ⟨rfl, rfl⟩
      obtain ⟨hGoing, hHeard⟩ := hAfter
        (if cstr ((s.sent c).take k) = hello then .replying c rest
          else .closing c rest) (by split <;> simp)
      refine h.move (hAt hPlace (by simp)) hGoing rfl rfl
        (List.subset_append_left _ _) (fun _ _ => .inl) fun c' hc => ?_
      obtain rfl : c' = c := by
        rw [hHeard] at hc
        exact List.mem_singleton.mp hc
      exact ⟨_, List.mem_append_right _ (List.mem_singleton_self _)⟩
  | readNothing c rest hPlace hOver =>
      have hNot := hOrder.not_done (c := c) (by rw [hPlace]; rfl)
        (by simp [hPlace])
      exact absurd (h.hungUp c hOver) hNot
  | write c rest hPlace =>
      refine h.move (hAt hPlace (by simp)) rfl rfl rfl (List.Subset.refl _)
        (fun c' bytes hMem => ?_) fun c' hc => ?_
      · rcases List.mem_append.mp hMem with hOld | hNew
        · exact .inl hOld
        · obtain ⟨rfl, -⟩ := Message.tcp.inj (List.mem_singleton.mp hNew)
          exact .inr (.inr ⟨rest, rfl⟩)
      · obtain rfl : c' = c := List.mem_singleton.mp hc
        exact h.heard c' (List.mem_append_right _ (by
          rw [hPlace]
          exact List.mem_singleton_self c'))
  | sigpipe c rest hPlace hOver =>
      have hNot := hOrder.not_done (c := c) (by rw [hPlace]; rfl)
        (by simp [hPlace])
      exact absurd (h.hungUp c hOver) hNot
  | close c rest hPlace =>
      have hDone : ∀ c', s.Done c' → c' ∈ s.closed ++ [c] := by
        rintro c' (hc | ⟨rest', hc⟩)
        · exact List.mem_append_left _ hc
        · rw [hPlace] at hc
          obtain ⟨rfl, -⟩ := Place.closing.inj hc
          exact List.mem_append_right _ (List.mem_singleton_self c)
      refine ⟨going_next rest, fun c' bytes hMem =>
        .inl (hDone c' (h.told c' bytes hMem)), fun c' hc =>
        .inl (hDone c' (h.hungUp c' hc)), fun c' hc => ?_⟩
      refine h.heard c' ?_
      rw [hPlace]
      exact (List.mem_append.mp hc).resolve_right
        (not_mem_heard_next rest c')
  | recvfrom rest addr bytes buffer hPlace _ =>
      have hAfter : ∀ p : Place A, p = .sending addr rest ∨ p = next rest →
          p.stopped = false ∧ p.heard = [] := by
        rintro p (rfl | rfl)
        · exact ⟨rfl, rfl⟩
        · exact ⟨going_next rest, heard_next rest⟩
      obtain ⟨hGoing, hHeard⟩ := hAfter
        (if cstr (bytes.take 1023) = hi then .sending addr rest
          else next rest) (by split <;> simp)
      refine h.move (hAt hPlace (by simp)) hGoing rfl rfl
        (List.subset_append_left _ _) (fun _ _ => .inl) fun c' hc => ?_
      rw [hHeard] at hc
      exact absurd hc List.not_mem_nil
  | sendto addr rest hPlace =>
      refine h.move (hAt hPlace (by simp)) (going_next rest) rfl rfl
        (List.Subset.refl _) (fun c bytes hMem => ?_) fun c hc =>
          absurd hc (not_mem_heard_next rest c)
      rcases List.mem_append.mp hMem with hOld | hNew
      · exact .inl hOld
      · simp at hNew

/-! ## What a client can read -/

theorem reply_connection? {m answer : Message A} (h : m.reply = some answer) :
    answer.connection? = m.connection? := by
  cases m with
  | tcp c bytes =>
      obtain ⟨-, hAnswer⟩ := Option.ite_none_right_eq_some.mp h
      rw [← Option.some.inj hAnswer]
      rfl
  | udp addr bytes =>
      obtain ⟨-, hAnswer⟩ := Option.ite_none_right_eq_some.mp h
      rw [← Option.some.inj hAnswer]
      rfl

/-- The answers are for a part of the connections heard, in their order: a
message is answered at most once, and the first answer comes before the
second. -/
theorem replies_sublist (messages : List (Message A)) :
    ((messages.filterMap Message.reply).filterMap
      Message.connection?).Sublist
        (messages.filterMap Message.connection?) := by
  induction messages with
  | nil => exact List.Sublist.refl _
  | cons m messages ih =>
      cases hReply : m.reply with
      | none =>
          rw [List.filterMap_cons_none hReply]
          cases hConn : m.connection? with
          | none => rw [List.filterMap_cons_none hConn]; exact ih
          | some c => rw [List.filterMap_cons_some hConn]; exact ih.cons c
      | some answer =>
          rw [List.filterMap_cons_some hReply]
          cases hConn : m.connection? with
          | none =>
              rw [List.filterMap_cons_none hConn, List.filterMap_cons_none
                ((reply_connection? hReply).trans hConn)]
              exact ih
          | some c =>
              rw [List.filterMap_cons_some hConn, List.filterMap_cons_some
                ((reply_connection? hReply).trans hConn)]
              exact ih.cons_cons c

/-- Texts of other connections add nothing to what this one can read. -/
theorem flatMap_forConnection_of_not_mem {c : Nat}
    {messages : List (Message A)}
    (h : c ∉ messages.filterMap Message.connection?) :
    messages.flatMap (Message.forConnection c) = [] := by
  rw [List.flatMap_eq_nil_iff]
  intro m hm
  cases m with
  | udp addr bytes => rfl
  | tcp c' bytes =>
      refine if_neg ?_
      rintro rfl
      exact h (List.mem_filterMap.mpr ⟨_, hm, rfl⟩)

/-- A connection with one text has been told that text. -/
theorem flatMap_forConnection_of_mem {c : Nat} {bytes : List UInt8}
    {messages : List (Message A)}
    (hOnce : (messages.filterMap Message.connection?).Nodup)
    (h : Message.tcp c bytes ∈ messages) :
    messages.flatMap (Message.forConnection c) = bytes := by
  induction messages with
  | nil => exact absurd h List.not_mem_nil
  | cons m messages ih =>
      rw [List.flatMap_cons]
      rcases List.mem_cons.mp h with rfl | hRest
      · replace hOnce : (c :: messages.filterMap
          Message.connection?).Nodup := hOnce
        rw [flatMap_forConnection_of_not_mem (List.nodup_cons.mp hOnce).1,
          List.append_nil]
        exact if_pos rfl
      · have hLater : c ∈ messages.filterMap Message.connection? :=
          List.mem_filterMap.mpr ⟨_, hRest, rfl⟩
        cases m with
        | udp addr text => exact ih hOnce hRest
        | tcp c' text =>
            replace hOnce : (c' :: messages.filterMap
              Message.connection?).Nodup := hOnce
            obtain ⟨hNot, hOnce⟩ := List.nodup_cons.mp hOnce
            have hcc : c' ≠ c := fun hEq => hNot (hEq ▸ hLater)
            rw [ih hOnce hRest, show Message.forConnection c
              (Message.tcp c' text : Message A) = [] from if_neg hcc]
            rfl

theorem Order.heard_once (h : Order s) :
    (s.handled.filterMap Message.connection?).Nodup := by
  refine (h.readOnce.trans (List.Sublist.append (List.Sublist.refl _) ?_)).nodup
    (show (s.closed ++ s.place.conn).Nodup by
      rw [h.opened]
      exact List.nodup_range)
  cases s.place <;>
    first | exact List.Sublist.refl _ | exact List.nil_sublist _

/-- An answer that has been written is that to a whole `Hello`: `strcmp` has
compared all the bytes up to the terminator. -/
theorem Logs.written_tcp (h : Logs s) {c : Nat} {bytes : List UInt8}
    (hMem : Message.tcp c bytes ∈ s.written) :
    bytes = salutTcp ∧
      ∃ text, Message.tcp c text ∈ s.handled ∧ cstr text = hello := by
  have hReplies : Message.tcp c bytes ∈ s.handled.filterMap Message.reply := by
    rw [← h.written]
    exact List.mem_append_left _ hMem
  obtain ⟨m, hm, hReply⟩ := List.mem_filterMap.mp hReplies
  cases m with
  | tcp c' text =>
      obtain ⟨hText, hAnswer⟩ := Option.ite_none_right_eq_some.mp hReply
      obtain ⟨rfl, rfl⟩ := Message.tcp.inj (Option.some.inj hAnswer)
      exact ⟨rfl, text, hm, hText⟩
  | udp addr text =>
      obtain ⟨-, hAnswer⟩ := Option.ite_none_right_eq_some.mp hReply
      simp at hAnswer

theorem Logs.written_udp (h : Logs s) {addr : A} {bytes : List UInt8}
    (hMem : Message.udp addr bytes ∈ s.written) : bytes = salutUdp := by
  have hReplies : Message.udp addr bytes ∈
      s.handled.filterMap Message.reply := by
    rw [← h.written]
    exact List.mem_append_left _ hMem
  obtain ⟨m, -, hReply⟩ := List.mem_filterMap.mp hReplies
  cases m with
  | tcp c text =>
      obtain ⟨-, hAnswer⟩ := Option.ite_none_right_eq_some.mp hReply
      simp at hAnswer
  | udp addr' text =>
      obtain ⟨-, hAnswer⟩ := Option.ite_none_right_eq_some.mp hReply
      exact (Message.udp.inj (Option.some.inj hAnswer)).2.symm

/-- No connection is answered twice, since none is heard twice. -/
theorem written_once (hLogs : Logs s) (hOrder : Order s) :
    (s.written.filterMap Message.connection?).Nodup := by
  have hAll := (replies_sublist s.handled).nodup hOrder.heard_once
  rw [← hLogs.written, List.filterMap_append] at hAll
  exact (List.nodup_append.mp hAll).1

theorem exists_written {c : Nat} (h : s.told c ≠ []) :
    ∃ bytes, Message.tcp c bytes ∈ s.written := by
  have hMem : c ∈ s.written.filterMap Message.connection? := by
    by_contra hNone
    exact h (flatMap_forConnection_of_not_mem hNone)
  obtain ⟨m, hm, hConn⟩ := List.mem_filterMap.mp hMem
  cases m with
  | udp addr bytes => simp [Message.connection?] at hConn
  | tcp c' bytes =>
      obtain rfl : c' = c := Option.some.inj hConn
      exact ⟨bytes, hm⟩

/-- **The first answer**: a client can read all of it or nothing.  The
server writes the answer in one call, once, and only after the whole
`Hello` was read. -/
theorem told_eq (hLogs : Logs s) (hOrder : Order s) {c : Nat}
    (hSome : s.told c ≠ []) : s.told c = salutTcp ∧
      ∃ bytes, Message.tcp c bytes ∈ s.handled ∧ cstr bytes = hello := by
  obtain ⟨bytes, hMem⟩ := exists_written hSome
  obtain ⟨rfl, hHeard⟩ := hLogs.written_tcp hMem
  exact ⟨flatMap_forConnection_of_mem (written_once hLogs hOrder) hMem,
    hHeard⟩

/-- A closed connection whose `Hello` was read as a whole has been answered:
after such a `read` the answer is written before the connection is closed. -/
theorem told_of_closed (hLogs : Logs s) (hOrder : Order s) {c : Nat}
    {bytes : List UInt8} (hClosed : c ∈ s.closed)
    (hHeard : Message.tcp c bytes ∈ s.handled) (hText : cstr bytes = hello) :
    s.told c ≠ [] := by
  have hReplies : Message.tcp c salutTcp ∈ s.written ++ s.place.owes := by
    rw [hLogs.written]
    exact List.mem_filterMap.mpr ⟨_, hHeard, if_pos hText⟩
  have hNot : c ∉ s.place.conn :=
    fun hConn => hOrder.not_closed hConn hClosed
  have hWritten : Message.tcp c salutTcp ∈ s.written := by
    refine (List.mem_append.mp hReplies).resolve_right fun hOwes => hNot ?_
    cases hPlace : s.place <;> rw [hPlace] at hOwes <;>
      simp [Place.owes, Place.conn] at hOwes ⊢ <;> exact hOwes
  rw [Server.told, flatMap_forConnection_of_mem (written_once hLogs hOrder)
    hWritten]
  decide

/-- **The second answer.**  Whatever a UDP client gets is the one text that the
server sends. -/
theorem answer_eq [DecidableEq A] (hLogs : Logs s) {addr : A}
    {text : List UInt8} (h : s.answer addr = some text) :
    text = salutUdp := by
  obtain ⟨m, hm, hAddr⟩ := List.mem_filterMap.mp (List.mem_of_head? h)
  cases m with
  | tcp c bytes => simp [Message.forAddr] at hAddr
  | udp addr' bytes =>
      obtain ⟨-, hBytes⟩ := Option.ite_none_right_eq_some.mp hAddr
      rw [← Option.some.inj hBytes]
      exact hLogs.written_udp hm

/-- A `Hi` that the server has received is answered in the end.  `owes` is
empty as soon as the server is back at `epoll_wait`. -/
theorem exists_answer [DecidableEq A] (hLogs : Logs s) {addr : A}
    {bytes : List UInt8} (hHeard : Message.udp addr bytes ∈ s.handled)
    (hText : cstr bytes = hi) (hOwes : s.place.owes = []) :
    ∃ text, s.answer addr = some text := by
  have hWritten : Message.udp addr salutUdp ∈ s.written := by
    have hReplies := hLogs.written
    rw [hOwes, List.append_nil] at hReplies
    rw [hReplies]
    exact List.mem_filterMap.mpr ⟨_, hHeard, if_pos hText⟩
  have hMem : salutUdp ∈ s.written.filterMap (Message.forAddr addr) :=
    List.mem_filterMap.mpr ⟨_, hWritten, if_pos rfl⟩
  exact ⟨_, List.head?_eq_some_head (List.ne_nil_of_mem hMem)⟩

end Calm

end UnixHomework.Ports.Multiprotocol
