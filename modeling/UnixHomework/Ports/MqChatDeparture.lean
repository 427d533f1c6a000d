import UnixHomework.Ports.MqChatNames
import Mathlib.Data.Fintype.Defs

/-!
# Departed clients of the message-queue chat

A client that leaves closes and unlinks its queue, but the server is not told:
the entry stays in the table, and the descriptor in it keeps the queue alive.
Every broadcast still puts a copy into that queue, nobody takes one out, and
once ten are in it `mq_send` blocks the server for good.

The server escapes this exactly as long as the queues of departed clients have
room for the copies that are still sent to them.  `RoomForDeparted` asks for
that room where copies come to be due: at the start of a broadcast, and when a
client leaves in the middle of one.
-/

namespace UnixHomework.Ports.MqChat

open UnixHomework.Verified

/-- The user has typed `q`. -/
def Phase.departed : Phase → Bool
  | .closed | .gone => true
  | _ => false

section Definitions

variable {Pid : Type*}

/-- The number of messages in a queue. -/
def State.queueLength (s : State Pid) (q : Nat) : Nat :=
  (s.kernel.queues q).fifo.items.length

/-- The queue in whose `mq_send` the server is blocked. -/
def State.blockedOn (s : State Pid) : Option Nat :=
  match s.server with
  | .receiving => none
  | .broadcasting _ i =>
      s.clients[i]?.bind fun e =>
        if maxMsg ≤ s.queueLength e.dqueue then some e.dqueue else none

/-- The server is blocked on the queue of a client that has left. -/
def StuckOnDeparted (s : State Pid) : Prop :=
  ∃ p, (s.procs p).phase.departed ∧ s.blockedOn = some (s.procs p).clientMq

/-- How many entries of a table send to `q`. -/
def copies (clients : List ClientInfo) (q : Nat) : Nat :=
  (clients.map (·.dqueue)).count q

/-- Copies that the broadcast in progress has still to put into `q`. -/
def State.pending (s : State Pid) (q : Nat) : Nat :=
  match s.server with
  | .receiving => 0
  | .broadcasting _ i => copies (s.clients.drop i) q

/-- The table that the next broadcast goes through, which the message at the
front of the server's queue decides. -/
def State.recipients (s : State Pid) : List ClientInfo :=
  match (s.kernel.queues serverMq).fifo.items with
  | [] => []
  | m :: _ =>
      if m.type = 0 then
        (addClient s.kernel s.clients m.name.str m.queueName.str
          s.processed.length).getD []
      else if m.type = 1 then s.clients
      else []

/-- Where copies for departed clients come to be due, there is room for
them. -/
def RoomForDeparted (s : State Pid) : Label Pid → Prop
  | .serverReceive => ∀ p, (s.procs p).phase.departed →
      s.queueLength (s.procs p).clientMq +
        copies s.recipients (s.procs p).clientMq ≤ maxMsg
  | .quit p =>
      s.queueLength (s.procs p).clientMq + s.pending (s.procs p).clientMq ≤
        maxMsg
  | _ => True

instance [Fintype Pid] (s : State Pid) :
    (a : Label Pid) → Decidable (RoomForDeparted s a)
  | .serverReceive => inferInstanceAs (Decidable (∀ _ : Pid, _ → _ ≤ maxMsg))
  | .quit _ => inferInstanceAs (Decidable (_ ≤ maxMsg))
  | .unlinkOwn _ | .openOwn _ | .openServer _ | .unlinkFailed _
  | .register _ | .sendChat _ _ | .receive _ | .unlinkQuit _
  | .serverSend | .serverDone => inferInstanceAs (Decidable True)

/-- Every departed client's queue has room for what is still sent to it. -/
def RoomInv (s : State Pid) : Prop :=
  ∀ p, (s.procs p).phase.departed →
    s.queueLength (s.procs p).clientMq + s.pending (s.procs p).clientMq ≤
      maxMsg

end Definitions

/-! ## Copies and recipients -/

theorem copies_cons (e : ClientInfo) (clients : List ClientInfo) (q : Nat) :
    copies (e :: clients) q =
      copies clients q + if e.dqueue = q then 1 else 0 := by
  rw [copies, List.map_cons, List.count_cons, copies]
  simp only [beq_iff_eq]

theorem Phase.hasQueue_of_departed {ph : Phase} (h : ph.departed) :
    ph.hasQueue := by
  cases ph <;> simp_all [Phase.departed, Phase.hasQueue]

section Sends

variable {Pid : Type*} {name : Pid → ClientName} {s : State Pid}

/-- The server never waits to write to a queue that is not in its table. -/
theorem Descriptors.pending_eq_zero (hD : Descriptors name s) {q : Nat}
    (hPath : (s.kernel.queues q).path = chatQueue) : s.pending q = 0 := by
  unfold State.pending
  split
  · rfl
  · refine List.count_eq_zero.mpr fun hMem => ?_
    rcases List.mem_map.mp hMem with ⟨e, he, rfl⟩
    have hEntry := hD.table e (List.mem_of_mem_drop he)
    exact hEntry.neServer (hEntry.path_eq.symm.trans hPath)

theorem pending_broadcasting {m : ChatMessage} {i : Nat} (q : Nat)
    (h : s.server = .broadcasting m i) :
    s.pending q = copies (s.clients.drop i) q := by
  rw [State.pending, h]

/-- At the entry that is next in the table. -/
theorem pending_at {m : ChatMessage} {i : Nat} {e : ClientInfo} (q : Nat)
    (h : s.server = .broadcasting m i) (he : s.clients[i]? = some e) :
    s.pending q =
      copies (s.clients.drop (i + 1)) q + if e.dqueue = q then 1 else 0 := by
  rcases List.getElem?_eq_some_iff.mp he with ⟨hi, rfl⟩
  rw [pending_broadcasting q h, List.drop_eq_getElem_cons hi, copies_cons]

theorem recipients_chat {m : ChatMessage} {rest : List ChatMessage}
    (front : (s.kernel.queues serverMq).fifo.items = m :: rest)
    (hType : m.type = 1) : s.recipients = s.clients := by
  simp [State.recipients, front, hType]

theorem recipients_registered {m : ChatMessage} {rest : List ChatMessage}
    {qd : Nat}
    (front : (s.kernel.queues serverMq).fifo.items = m :: rest)
    (hType : m.type = 0) (hRoom : s.clients.length < maxClients)
    (hName : s.kernel.names m.queueName.str = some qd) :
    s.recipients = s.clients ++
      [clientEntry m.name.str m.queueName.str qd s.processed.length] := by
  have hAdd : addClient s.kernel s.clients m.name.str m.queueName.str
      s.processed.length = some (s.clients ++
        [clientEntry m.name.str m.queueName.str qd s.processed.length]) := by
    rw [addClient, if_neg (Nat.not_le_of_lt hRoom), MqKernel.openExisting,
      hName, Option.map_some]
  simp only [State.recipients, front, hType, if_true, hAdd, Option.getD_some]

/-- A server that is blocked cannot move. -/
theorem serverSend_eq_none [DecidableEq Pid] {q : Nat}
    (h : s.blockedOn = some q) : step name s .serverSend = none := by
  unfold State.blockedOn at h
  cases hServer : s.server with
  | receiving =>
      rw [hServer] at h
      contradiction
  | broadcasting m i =>
      rw [hServer] at h
      rcases Option.bind_eq_some_iff.mp h with ⟨e, he, hFull⟩
      simp only [Option.ite_none_right_eq_some] at hFull
      simp only [step, hServer, he, Option.bind_some]
      rw [MqKernel.send, BoundedFifo.enter?_of_full hFull.1]
      rfl

end Sends

/-! ## Room in every run -/

section Room

variable {Pid : Type*} [DecidableEq Pid] {name : Pid → ClientName}
  {s next : State Pid} {a : Label Pid}

/-- A process that has not left may change in any way. -/
theorem RoomInv.setProc (hR : RoomInv s) {p : Pid} {c : Proc}
    (hc : c.phase.departed = false) : RoomInv (s.setProc p c) := by
  intro q hq
  have hNe : q ≠ p := by
    rintro rfl
    rw [setProc_procs_self, hc] at hq
    contradiction
  rw [setProc_procs_ne _ _ _ hNe] at hq ⊢
  exact hR q hq

/-- A process may leave if there is room in its queue. -/
theorem RoomInv.setDeparted (hR : RoomInv s) {p : Pid} {c : Proc}
    (hMq : c.clientMq = (s.procs p).clientMq)
    (hRoom : s.queueLength (s.procs p).clientMq +
      s.pending (s.procs p).clientMq ≤ maxMsg) : RoomInv (s.setProc p c) := by
  intro q hq
  by_cases hEq : q = p
  · subst hEq
    rw [setProc_procs_self, hMq]
    exact hRoom
  · rw [setProc_procs_ne _ _ _ hEq] at hq ⊢
    exact hR q hq

omit [DecidableEq Pid] in
/-- No departed client owns a queue that is made anew. -/
theorem RoomInv.openCreate (hR : RoomInv s) (hD : Descriptors name s)
    (path : List UInt8) :
    RoomInv { s with kernel := (s.kernel.openCreate path).1 } := by
  intro q hq
  have hOwn := (hD.procs q).own (Phase.hasQueue_of_departed hq)
  simp only [State.queueLength]
  rw [MqKernel.openCreate_queues _ _ hOwn.1]
  exact hR q hq

omit [DecidableEq Pid] in
/-- A client's send goes to a queue that the server does not write to, or
that no departed client owns. -/
theorem RoomInv.clientSend (hR : RoomInv s) (hD : Descriptors name s)
    {p : Pid} {m : ChatMessage}
    (room : (s.kernel.queues (s.procs p).serverMq).fifo.items.length <
      maxMsg) :
    RoomInv { s with
      kernel := s.kernel.enter (s.procs p).serverMq m room } := by
  intro q hq
  by_cases hTo : (s.procs q).clientMq = (s.procs p).serverMq
  · have hPath := (hD.procs p).server.2
    rw [← hTo] at hPath
    have hZero : s.pending (s.procs q).clientMq = 0 :=
      hD.pending_eq_zero hPath
    show _ + s.pending (s.procs q).clientMq ≤ maxMsg
    rw [hZero, Nat.add_zero]
    exact BoundedFifo.bounded _
  · simp only [State.queueLength, MqKernel.enter_items]
    rw [if_neg hTo]
    exact hR q hq

omit [DecidableEq Pid] in
/-- A message that is taken leaves more room. -/
theorem RoomInv.leave (hR : RoomInv s) {qd : Nat} {m : ChatMessage}
    {rest : List ChatMessage}
    (front : (s.kernel.queues qd).fifo.items = m :: rest) :
    RoomInv { s with kernel := s.kernel.leave qd m rest front } := by
  intro q hq
  have hOld := hR q hq
  simp only [State.queueLength, MqKernel.leave_items] at hOld ⊢
  by_cases hFrom : (s.procs q).clientMq = qd
  · rw [if_pos hFrom]
    rw [hFrom, front, List.length_cons] at hOld
    rw [hFrom]
    exact Nat.le_trans (Nat.add_le_add_right (Nat.le_succ _) _) hOld
  · rw [if_neg hFrom]
    exact hOld

omit [DecidableEq Pid] in
/-- The server's send uses up one of the copies that were due. -/
theorem RoomInv.serverSend (hR : RoomInv s) {m : ChatMessage} {i : Nat}
    {e : ClientInfo} (hServer : s.server = .broadcasting m i)
    (he : s.clients[i]? = some e)
    (room : (s.kernel.queues e.dqueue).fifo.items.length < maxMsg) :
    RoomInv { s with
      kernel := s.kernel.enter e.dqueue m room
      server := .broadcasting m (i + 1) } := by
  intro q hq
  have hOld := hR q hq
  rw [pending_at _ hServer he] at hOld
  rw [pending_broadcasting _ rfl]
  simp only [State.queueLength, MqKernel.enter_items] at hOld ⊢
  by_cases hTo : (s.procs q).clientMq = e.dqueue
  · rw [if_pos hTo.symm] at hOld
    rw [if_pos hTo, List.length_append, List.length_singleton]
    omega
  · rw [if_neg fun h => hTo h.symm] at hOld
    rw [if_neg hTo]
    exact hOld

omit [DecidableEq Pid] in
/-- The server takes a message from its own queue, which is no client's. -/
theorem RoomInv.serverReceive (hD : Descriptors name s)
    {m : ChatMessage} {rest : List ChatMessage}
    (front : (s.kernel.queues serverMq).fifo.items = m :: rest) {q : Pid}
    (hq : (s.procs q).phase.departed) :
    ({ s with kernel := s.kernel.leave serverMq m rest front }).queueLength
        (s.procs q).clientMq = s.queueLength (s.procs q).clientMq := by
  have hNe := (hD.procs q).ownNeServer (Phase.hasQueue_of_departed hq)
  simp only [State.queueLength, MqKernel.leave_items]
  rw [if_neg hNe]

theorem RoomInv.step (hR : RoomInv s) (hD : Descriptors name s)
    (hok : RoomForDeparted s a) (hT : Transition name s a next) :
    RoomInv next := by
  cases hT with
  | openServer p | openFailed p => exact hR.setProc rfl
  | unlinkOwn p | unlinkFailed p =>
      have hUnlink : RoomInv
          { s with kernel := s.kernel.unlink (name p).queueName } := hR
      exact hUnlink.setProc rfl
  | openOwn p => exact (hR.openCreate hD _).setProc rfl
  | register p hPhase room => exact (hR.clientSend hD room).setProc rfl
  | sendChat p input hPhase room =>
      exact (hR.clientSend hD room).setProc
        (by simp [hPhase, Phase.departed])
  | receive p m rest hPhase front =>
      exact (hR.leave front).setProc (by simp [hPhase, Phase.departed])
  | quit p hPhase => exact hR.setDeparted rfl hok
  | unlinkQuit p hPhase =>
      have hUnlink : RoomInv
          { s with kernel := s.kernel.unlink (name p).queueName } := hR
      exact hUnlink.setDeparted rfl (hR p (by simp [hPhase, Phase.departed]))
  | registered m rest qd clients hServer front hType hRoom hName hClients =>
      intro q hq
      have hDue := hok q hq
      rw [recipients_registered front hType hRoom hName, ← hClients,
        ← RoomInv.serverReceive hD front hq] at hDue
      rw [pending_broadcasting _ rfl, List.drop_zero]
      exact hDue
  | chat m rest hServer front hType =>
      intro q hq
      have hDue := hok q hq
      rw [recipients_chat front hType,
        ← RoomInv.serverReceive hD front hq] at hDue
      rw [pending_broadcasting _ rfl, List.drop_zero]
      exact hDue
  | ignored m rest hServer front hType => exact hR.leave front
  | serverSend m i e hServer hEntry room =>
      exact hR.serverSend hServer hEntry room
  | serverDone m i hServer hEnd =>
      intro q hq
      exact Nat.le_trans (Nat.add_le_add_left (Nat.zero_le _) _) (hR q hq)

omit [DecidableEq Pid] in
/-- With the room promised, the entry that is next has a place. -/
theorem RoomInv.not_stuck (hR : RoomInv s) : ¬StuckOnDeparted s := by
  rintro ⟨p, hp, hBlocked⟩
  unfold State.blockedOn at hBlocked
  split at hBlocked
  · contradiction
  · rename_i m i hServer
    rcases Option.bind_eq_some_iff.mp hBlocked with ⟨e, he, hFull⟩
    simp only [Option.ite_none_right_eq_some, Option.some.injEq] at hFull
    rcases hFull with ⟨hFull, hQueue⟩
    have hRoom := hR p hp
    rw [pending_at _ hServer he, if_pos hQueue, ← hQueue] at hRoom
    omega

/-- **Never stuck on a departed client**, for any names and in every run in
which the queues of departed clients have room for the copies that come to be
due. -/
theorem not_stuck_of_room
    (h : (chatMachine name).ReachableBy RoomForDeparted s) :
    ¬StuckOnDeparted s := by
  have hInv : Descriptors name s ∧ RoomInv s := by
    refine h.invariant (I := fun s => Descriptors name s ∧ RoomInv s) ?_ ?_
    · intro s h0
      obtain rfl : s = State.start Pid := h0
      exact ⟨descriptors_start name, nofun⟩
    · rintro s a next ⟨hD, hR⟩ hok hStep
      have hT := step_transition hStep
      exact ⟨hD.step hT, hR.step hD hok hT⟩
  exact hInv.2.not_stuck

/-- `a` leaves while its registration is waiting. -/
theorem not_stuck_after_leaving : ∃ s : State Bool,
    (s.procs true).phase.departed ∧
      s.pending (s.procs true).clientMq = 1 ∧ ¬StuckOnDeparted s := by
  have hRun : ((chatMachine twoNames).runIf RoomForDeparted (State.start Bool)
      (startUp true ++ [.quit true, .serverReceive])).any (fun s => decide
        ((s.procs true).phase.departed ∧
          s.pending (s.procs true).clientMq = 1)) = true := rfl
  rcases Machine.exists_reachableBy_of_runIf rfl hRun with ⟨s, hs, hDue⟩
  have hDue := of_decide_eq_true hDue
  exact ⟨s, hDue.1, hDue.2, not_stuck_of_room hs⟩

end Room

/-! ## A run that gets stuck -/

/-- `b` posts a text and everybody who is still there gets it. -/
def postAndReceive : List (Label Bool) :=
  [.sendChat false (ascii ['h', 'i']), .serverReceive, .serverSend,
    .serverSend, .serverDone, .receive false]

/-- `a` comes and goes; then `b` comes and posts nine texts.  The ninth is
the eleventh message for `a`. -/
def leaveAndPost : List (Label Bool) :=
  startUp true ++ [.serverReceive, .serverSend, .serverDone, .quit true,
    .unlinkQuit true] ++ startUp false ++ [.serverReceive, .serverSend,
      .serverSend, .serverDone, .receive false] ++
    (List.replicate 8 postAndReceive).flatten ++
      [.sendChat false (ascii ['h', 'i']), .serverReceive]

theorem stuck_on_departed :
    ¬∀ s, (chatMachine twoNames).Reachable s → ¬StuckOnDeparted s := by
  intro hNever
  have hRun : ((chatMachine twoNames).run (State.start Bool)
      leaveAndPost).any (fun s => decide ((s.procs true).phase.departed ∧
        s.blockedOn = some (s.procs true).clientMq)) = true := rfl
  rcases Machine.exists_reachable_of_run rfl hRun with ⟨s, hs, hStuck⟩
  exact hNever s hs ⟨true, of_decide_eq_true hStuck⟩

end UnixHomework.Ports.MqChat
