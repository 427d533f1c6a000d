import UnixHomework.Ports.MqChatOwnership
import Mathlib.Data.List.Infix

/-!
# Total order of the message-queue chat

With pairwise distinct names every queue has one reader and every table entry
one owner.  Then each registered client gets the chat messages that the server
has processed since the client's registration: all of them, once, and in the
server's order.  A broadcast that is paused at index `i` of the table has
reached the entries before `i` and not the others; this is the only way in
which two clients can differ.

`Delivery` compares every queue's history with the log of processed messages.
-/

namespace UnixHomework.Ports.MqChat

open UnixHomework.Verified

/-! ## What a client gets -/

def ChatMessage.isChat (m : ChatMessage) : Bool :=
  m.type = 1

section Definitions

variable {Pid : Type*}

/-- The chat messages that `p` has received, and those waiting in its queue.  A
queue has one reader, so together they are what was sent to it. -/
def State.seen (s : State Pid) (p : Pid) : List ChatMessage :=
  ((s.procs p).received ++
    (s.kernel.queues (s.procs p).clientMq).fifo.items).filter
      ChatMessage.isChat

/-- The chat messages whose broadcast has passed index `i` of the table: all
that were processed, except the one being sent if it has not yet got there. -/
def State.broadcastTo (s : State Pid) (i : Nat) : List ChatMessage :=
  match s.server with
  | .receiving => s.processed
  | .broadcasting m pos =>
      if m.isChat ∧ pos ≤ i then s.processed.dropLast else s.processed

/-- `e`, at index `i` of the table, is the entry of `p`: it carries the name of
`p`'s queue. -/
structure EntryOf (name : Pid → ClientName) (s : State Pid) (p : Pid)
    (i : Nat) (e : ClientInfo) : Prop where
  entry : s.clients[i]? = some e
  named : e.queueName.str = (name p).queueName

/-- A chat message written by `n`.  The sender is told by the name in the
message, which the client has put there. -/
def ChatMessage.isFrom (n : ClientName) (m : ChatMessage) : Bool :=
  m.isChat && decide (m.name.str = n.chars)

/-- What the chat promises about its registered clients.  `seen` is the main
point, since it fixes what a client gets; the other fields say to whom it
applies and what follows for two clients or for one sender. -/
structure TotalOrder (name : Pid → ClientName) (s : State Pid) : Prop where
  /-- Every entry belongs to a client, -/
  owned : ∀ (i : Nat) e, s.clients[i]? = some e → ∃ p, EntryOf name s p i e
  /-- and no client has two. -/
  once : ∀ p i j e e', EntryOf name s p i e → EntryOf name s p j e' → i = j
  /-- A client gets exactly what was processed after its registration. -/
  seen : ∀ p i e, EntryOf name s p i e →
    s.seen p = (s.broadcastTo i).drop e.registeredAt
  /-- What the later of two clients gets is a stretch of what the earlier one
  gets. -/
  agree : ∀ p q i j e e', EntryOf name s p i e → EntryOf name s q j e' →
    i ≤ j → s.seen q <:+: s.seen p
  /-- A client gets any sender's messages as they were sent. -/
  sending : ∀ p q i e, EntryOf name s p i e →
    (s.seen p).filter (ChatMessage.isFrom (name q)) <:+: (s.procs q).sent

end Definitions


/-! ## Messages and entries -/

/-- The server's copy of a chat message is the message: name and text are
copied as strings, and fit. -/
theorem broadcastMessage_chatMessage (n : ClientName) (input : List UInt8) :
    broadcastMessage (chatMessage n input).name.str
      (chatMessage n input).text.str = chatMessage n input := by
  have hName := CharArray.strncpy_str_strncpy_zeros n.chars
    (by decide : 31 < 32)
  have hText := CharArray.strncpy_str_strncpy_zeros input
    (by decide : maxMessageSize - 1 < maxMessageSize)
  simp only [broadcastMessage, chatMessage, hName, hText]

theorem chatMessage_name (n : ClientName) (input : List UInt8) :
    (chatMessage n input).name.str = n.chars := by
  have hStr := CharArray.str_strncpy_zeros n.chars (by decide : 31 < 32)
  rw [cstr_of_noNul n.noNul, List.take_of_length_le n.short] at hStr
  exact hStr

@[simp] theorem isChat_chatMessage (n : ClientName) (input : List UInt8) :
    (chatMessage n input).isChat = true := rfl

@[simp] theorem isChat_registration (n : ClientName) :
    (registration n).isChat = false := rfl

@[simp] theorem isChat_newClientsMessage (clients : List ClientInfo) :
    (newClientsMessage clients).isChat = false := rfl

section Entries

variable {Pid : Type*} {name : Pid → ClientName} {s : State Pid}
  {i j : Nat} {e e' : ClientInfo}

theorem Ownership.index_eq (hO : Ownership name s)
    (he : s.clients[i]? = some e) (he' : s.clients[j]? = some e')
    (hEq : e.queueName.str = e'.queueName.str) : i = j := by
  have hLt : i < (s.clients.map (·.queueName.str)).length := by
    rw [List.length_map]
    exact (List.getElem?_eq_some_iff.mp he).1
  refine (List.getElem?_inj hLt hO.table_nodup).mp ?_
  rw [List.getElem?_map, List.getElem?_map, he, he', Option.map_some,
    Option.map_some, hEq]

/-- Different entries have different queues, those of their clients. -/
theorem Ownership.dqueue_ne (hO : Ownership name s) (hD : Descriptors name s)
    (he : s.clients[i]? = some e) (he' : s.clients[j]? = some e')
    (hij : i ≠ j) : e.dqueue ≠ e'.dqueue := by
  intro hEq
  have hPath := (hD.table e (List.mem_of_getElem? he)).path_eq
  have hPath' := (hD.table e' (List.mem_of_getElem? he')).path_eq
  rw [hEq, hPath'] at hPath
  exact hij (hO.index_eq he he' hPath.symm)

/-- No client writes to a queue of the table: it writes to the server's, which
is in no entry. -/
theorem Descriptors.entry_ne_server (hD : Descriptors name s)
    (he : s.clients[i]? = some e) (p : Pid) :
    e.dqueue ≠ (s.procs p).serverMq := by
  intro hEq
  have hEntry := hD.table e (List.mem_of_getElem? he)
  have hPath := hEntry.path_eq
  rw [hEq, (hD.procs p).server.2] at hPath
  exact hEntry.neServer hPath.symm

end Entries

/-! ## Delivery -/

/-- What every queue of the system has been sent, compared with the log of the
messages processed. -/
structure Delivery {Pid : Type*} (name : Pid → ClientName) (s : State Pid) :
    Prop where
  /-- Nothing is sent to a client before its registration. -/
  silent : ∀ q, q < s.kernel.next →
    (s.kernel.queues q).path ≠ chatQueue →
    q ∉ s.clients.map (·.dqueue) → (s.kernel.queues q).fifo.entered = []
  /-- The log is the chat messages that the server has taken from its queue. -/
  log : s.processed =
    (s.kernel.queues serverMq).fifo.left.filter ChatMessage.isChat
  /-- The message being sent on is the last one in the log, and every entry is
  older than it. -/
  progress : ∀ m i, s.server = .broadcasting m i → m.isChat →
    ∃ before, s.processed = before ++ [m] ∧
      ∀ e ∈ s.clients, e.registeredAt ≤ before.length
  /-- An entry was made at some point of the log, -/
  registeredAt : ∀ e ∈ s.clients, e.registeredAt ≤ s.processed.length
  /-- and the entries are in the order in which they were made. -/
  sorted : s.clients.Pairwise fun e e' => e.registeredAt ≤ e'.registeredAt
  /-- What was sent to an entry is the log from that point on. -/
  delivered : ∀ (i : Nat) e, s.clients[i]? = some e →
    (s.kernel.queues e.dqueue).fifo.entered.filter ChatMessage.isChat =
      (s.broadcastTo i).drop e.registeredAt
  /-- Nobody sends before it has opened the server's queue. -/
  unsent : ∀ p, (s.procs p).phase.hasServer = false → (s.procs p).sent = []
  /-- A client's chat messages in the server's queue are those it has sent. -/
  sent : ∀ p, (s.kernel.queues serverMq).fifo.entered.filter
      (ChatMessage.isFrom (name p)) =
    if (s.procs p).serverMq = serverMq then (s.procs p).sent else []

section DeliverySteps

variable {Pid : Type*} [DecidableEq Pid] {name : Pid → ClientName}
  {s next : State Pid} {a : Label Pid}

theorem Delivery.silent_step (hV : Delivery name s) (hD : Descriptors name s)
    (hT : Transition name s a next) (q : Nat) (hq : q < next.kernel.next)
    (hPath : (next.kernel.queues q).path ≠ chatQueue)
    (hNot : q ∉ next.clients.map (·.dqueue)) :
    (next.kernel.queues q).fifo.entered = [] := by
  cases hT with
  | unlinkOwn | unlinkFailed | unlinkQuit | openServer | openFailed | quit
  | serverDone => exact hV.silent q hq hPath hNot
  | openOwn p hPhase =>
      simp only [setProc_kernel] at hq hPath ⊢
      by_cases hOld : q < s.kernel.next
      · rw [MqKernel.openCreate_queues _ _ hOld] at hPath ⊢
        exact hV.silent q hOld hPath hNot
      · rw [MqKernel.openCreate_fifo_new _ _ (Nat.le_of_not_lt hOld) hq]
        rfl
  | register p hPhase room | sendChat p input hPhase room =>
      simp only [setProc_kernel, MqKernel.enter, MqKernel.setFifo_path]
        at hPath
      have hNe : q ≠ (s.procs p).serverMq := by
        rintro rfl
        exact hPath (hD.procs p).server.2
      simp only [setProc_kernel, MqKernel.enter_entered]
      rw [if_neg hNe]
      exact hV.silent q hq hPath hNot
  | receive | chat | ignored =>
      simp only [setProc_kernel, MqKernel.leave, MqKernel.setFifo_path]
        at hPath
      simp only [setProc_kernel, MqKernel.leave_entered]
      exact hV.silent q hq hPath hNot
  | registered m rest qd clients hServer front hType hRoom hqd hClients =>
      simp only [MqKernel.leave, MqKernel.setFifo_path] at hPath
      simp only [MqKernel.leave_entered]
      refine hV.silent q hq hPath fun hMem => hNot ?_
      rw [hClients, List.map_append]
      exact List.mem_append_left _ hMem
  | serverSend m i e hServer hEntry room =>
      simp only [MqKernel.enter, MqKernel.setFifo_path] at hPath
      have hNe : q ≠ e.dqueue := by
        rintro rfl
        exact hNot (List.mem_map_of_mem (List.mem_of_getElem? hEntry))
      simp only [MqKernel.enter_entered]
      rw [if_neg hNe]
      exact hV.silent q hq hPath hNot

theorem Delivery.log_step (hV : Delivery name s) (hD : Descriptors name s)
    (hT : Transition name s a next) :
    next.processed =
      (next.kernel.queues serverMq).fifo.left.filter ChatMessage.isChat := by
  cases hT with
  | unlinkOwn | unlinkFailed | unlinkQuit | openServer | openFailed | quit
  | serverDone => exact hV.log
  | openOwn p hPhase =>
      simp only [setProc_kernel, setProc_processed]
      rw [MqKernel.openCreate_queues _ _ hD.start.1]
      exact hV.log
  | register | sendChat | serverSend =>
      simp only [setProc_kernel, setProc_processed, MqKernel.enter_left]
      exact hV.log
  | receive p m rest hPhase front =>
      have hNe := (hD.procs p).ownNeServer (by simp [hPhase, Phase.hasQueue])
      simp only [setProc_kernel, setProc_processed, MqKernel.leave_left]
      rw [if_neg hNe.symm]
      exact hV.log
  | registered m rest qd clients hServer front hType =>
      simp [MqKernel.leave_left, List.filter_append, hV.log,
        ChatMessage.isChat, hType]
  | chat m rest hServer front hType =>
      simp [MqKernel.leave_left, List.filter_append, hV.log,
        ChatMessage.isChat, hType]
  | ignored m rest hServer front hType =>
      simp [MqKernel.leave_left, List.filter_append, hV.log,
        ChatMessage.isChat, hType]

omit [DecidableEq Pid] in
/-- A chat message at the front of the server's queue is sent on as it is,
since a client has built it. -/
theorem Descriptors.chat_front (hD : Descriptors name s) {m : ChatMessage}
    {rest : List ChatMessage}
    (front : (s.kernel.queues serverMq).fifo.items = m :: rest)
    (hType : m.type = 1) :
    broadcastMessage m.name.str m.text.str = m := by
  rcases hD.inbox m (BoundedFifo.front_mem_entered _ front) with hm | hm
  · rcases hm with ⟨p, -, rfl⟩
    rw [registration_type] at hType
    contradiction
  · rcases hm with ⟨p, input, rfl⟩
    exact broadcastMessage_chatMessage _ _

theorem Delivery.progress_step (hV : Delivery name s)
    (hD : Descriptors name s) (hT : Transition name s a next)
    (m : ChatMessage) (i : Nat) (hServer : next.server = .broadcasting m i)
    (hChat : m.isChat) :
    ∃ before, next.processed = before ++ [m] ∧
      ∀ e ∈ next.clients, e.registeredAt ≤ before.length := by
  cases hT with
  | unlinkOwn | openOwn | openServer | openFailed | unlinkFailed | register
  | sendChat | receive | quit | unlinkQuit =>
      exact hV.progress m i hServer hChat
  | ignored m' rest hReceiving =>
      exact hV.progress m i hServer hChat
  | registered m' rest qd clients hReceiving front hType =>
      simp only [ServerPhase.broadcasting.injEq] at hServer
      rw [← hServer.1, isChat_newClientsMessage] at hChat
      contradiction
  | chat m' rest hReceiving front hType =>
      simp only [ServerPhase.broadcasting.injEq] at hServer
      rw [hD.chat_front front hType] at hServer
      rcases hServer with ⟨rfl, -⟩
      exact ⟨s.processed, rfl, hV.registeredAt⟩
  | serverSend m' j e hBroadcasting =>
      simp only [ServerPhase.broadcasting.injEq] at hServer
      rcases hServer with ⟨rfl, -⟩
      exact hV.progress m' j hBroadcasting hChat
  | serverDone => contradiction

theorem Delivery.registeredAt_step (hV : Delivery name s)
    (hT : Transition name s a next) :
    ∀ e ∈ next.clients, e.registeredAt ≤ next.processed.length := by
  cases hT with
  | unlinkOwn | openOwn | openServer | openFailed | unlinkFailed | register
  | sendChat | receive | quit | unlinkQuit | ignored | serverSend
  | serverDone => exact hV.registeredAt
  | chat m rest =>
      intro e he
      rw [List.length_append]
      exact Nat.le_add_right_of_le (hV.registeredAt e he)
  | registered m rest qd clients hServer front hType hRoom hqd hClients =>
      intro e he
      rw [hClients] at he
      rcases List.mem_append.mp he with he | he
      · exact hV.registeredAt e he
      · rw [List.mem_singleton.mp he]
        exact Nat.le_refl _

theorem Delivery.sorted_step (hV : Delivery name s)
    (hT : Transition name s a next) :
    next.clients.Pairwise fun e e' => e.registeredAt ≤ e'.registeredAt := by
  cases hT with
  | unlinkOwn | openOwn | openServer | openFailed | unlinkFailed | register
  | sendChat | receive | quit | unlinkQuit | ignored | chat | serverSend
  | serverDone => exact hV.sorted
  | registered m rest qd clients hServer front hType hRoom hqd hClients =>
      rw [hClients]
      refine List.pairwise_append.mpr
        ⟨hV.sorted, List.pairwise_singleton _ _, ?_⟩
      intro e he e' he'
      rw [List.mem_singleton.mp he']
      exact hV.registeredAt e he

omit [DecidableEq Pid] in
theorem broadcastTo_receiving {s : State Pid} (h : s.server = .receiving)
    (i : Nat) : s.broadcastTo i = s.processed := by
  rw [State.broadcastTo, h]

omit [DecidableEq Pid] in
theorem broadcastTo_broadcasting {s : State Pid} {m : ChatMessage} {pos : Nat}
    (h : s.server = .broadcasting m pos) (i : Nat) :
    s.broadcastTo i =
      if m.isChat ∧ pos ≤ i then s.processed.dropLast else s.processed := by
  rw [State.broadcastTo, h]

omit [DecidableEq Pid] in
/-- The server's send to the entry at its position.  This entry now has the
message, the entries before it had it already, and the broadcast has passed one
entry more. -/
theorem Delivery.delivered_send (hV : Delivery name s)
    (hO : Ownership name s) (hD : Descriptors name s) {m : ChatMessage}
    {pos : Nat} {e : ClientInfo} (hServer : s.server = .broadcasting m pos)
    (hEntry : s.clients[pos]? = some e)
    (room : (s.kernel.queues e.dqueue).fifo.items.length < maxMsg) (j : Nat)
    (e' : ClientInfo) (he' : s.clients[j]? = some e') :
    ((s.kernel.enter e.dqueue m room).queues e'.dqueue).fifo.entered.filter
        ChatMessage.isChat =
      ({ s with server := .broadcasting m (pos + 1) }.broadcastTo j).drop
        e'.registeredAt := by
  have hOld := hV.delivered j e' he'
  rw [broadcastTo_broadcasting hServer] at hOld
  rw [broadcastTo_broadcasting rfl, MqKernel.enter_entered]
  by_cases hj : j = pos
  · subst hj
    obtain rfl : e = e' := Option.some.inj (hEntry.symm.trans he')
    rw [if_pos rfl, List.filter_append, hOld]
    by_cases hChat : m.isChat
    · rcases hV.progress m j hServer hChat with ⟨before, hBefore, hReg⟩
      have hLe := hReg e (List.mem_of_getElem? hEntry)
      rw [if_pos ⟨hChat, Nat.le_refl j⟩,
        if_neg fun h => absurd h.2 (Nat.not_succ_le_self j), hBefore,
        List.dropLast_concat, List.drop_append_of_le_length hLe]
      simp [hChat]
    · simp [hChat]
  · rw [if_neg (hO.dqueue_ne hD he' hEntry hj), hOld]
    have hPos : pos ≤ j ↔ pos + 1 ≤ j := by omega
    simp only [hPos]

omit [DecidableEq Pid] in
/-- The queue of the entry just added is that of no other entry, so nothing has
been sent on to it before. -/
theorem Delivery.silent_added (hV : Delivery name s)
    (hO' : Ownership name next) (hD' : Descriptors name next)
    {e : ClientInfo} (hClients : next.clients = s.clients ++ [e])
    {m : ChatMessage} {rest : List ChatMessage}
    {front : (s.kernel.queues serverMq).fifo.items = m :: rest}
    (hKernel : next.kernel = s.kernel.leave serverMq m rest front) :
    (s.kernel.queues e.dqueue).fifo.entered = [] := by
  have he : next.clients[s.clients.length]? = some e := by
    rw [hClients, List.getElem?_concat_length]
  have hEntry := hD'.table e (List.mem_of_getElem? he)
  simp only [hKernel, MqKernel.leave] at hEntry
  have hPath := hEntry.path_eq
  rw [MqKernel.setFifo_path] at hPath
  apply hV.silent e.dqueue hEntry.exists_queue
  · rw [hPath]
    exact hEntry.neServer
  · intro hMem
    rcases List.mem_map.mp hMem with ⟨e', he', hQueue⟩
    rcases List.getElem?_of_mem he' with ⟨j, hj⟩
    have hLt := (List.getElem?_eq_some_iff.mp hj).1
    refine hO'.dqueue_ne hD' (i := j) ?_ he (Nat.ne_of_lt hLt) hQueue
    rw [hClients, List.getElem?_append_left hLt, hj]

theorem Delivery.delivered_step (hV : Delivery name s)
    (hO : Ownership name s) (hD : Descriptors name s)
    (hO' : Ownership name next) (hD' : Descriptors name next)
    (hT : Transition name s a next) (i : Nat) (e : ClientInfo)
    (he : next.clients[i]? = some e) :
    (next.kernel.queues e.dqueue).fifo.entered.filter ChatMessage.isChat =
      (next.broadcastTo i).drop e.registeredAt := by
  cases hT with
  | unlinkOwn | unlinkFailed | unlinkQuit | openServer | openFailed
  | quit => exact hV.delivered i e he
  | openOwn p hPhase =>
      have hEntry := hD.table e (List.mem_of_getElem? he)
      simp only [setProc_kernel]
      rw [MqKernel.openCreate_queues _ _ hEntry.exists_queue]
      exact hV.delivered i e he
  | register p hPhase room | sendChat p input hPhase room =>
      simp only [setProc_kernel, MqKernel.enter_entered]
      rw [if_neg (hD.entry_ne_server he p)]
      exact hV.delivered i e he
  | receive | ignored =>
      simp only [setProc_kernel, MqKernel.leave_entered]
      exact hV.delivered i e he
  | registered m rest qd clients hServer front hType hRoom hqd hClients =>
      rw [broadcastTo_broadcasting rfl]
      simp only [isChat_newClientsMessage, MqKernel.leave_entered,
        Bool.false_eq_true, false_and, if_false]
      have he0 : clients[i]? = some e := he
      rw [hClients] at he0
      rcases Nat.lt_or_ge i s.clients.length with hi | hi
      · rw [List.getElem?_append_left hi] at he0
        rw [hV.delivered i e he0, broadcastTo_receiving hServer]
      · rw [List.getElem?_append_right hi] at he0
        have hNew := List.mem_singleton.mp (List.mem_of_getElem? he0)
        rw [hV.silent_added hO' hD' (hNew ▸ hClients) rfl, hNew]
        simp
  | chat m rest hServer front hType =>
      have hOld := hV.delivered i e he
      rw [broadcastTo_receiving hServer] at hOld
      rw [broadcastTo_broadcasting rfl, hD.chat_front front hType]
      simp only [MqKernel.leave_entered, hOld]
      rw [if_pos ⟨by simp [ChatMessage.isChat, hType], Nat.zero_le i⟩,
        List.dropLast_concat]
  | serverSend m pos e' hServer hEntry room =>
      exact hV.delivered_send hO hD hServer hEntry room i e he
  | serverDone m pos hServer hEnd =>
      have hLt := (List.getElem?_eq_some_iff.mp he).1
      have hOld := hV.delivered i e he
      rw [broadcastTo_broadcasting hServer,
        if_neg fun h => absurd (Nat.lt_of_lt_of_le hLt hEnd)
          (Nat.not_lt_of_le h.2)] at hOld
      rw [broadcastTo_receiving rfl]
      exact hOld

theorem Delivery.unsent_step (hV : Delivery name s)
    (hT : Transition name s a next) (p : Pid)
    (hPhase : (next.procs p).phase.hasServer = false) :
    (next.procs p).sent = [] := by
  cases hT with
  | unlinkOwn q hOld | openOwn q hOld | openServer q r hOld
  | openFailed q hOld | unlinkFailed q hOld =>
      by_cases hq : p = q
      · subst hq
        rw [setProc_procs_self]
        exact hV.unsent p (by simp [hOld, Phase.hasServer])
      · rw [setProc_procs_ne _ _ _ hq] at hPhase ⊢
        exact hV.unsent p hPhase
  | register q hOld | sendChat q input hOld | receive q m rest hOld
  | quit q hOld | unlinkQuit q hOld =>
      by_cases hq : p = q
      · subst hq
        rw [setProc_procs_self] at hPhase
        simp [hOld, Phase.hasServer] at hPhase
      · rw [setProc_procs_ne _ _ _ hq] at hPhase ⊢
        exact hV.unsent p hPhase
  | registered | chat | ignored | serverSend | serverDone =>
      exact hV.unsent p hPhase

omit [DecidableEq Pid] in
/-- Distinct users' chat messages are told apart by the name they carry. -/
theorem isFrom_chatMessage
    (hName : Function.Injective fun p => (name p).chars) (p q : Pid)
    (input : List UInt8) :
    (chatMessage (name q) input).isFrom (name p) = true ↔ p = q := by
  rw [ChatMessage.isFrom, chatMessage_name, isChat_chatMessage,
    Bool.true_and, decide_eq_true_iff]
  exact ⟨fun h => (hName h).symm, fun h => by rw [h]⟩

theorem Delivery.sent_step (hV : Delivery name s) (hD : Descriptors name s)
    (hName : Function.Injective fun p => (name p).chars)
    (hT : Transition name s a next) (p : Pid) :
    (next.kernel.queues serverMq).fifo.entered.filter
        (ChatMessage.isFrom (name p)) =
      if (next.procs p).serverMq = serverMq then (next.procs p).sent
      else [] := by
  -- a move of `q` that neither sends nor opens the server's queue
  have hQuiet : ∀ q c, c.serverMq = (s.procs q).serverMq →
      c.sent = (s.procs q).sent →
      (s.kernel.queues serverMq).fifo.entered.filter
          (ChatMessage.isFrom (name p)) =
        if ((s.setProc q c).procs p).serverMq = serverMq then
          ((s.setProc q c).procs p).sent else [] := by
    intro q c hSrv hSent
    have hp := hV.sent p
    by_cases hq : p = q
    · subst hq
      rw [setProc_procs_self, hSrv, hSent]
      exact hp
    · rw [setProc_procs_ne _ _ _ hq]
      exact hp
  cases hT with
  | unlinkOwn q | openFailed q | unlinkFailed q | quit q | unlinkQuit q =>
      exact hQuiet q _ rfl rfl
  | openOwn q hPhase =>
      simp only [setProc_kernel]
      rw [MqKernel.openCreate_queues _ _ hD.start.1]
      exact hQuiet q _ rfl rfl
  | receive q m rest hPhase front =>
      simp only [setProc_kernel, MqKernel.leave_entered]
      exact hQuiet q _ rfl rfl
  | openServer q r hPhase hChat =>
      have hp := hV.sent p
      by_cases hq : p = q
      · subst hq
        have hUnsent := hV.unsent p (by simp [hPhase, Phase.hasServer])
        rw [hUnsent] at hp
        rw [setProc_procs_self, hUnsent, ite_self]
        rw [ite_self] at hp
        exact hp
      · rw [setProc_procs_ne _ _ _ hq]
        exact hp
  | register q hPhase room =>
      simp only [setProc_kernel, MqKernel.enter_entered]
      by_cases hTo : serverMq = (s.procs q).serverMq
      · rw [if_pos hTo, List.filter_append]
        simp only [ChatMessage.isFrom, isChat_registration, Bool.false_and,
          List.filter_cons, List.filter_nil, Bool.false_eq_true, if_false,
          List.append_nil]
        exact hQuiet q _ rfl rfl
      · rw [if_neg hTo]
        exact hQuiet q _ rfl rfl
  | sendChat q input hPhase room =>
      simp only [setProc_kernel, MqKernel.enter_entered]
      have hp := hV.sent p
      have hFrom := isFrom_chatMessage hName p q input
      by_cases hq : p = q
      · subst hq
        rw [setProc_procs_self]
        by_cases hTo : serverMq = (s.procs p).serverMq
        · rw [if_pos hTo.symm] at hp
          rw [if_pos hTo, if_pos hTo.symm, List.filter_append, hp]
          simp [hFrom]
        · rw [if_neg fun h => hTo h.symm] at hp
          rw [if_neg hTo, if_neg fun h => hTo h.symm, hp]
      · rw [setProc_procs_ne _ _ _ hq]
        by_cases hTo : serverMq = (s.procs q).serverMq
        · rw [if_pos hTo, List.filter_append, hp]
          simp [hFrom, hq]
        · rw [if_neg hTo, hp]
  | registered | chat | ignored =>
      simp only [MqKernel.leave_entered]
      exact hV.sent p
  | serverSend m i e hServer hEntry room =>
      simp only [MqKernel.enter_entered]
      rw [if_neg (hD.entry_ne_serverMq (List.mem_of_getElem? hEntry)).symm]
      exact hV.sent p
  | serverDone => exact hV.sent p

/-- **Delivery is kept** by every step, if the names differ.  The fields are
independent of each other, and each has its own lemma above. -/
theorem Delivery.step (hV : Delivery name s) (hO : Ownership name s)
    (hD : Descriptors name s)
    (hName : Function.Injective fun p => (name p).chars)
    (hT : Transition name s a next) : Delivery name next where
  silent := hV.silent_step hD hT
  log := hV.log_step hD hT
  progress := hV.progress_step hD hT
  registeredAt := hV.registeredAt_step hT
  sorted := hV.sorted_step hT
  delivered := hV.delivered_step hO hD (hO.step hD hName hT) (hD.step hT) hT
  unsent := hV.unsent_step hT
  sent := hV.sent_step hD hName hT

omit [DecidableEq Pid] in
theorem delivery_start (name : Pid → ClientName) :
    Delivery name (State.start Pid) where
  silent q hq hPath := by
    have hZero : q = serverMq := Nat.lt_one_iff.mp hq
    rw [hZero] at hPath
    exact absurd rfl hPath
  log := rfl
  progress := nofun
  registeredAt _ he := absurd he List.not_mem_nil
  sorted := List.Pairwise.nil
  delivered _ _ he := by simp [State.start] at he
  unsent _ _ := rfl
  sent _ := rfl

end DeliverySteps

/-! ## The order seen by the clients -/

section Order

variable {Pid : Type*} {name : Pid → ClientName} {s : State Pid}

/-- The broadcast in progress reaches the table from its beginning on, so an
earlier entry has what a later one has, and at most one message more. -/
theorem broadcastTo_anti (s : State Pid) {i j : Nat} (h : i ≤ j) :
    s.broadcastTo j <+: s.broadcastTo i := by
  cases hServer : s.server with
  | receiving =>
      rw [broadcastTo_receiving hServer, broadcastTo_receiving hServer]
  | broadcasting m pos =>
      rw [broadcastTo_broadcasting hServer, broadcastTo_broadcasting hServer]
      by_cases hj : m.isChat ∧ pos ≤ j
      · rw [if_pos hj]
        split
        · exact List.prefix_refl _
        · exact List.dropLast_prefix _
      · rw [if_neg hj, if_neg fun hi => hj ⟨hi.1, Nat.le_trans hi.2 h⟩]

theorem broadcastTo_processed (s : State Pid) (i : Nat) :
    s.broadcastTo i <+: s.processed := by
  unfold State.broadcastTo
  split
  · exact List.prefix_refl _
  · split
    · exact List.dropLast_prefix _
    · exact List.prefix_refl _

/-- Everything the server has processed from one sender, in sending order: a
beginning of what it has sent, the rest of which is still in the queue. -/
theorem Delivery.processed_isFrom (hV : Delivery name s) (q : Pid) :
    s.processed.filter (ChatMessage.isFrom (name q)) <+:
      (s.procs q).sent := by
  have hSent := hV.sent q
  have hLeft : (s.kernel.queues serverMq).fifo.left.filter
        (ChatMessage.isFrom (name q)) <+:
      (s.kernel.queues serverMq).fifo.entered.filter
        (ChatMessage.isFrom (name q)) := by
    rw [← (s.kernel.queues serverMq).fifo.conserved, List.filter_append]
    exact List.prefix_append _ _
  rw [hV.log, List.filter_filter]
  have hImp : (fun m : ChatMessage => m.isFrom (name q) && m.isChat) =
      ChatMessage.isFrom (name q) := by
    funext m
    simp only [ChatMessage.isFrom]
    cases m.isChat <;> simp
  rw [hImp]
  refine hLeft.trans ?_
  rw [hSent]
  by_cases hServer : (s.procs q).serverMq = serverMq
  · rw [if_pos hServer]
  · rw [if_neg hServer]
    exact List.nil_prefix

variable (hName : Function.Injective fun p => (name p).chars)

include hName in
theorem Delivery.seen_eq (hV : Delivery name s) (hO : Ownership name s)
    {p : Pid} {i : Nat} {e : ClientInfo} (h : EntryOf name s p i e) :
    s.seen p = (s.broadcastTo i).drop e.registeredAt := by
  rcases hO.owners e (List.mem_of_getElem? h.entry) with
    ⟨q, hReg, hNamed, hQueue⟩
  have hq : q = p := hName (queueName_inj (hNamed.symm.trans h.named))
  subst hq
  have hReceived :=
    (hO.procs q).received (Phase.hasQueue_of_registered hReg)
  rw [State.seen, ← hReceived, BoundedFifo.conserved, ← hQueue]
  exact hV.delivered i e h.entry

include hName in
theorem Delivery.totalOrder (hV : Delivery name s) (hO : Ownership name s) :
    TotalOrder name s where
  owned i e he := by
    rcases hO.owners e (List.mem_of_getElem? he) with ⟨p, -, hNamed, -⟩
    exact ⟨p, he, hNamed⟩
  once p i j e e' h h' :=
    hO.index_eq h.entry h'.entry (h.named.trans h'.named.symm)
  seen p i e h := hV.seen_eq hName hO h
  agree p q i j e e' h h' hij := by
    rw [hV.seen_eq hName hO h, hV.seen_eq hName hO h']
    have hAt : e.registeredAt ≤ e'.registeredAt := by
      rcases Nat.eq_or_lt_of_le hij with rfl | hlt
      · rw [Option.some.inj (h.entry.symm.trans h'.entry)]
      · rcases List.getElem?_eq_some_iff.mp h.entry with ⟨hi, rfl⟩
        rcases List.getElem?_eq_some_iff.mp h'.entry with ⟨hj, rfl⟩
        exact List.pairwise_iff_getElem.mp hV.sorted i j hi hj hlt
    have hDrop := (broadcastTo_anti s hij).drop e'.registeredAt
    exact hDrop.isInfix.trans (List.drop_suffix_drop_left _ hAt).isInfix
  sending p q i e h := by
    rw [hV.seen_eq hName hO h]
    have hSuffix : ((s.broadcastTo i).drop e.registeredAt).filter
        (ChatMessage.isFrom (name q)) <:+
          (s.broadcastTo i).filter (ChatMessage.isFrom (name q)) :=
      (List.drop_suffix _ _).filter _
    have hPrefix := ((broadcastTo_processed s i).filter
      (ChatMessage.isFrom (name q))).trans (hV.processed_isFrom q)
    exact hSuffix.isInfix.trans hPrefix.isInfix

end Order

section Runs

variable {Pid : Type*} [DecidableEq Pid] {name : Pid → ClientName}
  {s : State Pid}

/-- The three invariants hold together in every reachable state.  Each uses
those before it. -/
theorem reachable_delivery
    (hName : Function.Injective fun p => (name p).chars)
    (h : (chatMachine name).Reachable s) :
    Descriptors name s ∧ Ownership name s ∧ Delivery name s := by
  refine Machine.ReachableBy.invariant (I := fun s =>
    Descriptors name s ∧ Ownership name s ∧ Delivery name s) ?_ ?_ h
  · intro s h0
    obtain rfl : s = State.start Pid := h0
    exact ⟨descriptors_start name, ownership_start name, delivery_start name⟩
  · rintro s a next ⟨hD, hO, hV⟩ - hStep
    have hT := step_transition hStep
    exact ⟨hD.step hT, hO.step hD hName hT, hV.step hO hD hName hT⟩

/-- **Total order.**  If all users have different names, then in every
reachable state each registered client has got, or has waiting in its queue,
exactly the chat messages processed since its registration, in the server's
order; two clients differ only in where their stretch of that log begins and
in the broadcast in progress. -/
theorem chat_total_order
    (hName : Function.Injective fun p => (name p).chars)
    (h : (chatMachine name).Reachable s) : TotalOrder name s := by
  rcases reachable_delivery hName h with ⟨-, hO, hV⟩
  exact hV.totalOrder hName hO

/-- A chat message of `a` that is on its way: `a` has got its copy and `b`
has not. -/
def pausedBroadcast : List (Label Bool) :=
  startUp true ++ [.serverReceive, .serverSend, .serverDone] ++
    startUp false ++ [.serverReceive, .serverSend, .serverSend, .serverDone] ++
      [.sendChat true (ascii ['h', 'i']), .serverReceive, .serverSend]

theorem twoNames_injective :
    Function.Injective fun p => (twoNames p).chars := by
  intro p q h
  cases p <;> cases q
  · rfl
  · revert h
    decide
  · revert h
    decide
  · rfl

theorem chat_total_order_paused : ∃ s, (chatMachine twoNames).Reachable s ∧
    (s.seen true).length = 1 ∧ (s.seen false).length = 0 ∧
      TotalOrder twoNames s := by
  have hRun : ((chatMachine twoNames).run (State.start Bool)
      pausedBroadcast).any (fun s => decide
        ((s.seen true).length = 1 ∧ (s.seen false).length = 0)) = true := rfl
  rcases Machine.exists_reachable_of_run rfl hRun with ⟨s, hs, hSeen⟩
  have hSeen := of_decide_eq_true hSeen
  exact ⟨s, hs, hSeen.1, hSeen.2, chat_total_order twoNames_injective hs⟩

end Runs

end UnixHomework.Ports.MqChat
