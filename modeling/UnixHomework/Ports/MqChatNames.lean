import UnixHomework.Ports.MqChat

/-!
# Queues and their names in the message-queue chat

Which queue a name refers to depends on the order in which the processes start
and leave, and nothing stops a user from being called `chat`, whose queue has
the server's name.  This module says what is true all the same, for any names
at all:

* a client's descriptors are queues made under its own name and under
  `/chat_queue`, and the server's queue is never a client's own;
* the server's queue receives registrations and chat messages of clients, and
  never a registration for `/chat_queue`;
* the table's descriptors are queues made under the names in the table.

The last two points keep the server's broadcasts away from its own queue.
`Transition` lists once what each system call does.
-/

namespace UnixHomework.Ports.MqChat

open UnixHomework.Verified

/-! ## Transitions -/

theorem addClient_eq_some {k : Kernel} {clients clients' : List ClientInfo}
    {name queueName : List UInt8} {r : Nat}
    (h : addClient k clients name queueName r = some clients') :
    clients.length < maxClients ∧ ∃ qd, k.names queueName = some qd ∧
      clients' = clients ++ [clientEntry name queueName qd r] := by
  unfold addClient at h
  split at h
  · contradiction
  · rename_i hRoom
    rcases Option.map_eq_some_iff.mp h with ⟨qd, hqd, rfl⟩
    exact ⟨Nat.lt_of_not_le hRoom, qd, hqd, rfl⟩

section Transitions

variable {Pid : Type*} [DecidableEq Pid] (name : Pid → ClientName)

/-- What each system call does where it does not block.  The invariants of the
chat are proved from this list, so `step` is unfolded only once. -/
inductive Transition (s : State Pid) : Label Pid → State Pid → Prop where
  | unlinkOwn (p : Pid) (hPhase : (s.procs p).phase = .notStarted) :
      Transition s (.unlinkOwn p)
        ({ s with kernel := s.kernel.unlink (name p).queueName }.setProc p
          { s.procs p with phase := .unlinked })
  | openOwn (p : Pid) (hPhase : (s.procs p).phase = .unlinked) :
      Transition s (.openOwn p)
        ({ s with kernel := (s.kernel.openCreate (name p).queueName).1 }.setProc
          p { s.procs p with
                phase := .opened
                clientMq := (s.kernel.openCreate (name p).queueName).2 })
  | openServer (p : Pid) (q : Nat) (hPhase : (s.procs p).phase = .opened)
      (hName : s.kernel.names chatQueue = some q) :
      Transition s (.openServer p)
        (s.setProc p { s.procs p with phase := .connected, serverMq := q })
  | openFailed (p : Pid) (hPhase : (s.procs p).phase = .opened) :
      Transition s (.openServer p)
        (s.setProc p { s.procs p with phase := .failed })
  | unlinkFailed (p : Pid) (hPhase : (s.procs p).phase = .failed) :
      Transition s (.unlinkFailed p)
        ({ s with kernel := s.kernel.unlink (name p).queueName }.setProc p
          { s.procs p with phase := .exited })
  | register (p : Pid) (hPhase : (s.procs p).phase = .connected)
      (room : (s.kernel.queues (s.procs p).serverMq).fifo.items.length <
        maxMsg) :
      Transition s (.register p)
        ({ s with
            kernel := s.kernel.enter (s.procs p).serverMq
              (registration (name p)) room }.setProc p
          { s.procs p with phase := .running })
  | sendChat (p : Pid) (input : List UInt8)
      (hPhase : (s.procs p).phase = .running)
      (room : (s.kernel.queues (s.procs p).serverMq).fifo.items.length <
        maxMsg) :
      Transition s (.sendChat p input)
        ({ s with
            kernel := s.kernel.enter (s.procs p).serverMq
              (chatMessage (name p) input) room }.setProc p
          { s.procs p with
              sent := (s.procs p).sent ++ [chatMessage (name p) input] })
  | receive (p : Pid) (m : ChatMessage) (rest : List ChatMessage)
      (hPhase : (s.procs p).phase = .running)
      (front : (s.kernel.queues (s.procs p).clientMq).fifo.items = m :: rest) :
      Transition s (.receive p)
        ({ s with
            kernel := s.kernel.leave (s.procs p).clientMq m rest front }.setProc
          p { s.procs p with received := (s.procs p).received ++ [m] })
  | quit (p : Pid) (hPhase : (s.procs p).phase = .running) :
      Transition s (.quit p) (s.setProc p { s.procs p with phase := .closed })
  | unlinkQuit (p : Pid) (hPhase : (s.procs p).phase = .closed) :
      Transition s (.unlinkQuit p)
        ({ s with kernel := s.kernel.unlink (name p).queueName }.setProc p
          { s.procs p with phase := .gone })
  | registered (m : ChatMessage) (rest : List ChatMessage) (qd : Nat)
      (clients : List ClientInfo) (hServer : s.server = .receiving)
      (front : (s.kernel.queues serverMq).fifo.items = m :: rest)
      (hType : m.type = 0) (hRoom : s.clients.length < maxClients)
      (hName : s.kernel.names m.queueName.str = some qd)
      (hClients : clients = s.clients ++
        [clientEntry m.name.str m.queueName.str qd s.processed.length]) :
      Transition s .serverReceive
        { s with
            kernel := s.kernel.leave serverMq m rest front
            clients := clients
            server := .broadcasting (newClientsMessage clients) 0 }
  | chat (m : ChatMessage) (rest : List ChatMessage)
      (hServer : s.server = .receiving)
      (front : (s.kernel.queues serverMq).fifo.items = m :: rest)
      (hType : m.type = 1) :
      Transition s .serverReceive
        { s with
            kernel := s.kernel.leave serverMq m rest front
            processed := s.processed ++ [m]
            server := .broadcasting
              (broadcastMessage m.name.str m.text.str) 0 }
  | ignored (m : ChatMessage) (rest : List ChatMessage)
      (hServer : s.server = .receiving)
      (front : (s.kernel.queues serverMq).fifo.items = m :: rest)
      (hType : m.type ≠ 1) :
      Transition s .serverReceive
        { s with kernel := s.kernel.leave serverMq m rest front }
  | serverSend (m : ChatMessage) (i : Nat) (e : ClientInfo)
      (hServer : s.server = .broadcasting m i)
      (hEntry : s.clients[i]? = some e)
      (room : (s.kernel.queues e.dqueue).fifo.items.length < maxMsg) :
      Transition s .serverSend
        { s with
            kernel := s.kernel.enter e.dqueue m room
            server := .broadcasting m (i + 1) }
  | serverDone (m : ChatMessage) (i : Nat)
      (hServer : s.server = .broadcasting m i)
      (hEnd : s.clients.length ≤ i) :
      Transition s .serverDone { s with server := .receiving }

variable {name}

/-- The server's loop on a message that it has just received. -/
theorem transition_handle {s : State Pid} {m : ChatMessage}
    {rest : List ChatMessage} (hServer : s.server = .receiving)
    (front : (s.kernel.queues serverMq).fifo.items = m :: rest) :
    Transition name s .serverReceive
      (handle { s with kernel := s.kernel.leave serverMq m rest front } m) := by
  unfold handle
  split
  · rename_i hType
    have hNotChat : m.type ≠ 1 := by omega
    split
    · rename_i clients hAdd
      rcases addClient_eq_some hAdd with ⟨hRoom, qd, hqd, rfl⟩
      exact .registered m rest qd _ hServer front hType hRoom hqd rfl
    · exact .ignored m rest hServer front hNotChat
  · split
    · exact .chat m rest hServer front (by assumption)
    · exact .ignored m rest hServer front (by assumption)

/-- Every step of the program is one of the transitions.  The cases are the
labels and what the call finds. -/
theorem step_transition {s next : State Pid} {a : Label Pid}
    (h : step name s a = some next) : Transition name s a next := by
  cases a with
  | unlinkOwn p =>
      simp only [step, Option.ite_none_right_eq_some, Option.some.injEq] at h
      rcases h with ⟨hPhase, rfl⟩
      exact .unlinkOwn p hPhase
  | openOwn p =>
      simp only [step, Option.ite_none_right_eq_some, Option.some.injEq] at h
      rcases h with ⟨hPhase, rfl⟩
      exact .openOwn p hPhase
  | openServer p =>
      simp only [step, Option.ite_none_right_eq_some] at h
      rcases h with ⟨hPhase, h⟩
      split at h
      · rename_i q hName
        obtain rfl := Option.some.inj h
        exact .openServer p q hPhase hName
      · obtain rfl := Option.some.inj h
        exact .openFailed p hPhase
  | unlinkFailed p =>
      simp only [step, Option.ite_none_right_eq_some, Option.some.injEq] at h
      rcases h with ⟨hPhase, rfl⟩
      exact .unlinkFailed p hPhase
  | register p =>
      simp only [step, Option.ite_none_right_eq_some,
        Option.map_eq_some_iff] at h
      rcases h with ⟨hPhase, k, hSend, rfl⟩
      rcases MqKernel.send_eq_some hSend with ⟨room, rfl⟩
      exact .register p hPhase room
  | sendChat p input =>
      simp only [step, Option.ite_none_right_eq_some,
        Option.map_eq_some_iff] at h
      rcases h with ⟨⟨hPhase, -⟩, k, hSend, rfl⟩
      rcases MqKernel.send_eq_some hSend with ⟨room, rfl⟩
      exact .sendChat p input hPhase room
  | receive p =>
      simp only [step, Option.ite_none_right_eq_some,
        Option.map_eq_some_iff] at h
      rcases h with ⟨hPhase, ⟨m, k⟩, hReceive, rfl⟩
      rcases MqKernel.receive_eq_some hReceive with ⟨rest, front, rfl⟩
      exact .receive p m rest hPhase front
  | quit p =>
      simp only [step, Option.ite_none_right_eq_some, Option.some.injEq] at h
      rcases h with ⟨hPhase, rfl⟩
      exact .quit p hPhase
  | unlinkQuit p =>
      simp only [step, Option.ite_none_right_eq_some, Option.some.injEq] at h
      rcases h with ⟨hPhase, rfl⟩
      exact .unlinkQuit p hPhase
  | serverReceive =>
      simp only [step] at h
      split at h
      · rename_i hServer
        rcases Option.map_eq_some_iff.mp h with ⟨⟨m, k⟩, hReceive, rfl⟩
        rcases MqKernel.receive_eq_some hReceive with ⟨rest, front, rfl⟩
        exact transition_handle hServer front
      · contradiction
  | serverSend =>
      simp only [step] at h
      split at h
      · contradiction
      · rename_i m i hServer
        rcases Option.bind_eq_some_iff.mp h with ⟨e, hEntry, h⟩
        rcases Option.map_eq_some_iff.mp h with ⟨k, hSend, rfl⟩
        rcases MqKernel.send_eq_some hSend with ⟨room, rfl⟩
        exact .serverSend m i e hServer hEntry room
  | serverDone =>
      simp only [step] at h
      split at h
      · contradiction
      · rename_i m i hServer
        simp only [Option.ite_none_right_eq_some, Option.some.injEq] at h
        rcases h with ⟨hEnd, rfl⟩
        exact .serverDone m i hServer hEnd

end Transitions

/-! ## Names as bytes -/

section Bytes

variable (n : ClientName)

/-- The name is short enough for its queue name not to be cut: 31 bytes, a
slash, `_queue` and the NUL fit into 64. -/
theorem queueName_eq :
    n.queueName =
      ascii ['/'] ++ n.chars ++ ascii ['_', 'q', 'u', 'e', 'u', 'e'] := by
  have hShort := n.short
  refine List.take_of_length_le ?_
  simp only [List.length_append, ascii, List.length_map, List.length_cons,
    List.length_nil]
  omega

theorem length_queueName_le : n.queueName.length ≤ 63 :=
  List.length_take_le _ _

theorem zero_notMem_queueName : (0 : UInt8) ∉ n.queueName := by
  rw [queueName_eq]
  intro h
  rcases List.mem_append.mp h with h | h
  · rcases List.mem_append.mp h with h | h
    · revert h
      decide
    · exact n.noNul h
  · revert h
    decide

/-- Different users have different queues, since the text around the name is
the same. -/
theorem queueName_inj {n n' : ClientName} (h : n.queueName = n'.queueName) :
    n.chars = n'.chars := by
  rw [queueName_eq, queueName_eq] at h
  exact List.append_cancel_left (List.append_cancel_right h)

/-- A queue name survives `strncpy` into a field of 64 bytes. -/
theorem str_strncpy_queueName :
    ((CharArray.zeros 64).strncpy n.queueName 63 (by decide)).str =
      n.queueName := by
  rw [CharArray.str_strncpy_zeros n.queueName (by decide : 63 < 64),
    cstr_of_noNul (zero_notMem_queueName n),
    List.take_of_length_le (length_queueName_le n)]

@[simp] theorem registration_type : (registration n).type = 0 := rfl

@[simp] theorem chatMessage_type (input : List UInt8) :
    (chatMessage n input).type = 1 := rfl

@[simp] theorem registration_queueName :
    (registration n).queueName.str = n.queueName :=
  str_strncpy_queueName n

@[simp] theorem clientEntry_dqueue (nm qn : List UInt8) (qd r : Nat) :
    (clientEntry nm qn qd r).dqueue = qd := rfl

@[simp] theorem clientEntry_registeredAt (nm qn : List UInt8) (qd r : Nat) :
    (clientEntry nm qn qd r).registeredAt = r := rfl

@[simp] theorem clientEntry_queueName (nm : List UInt8) (qd r : Nat) :
    (clientEntry nm n.queueName qd r).queueName.str = n.queueName :=
  str_strncpy_queueName n

end Bytes

/-! ## The invariant -/

/-- `client_mq` has been opened, whether or not it has been closed since. -/
def Phase.hasQueue : Phase → Bool
  | .notStarted | .unlinked => false
  | _ => true

/-- `server_mq` has been opened, whether or not it has been closed since. -/
def Phase.hasServer : Phase → Bool
  | .connected | .running | .closed | .gone => true
  | _ => false

/-- The descriptors of one process, in the kernel `k`.  A process called `chat`
has removed the name of the server's queue before it opens any. -/
structure ProcOk (n : ClientName) (k : Kernel) (c : Proc) : Prop where
  /-- `client_mq` is a queue made under the client's own name, -/
  own : c.phase.hasQueue → c.clientMq < k.next ∧
    (k.queues c.clientMq).path = n.queueName
  /-- and not the server's. -/
  ownNeServer : c.phase.hasQueue → c.clientMq ≠ serverMq
  /-- `server_mq` is a queue made under `/chat_queue`. -/
  server : c.serverMq < k.next ∧ (k.queues c.serverMq).path = chatQueue
  /-- A user called `chat` has taken that name from the server, -/
  cut : c.phase ≠ .notStarted → n.queueName = chatQueue →
    k.names chatQueue ≠ some serverMq
  /-- and so does not write to the server. -/
  apart : c.phase.hasServer → n.queueName = chatQueue →
    c.serverMq ≠ serverMq

/-- A message that a client's program has put into the server's queue: a
registration of a user who is not called `chat`, or a line of any user. -/
def FromClient {Pid : Type*} (name : Pid → ClientName) (m : ChatMessage) :
    Prop :=
  (∃ p, (name p).queueName ≠ chatQueue ∧ m = registration (name p)) ∨
    ∃ p input, m = chatMessage (name p) input

/-- The descriptor of a table entry. -/
structure EntryOk (k : Kernel) (e : ClientInfo) : Prop where
  /-- The queue has been made, -/
  exists_queue : e.dqueue < k.next
  /-- under the name in the entry, -/
  path_eq : (k.queues e.dqueue).path = e.queueName.str
  /-- which is not the server's. -/
  neServer : e.queueName.str ≠ chatQueue

/-- Descriptors, names and the traffic on the server's queue.  This is the
invariant of the module; it needs no assumption about names. -/
structure Descriptors {Pid : Type*} (name : Pid → ClientName)
    (s : State Pid) : Prop where
  /-- The server has the first queue, made under `/chat_queue`. -/
  start : serverMq < s.kernel.next ∧
    (s.kernel.queues serverMq).path = chatQueue
  /-- Each process has its descriptors right. -/
  procs : ∀ p, ProcOk (name p) s.kernel (s.procs p)
  /-- Whatever the server gets comes from a client's program. -/
  inbox : ∀ m ∈ (s.kernel.queues serverMq).fifo.entered, FromClient name m
  /-- The entries have theirs right. -/
  table : ∀ e ∈ s.clients, EntryOk s.kernel e

/-- A later kernel does not disturb a process that does nothing: queues stay
what they were made as, and the server's name does not come back to it. -/
theorem ProcOk.mono {n : ClientName} {k k' : Kernel} {c : Proc}
    (h : ProcOk n k c) (hk : k.Extends k') : ProcOk n k' c where
  own hQueue := by
    have hOwn := h.own hQueue
    exact ⟨Nat.lt_of_lt_of_le hOwn.1 hk.next_le,
      (hk.path_eq _ hOwn.1).trans hOwn.2⟩
  ownNeServer := h.ownNeServer
  server := ⟨Nat.lt_of_lt_of_le h.server.1 hk.next_le,
    (hk.path_eq _ h.server.1).trans h.server.2⟩
  cut hStarted hChat hName := by
    rcases hk.names_new _ _ hName with hOld | hNew
    · exact h.cut hStarted hChat hOld
    · have hPos := h.server.1
      simp only [serverMq] at hNew
      omega
  apart := h.apart

theorem EntryOk.mono {k k' : Kernel} {e : ClientInfo} (h : EntryOk k e)
    (hk : k.Extends k') : EntryOk k' e where
  exists_queue := Nat.lt_of_lt_of_le h.exists_queue hk.next_le
  path_eq := (hk.path_eq _ h.exists_queue).trans h.path_eq
  neServer := h.neServer

section Invariant

variable {Pid : Type*} [DecidableEq Pid] {name : Pid → ClientName}
  {s next : State Pid} {a : Label Pid}

@[simp] theorem setProc_kernel (s : State Pid) (p : Pid) (c : Proc) :
    (s.setProc p c).kernel = s.kernel := rfl

@[simp] theorem setProc_processed (s : State Pid) (p : Pid) (c : Proc) :
    (s.setProc p c).processed = s.processed := rfl

@[simp] theorem setProc_procs_self (s : State Pid) (p : Pid) (c : Proc) :
    (s.setProc p c).procs p = c :=
  Function.update_self ..

theorem setProc_procs_ne (s : State Pid) (p : Pid) (c : Proc) {q : Pid}
    (h : q ≠ p) : (s.setProc p c).procs q = s.procs q :=
  Function.update_of_ne h ..

/-- A property of every process, when one of them moves. -/
theorem forall_setProc {P : Pid → Proc → Prop} {p : Pid} {c : Proc}
    (hSelf : P p c) (hOther : ∀ q, q ≠ p → P q (s.procs q)) (q : Pid) :
    P q ((s.setProc p c).procs q) := by
  by_cases hq : q = p
  · subst hq
    rw [setProc_procs_self]
    exact hSelf
  · rw [setProc_procs_ne s p c hq]
    exact hOther q hq

theorem Transition.extends (h : Transition name s a next) :
    s.kernel.Extends next.kernel := by
  cases h with
  | unlinkOwn | unlinkFailed | unlinkQuit => exact s.kernel.unlink_extends _
  | openOwn => exact s.kernel.openCreate_extends _
  | openServer | openFailed | quit | serverDone => exact .refl _
  | register | sendChat | receive | registered | chat | ignored
  | serverSend => exact s.kernel.setFifo_extends _ _

/-! ### One process moves -/

section Moves

variable {n : ClientName} {k : Kernel} {c c' : Proc}

/-- A process that has started keeps its descriptors, whatever else it does: it
gets no queue that it has not had, and its phase claims no more than before. -/
theorem ProcOk.advance (h : ProcOk n k c) (hMq : c'.clientMq = c.clientMq)
    (hServer : c'.serverMq = c.serverMq) (hStarted : c.phase ≠ .notStarted)
    (hHasQueue : c'.phase.hasQueue → c.phase.hasQueue)
    (hHasServer : c'.phase.hasServer → c.phase.hasServer) :
    ProcOk n k c' where
  own hQueue := by
    rw [hMq]
    exact h.own (hHasQueue hQueue)
  ownNeServer hQueue := by
    rw [hMq]
    exact h.ownNeServer (hHasQueue hQueue)
  server := by
    rw [hServer]
    exact h.server
  cut _ := h.cut hStarted
  apart hSrv := by
    rw [hServer]
    exact h.apart (hHasServer hSrv)

/-- `mq_unlink` of the process's own name.  For a user called `chat` this is
the server's name, and it is `cut` from then on. -/
theorem ProcOk.unlink (h : ProcOk n k c) (ph : Phase)
    (hHasQueue : ph.hasQueue → c.phase.hasQueue)
    (hHasServer : ph.hasServer → c.phase.hasServer) :
    ProcOk n (k.unlink n.queueName) { c with phase := ph } where
  own hQueue := h.own (hHasQueue hQueue)
  ownNeServer hQueue := h.ownNeServer (hHasQueue hQueue)
  server := h.server
  cut _ hChat := by
    rw [← hChat, MqKernel.unlink_names_self]
    exact nofun
  apart hSrv := h.apart (hHasServer hSrv)

/-- The queue that a name refers to after the server's name was removed is
not the server's. -/
theorem ProcOk.ne_serverMq (h : ProcOk n k c)
    (hStart : (k.queues serverMq).path = chatQueue)
    (hStarted : c.phase ≠ .notStarted) {q : Nat}
    (hName : k.names n.queueName = some q) : q ≠ serverMq := by
  rintro rfl
  have hChat : n.queueName = chatQueue :=
    (k.named _ _ hName).2.symm.trans hStart
  exact h.cut hStarted hChat (hChat ▸ hName)

theorem ProcOk.openOwn (h : ProcOk n k c)
    (hStart : (k.queues serverMq).path = chatQueue)
    (hPhase : c.phase = .unlinked) :
    ProcOk n (k.openCreate n.queueName).1
      { c with phase := .opened
               clientMq := (k.openCreate n.queueName).2 } := by
  have hStarted : c.phase ≠ .notStarted := by simp [hPhase]
  have hk := k.openCreate_extends n.queueName
  have hName := k.openCreate_names_self n.queueName
  have hLater := h.mono hk
  exact
    { own := fun _ => MqKernel.named _ _ _ hName
      ownNeServer := by
        intro _
        rcases hk.names_new _ _ hName with hOld | hNew
        · exact h.ne_serverMq hStart hStarted hOld
        · have hPos := h.server.1
          simp only [serverMq]
          omega
      server := hLater.server
      cut := fun _ => hLater.cut hStarted
      apart := nofun }

theorem ProcOk.openServer (h : ProcOk n k c) {q : Nat}
    (hPhase : c.phase = .opened) (hName : k.names chatQueue = some q) :
    ProcOk n k { c with phase := .connected, serverMq := q } := by
  have hStarted : c.phase ≠ .notStarted := by simp [hPhase]
  have hQueue : c.phase.hasQueue := by simp [hPhase, Phase.hasQueue]
  exact
    { own := fun _ => h.own hQueue
      ownNeServer := fun _ => h.ownNeServer hQueue
      server := k.named _ _ hName
      cut := fun _ => h.cut hStarted
      apart := by
        rintro _ hChat rfl
        exact h.cut hStarted hChat hName }

end Moves

/-! ### One step -/

theorem Descriptors.procs_step (h : Descriptors name s)
    (hT : Transition name s a next) (p : Pid) :
    ProcOk (name p) next.kernel (next.procs p) := by
  have hOther := fun q => (h.procs q).mono hT.extends
  cases hT with
  | unlinkOwn p hPhase =>
      refine forall_setProc (s := s) ?_ (fun q _ => hOther q) _
      exact (h.procs p).unlink _ nofun nofun
  | openOwn p hPhase =>
      refine forall_setProc (s := s) ?_ (fun q _ => hOther q) _
      exact (h.procs p).openOwn h.start.2 hPhase
  | openServer p q hPhase hName =>
      refine forall_setProc (s := s) ?_ (fun q _ => hOther q) _
      exact (h.procs p).openServer hPhase hName
  | openFailed p hPhase =>
      refine forall_setProc (s := s) ?_ (fun q _ => hOther q) _
      exact (h.procs p).advance rfl rfl (by simp [hPhase])
        (by simp [hPhase, Phase.hasQueue]) nofun
  | unlinkFailed p hPhase | unlinkQuit p hPhase =>
      refine forall_setProc (s := s) ?_ (fun q _ => hOther q) _
      exact (h.procs p).unlink _ (by simp [hPhase, Phase.hasQueue])
        (by simp [hPhase, Phase.hasServer])
  | register p hPhase | sendChat p input hPhase | receive p m rest hPhase
  | quit p hPhase =>
      refine forall_setProc (s := s) ?_ (fun q _ => hOther q) _
      exact (hOther p).advance rfl rfl (by simp [hPhase])
        (by simp [hPhase, Phase.hasQueue])
        (by simp [hPhase, Phase.hasServer])
  | registered | chat | ignored | serverSend | serverDone => exact hOther _

omit [DecidableEq Pid] in
/-- The server never sends to its own queue, so a broadcast cannot come back as
a new message.  An entry for the server's queue would have been made by a
registration under `/chat_queue`, and there is none. -/
theorem Descriptors.entry_ne_serverMq (h : Descriptors name s) {e : ClientInfo}
    (he : e ∈ s.clients) : e.dqueue ≠ serverMq := by
  intro hq
  have hEntry := h.table e he
  have hPath := hEntry.path_eq
  rw [hq, h.start.2] at hPath
  exact hEntry.neServer hPath.symm

theorem Descriptors.inbox_step (h : Descriptors name s)
    (hT : Transition name s a next) :
    ∀ m ∈ (next.kernel.queues serverMq).fifo.entered, FromClient name m := by
  have hSend : ∀ q m room, (q = serverMq → FromClient name m) →
      ∀ m' ∈ ((s.kernel.enter q m room).queues serverMq).fifo.entered,
        FromClient name m' := by
    intro q m room hm m' hm'
    rw [MqKernel.enter_entered] at hm'
    by_cases hq : serverMq = q
    · subst hq
      rw [if_pos rfl] at hm'
      rcases List.mem_append.mp hm' with hm' | hm'
      · exact h.inbox m' hm'
      · rw [List.mem_singleton.mp hm']
        exact hm rfl
    · rw [if_neg hq] at hm'
      exact h.inbox m' hm'
  cases hT with
  | unlinkOwn | unlinkFailed | unlinkQuit | openServer | openFailed | quit
  | serverDone => exact h.inbox
  | openOwn p hPhase =>
      simp only [setProc_kernel]
      rw [MqKernel.openCreate_queues _ _ h.start.1]
      exact h.inbox
  | register p hPhase room =>
      refine hSend _ _ room fun hq => Or.inl ⟨p, ?_, rfl⟩
      intro hChat
      exact (h.procs p).apart (by simp [hPhase, Phase.hasServer]) hChat hq
  | sendChat p input hPhase room =>
      exact hSend _ _ room fun _ => Or.inr ⟨p, input, rfl⟩
  | receive | registered | chat | ignored =>
      simp only [setProc_kernel, MqKernel.leave_entered]
      exact h.inbox
  | serverSend m i e hServer hEntry room =>
      refine hSend _ _ room fun hq => ?_
      exact absurd hq (h.entry_ne_serverMq (List.mem_of_getElem? hEntry))

omit [DecidableEq Pid] in
/-- A registration at the front of the server's queue was sent by a client. -/
theorem Descriptors.registration_front (h : Descriptors name s)
    {m : ChatMessage} {rest : List ChatMessage}
    (front : (s.kernel.queues serverMq).fifo.items = m :: rest)
    (hType : m.type = 0) :
    ∃ p, (name p).queueName ≠ chatQueue ∧ m = registration (name p) := by
  rcases h.inbox m (BoundedFifo.front_mem_entered _ front) with hm | hm
  · exact hm
  · rcases hm with ⟨p, input, rfl⟩
    rw [chatMessage_type] at hType
    contradiction

theorem Descriptors.table_step (h : Descriptors name s)
    (hT : Transition name s a next) :
    ∀ e ∈ next.clients, EntryOk next.kernel e := by
  have hOld := fun e he => (h.table e he).mono hT.extends
  cases hT with
  | unlinkOwn | openOwn | openServer | openFailed | unlinkFailed | register
  | sendChat | receive | quit | unlinkQuit | chat | ignored | serverSend
  | serverDone => exact hOld
  | registered m rest qd clients hServer front hType hRoom hName hClients =>
      rcases h.registration_front front hType with ⟨p, hNe, rfl⟩
      rw [registration_queueName] at hName
      have hNamed := s.kernel.named _ _ hName
      intro e he
      rw [hClients] at he
      rcases List.mem_append.mp he with he | he
      · exact hOld e he
      · rw [List.mem_singleton.mp he, registration_queueName]
        exact
          { exists_queue := hNamed.1
            path_eq := by
              rw [clientEntry_queueName, clientEntry_dqueue, ← hNamed.2]
              exact MqKernel.setFifo_path ..
            neServer := by
              rw [clientEntry_queueName]
              exact hNe }

/-- **Descriptors stay right** in every step, whatever the names are. -/
theorem Descriptors.step (h : Descriptors name s)
    (hT : Transition name s a next) : Descriptors name next where
  start := ⟨Nat.lt_of_lt_of_le h.start.1 hT.extends.next_le,
    (hT.extends.path_eq _ h.start.1).trans h.start.2⟩
  procs := h.procs_step hT
  inbox := h.inbox_step hT
  table := h.table_step hT

/-! ### All runs -/

theorem startKernel_next_pos : serverMq < startKernel.next := by
  decide

omit [DecidableEq Pid] in
theorem descriptors_start (name : Pid → ClientName) :
    Descriptors name (State.start Pid) where
  start := ⟨startKernel_next_pos, rfl⟩
  procs p :=
    { own := nofun
      ownNeServer := nofun
      server := ⟨startKernel_next_pos, rfl⟩
      cut := fun hStarted => absurd rfl hStarted
      apart := nofun }
  inbox m hm := by
    simp only [State.start] at hm
    exact absurd hm List.not_mem_nil
  table e he := absurd he List.not_mem_nil

/-- **Descriptors and names agree in every reachable state**, whatever the
users are called. -/
theorem reachable_descriptors {ok : State Pid → Label Pid → Prop}
    (h : (chatMachine name).ReachableBy ok s) : Descriptors name s := by
  refine h.invariant (I := Descriptors name) ?_ ?_
  · intro s h0
    obtain rfl : s = State.start Pid := h0
    exact descriptors_start name
  · intro s a next hI _ hStep
    exact hI.step (step_transition hStep)

end Invariant

/-! ## Two users -/

/-- Users `a` and `b`, whose queue names differ from each other and from the
server's. -/
def twoNames (p : Bool) : ClientName where
  chars := if p then ascii ['a'] else ascii ['b']
  nonempty := by cases p <;> decide
  short := by cases p <;> decide
  noNul := by cases p <;> decide
  noNewline := by cases p <;> decide

/-- A user's first steps, up to the registration. -/
def startUp (p : Bool) : List (Label Bool) :=
  [.unlinkOwn p, .openOwn p, .openServer p, .register p]

end UnixHomework.Ports.MqChat
