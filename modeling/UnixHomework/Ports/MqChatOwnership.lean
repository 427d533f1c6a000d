import UnixHomework.Ports.MqChatNames
import Mathlib.Data.List.Nodup

/-!
# Who reads which queue

With pairwise distinct names every client of the message-queue chat is the
only reader of its queue, registers at most once, and has at most one entry in
the server's table, which refers to that queue.  The exclusive use of a name
also makes sure that `mq_open` finds the name free and creates a new queue.

`OwnerOk` says it for one process: its name is free when it calls `mq_open`,
refers to its own queue from then on if it refers to any, and what has left the
queue is what the process has received.  `Ownership` adds the server's table,
which is made from the registrations in the order in which they are received.
The modules about the order of the messages and about departures rest on this
one; what holds for any names at all is in the module about names.
-/

namespace UnixHomework.Ports.MqChat

open UnixHomework.Verified

/-- A message of type 0 asks to be entered in the server's table. -/
def ChatMessage.isRegistration (m : ChatMessage) : Bool :=
  m.type = 0

/-- The registration has been sent.  It stays so when the client closes its
queue and when it is gone: nobody takes a registration back. -/
def Phase.registered : Phase → Bool
  | .running | .closed | .gone => true
  | _ => false

/-- Nobody else uses this process's name or reads its queue. -/
structure OwnerOk (n : ClientName) (k : Kernel) (c : Proc) : Prop where
  /-- Between `mq_unlink` and `mq_open` the name is free, so `mq_open` makes a
  new queue and not a second reader of an old one. -/
  fresh : c.phase = .unlinked → k.names n.queueName = none
  /-- The name, where it means something, means the client's own queue. -/
  named : ∀ q, k.names n.queueName = some q → c.phase ≠ .notStarted →
    q = c.clientMq
  /-- What has left the queue is what the client has received. -/
  received : c.phase.hasQueue →
    (k.queues c.clientMq).fifo.left = c.received
  /-- Nothing is received before there is a queue. -/
  idle : c.phase.hasQueue = false → c.received = []

/-- The queue names of the registrations in a list of messages. -/
def registrations (ms : List ChatMessage) : List (List UInt8) :=
  (ms.filter ChatMessage.isRegistration).map (·.queueName.str)

/-- The clients own their names, and the server's table is made from the
registrations: each name is registered once, entries come in the order of the
registrations taken from the server's queue, and an entry refers to the queue
of the client that has its name. -/
structure Ownership {Pid : Type*} (name : Pid → ClientName)
    (s : State Pid) : Prop where
  /-- Every process is the only user of its name. -/
  procs : ∀ p, OwnerOk (name p) s.kernel (s.procs p)
  /-- A registration in the server's queue has been sent by the one whose name
  it carries. -/
  sent : ∀ p, (name p).queueName ∈
      registrations (s.kernel.queues serverMq).fifo.entered →
    (s.procs p).phase.registered
  /-- No name is registered twice. -/
  once : (registrations (s.kernel.queues serverMq).fifo.entered).Nodup
  /-- The table holds names whose registrations the server has taken, in that
  order. -/
  table : (s.clients.map (·.queueName.str)).Sublist
    (registrations (s.kernel.queues serverMq).fifo.left)
  /-- An entry refers to the queue of the client that it names. -/
  owners : ∀ e ∈ s.clients, ∃ p, (s.procs p).phase.registered ∧
    e.queueName.str = (name p).queueName ∧ e.dqueue = (s.procs p).clientMq

theorem registrations_append (ms ms' : List ChatMessage) :
    registrations (ms ++ ms') = registrations ms ++ registrations ms' := by
  simp [registrations, List.filter_append]

@[simp] theorem registrations_registration (n : ClientName) :
    registrations [registration n] = [n.queueName] := by
  simp [registrations, ChatMessage.isRegistration]

@[simp] theorem registrations_chatMessage (n : ClientName)
    (input : List UInt8) : registrations [chatMessage n input] = [] := by
  simp [registrations, ChatMessage.isRegistration]

theorem Phase.hasQueue_of_registered {ph : Phase} (h : ph.registered) :
    ph.hasQueue := by
  cases ph <;> simp_all [Phase.registered, Phase.hasQueue]

theorem OwnerOk.advance {n : ClientName} {k : Kernel} {c c' : Proc}
    (h : OwnerOk n k c) (hMq : c'.clientMq = c.clientMq)
    (hReceived : c'.received = c.received) (hPhase : c.phase.hasQueue)
    (hPhase' : c'.phase.hasQueue) : OwnerOk n k c' where
  fresh hUnlinked := by simp [hUnlinked, Phase.hasQueue] at hPhase'
  named q hName _ := by
    rw [hMq]
    refine h.named q hName ?_
    intro hNot
    simp [hNot, Phase.hasQueue] at hPhase
  received _ := by
    rw [hMq, hReceived]
    exact h.received hPhase
  idle hIdle := by
    rw [hPhase'] at hIdle
    contradiction

/-- Anything that keeps the meaning of the name and what was taken from the
queue.  All steps of the server and of the other clients are of this kind. -/
theorem OwnerOk.frame {n : ClientName} {k k' : Kernel} {c : Proc}
    (h : OwnerOk n k c) (hNames : k'.names n.queueName = k.names n.queueName)
    (hLeft : c.phase.hasQueue → (k'.queues c.clientMq).fifo.left =
      (k.queues c.clientMq).fifo.left) : OwnerOk n k' c where
  fresh hUnlinked := hNames.trans (h.fresh hUnlinked)
  named q hName := h.named q (hNames.symm.trans hName)
  received hQueue := (hLeft hQueue).trans (h.received hQueue)
  idle := h.idle

theorem OwnerOk.unlink {n : ClientName} {k : Kernel} {c : Proc}
    (h : OwnerOk n k c) (ph : Phase) (hQueue : ph.hasQueue = c.phase.hasQueue) :
    OwnerOk n (k.unlink n.queueName) { c with phase := ph } where
  fresh _ := k.unlink_names_self _
  named q hName := by
    rw [MqKernel.unlink_names_self] at hName
    contradiction
  received hQ := h.received (hQueue ▸ hQ)
  idle hQ := h.idle (hQueue ▸ hQ)

/-- The queue that `mq_open` makes is new, because the name was free.
`O_CREAT` without `O_EXCL` would have opened an old queue of that name, with
what others have put into it. -/
theorem OwnerOk.openOwn {n : ClientName} {k : Kernel} {c : Proc}
    (h : OwnerOk n k c) (hPhase : c.phase = .unlinked) :
    OwnerOk n (k.openCreate n.queueName).1
      { c with phase := .opened
               clientMq := (k.openCreate n.queueName).2 } where
  fresh := nofun
  named q hName _ := by
    rw [MqKernel.openCreate_names_self] at hName
    exact (Option.some.inj hName).symm
  received _ := by
    rw [MqKernel.openCreate_of_none k (h.fresh hPhase)]
    simp only [MqKernel.create_queues_next]
    exact (h.idle (by simp [hPhase, Phase.hasQueue])).symm
  idle := nofun

section OwnershipSteps

variable {Pid : Type*} [DecidableEq Pid] {name : Pid → ClientName}
  {s next : State Pid} {a : Label Pid}

omit [DecidableEq Pid] in
/-- Pairwise distinct names give pairwise distinct queues: `queue_name` is the
name between a slash and `_queue`, and is not cut off. -/
theorem queueName_ne (hName : Function.Injective fun p => (name p).chars)
    {p q : Pid} (h : q ≠ p) : (name q).queueName ≠ (name p).queueName :=
  fun hEq => h (hName (queueName_inj hEq))

omit [DecidableEq Pid] in
/-- Two processes never share a queue.  A queue is reached by one name only,
and the names differ. -/
theorem Descriptors.clientMq_ne (hD : Descriptors name s)
    (hName : Function.Injective fun p => (name p).chars) {p q : Pid}
    (h : q ≠ p) (hq : (s.procs q).phase.hasQueue)
    (hp : (s.procs p).phase.hasQueue) :
    (s.procs q).clientMq ≠ (s.procs p).clientMq := by
  intro hEq
  have hPathQ := ((hD.procs q).own hq).2
  have hPathP := ((hD.procs p).own hp).2
  rw [hEq, hPathP] at hPathQ
  exact queueName_ne hName h hPathQ.symm

omit [DecidableEq Pid] in
/-- The other processes, when `p` does something to its own name: their names
are different ones, which `mq_unlink` and `mq_open` leave as they are. -/
theorem Ownership.others (hO : Ownership name s) (hD : Descriptors name s)
    (hName : Function.Injective fun p => (name p).chars) {p q : Pid}
    (hq : q ≠ p) {k : Kernel}
    (hk : k = s.kernel.unlink (name p).queueName ∨
      k = (s.kernel.openCreate (name p).queueName).1) :
    OwnerOk (name q) k (s.procs q) := by
  have hNe := queueName_ne hName hq
  rcases hk with rfl | rfl
  · exact (hO.procs q).frame (s.kernel.unlink_names_ne hNe) fun _ => rfl
  · refine (hO.procs q).frame (s.kernel.openCreate_names_ne hNe) ?_
    intro hQueue
    rw [MqKernel.openCreate_queues _ _ ((hD.procs q).own hQueue).1]

theorem Ownership.procs_step (hO : Ownership name s)
    (hD : Descriptors name s)
    (hName : Function.Injective fun p => (name p).chars)
    (hT : Transition name s a next) (q : Pid) :
    OwnerOk (name q) next.kernel (next.procs q) := by
  cases hT with
  | unlinkOwn p hPhase | unlinkFailed p hPhase | unlinkQuit p hPhase =>
      refine forall_setProc (s := s) ?_
        (fun q hq => hO.others hD hName hq (Or.inl rfl)) q
      exact (hO.procs p).unlink _ (by simp [hPhase, Phase.hasQueue])
  | openOwn p hPhase =>
      refine forall_setProc (s := s) ?_
        (fun q hq => hO.others hD hName hq (Or.inr rfl)) q
      exact (hO.procs p).openOwn hPhase
  | openServer p r hPhase | openFailed p hPhase | quit p hPhase =>
      refine forall_setProc (s := s) ?_ (fun q _ => hO.procs q) q
      exact (hO.procs p).advance rfl rfl (by simp [hPhase, Phase.hasQueue])
        rfl
  | register p hPhase room | sendChat p input hPhase room =>
      have hFrame : ∀ m q, OwnerOk (name q)
          (s.kernel.enter (s.procs p).serverMq m room) (s.procs q) :=
        fun m q => (hO.procs q).frame rfl fun _ => MqKernel.enter_left ..
      refine forall_setProc (s := s) ?_ (fun q _ => hFrame _ q) q
      exact (hFrame _ p).advance rfl rfl (by simp [hPhase, Phase.hasQueue])
        (by simp [hPhase, Phase.hasQueue])
  | receive p m rest hPhase front =>
      have hQueue : (s.procs p).phase.hasQueue := by
        simp [hPhase, Phase.hasQueue]
      refine forall_setProc (s := s) (P := fun q =>
        OwnerOk (name q) (s.kernel.leave _ m rest front)) ?_ ?_ q
      · exact
          { fresh := by simp [hPhase]
            named := (hO.procs p).named
            received := by
              intro _
              rw [MqKernel.leave_left, if_pos rfl,
                (hO.procs p).received hQueue]
            idle := by simp [hPhase, Phase.hasQueue] }
      · intro q hq
        refine (hO.procs q).frame rfl ?_
        intro hQueue'
        rw [MqKernel.leave_left,
          if_neg (hD.clientMq_ne hName hq hQueue' hQueue)]
  | registered m rest qd clients hServer front
  | chat m rest hServer front | ignored m rest hServer front =>
      refine (hO.procs q).frame rfl ?_
      intro hQueue
      rw [MqKernel.leave_left, if_neg ((hD.procs q).ownNeServer hQueue)]
  | serverSend m i e hServer hEntry room =>
      exact (hO.procs q).frame rfl fun _ => MqKernel.enter_left ..
  | serverDone => exact hO.procs q

/-- Registrations are for ever, and so is the queue registered.  The table of
the server can rely on it after any number of steps. -/
theorem Transition.registered_mono (hT : Transition name s a next) {p : Pid}
    (h : (s.procs p).phase.registered) :
    (next.procs p).phase.registered ∧
      (next.procs p).clientMq = (s.procs p).clientMq := by
  cases hT with
  | unlinkOwn q hPhase | openOwn q hPhase | openServer q r hPhase
  | openFailed q hPhase | unlinkFailed q hPhase | register q hPhase
  | sendChat q input hPhase | receive q m rest hPhase | quit q hPhase
  | unlinkQuit q hPhase =>
      by_cases hq : p = q
      · subst hq
        rw [setProc_procs_self]
        rw [hPhase] at h
        simp_all [Phase.registered]
      · rw [setProc_procs_ne _ _ _ hq]
        exact ⟨h, rfl⟩
  | registered | chat | ignored | serverSend | serverDone => exact ⟨h, rfl⟩

/-- The registrations ever sent to the server grow by at most one, and only by
the step of a connected client that sends its own name. -/
theorem Descriptors.registrations_step (hD : Descriptors name s)
    (hT : Transition name s a next) :
    registrations (next.kernel.queues serverMq).fifo.entered =
        registrations (s.kernel.queues serverMq).fifo.entered ∨
      ∃ p, (s.procs p).phase = .connected ∧ (next.procs p).phase = .running ∧
        registrations (next.kernel.queues serverMq).fifo.entered =
          registrations (s.kernel.queues serverMq).fifo.entered ++
            [(name p).queueName] := by
  cases hT with
  | unlinkOwn | unlinkFailed | unlinkQuit | openServer | openFailed | quit
  | serverDone => exact Or.inl rfl
  | openOwn p hPhase =>
      simp only [setProc_kernel]
      rw [MqKernel.openCreate_queues _ _ hD.start.1]
      exact Or.inl rfl
  | receive | registered | chat | ignored =>
      left
      simp only [setProc_kernel, MqKernel.leave_entered]
  | register p hPhase room =>
      simp only [setProc_kernel, MqKernel.enter_entered]
      by_cases hq : serverMq = (s.procs p).serverMq
      · refine Or.inr ⟨p, hPhase, by rw [setProc_procs_self], ?_⟩
        rw [if_pos hq, registrations_append,
          registrations_registration]
      · rw [if_neg hq]
        exact Or.inl rfl
  | sendChat p input hPhase room =>
      simp only [setProc_kernel, MqKernel.enter_entered]
      left
      by_cases hq : serverMq = (s.procs p).serverMq
      · rw [if_pos hq, registrations_append, registrations_chatMessage,
          List.append_nil]
      · rw [if_neg hq]
  | serverSend m i e hServer hEntry room =>
      simp only [MqKernel.enter_entered]
      rw [if_neg (hD.entry_ne_serverMq (List.mem_of_getElem? hEntry)).symm]
      exact Or.inl rfl

theorem Ownership.sent_step (hO : Ownership name s)
    (hD : Descriptors name s)
    (hName : Function.Injective fun p => (name p).chars)
    (hT : Transition name s a next) (p : Pid)
    (hp : (name p).queueName ∈
      registrations (next.kernel.queues serverMq).fifo.entered) :
    (next.procs p).phase.registered := by
  rcases hD.registrations_step hT with hSame | ⟨q, -, hRunning, hMore⟩
  · rw [hSame] at hp
    exact (hT.registered_mono (hO.sent p hp)).1
  · rw [hMore] at hp
    rcases List.mem_append.mp hp with hp | hp
    · exact (hT.registered_mono (hO.sent p hp)).1
    · have hEq : p = q := hName (queueName_inj (List.mem_singleton.mp hp))
      rw [hEq, hRunning]
      rfl

theorem Ownership.once_step (hO : Ownership name s)
    (hD : Descriptors name s) (hT : Transition name s a next) :
    (registrations (next.kernel.queues serverMq).fifo.entered).Nodup := by
  rcases hD.registrations_step hT with hSame | ⟨p, hPhase, -, hMore⟩
  · rw [hSame]
    exact hO.once
  · rw [hMore, ← List.concat_eq_append]
    refine hO.once.concat fun hp => ?_
    have hReg := hO.sent p hp
    simp [hPhase, Phase.registered] at hReg

theorem Ownership.table_step (hO : Ownership name s)
    (hD : Descriptors name s) (hT : Transition name s a next) :
    (next.clients.map (·.queueName.str)).Sublist
      (registrations (next.kernel.queues serverMq).fifo.left) := by
  have hIgnored : ∀ m, (s.clients.map (·.queueName.str)).Sublist
      (registrations ((s.kernel.queues serverMq).fifo.left ++ [m])) := by
    intro m
    rw [registrations_append]
    exact hO.table.trans (List.sublist_append_left _ _)
  cases hT with
  | unlinkOwn | unlinkFailed | unlinkQuit | openServer | openFailed | quit
  | serverDone => exact hO.table
  | openOwn p hPhase =>
      simp only [setProc_kernel]
      rw [MqKernel.openCreate_queues _ _ hD.start.1]
      exact hO.table
  | register | sendChat | serverSend =>
      simp only [setProc_kernel, MqKernel.enter_left]
      exact hO.table
  | receive p m rest hPhase front =>
      have hNe := (hD.procs p).ownNeServer (by simp [hPhase, Phase.hasQueue])
      simp only [setProc_kernel, MqKernel.leave_left]
      rw [if_neg hNe.symm]
      exact hO.table
  | chat m rest hServer front | ignored m rest hServer front =>
      simp only [MqKernel.leave_left, if_pos]
      exact hIgnored m
  | registered m rest qd clients hServer front hType hRoom hqd hClients =>
      rcases hD.registration_front front hType with ⟨p, -, rfl⟩
      simp only [MqKernel.leave_left, if_pos, hClients, List.map_append,
        registrations_append, registrations_registration]
      refine hO.table.append ?_
      simp

theorem Ownership.owners_step (hO : Ownership name s)
    (hD : Descriptors name s) (hT : Transition name s a next) :
    ∀ e ∈ next.clients, ∃ p, (next.procs p).phase.registered ∧
      e.queueName.str = (name p).queueName ∧
        e.dqueue = (next.procs p).clientMq := by
  have hOld : ∀ e ∈ s.clients, ∃ p, (next.procs p).phase.registered ∧
      e.queueName.str = (name p).queueName ∧
        e.dqueue = (next.procs p).clientMq := by
    intro e he
    rcases hO.owners e he with ⟨p, hReg, hNamed, hQueue⟩
    have hMono := hT.registered_mono hReg
    exact ⟨p, hMono.1, hNamed, hQueue.trans hMono.2.symm⟩
  cases hT with
  | unlinkOwn | openOwn | openServer | openFailed | unlinkFailed | register
  | sendChat | receive | quit | unlinkQuit | chat | ignored | serverSend
  | serverDone => exact hOld
  | registered m rest qd clients hServer front hType hRoom hqd hClients =>
      have hMem := BoundedFifo.front_mem_entered _ front
      rcases hD.registration_front front hType with ⟨p, -, rfl⟩
      rw [registration_queueName] at hqd
      have hReg : (s.procs p).phase.registered := by
        refine hO.sent p ?_
        exact List.mem_map.mpr ⟨registration (name p),
          List.mem_filter.mpr ⟨hMem, rfl⟩, registration_queueName _⟩
      have hStarted : (s.procs p).phase ≠ .notStarted := by
        intro hNot
        simp [hNot, Phase.registered] at hReg
      intro e he
      rw [hClients] at he
      rcases List.mem_append.mp he with he | he
      · exact hOld e he
      · refine ⟨p, hReg, ?_⟩
        rw [List.mem_singleton.mp he, registration_queueName,
          clientEntry_queueName, clientEntry_dqueue]
        exact ⟨rfl, (hO.procs p).named qd hqd hStarted⟩

theorem Ownership.step (hO : Ownership name s) (hD : Descriptors name s)
    (hName : Function.Injective fun p => (name p).chars)
    (hT : Transition name s a next) : Ownership name next where
  procs := hO.procs_step hD hName hT
  sent := hO.sent_step hD hName hT
  once := hO.once_step hD hT
  table := hO.table_step hD hT
  owners := hO.owners_step hD hT

omit [DecidableEq Pid] in
theorem ownership_start (name : Pid → ClientName) :
    Ownership name (State.start Pid) where
  procs _ :=
    { fresh := nofun
      named := fun _ _ hStarted => absurd rfl hStarted
      received := nofun
      idle := fun _ => rfl }
  sent _ hp := absurd hp List.not_mem_nil
  once := List.nodup_nil
  table := List.Sublist.refl _
  owners _ he := absurd he List.not_mem_nil

omit [DecidableEq Pid] in
/-- No two entries have the same queue name, since no name is registered
twice. -/
theorem Ownership.table_nodup (hO : Ownership name s) :
    (s.clients.map (·.queueName.str)).Nodup := by
  refine hO.table.nodup ?_
  have hOnce := hO.once
  rw [← (s.kernel.queues serverMq).fifo.conserved,
    registrations_append] at hOnce
  exact hOnce.of_append_left

end OwnershipSteps

end UnixHomework.Ports.MqChat
