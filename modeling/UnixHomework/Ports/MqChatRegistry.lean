import UnixHomework.Ports.MqChatDeparture
import UnixHomework.Ports.MqChatOwnership
import UnixHomework.Verified.Traces

/-!
# Registrations by name

A registration carries the name of the client's queue, and the server opens
whatever that name refers to when it handles the registration.  Clients with
one name share it: each of them removes the name and opens it again when it
starts, so that by the time of the handling the name may lead to the queue of
another client, or two clients may have opened one queue.

`Registry` follows the registrations from the clients to the table.  As long
as each handled registration finds its client's own queue, opened by no client
handled before, every registered client is the target of one entry
(`oneEntryEach`).  That is so if all names are different
(`refersToOwn_of_injective`).
-/

namespace UnixHomework.Ports.MqChat

open UnixHomework.Verified

/-- The chat, the clients whose registrations wait in the server's queue, in
order, and those whose registrations were handled without error.  The two lists
only record what happens; the program does not see them. -/
structure Registry (Pid : Type*) where
  state : State Pid
  /-- The clients whose registrations are in the server's queue, -/
  waiting : List Pid
  /-- and those whose registrations have been handled without error. -/
  handled : List Pid

section Definitions

variable {Pid : Type*}

/-- The message at the front of the server's queue is a registration. -/
def State.registrationFront (s : State Pid) : Bool :=
  (s.kernel.queues serverMq).fifo.items.head?.any ChatMessage.isRegistration

/-- The registrations after a step to `next`.  `add_client` has returned `0`
if the table has grown. -/
def Registry.after (t : Registry Pid) (next : State Pid) :
    Label Pid → Registry Pid
  | .register p =>
      { t with
        state := next
        waiting :=
          if (t.state.procs p).serverMq = serverMq then t.waiting ++ [p]
          else t.waiting }
  | .serverReceive =>
      if t.state.registrationFront then
        { state := next
          waiting := t.waiting.tail
          handled :=
            if t.state.clients.length < next.clients.length then
              t.handled ++ t.waiting.take 1
            else t.handled }
      else { t with state := next }
  | _ => { t with state := next }

/-- The chat with its registrations. -/
def registryChat [DecidableEq Pid] (name : Pid → ClientName) :
    Machine (Registry Pid) (Label Pid) where
  init t := t = ⟨State.start Pid, [], []⟩
  step t a := (step name t.state a).map fun next => t.after next a

/-- When the registrations of all running clients have been handled without
error, each running client's queue is the target of one entry, so that each
broadcast sends to it once. -/
def OneEntryEach (t : Registry Pid) : Prop :=
  (∀ p, (t.state.procs p).phase = .running → p ∈ t.handled) →
    ∀ p, (t.state.procs p).phase = .running →
      copies t.state.clients (t.state.procs p).clientMq = 1

/-- If the server handles the registration of `p`, the name refers to the
queue that `p` has opened, and no client handled before has opened it. -/
def RefersToOwn (name : Pid → ClientName) (t : Registry Pid) :
    Label Pid → Prop
  | .serverReceive =>
      t.state.registrationFront = true →
        t.state.clients.length < maxClients →
          ∀ p ∈ t.waiting.head?,
            ∀ q ∈ t.state.kernel.openExisting (name p).queueName,
              q = (t.state.procs p).clientMq ∧
                ∀ r ∈ t.handled, (t.state.procs r).clientMq ≠ q
  | _ => True

instance (name : Pid → ClientName) (t : Registry Pid) :
    (a : Label Pid) → Decidable (RefersToOwn name t a)
  | .serverReceive =>
      inferInstanceAs (Decidable (t.state.registrationFront = true → _ → _))
  | .unlinkOwn _ | .openOwn _ | .openServer _ | .unlinkFailed _
  | .register _ | .sendChat _ _ | .receive _ | .quit _ | .unlinkQuit _
  | .serverSend | .serverDone => .isTrue trivial

/-- The entries of the table are the queues of the clients handled, each
once. -/
structure Accounted (name : Pid → ClientName) (t : Registry Pid) : Prop where
  /-- The registrations in the server's queue are those of the clients that
  wait, in order. -/
  waiting : (t.state.kernel.queues serverMq).fifo.items.filter
    ChatMessage.isRegistration = t.waiting.map fun p => registration (name p)
  /-- Who waits or has been handled has registered. -/
  registered : ∀ p, p ∈ t.waiting ∨ p ∈ t.handled →
    (t.state.procs p).phase.registered
  /-- An entry has the queue of the client it was made for, -/
  table : t.state.clients.map (·.dqueue) =
    t.handled.map fun p => (t.state.procs p).clientMq
  /-- and no queue has two. -/
  nodup : (t.state.clients.map (·.dqueue)).Nodup

theorem Accounted.entries {name : Pid → ClientName} {t : Registry Pid}
    (h : Accounted name t) : OneEntryEach t := by
  intro hHandled p hRunning
  have hMem : (t.state.procs p).clientMq ∈ t.state.clients.map (·.dqueue) := by
    rw [h.table]
    exact List.mem_map_of_mem (hHandled p hRunning)
  rw [copies, h.nodup.count, if_pos hMem]

theorem accounted_start (name : Pid → ClientName) :
    Accounted name ⟨State.start Pid, [], []⟩ where
  waiting := rfl
  registered p hp := by simp at hp
  table := rfl
  nodup := List.nodup_nil

end Definitions

section Steps

variable {Pid : Type*} [DecidableEq Pid] {name : Pid → ClientName}
  {s next : State Pid} {t t' : Registry Pid} {a : Label Pid}

@[simp] theorem isRegistration_chatMessage (n : ClientName)
    (input : List UInt8) :
    (chatMessage n input).isRegistration = false := rfl

@[simp] theorem isRegistration_registration (n : ClientName) :
    (registration n).isRegistration = true := rfl

/-- A step that leaves the registrations and the table alone. -/
theorem Accounted.frame (h : Accounted name t)
    (hT : Transition name t.state a next)
    (hItems : (next.kernel.queues serverMq).fifo.items.filter
        ChatMessage.isRegistration =
      (t.state.kernel.queues serverMq).fifo.items.filter
        ChatMessage.isRegistration)
    (hClients : next.clients = t.state.clients) :
    Accounted name { t with state := next } where
  waiting := hItems.trans h.waiting
  registered p hp := (hT.registered_mono (h.registered p hp)).1
  table := by
    rw [hClients, h.table]
    refine List.map_congr_left fun p hp => ?_
    exact (hT.registered_mono (h.registered p (.inr hp))).2.symm
  nodup := hClients ▸ h.nodup

/-- Sending to a queue, seen in the server's: only a registration sent there
adds to those that wait. -/
theorem filter_enter (k : Kernel) (q : Nat) (m : ChatMessage)
    (room : (k.queues q).fifo.items.length < maxMsg) :
    ((k.enter q m room).queues serverMq).fifo.items.filter
        ChatMessage.isRegistration =
      (k.queues serverMq).fifo.items.filter ChatMessage.isRegistration ++
        if serverMq = q ∧ m.isRegistration = true then [m] else [] := by
  rw [MqKernel.enter_items]
  by_cases hq : serverMq = q
  · by_cases hm : m.isRegistration = true
    · simp [hq, hm, List.filter_append]
    · simp [hq, hm, List.filter_append]
  · simp [hq]

theorem Accounted.register (h : Accounted name t) {p : Pid}
    (hT : Transition name t.state (.register p) next) :
    Accounted name (t.after next (.register p)) := by
  cases hT with
  | register p hPhase room =>
      have hT : Transition name t.state (.register p) _ :=
        .register p hPhase room
      by_cases hq : (t.state.procs p).serverMq = serverMq
      · simp only [Registry.after, if_pos hq]
        constructor
        · rw [setProc_kernel, filter_enter, if_pos ⟨hq.symm, rfl⟩, h.waiting,
            List.map_append]
          rfl
        · intro r hr
          by_cases hSelf : r = p
          · subst hSelf
            rw [setProc_procs_self]
            rfl
          · refine (hT.registered_mono (h.registered r ?_)).1
            simpa [hSelf] using hr
        · refine h.table.trans (List.map_congr_left fun r hr => ?_)
          exact (hT.registered_mono (h.registered r (.inr hr))).2.symm
        · exact h.nodup
      · simp only [Registry.after, if_neg hq]
        refine h.frame hT ?_ rfl
        rw [setProc_kernel, filter_enter,
          if_neg fun hSame => hq hSame.1.symm, List.append_nil]

omit [DecidableEq Pid] in
/-- A registration at the front is that of the first client that waits. -/
theorem Accounted.front (h : Accounted name t) {m : ChatMessage}
    {rest : List ChatMessage}
    (front : (t.state.kernel.queues serverMq).fifo.items = m :: rest)
    (hType : m.isRegistration = true) :
    ∃ p ps, t.waiting = p :: ps ∧ m = registration (name p) ∧
      rest.filter ChatMessage.isRegistration =
        ps.map fun p => registration (name p) := by
  have hWaiting := h.waiting
  rw [front, List.filter_cons_of_pos hType] at hWaiting
  obtain ⟨p, ps, hEq, hHead, hTail⟩ := List.map_eq_cons_iff.mp hWaiting.symm
  exact ⟨p, ps, hEq, hHead.symm, hTail.symm⟩

omit [DecidableEq Pid] in
theorem registrationFront_eq {m : ChatMessage} {rest : List ChatMessage}
    (front : (s.kernel.queues serverMq).fifo.items = m :: rest) :
    s.registrationFront = m.isRegistration := by
  rw [State.registrationFront, front, List.head?_cons, Option.any_some]

omit [DecidableEq Pid] in
/-- A registration is handled without error.  By the condition the name leads
to the client's own queue, and that queue has no entry yet. -/
theorem Accounted.handles (h : Accounted name t) {m : ChatMessage}
    {rest : List ChatMessage} {qd : Nat}
    (front : (t.state.kernel.queues serverMq).fifo.items = m :: rest)
    (hType : m.type = 0) (hRoom : t.state.clients.length < maxClients)
    (hName : t.state.kernel.names m.queueName.str = some qd)
    (hOk : RefersToOwn name t .serverReceive)
    (hItems : (next.kernel.queues serverMq).fifo.items = rest)
    (hProcs : next.procs = t.state.procs) {e : ClientInfo}
    (hEntry : e.dqueue = qd)
    (hClients : next.clients = t.state.clients ++ [e]) :
    Accounted name (t.after next .serverReceive) := by
  have hReg : m.isRegistration = true := decide_eq_true hType
  have hFront : t.state.registrationFront = true :=
    (registrationFront_eq front).trans hReg
  obtain ⟨p, ps, hWaiting, rfl, hRest⟩ := h.front front hReg
  rw [registration_queueName] at hName
  obtain ⟨hOwn, hNone⟩ := hOk hFront hRoom p
    (by rw [hWaiting, List.head?_cons]; rfl) qd hName
  have hGrown : t.state.clients.length < next.clients.length := by
    rw [hClients, List.length_append]
    exact Nat.lt_succ_self _
  have hNew : next.clients.map (·.dqueue) =
      t.state.clients.map (·.dqueue) ++ [qd] := by
    rw [hClients, List.map_append, List.map_singleton, hEntry]
  simp only [Registry.after, if_pos hFront, if_pos hGrown, hWaiting]
  constructor
  · rw [hItems]
    exact hRest
  · intro r hr
    rw [hProcs]
    refine h.registered r ?_
    rw [hWaiting]
    rcases hr with hr | hr
    · exact .inl (List.mem_cons_of_mem p hr)
    · rcases List.mem_append.mp hr with hr | hr
      · exact .inr hr
      · rw [List.mem_singleton.mp hr]
        exact .inl List.mem_cons_self
  · rw [hNew, hProcs, List.map_append, h.table, hOwn]
    rfl
  · rw [hNew]
    refine List.nodup_append.mpr ⟨h.nodup, List.nodup_singleton qd, ?_⟩
    rintro q hq q' hq' rfl
    rw [List.mem_singleton] at hq'
    rw [hq', h.table] at hq
    obtain ⟨r, hr, hSame⟩ := List.mem_map.mp hq
    exact hNone r hr hSame

/-- A message is taken that makes no entry: a chat message, a registration when
the table is full, or one whose name leads nowhere. -/
theorem Accounted.takes (h : Accounted name t) {m : ChatMessage}
    {rest : List ChatMessage}
    (front : (t.state.kernel.queues serverMq).fifo.items = m :: rest)
    (hT : Transition name t.state .serverReceive next)
    (hItems : (next.kernel.queues serverMq).fifo.items = rest)
    (hClients : next.clients = t.state.clients) :
    Accounted name (t.after next .serverReceive) := by
  have hFront := registrationFront_eq front
  by_cases hReg : m.isRegistration = true
  · obtain ⟨p, ps, hWaiting, -, hRest⟩ := h.front front hReg
    have hSame : ¬ t.state.clients.length < next.clients.length := by
      rw [hClients]
      exact Nat.lt_irrefl _
    simp only [Registry.after, if_pos (hFront.trans hReg), if_neg hSame,
      hWaiting]
    constructor
    · rw [hItems]
      exact hRest
    · intro r hr
      refine (hT.registered_mono (h.registered r ?_)).1
      rw [hWaiting]
      exact hr.imp_left (List.mem_cons_of_mem p)
    · rw [hClients, h.table]
      refine List.map_congr_left fun r hr => ?_
      exact (hT.registered_mono (h.registered r (.inr hr))).2.symm
    · rw [hClients]
      exact h.nodup
  · have hNone : ¬ t.state.registrationFront = true := by
      rw [hFront]
      exact hReg
    simp only [Registry.after, if_neg hNone]
    refine h.frame hT ?_ hClients
    rw [hItems, front, List.filter_cons_of_neg hReg]

/-- **One step keeps the account**, if a registration that is handled finds its
client's own queue. -/
theorem Accounted.step (h : Accounted name t) (hD : Descriptors name t.state)
    (hOk : RefersToOwn name t a) (hT : Transition name t.state a next) :
    Accounted name (t.after next a) := by
  cases hT with
  | unlinkOwn p hPhase => exact h.frame (.unlinkOwn p hPhase) rfl rfl
  | openServer p q hPhase hName =>
      exact h.frame (.openServer p q hPhase hName) rfl rfl
  | openFailed p hPhase => exact h.frame (.openFailed p hPhase) rfl rfl
  | unlinkFailed p hPhase => exact h.frame (.unlinkFailed p hPhase) rfl rfl
  | quit p hPhase => exact h.frame (.quit p hPhase) rfl rfl
  | unlinkQuit p hPhase => exact h.frame (.unlinkQuit p hPhase) rfl rfl
  | serverDone m i hServer hEnd =>
      exact h.frame (.serverDone m i hServer hEnd) rfl rfl
  | openOwn p hPhase =>
      refine h.frame (.openOwn p hPhase) ?_ rfl
      rw [setProc_kernel, MqKernel.openCreate_queues _ _ hD.start.1]
  | register p hPhase room => exact h.register (.register p hPhase room)
  | sendChat p input hPhase room =>
      refine h.frame (.sendChat p input hPhase room) ?_ rfl
      rw [setProc_kernel, filter_enter, if_neg fun hReg => by simp at hReg,
        List.append_nil]
  | receive p m rest hPhase front =>
      refine h.frame (.receive p m rest hPhase front) ?_ rfl
      have hNe := (hD.procs p).ownNeServer (by simp [hPhase, Phase.hasQueue])
      rw [setProc_kernel, MqKernel.leave_items, if_neg hNe.symm]
  | serverSend m i e hServer hEntry room =>
      refine h.frame (.serverSend m i e hServer hEntry room) ?_ rfl
      have hNe := hD.entry_ne_serverMq (List.mem_of_getElem? hEntry)
      rw [filter_enter, if_neg fun hSame => hNe hSame.1.symm,
        List.append_nil]
  | registered m rest qd clients hServer front hType hRoom hName hClients =>
      refine h.handles front hType hRoom hName hOk ?_ rfl ?_ hClients
      · rw [MqKernel.leave_items, if_pos rfl]
      · exact clientEntry_dqueue ..
  | chat m rest hServer front hType =>
      refine h.takes front (.chat m rest hServer front hType) ?_ rfl
      rw [MqKernel.leave_items, if_pos rfl]
  | ignored m rest hServer front hType =>
      refine h.takes front (.ignored m rest hServer front hType) ?_ rfl
      rw [MqKernel.leave_items, if_pos rfl]

theorem registryChat_step (hStep : (registryChat name).step t a = some t') :
    ∃ next, Transition name t.state a next ∧ t' = t.after next a := by
  obtain ⟨next, hNext, rfl⟩ := Option.map_eq_some_iff.mp hStep
  exact ⟨next, step_transition hNext, rfl⟩

omit [DecidableEq Pid] in
@[simp] theorem after_state (t : Registry Pid) (next : State Pid)
    (a : Label Pid) : (t.after next a).state = next := by
  cases a with
  | serverReceive =>
      rw [Registry.after]
      split <;> rfl
  | _ => rfl

/-- **Entries.**  In a run in which every registration that the server handles
finds its client's own queue, opened by no client handled before, each running
client has one entry when the registrations are handled. -/
theorem oneEntryEach {as : List (Label Pid)}
    (hOwn : (registryChat name).EachStep (RefersToOwn name)
      ⟨State.start Pid, [], []⟩ as) :
    (registryChat name).EachState OneEntryEach ⟨State.start Pid, [], []⟩
      as := by
  refine Machine.eachState_of_eachStep
    (I := fun t => Descriptors name t.state ∧ Accounted name t) ?_
    (fun t h => h.2.entries)
    ⟨descriptors_start name, accounted_start name⟩ hOwn
  rintro t a t' ⟨hD, h⟩ hOk hStep
  obtain ⟨next, hT, rfl⟩ := registryChat_step hStep
  rw [after_state]
  exact ⟨hD.step hT, h.step hD hOk hT⟩

omit [DecidableEq Pid] in
/-- A name of one's own leads to one's own queue, since nobody else removes it
or opens it. -/
theorem Accounted.refersToOwn (h : Accounted name t)
    (hD : Descriptors name t.state) (hO : Ownership name t.state)
    (hName : Function.Injective fun p => (name p).chars) (a : Label Pid) :
    RefersToOwn name t a := by
  cases a with
  | serverReceive =>
      intro hFront hRoom p hp q hq
      have hWaiting : p ∈ t.waiting := List.mem_of_mem_head? hp
      have hRegistered := h.registered p (.inl hWaiting)
      have hStarted : (t.state.procs p).phase ≠ .notStarted := by
        intro hNot
        simp [hNot, Phase.registered] at hRegistered
      have hOwn := (hO.procs p).named q hq hStarted
      refine ⟨hOwn, fun r hr hSame => ?_⟩
      have hEntry : q ∈ t.state.clients.map (·.dqueue) := by
        rw [h.table, ← hSame]
        exact List.mem_map_of_mem hr
      obtain ⟨e, he, hQueue⟩ := List.mem_map.mp hEntry
      obtain ⟨p', hRegistered', hPath, hMq⟩ := hO.owners e he
      have hp' : p' = p := by
        refine Classical.byContradiction fun hNe => ?_
        exact hD.clientMq_ne hName hNe
          (Phase.hasQueue_of_registered hRegistered')
          (Phase.hasQueue_of_registered hRegistered)
          (hMq.symm.trans (hQueue.trans hOwn))
      have hLeft : (name p).queueName ∈ registrations
          (t.state.kernel.queues serverMq).fifo.left := by
        refine hO.table.subset (List.mem_map.mpr ⟨e, he, ?_⟩)
        rw [hPath, hp']
      have hItem : (name p).queueName ∈ registrations
          (t.state.kernel.queues serverMq).fifo.items := by
        refine List.mem_map.mpr ⟨registration (name p), ?_,
          registration_queueName _⟩
        rw [h.waiting]
        exact List.mem_map_of_mem hWaiting
      have hOnce := hO.once
      rw [← (t.state.kernel.queues serverMq).fifo.conserved,
        registrations_append] at hOnce
      exact (List.nodup_append.mp hOnce).2.2 _ hLeft _ hItem rfl
  | _ => trivial

/-- With different names the condition holds in every run. -/
theorem refersToOwn_of_injective
    (hName : Function.Injective fun p => (name p).chars)
    (h : (registryChat name).Reachable t) :
    RefersToOwn name t a ∧ OneEntryEach t := by
  have hInv : Descriptors name t.state ∧ Ownership name t.state ∧
      Accounted name t := by
    refine h.invariant (I := fun t => Descriptors name t.state ∧
      Ownership name t.state ∧ Accounted name t) ?_ ?_
    · rintro t rfl
      exact ⟨descriptors_start name, ownership_start name,
        accounted_start name⟩
    · rintro t a t' ⟨hD, hO, hA⟩ - hStep
      obtain ⟨next, hT, rfl⟩ := registryChat_step hStep
      rw [after_state]
      exact ⟨hD.step hT, hO.step hD hName hT,
        hA.step hD (hA.refersToOwn hD hO hName a) hT⟩
  obtain ⟨hD, hO, hA⟩ := hInv
  exact ⟨hA.refersToOwn hD hO hName a, hA.entries⟩

end Steps

/-- Users `a` and `b` register one after the other. -/
theorem oneEntryEach_twoNames :
    (registryChat twoNames).EachState OneEntryEach
      ⟨State.start Bool, [], []⟩
      (startUp true ++ startUp false ++
        [.serverReceive, .serverSend, .serverDone, .serverReceive]) :=
  oneEntryEach (by decide)

/-- A second user `a` starts between the registration of the first and its
handling: the entry refers to the queue of the second. -/
theorem entry_of_namesake :
    ¬ ∀ t, (registryChat fun _ : Bool => twoNames true).Reachable t →
      OneEntryEach t := by
  intro hAll
  have hRun : (((registryChat fun _ : Bool => twoNames true).run
      ⟨State.start Bool, [], []⟩
      (startUp true ++ [.unlinkOwn false, .openOwn false,
        .serverReceive])).any fun t =>
          (t.state.procs true).phase = .running &&
            (t.state.procs false).phase = .opened && t.handled = [true] &&
              copies t.state.clients (t.state.procs true).clientMq = 0) =
      true := by
    decide
  obtain ⟨t, hReach, hState⟩ := Machine.exists_reachable_of_run rfl hRun
  simp only [Bool.and_eq_true, decide_eq_true_eq] at hState
  obtain ⟨⟨⟨hFirst, hSecond⟩, hHandled⟩, hNone⟩ := hState
  have hOne := hAll t hReach (fun p hp => ?_) true hFirst
  · rw [hNone] at hOne
    contradiction
  · cases p with
    | true => simp [hHandled]
    | false =>
        rw [hSecond] at hp
        contradiction

end UnixHomework.Ports.MqChat
