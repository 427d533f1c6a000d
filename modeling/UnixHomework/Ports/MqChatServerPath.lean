import UnixHomework.Ports.MqChatNames
import UnixHomework.Verified.Traces

/-!
# The clients' path to the server

A client writes to what `/chat_queue` names when it starts.  That is the
server's queue as long as nobody removes the name.  A client removes its own
queue's name when it starts, and again when it leaves, and its queue is
`/<name>_queue`: the user called `chat` removes the server's.

Without that user every message that a client sends has been received by the
server or waits in the server's queue, and with that user the very first step
of the client's program breaks the path (`reachesServer_iff`).
-/

namespace UnixHomework.Ports.MqChat

open UnixHomework.Verified

/-- The name whose queue is `CHAT_QUEUE`. -/
def serverName : List UInt8 :=
  ascii ['c', 'h', 'a', 't']

section Path

variable {Pid : Type*} (name : Pid → ClientName)

/-- What a step of a client sends to its `server_mq`. -/
def posts : Label Pid → List ChatMessage
  | .register p => [registration (name p)]
  | .sendChat p input => [chatMessage (name p) input]
  | _ => []

/-- The chat with a log of all messages that clients have sent. -/
def postedChat [DecidableEq Pid] :
    Machine (State Pid × List ChatMessage) (Label Pid) :=
  (chatMachine name).logging (posts name)

/-- Every message in the log has been received by the server or waits in its
queue, in the order of sending, and the name leads every client there. -/
structure ReachesServer (s : State Pid) (log : List ChatMessage) : Prop where
  /-- What the clients have sent is what the server's queue has had. -/
  posted : (s.kernel.queues serverMq).fifo.left ++
    (s.kernel.queues serverMq).fifo.items = log
  /-- The name means the server's queue. -/
  path : s.kernel.names chatQueue = some serverMq
  /-- The clients that have opened it have that queue. -/
  descriptors : ∀ p, (s.procs p).phase.hasServer →
    (s.procs p).serverMq = serverMq

end Path

theorem queueName_eq_chatQueue (n : ClientName) :
    n.queueName = chatQueue ↔ n.chars = serverName := by
  have hChat : chatQueue =
      ascii ['/'] ++ serverName ++ ascii ['_', 'q', 'u', 'e', 'u', 'e'] := rfl
  rw [queueName_eq, hChat]
  constructor
  · intro h
    exact List.append_cancel_left (List.append_cancel_right h)
  · intro h
    rw [h]

section Steps

variable {Pid : Type*} [DecidableEq Pid] {name : Pid → ClientName}
  {s next : State Pid} {log : List ChatMessage} {a : Label Pid}

/-- The traffic on the server's queue, one step. -/
theorem ReachesServer.posted_step (h : ReachesServer s log)
    (hD : Descriptors name s) (hT : Transition name s a next) :
    (next.kernel.queues serverMq).fifo.left ++
      (next.kernel.queues serverMq).fifo.items = log ++ posts name a := by
  have hBefore : (s.kernel.queues serverMq).fifo.entered = log :=
    (s.kernel.queues serverMq).fifo.conserved.symm.trans h.posted
  rw [(next.kernel.queues serverMq).fifo.conserved, ← hBefore]
  cases hT with
  | unlinkOwn | unlinkFailed | unlinkQuit | openServer | openFailed | quit
  | serverDone => exact (List.append_nil _).symm
  | openOwn p hPhase =>
      rw [setProc_kernel, MqKernel.openCreate_queues _ _ hD.start.1]
      exact (List.append_nil _).symm
  | receive | registered | chat | ignored =>
      simp only [setProc_kernel, MqKernel.leave_entered]
      exact (List.append_nil _).symm
  | register p hPhase room =>
      have hMq := h.descriptors p (by simp [hPhase, Phase.hasServer])
      rw [setProc_kernel, MqKernel.enter_entered, if_pos hMq.symm]
      rfl
  | sendChat p input hPhase room =>
      have hMq := h.descriptors p (by simp [hPhase, Phase.hasServer])
      rw [setProc_kernel, MqKernel.enter_entered, if_pos hMq.symm]
      rfl
  | serverSend m i e hServer hEntry room =>
      have hNe := hD.entry_ne_serverMq (List.mem_of_getElem? hEntry)
      rw [MqKernel.enter_entered, if_neg hNe.symm]
      exact (List.append_nil _).symm

/-- The name stays, if no client's queue is called so: `mq_unlink` removes only
names of clients, and `mq_open` finds this one taken. -/
theorem ReachesServer.path_step (h : ReachesServer s log)
    (hName : ∀ p, (name p).queueName ≠ chatQueue)
    (hT : Transition name s a next) :
    next.kernel.names chatQueue = some serverMq := by
  cases hT with
  | unlinkOwn p hPhase | unlinkFailed p hPhase | unlinkQuit p hPhase =>
      rw [setProc_kernel, MqKernel.unlink_names_ne _ (hName p).symm]
      exact h.path
  | openOwn p hPhase =>
      rw [setProc_kernel, MqKernel.openCreate_names_ne _ (hName p).symm]
      exact h.path
  | openServer | openFailed | register | sendChat | receive | quit
  | registered | chat | ignored | serverSend | serverDone => exact h.path

theorem ReachesServer.descriptors_step (h : ReachesServer s log)
    (hT : Transition name s a next) :
    ∀ p, (next.procs p).phase.hasServer →
      (next.procs p).serverMq = serverMq := by
  have hMove : ∀ (p : Pid) (c : Proc),
      (c.phase.hasServer → c.serverMq = serverMq) →
      ∀ q, ((s.setProc p c).procs q).phase.hasServer →
        ((s.setProc p c).procs q).serverMq = serverMq := fun p c hSelf =>
    forall_setProc (s := s) (P := fun _ c =>
      c.phase.hasServer → c.serverMq = serverMq) hSelf
      fun q _ => h.descriptors q
  cases hT with
  | openServer p q hPhase hOpened =>
      exact hMove p _ fun _ => Option.some.inj (hOpened.symm.trans h.path)
  | unlinkOwn p hPhase | openOwn p hPhase | openFailed p hPhase
  | unlinkFailed p hPhase =>
      exact hMove p _ fun hServer => by simp [Phase.hasServer] at hServer
  | register p hPhase | sendChat p input hPhase | receive p m rest hPhase
  | quit p hPhase | unlinkQuit p hPhase =>
      refine hMove p _ fun _ => h.descriptors p ?_
      rw [hPhase]
      rfl
  | registered | chat | ignored | serverSend | serverDone =>
      exact h.descriptors

theorem ReachesServer.step (h : ReachesServer s log) (hD : Descriptors name s)
    (hName : ∀ p, (name p).queueName ≠ chatQueue)
    (hT : Transition name s a next) :
    ReachesServer next (log ++ posts name a) where
  posted := h.posted_step hD hT
  path := h.path_step hName hT
  descriptors := h.descriptors_step hT

omit [DecidableEq Pid] in
theorem reachesServer_start : ReachesServer (State.start Pid) [] where
  posted := rfl
  path := rfl
  descriptors p hServer := by
    simp [State.start, Proc.initial, Phase.hasServer] at hServer

/-- **The path to the server.**  In all runs all messages reach the server's
queue, and the name leads there, if and only if no client is called `chat`.
With such a client the first step of its program removes the name. -/
theorem reachesServer_iff (name : Pid → ClientName) :
    (∀ t, (postedChat name).Reachable t → ReachesServer t.1 t.2) ↔
      ∀ p, (name p).chars ≠ serverName := by
  constructor
  · intro hAll p hChat
    have hStart : (postedChat name).Reachable (State.start Pid, []) :=
      .init ⟨rfl, rfl⟩
    have hRemoved := hAll _ (hStart.step (a := .unlinkOwn p) trivial rfl)
    have hPath := hRemoved.path
    rw [setProc_kernel, (queueName_eq_chatQueue _).mpr hChat,
      MqKernel.unlink_names_self] at hPath
    contradiction
  · intro hName t hReach
    have hQueue : ∀ p, (name p).queueName ≠ chatQueue := fun p hp =>
      hName p ((queueName_eq_chatQueue _).mp hp)
    refine (hReach.invariant (I := fun t =>
      Descriptors name t.1 ∧ ReachesServer t.1 t.2) ?_ ?_).2
    · rintro ⟨s, log⟩ hInit
      obtain ⟨rfl, rfl⟩ := hInit
      exact ⟨descriptors_start name, reachesServer_start⟩
    · rintro t a next ⟨hD, h⟩ - hStep
      obtain ⟨hStep, hLog⟩ := (chatMachine name).logging_step_eq_some hStep
      have hT : Transition name t.1 a next.1 := step_transition hStep
      exact ⟨hD.step hT, hLog ▸ h.step hD hQueue hT⟩

end Steps

/-- Users `chat` and `b`. -/
def withNamesake (p : Bool) : ClientName where
  chars := if p then serverName else ascii ['b']
  nonempty := by cases p <;> decide
  short := by cases p <;> decide
  noNul := by cases p <;> decide
  noNewline := by cases p <;> decide

/-- User `chat` starts, and then user `b` registers at the queue of `chat`. -/
theorem registration_misses_server :
    ¬ ∀ t, (postedChat withNamesake).Reachable t →
      ReachesServer t.1 t.2 := by
  intro hAll
  have hRun : (((postedChat withNamesake).run (State.start Bool, [])
      [.unlinkOwn true, .openOwn true, .unlinkOwn false, .openOwn false,
        .openServer false, .register false]).any fun t =>
          t.2.length = 1 && (t.1.kernel.queues serverMq).fifo.left.isEmpty &&
            (t.1.kernel.queues serverMq).fifo.items.isEmpty) = true := by
    decide
  have hStart : (postedChat withNamesake).init (State.start Bool, []) :=
    ⟨rfl, rfl⟩
  obtain ⟨t, hReach, hLost⟩ := Machine.exists_reachable_of_run hStart hRun
  simp only [Bool.and_eq_true, decide_eq_true_eq, List.isEmpty_iff] at hLost
  obtain ⟨⟨hSent, hLeft⟩, hItems⟩ := hLost
  have hPosted := (hAll t hReach).posted
  rw [hLeft, hItems, List.append_nil] at hPosted
  rw [← hPosted] at hSent
  contradiction

end UnixHomework.Ports.MqChat
