import UnixHomework.Ports.DriverManager

/-!
# Where the driver manager's tasks go

`send_task` sends on the descriptor that its own process has for the driver.
That descriptor is set by the handler, in the handler's copy of the table; the
command line's copy says `-1` from the entry's creation on
(`reachable_detached`).  So no run writes anything to a driver: a task is
announced and timed, and not sent (`delivers_iff`).

That a driver has announced itself is a matter of the run, not of the state it
leads to.  The handler knows no driver, closes the connection of every one that
sends its pid, and thereby ends it; the entry in the command line's table stays
active, and `send_task` goes on to report success for it.
-/

namespace UnixHomework.Ports.DriverManager

open UnixHomework.Verified

/-- In this run the driver has connected and has sent its pid, whatever has
become of it since. -/
def Announced (as : List Label) (pid : Int32) : Prop :=
  .sendPid pid ∈ as

/-- Between two states the task was written to a connection of the driver, and
nothing else was written. -/
def TaskWritten (s next : State) (pid timer : Int32) : Prop :=
  ∃ c k, s.conns[c]? = some k ∧ k.driver = pid ∧
    next.written = s.written ++ [(c, taskCommand timer)]

/-- What is asked of a `send_task` command after a run: if its driver has
announced itself and success is reported, the task has been written to the
driver. -/
def Delivers (as : List Label) (s : State) (pid timer : Int32) (now : Int) :
    Prop :=
  Announced as pid → (sendTask s.cli.drivers pid timer now).reply = .sent →
    ∀ next, step s (.sendTask pid timer now) = some next →
      TaskWritten s next pid timer

/-- The command line knows no descriptor of a driver and has written
nothing. -/
structure Detached (s : State) : Prop where
  /-- An entry is made with `-1`, and only the handler sets it otherwise, in its
  own copy. -/
  socks : ∀ d ∈ s.cli.drivers, d.sockFd = -1
  /-- So nothing has been written by the command line. -/
  written : s.written = []

/-! ## What the other processes leave alone -/

section Frame

variable (s : State)

@[simp] theorem answer_cli (c : Nat) (bytes : List UInt8) :
    (s.answer c bytes).cli = s.cli := rfl

@[simp] theorem answer_written (c : Nat) (bytes : List UInt8) :
    (s.answer c bytes).written = s.written := rfl

@[simp] theorem setPhase_cli (pid : Int32) (ph : DriverPhase) :
    (s.setPhase pid ph).cli = s.cli := rfl

@[simp] theorem setPhase_written (pid : Int32) (ph : DriverPhase) :
    (s.setPhase pid ph).written = s.written := rfl

@[simp] theorem closeDriver_cli (pid : Int32) (c : Nat) :
    (s.closeDriver pid c).cli = s.cli := rfl

@[simp] theorem closeDriver_written (pid : Int32) (c : Nat) :
    (s.closeDriver pid c).written = s.written := rfl

@[simp] theorem closeServer_cli (fd : Int) :
    (s.closeServer fd).cli = s.cli := by
  unfold State.closeServer
  split <;> rfl

@[simp] theorem closeServer_written (fd : Int) :
    (s.closeServer fd).written = s.written := by
  unfold State.closeServer
  split <;> rfl

@[simp] theorem handleCommand_cli (pid : Int32) (c : Nat)
    (chunk : List UInt8) : (handleCommand s pid c chunk).cli = s.cli := by
  unfold handleCommand
  split <;> simp

@[simp] theorem handleCommand_written (pid : Int32) (c : Nat)
    (chunk : List UInt8) :
    (handleCommand s pid c chunk).written = s.written := by
  unfold handleCommand
  split <;> simp

@[simp] theorem handlePid_cli (fd : Int) (c : Nat) (bytes : List UInt8) :
    (handlePid s fd c bytes).cli = s.cli := by
  unfold handlePid
  split
  · simp
  · dsimp only
    split <;> simp

@[simp] theorem handlePid_written (fd : Int) (c : Nat) (bytes : List UInt8) :
    (handlePid s fd c bytes).written = s.written := by
  unfold handlePid
  split
  · simp
  · dsimp only
    split <;> simp

end Frame

/-! ## Commands without a descriptor -/

theorem sendToDriver_detached {d : Driver} (h : d.sockFd = -1)
    (cmd : List UInt8) : sendToDriver d cmd = none := by
  rw [sendToDriver, h, if_neg (by decide)]

theorem sendTask_detached {drivers : List Driver}
    (h : ∀ d ∈ drivers, d.sockFd = -1) (pid timer : Int32) (now : Int) :
    (sendTask drivers pid timer now).send = none ∧
      ∀ d ∈ (sendTask drivers pid timer now).drivers, d.sockFd = -1 := by
  unfold sendTask
  split
  · exact ⟨rfl, h⟩
  · rename_i index hFind
    split
    · exact ⟨rfl, h⟩
    · rename_i d hd
      have hSock := h d (List.mem_of_getElem? hd)
      split
      · exact ⟨rfl, h⟩
      · refine ⟨sendToDriver_detached hSock _, ?_⟩
        intro d' hd'
        rcases List.mem_or_eq_of_mem_set hd' with hOld | rfl
        · exact h d' hOld
        · exact hSock

theorem exitLoop_detached (s : State) {drivers : List Driver}
    (h : ∀ d ∈ drivers, d.sockFd = -1) : exitLoop s drivers = s := by
  induction drivers with
  | nil => rfl
  | cons d ds ih =>
      have hd := h d List.mem_cons_self
      rw [exitLoop, hd, if_neg (by simp)]
      exact ih fun d' hd' => h d' (List.mem_cons_of_mem _ hd')

/-! ## Every run -/

theorem Detached.frame {s next : State} (h : Detached s)
    (hCli : next.cli = s.cli) (hWritten : next.written = s.written) :
    Detached next where
  socks := by
    rw [hCli]
    exact h.socks
  written := hWritten.trans h.written

theorem Detached.step {s next : State} {a : Label} (h : Detached s)
    (hStep : step s a = some next) : Detached next := by
  cases step_transition hStep with
  | full | forkFails => exact h
  | creates pid =>
      refine ⟨?_, h.written⟩
      intro d hd
      rcases List.mem_append.mp hd with hd | hd
      · exact h.socks d hd
      · rw [List.mem_singleton.mp hd]
        rfl
  | sendTask pid timer now =>
      have hTask := sendTask_detached h.socks pid timer now
      rw [hTask.1]
      exact ⟨hTask.2, h.written⟩
  | exit =>
      rw [exitLoop_detached s h.socks]
      exact h.frame rfl rfl
  | recvCommand pid n c k =>
      exact h.frame (handleCommand_cli _ _ _ _)
        (handleCommand_written _ _ _ _)
  | recvPid fd c k =>
      exact h.frame (handlePid_cli _ _ _ _) (handlePid_written _ _ _ _)
  | driverEnd fd =>
      exact h.frame (closeServer_cli _ _) (closeServer_written _ _)
  | endOfInput | connect | sendPid | finishTask | recvEnd | accept
  | driverData => exact h.frame rfl rfl

theorem reachable_detached {s : State} (h : driverManager.Reachable s) :
    Detached s := by
  refine h.invariant (I := Detached) ?_ ?_
  · intro s h0
    obtain rfl : s = State.start := h0
    exact ⟨nofun, rfl⟩
  · intro s a next hI _ hStep
    exact hI.step hStep

theorem Detached.not_taskWritten {s next : State} {a : Label} (h : Detached s)
    (hStep : DriverManager.step s a = some next) (pid timer : Int32) :
    ¬TaskWritten s next pid timer := by
  rintro ⟨c, k, -, -, hWritten⟩
  rw [(h.step hStep).written] at hWritten
  exact absurd hWritten.symm (by simp)

/-- **No task is ever delivered.**  After every run `send_task` does what is
asked of it only where nothing is asked: for a driver that has not announced
itself, or by refusing the command. -/
theorem delivers_iff {as : List Label} {s : State}
    (hRun : driverManager.run State.start as = some s) (pid timer : Int32)
    (now : Int) :
    Delivers as s pid timer now ↔ ¬(s.cliRunning = true ∧ Announced as pid ∧
      (sendTask s.cli.drivers pid timer now).reply = .sent) := by
  have hDetached :=
    reachable_detached (Machine.reachable_of_run (s := State.start) rfl hRun)
  constructor
  · rintro hDelivers ⟨hRunning, hDriver, hSent⟩
    have hStep : ∃ next, step s (.sendTask pid timer now) = some next := by
      simp [step, hRunning]
    rcases hStep with ⟨next, hStep⟩
    exact hDetached.not_taskWritten hStep pid timer
      (hDelivers hDriver hSent next hStep)
  · intro hNot hDriver hSent next hStep
    have hRunning : s.cliRunning = true := by
      by_contra hEnded
      simp [step, hEnded] at hStep
    exact absurd ⟨hRunning, hDriver, hSent⟩ hNot

/-- Driver 7 is created, connects and sends its pid; its connection is
accepted, and closed since the handler does not know the pid; and so the driver
ends. -/
def rejectedRun : List Label :=
  [.createDriver (some 7), .connect 7, .sendPid 7, .accept 5, .recvPid,
    .recvEnd 7]

theorem rejectedRun_end : ∃ s, driverManager.run State.start rejectedRun =
    some s ∧ s.cliRunning = true ∧ s.procs 7 = .ended ∧
      (sendTask s.cli.drivers 7 5 100).reply = .sent := by
  have hRun : (driverManager.run State.start rejectedRun).any (fun s => decide
      (s.cliRunning = true ∧ s.procs 7 = .ended ∧
        (sendTask s.cli.drivers 7 5 100).reply = .sent)) = true := by
    decide +kernel
  rcases (Option.any_eq_true_iff_get _ _).mp hRun with ⟨hSome, hState⟩
  exact ⟨_, (Option.some_get hSome).symm, of_decide_eq_true hState⟩

theorem delivers_iff_rejected : ∃ s, Announced rejectedRun 7 ∧
    (sendTask s.cli.drivers 7 5 100).reply = .sent ∧
      ¬Delivers rejectedRun s 7 5 100 := by
  rcases rejectedRun_end with ⟨s, hRun, hRunning, -, hSent⟩
  have hDriver : Announced rejectedRun 7 := by
    rw [Announced, rejectedRun]
    simp
  refine ⟨s, hDriver, hSent, ?_⟩
  rw [delivers_iff hRun]
  exact not_not_intro ⟨hRunning, hDriver, hSent⟩

/-- For driver 7 in its loop success is reported, and nothing is written. -/
theorem task_not_delivered :
    ¬∀ as s, driverManager.run State.start as = some s →
      ∀ pid timer now, Delivers as s pid timer now := by
  intro hAll
  have hEnd : (driverManager.run State.start
      [.createDriver (some 7), .connect 7, .sendPid 7]).any (fun s =>
        decide ((sendTask s.cli.drivers 7 5 100).reply = .sent) &&
          (step s (.sendTask 7 5 100)).any fun t =>
            decide (t.written = [])) = true := by
    decide +kernel
  rcases (Option.any_eq_true_iff_get _ _).mp hEnd with ⟨hSome, hEnd⟩
  rcases Bool.and_eq_true_iff.mp hEnd with ⟨hSent, hNext⟩
  rcases (Option.any_eq_true_iff_get _ _).mp hNext with ⟨hStep, hNone⟩
  rcases hAll _ _ (Option.some_get hSome).symm 7 5 100 (by simp [Announced])
    (of_decide_eq_true hSent) _ (Option.some_get hStep).symm with
    ⟨c, k, -, -, hWritten⟩
  rw [of_decide_eq_true hNone] at hWritten
  exact List.concat_ne_nil _ _ hWritten.symm

end UnixHomework.Ports.DriverManager
