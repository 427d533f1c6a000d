import UnixHomework.Ports.DriverDelivery
import UnixHomework.Verified.Traces

/-!
# What `exit` ends

`exit` sends `SIGTERM` to the drivers in the table that are active and have a
descriptor.  The descriptors are set by the handler, in its own copy of the
table; the command line's copy has none (`reachable_detached`).  So `exit`
signals nobody, and the drivers it is meant for are left running
(`exit_signals_all_iff`).

That a driver has been created is read off the processes, and off the run: a
process is there from the `fork` of its `create_driver` on, and the steps of
the drivers, of the handler and of `kill` never make one absent again
(`noneCreated_run_iff`).
-/

namespace UnixHomework.Ports.DriverManager

open UnixHomework.Verified

/-- The pids for which the loop of `exit` calls `kill`: those of the entries
that are active and have a descriptor. -/
def exitKills (drivers : List Driver) : List Int32 :=
  (drivers.filter fun d => d.active && decide (0 ≤ d.sockFd)).map Driver.pid

/-- Every driver process that has been created is sent `SIGTERM` by `exit`,
whether it has connected or not. -/
def ExitSignalsAll (s : State) : Prop :=
  ∀ pid, s.procs pid ≠ .absent → pid ∈ exitKills s.cli.drivers

/-- No driver process has been created. -/
def NoneCreated (s : State) : Prop :=
  ∀ pid, s.procs pid = .absent

/-- The drivers in the table of the command line have been created.  `exit`
calls `kill` for no other pid. -/
def Listed (s : State) : Prop :=
  ∀ d ∈ s.cli.drivers, s.procs d.pid ≠ .absent

/-! ## The processes -/

section Procs

variable (s : State)

@[simp] theorem send_cli (p : Process) (msg : Option (Int × List UInt8)) :
    (s.send p msg).cli = s.cli := by
  unfold State.send
  split
  · rfl
  · split <;> rfl

@[simp] theorem send_procs (p : Process) (msg : Option (Int × List UInt8)) :
    (s.send p msg).procs = s.procs := by
  unfold State.send
  split
  · rfl
  · split <;> rfl

@[simp] theorem answer_procs (c : Nat) (bytes : List UInt8) :
    (s.answer c bytes).procs = s.procs := rfl

@[simp] theorem closeServer_procs (fd : Int) :
    (s.closeServer fd).procs = s.procs := by
  unfold State.closeServer
  split <;> rfl

@[simp] theorem handlePid_procs (fd : Int) (c : Nat) (bytes : List UInt8) :
    (handlePid s fd c bytes).procs = s.procs := by
  unfold handlePid
  split
  · simp
  · dsimp only
    split <;> simp

@[simp] theorem kill_cli (pid : Int32) : (s.kill pid).cli = s.cli := by
  unfold State.kill
  split <;> rfl

/-- `kill` ends a process that there is. -/
theorem kill_procs (pid : Int32) (hCreated : s.procs pid ≠ .absent) :
    (s.kill pid).procs = Function.update s.procs pid .ended := by
  unfold State.kill
  split
  · contradiction
  · rename_i hEnded
    exact (Function.update_eq_self_iff.mpr hEnded.symm).symm
  · rfl
  · rfl
  · rfl
  · rfl

/-- A process changes its phase, but it does not go away. -/
theorem update_absent_iff {procs : Int32 → DriverPhase} {pid : Int32}
    {ph : DriverPhase} (hCreated : procs pid ≠ .absent) (hPhase : ph ≠ .absent)
    (q : Int32) :
    Function.update procs pid ph q = .absent ↔ procs q = .absent := by
  by_cases hSame : q = pid
  · rw [hSame, Function.update_self]
    exact iff_of_false hPhase hCreated
  · rw [Function.update_of_ne hSame]

theorem handleCommand_absent_iff {pid : Int32}
    (hCreated : s.procs pid ≠ .absent) (c : Nat) (chunk : List UInt8)
    (q : Int32) :
    (handleCommand s pid c chunk).procs q = .absent ↔ s.procs q = .absent := by
  unfold handleCommand
  split
  · exact update_absent_iff hCreated (by simp) q
  · exact Iff.rfl
  · exact update_absent_iff hCreated (by simp) q
  · exact Iff.rfl

/-- **The loop of `exit`** leaves the table alone and ends the processes that
it calls `kill` for. -/
theorem exitLoop_spec {drivers : List Driver}
    (hListed : ∀ d ∈ drivers, s.procs d.pid ≠ .absent) :
    (exitLoop s drivers).cli = s.cli ∧
      ∀ pid, (exitLoop s drivers).procs pid =
        if pid ∈ exitKills drivers then .ended else s.procs pid := by
  induction drivers generalizing s with
  | nil => exact ⟨rfl, fun pid => rfl⟩
  | cons d ds ih =>
      have hHead := hListed d List.mem_cons_self
      have hTail := fun d' hd' => hListed d' (List.mem_cons_of_mem d hd')
      rw [exitLoop, exitKills, List.filter_cons]
      split
      · have hProcs := kill_procs (s.send s.cli (sendToDriver d exitCommand))
          d.pid (by rw [send_procs]; exact hHead)
        rw [send_procs] at hProcs
        obtain ⟨hCli, hEnded⟩ := ih
          ((s.send s.cli (sendToDriver d exitCommand)).kill d.pid) (by
            intro d' hd'
            rw [hProcs, Ne, update_absent_iff hHead (by simp)]
            exact hTail d' hd')
        refine ⟨by rw [hCli, kill_cli, send_cli], fun pid => ?_⟩
        rw [hEnded, hProcs, List.map_cons, ← exitKills]
        by_cases hSame : pid = d.pid
        · rw [hSame, Function.update_self, if_pos List.mem_cons_self, ite_self]
        · rw [Function.update_of_ne hSame]
          simp only [List.mem_cons, hSame, false_or]
      · rw [← exitKills]
        exact ih s hTail

end Procs

/-! ## One step -/

/-- The commands that change the table. -/
def Label.changesTable : Label → Bool
  | .createDriver _ | .sendTask .. => true
  | _ => false

/-- The table stays as it is, and nobody is created.  All steps of the drivers
and of the handler are of this kind, because the handler has its own copy. -/
structure LeavesTable (s next : State) : Prop where
  drivers : next.cli.drivers = s.cli.drivers
  absent_iff : ∀ pid, next.procs pid = .absent ↔ s.procs pid = .absent

section Steps

variable {s next : State}

theorem createDriver_eq_some {pid : Int32}
    (hStep : step s (.createDriver (some pid)) = some next) :
    maxDrivers ≤ s.cli.drivers.length ∧ next = s ∨
      s.cli.drivers.length < maxDrivers ∧ s.procs pid = .absent ∧
        0 < pid.toInt ∧
        next.cli.drivers = s.cli.drivers ++ [createDriver pid] ∧
        next.procs = Function.update s.procs pid .connecting := by
  cases step_transition hStep with
  | full _ _ hFull => exact Or.inl ⟨hFull, rfl⟩
  | creates _ _ hRoom hAbsent hPid =>
      exact Or.inr ⟨hRoom, hAbsent, hPid, rfl, rfl⟩

/-- A `fork` that fails changes nothing. -/
theorem createDriver_none (hStep : step s (.createDriver none) = some next) :
    next = s := by
  cases step_transition hStep with
  | full | forkFails => rfl

theorem sendTask_eq_some {pid timer : Int32} {now : Int}
    (hStep : step s (.sendTask pid timer now) = some next) :
    next.cli.drivers = (sendTask s.cli.drivers pid timer now).drivers ∧
      next.procs = s.procs := by
  cases step_transition hStep with
  | sendTask => exact ⟨by rw [send_cli], send_procs _ _ _⟩

/-- All other steps.  `exit` itself is one: it ends processes, and leaves the
table as it is. -/
theorem step_leavesTable (hListed : Listed s) {a : Label}
    (hOther : a.changesTable = false) (hStep : step s a = some next) :
    LeavesTable s next := by
  cases step_transition hStep with
  | full | forkFails | creates | sendTask => contradiction
  | exit =>
      rcases exitLoop_spec s hListed with ⟨hCli, hProcs⟩
      refine ⟨congrArg Process.drivers hCli, fun pid => ?_⟩
      show (exitLoop s s.cli.drivers).procs pid = .absent ↔ _
      rw [hProcs]
      split
      · rename_i hKilled
        rcases List.mem_map.mp hKilled with ⟨d, hd, rfl⟩
        exact iff_of_false (by simp) (hListed d (List.mem_filter.mp hd).1)
      · exact Iff.rfl
  | connect _ hPhase | sendPid _ _ hPhase | finishTask _ _ hPhase
  | recvEnd _ _ _ hPhase =>
      exact ⟨rfl, update_absent_iff (by simp [hPhase]) (by simp)⟩
  | recvCommand pid n c k hPhase =>
      have hCreated : s.procs pid ≠ .absent := by simp [hPhase]
      exact ⟨by rw [handleCommand_cli],
        handleCommand_absent_iff
          { s with
            conns := s.conns.modify c fun k =>
              { k with toDriver := k.toDriver.drop n } } hCreated _ _⟩
  | recvPid =>
      exact ⟨by rw [handlePid_cli], fun q => by rw [handlePid_procs]⟩
  | driverEnd =>
      exact ⟨by rw [closeServer_cli], fun q => by rw [closeServer_procs]⟩
  | endOfInput | accept | driverData => exact ⟨rfl, fun _ => Iff.rfl⟩

theorem sendTask_pid {drivers : List Driver} {pid timer : Int32} {now : Int}
    {d : Driver} (hd : d ∈ (sendTask drivers pid timer now).drivers) :
    ∃ d' ∈ drivers, d'.pid = d.pid := by
  unfold sendTask at hd
  split at hd
  · exact ⟨d, hd, rfl⟩
  · split at hd
    · exact ⟨d, hd, rfl⟩
    · rename_i old hOld
      split at hd
      · exact ⟨d, hd, rfl⟩
      · rcases List.mem_or_eq_of_mem_set hd with hSame | rfl
        · exact ⟨d, hSame, rfl⟩
        · exact ⟨old, List.mem_of_getElem? hOld, rfl⟩

/-- A driver that is created is entered in the table. -/
theorem Listed.append (hListed : Listed s) {pid : Int32}
    (hAbsent : s.procs pid = .absent)
    (hDrivers : next.cli.drivers = s.cli.drivers ++ [createDriver pid])
    (hProcs : next.procs = Function.update s.procs pid .connecting) :
    Listed next := by
  intro d hd
  rw [hProcs]
  rw [hDrivers] at hd
  rcases List.mem_append.mp hd with hOld | hNew
  · have hCreated := hListed d hOld
    have hOther : d.pid ≠ pid :=
      fun hSame => hCreated (hSame.symm ▸ hAbsent)
    rw [Function.update_of_ne hOther]
    exact hCreated
  · rw [List.mem_singleton.mp hNew]
    show Function.update s.procs pid .connecting pid ≠ .absent
    rw [Function.update_self]
    simp

theorem Listed.step (hListed : Listed s) {a : Label}
    (hStep : step s a = some next) : Listed next := by
  cases hTable : a.changesTable with
  | false =>
      rcases step_leavesTable hListed hTable hStep with ⟨hDrivers, hAbsent⟩
      intro d hd
      rw [hDrivers] at hd
      rw [Ne, hAbsent]
      exact hListed d hd
  | true =>
      cases a with
      | createDriver child =>
          cases child with
          | none =>
              rw [createDriver_none hStep]
              exact hListed
          | some pid =>
              rcases createDriver_eq_some hStep with ⟨-, rfl⟩ |
                ⟨-, hAbsent, -, hDrivers, hProcs⟩
              · exact hListed
              · exact hListed.append hAbsent hDrivers hProcs
      | sendTask pid timer now =>
          rcases sendTask_eq_some hStep with ⟨hDrivers, hProcs⟩
          intro d hd
          rw [hDrivers] at hd
          rcases sendTask_pid hd with ⟨d', hd', hPid⟩
          rw [hProcs, ← hPid]
          exact hListed d' hd'
      | _ => contradiction

/-- **One step** creates a driver if it is a `create_driver` whose `fork`
succeeds, unless the table is full, when there are drivers already. -/
theorem noneCreated_step_iff (hListed : Listed s) {a : Label}
    (hStep : step s a = some next) :
    NoneCreated next ↔ NoneCreated s ∧ ∀ pid, a ≠ .createDriver (some pid) := by
  cases hTable : a.changesTable with
  | false =>
      have hOther : ∀ pid, a ≠ .createDriver (some pid) := by
        rintro pid rfl
        contradiction
      have hAbsent := (step_leavesTable hListed hTable hStep).absent_iff
      exact (forall_congr' hAbsent).trans (and_iff_left hOther).symm
  | true =>
      cases a with
      | createDriver child =>
          cases child with
          | none =>
              rw [createDriver_none hStep]
              exact (and_iff_left fun pid => by simp).symm
          | some pid =>
              refine iff_of_false (fun hNone => ?_) fun h => h.2 pid rfl
              rcases createDriver_eq_some hStep with ⟨hFull, rfl⟩ |
                ⟨-, -, -, -, hProcs⟩
              · have hEntry : 0 < next.cli.drivers.length :=
                  Nat.lt_of_lt_of_le (by decide) hFull
                exact hListed _ (List.getElem_mem hEntry) (hNone _)
              · have hPhase := hNone pid
                rw [hProcs, Function.update_self] at hPhase
                contradiction
      | sendTask pid timer now =>
          rcases sendTask_eq_some hStep with ⟨-, hProcs⟩
          rw [NoneCreated, hProcs]
          exact (and_iff_left nofun).symm
      | _ => contradiction

end Steps

/-! ## Whole runs -/

theorem noneCreated_run_iff {s last : State} (hListed : Listed s)
    {as : List Label} (hRun : driverManager.run s as = some last) :
    NoneCreated last ↔
      NoneCreated s ∧ ∀ pid, .createDriver (some pid) ∉ as := by
  induction as generalizing s with
  | nil =>
      obtain rfl := Option.some.inj hRun
      exact (and_iff_left fun pid => List.not_mem_nil).symm
  | cons a as ih =>
      rcases Machine.run_cons_eq_some hRun with ⟨next, hStep, hRest⟩
      have hOne := noneCreated_step_iff hListed hStep
      rw [ih (hListed.step hStep) hRest, hOne, and_assoc]
      apply and_congr_right
      intro _
      rw [← forall_and]
      apply forall_congr'
      intro pid
      rw [List.mem_cons, not_or, ne_comm]

/-- **Exactly when `exit` leaves no driver running**: when no driver process
has been created, because no `create_driver` was given or each `fork` in one
failed.  The table of the command line never has a descriptor, so its loop
calls `kill` for nobody. -/
theorem exit_signals_all_iff {s : State} {as : List Label}
    (hRun : driverManager.run State.start as = some s) :
    ExitSignalsAll s ↔ ∀ pid, .createDriver (some pid) ∉ as := by
  have hDetached :=
    reachable_detached (Machine.reachable_of_run (s := State.start) rfl hRun)
  have hKills : exitKills s.cli.drivers = [] := by
    rw [exitKills, List.map_eq_nil_iff, List.filter_eq_nil_iff]
    intro d hd
    simp [hDetached.socks d hd]
  have hNone : ExitSignalsAll s ↔ NoneCreated s := by
    rw [ExitSignalsAll, hKills]
    apply forall_congr'
    intro pid
    rw [iff_false_intro List.not_mem_nil]
    exact not_ne_iff
  have hListed : Listed State.start := nofun
  rw [hNone, noneCreated_run_iff hListed hRun]
  exact and_iff_right fun _ => rfl

/-- A `fork` fails; then driver 7 is created, connects and sends its pid. -/
def announcedRun : List Label :=
  [.createDriver none, .createDriver (some 7), .connect 7, .sendPid 7]

/-- `exit` leaves it running. -/
theorem driver_survives_exit :
    ∃ s, driverManager.Reachable s ∧ ¬ExitSignalsAll s ∧
      (step s .exit).map (fun t => t.procs 7) = some (.running 0) := by
  have hRun : (driverManager.run State.start announcedRun).any (fun s =>
      decide (s.procs 7 ≠ .absent ∧ exitKills s.cli.drivers = [] ∧
        (step s .exit).map (fun t => t.procs 7) = some (.running 0))) =
      true := by
    decide +kernel
  rcases Machine.exists_reachable_of_run rfl hRun with ⟨s, hReach, hEnd⟩
  rcases of_decide_eq_true hEnd with ⟨hCreated, hKills, hRuns⟩
  refine ⟨s, hReach, fun hAll => ?_, hRuns⟩
  have hKilled := hAll 7 hCreated
  rw [hKills] at hKilled
  exact List.not_mem_nil hKilled

theorem exit_signals_all_iff_announced :
    ∃ s, driverManager.run State.start announcedRun = some s ∧
      (ExitSignalsAll s ↔
        ∀ pid, .createDriver (some pid) ∉ announcedRun) := by
  have hDefined : (driverManager.run State.start announcedRun).isSome =
      true := by
    decide +kernel
  rcases Option.isSome_iff_exists.mp hDefined with ⟨s, hRun⟩
  exact ⟨s, hRun, exit_signals_all_iff hRun⟩

end UnixHomework.Ports.DriverManager
