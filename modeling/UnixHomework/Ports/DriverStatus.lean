import UnixHomework.Ports.DriverTasks

/-!
# What the driver manager says about its drivers

`get_status` and `get_drivers` read the two fields that `send_task` keeps, at a
time of their own.  What they print is the truth about the tasks accepted:
a driver is busy exactly while one of its tasks runs, and the seconds shown
are those that this task still takes (`status_truthful`).

The two fields are a timer and an end time, and the clock is read anew for each
command, so the statement is about any later time: the entry of a driver has
the last task that was accepted for it, or none.  A second task is refused as
long as the first one runs, and so there is one that runs at most.
-/

namespace UnixHomework.Ports.DriverManager

open UnixHomework.Verified

/-- A line of `print_driver_status`. -/
inductive Status where
  | busy (pid remaining : Int32)
  | available (pid : Int32)
  deriving DecidableEq

/-- `print_driver_status`: busy with the seconds that are left, or available.
The test is that of `send_task`. -/
def printDriverStatus (d : Driver) (now : Int) : Status :=
  if 0 < d.taskTimer.toInt ∧ now < d.taskEndTime then
    .busy d.pid (Int32.ofInt (d.taskEndTime - now))
  else .available d.pid

/-- `get_status`; `none` is the error that the driver is not found. -/
def getStatus (drivers : List Driver) (pid : Int32) (now : Int) :
    Option Status :=
  match findDriver drivers pid with
  | none => none
  | some index => drivers[index]?.map fun d => printDriverStatus d now

/-- `print_all_drivers` with the clock readings of its loop; `none` is the
message that there are no drivers. -/
def printAllDrivers (drivers : List Driver) (now : Nat → Int) :
    Option (List Status) :=
  if drivers.length = 0 then none
  else some ((drivers.zipIdx.filter fun d => d.1.active).map fun d =>
    printDriverStatus d.1 (now d.2))

/-- The status that the tasks accepted of a driver give at a time.  It speaks
of the tasks alone, not of the fields that the table keeps. -/
def IsStatus (accepted : List Task) (pid : Int32) (now : Int) :
    Status → Prop
  | .busy p remaining => p = pid ∧ ∃ t ∈ accepted, t.pid = pid ∧
      now ∈ t.interval ∧ remaining.toInt = t.start + t.timer.toInt - now
  | .available p => p = pid ∧ ∀ t ∈ accepted, t.pid = pid →
      now ∉ t.interval

/-! ## The fields -/

/-- A timer that is set belongs to a task that was accepted, and the end is
that of this task. -/
def FieldsOfTasks (s : CommandLine) : Prop :=
  ∀ d ∈ s.drivers, 0 < d.taskTimer.toInt → ∃ t ∈ s.accepted,
    t.pid = d.pid ∧ d.taskTimer = t.timer ∧
      d.taskEndTime = t.start + t.timer.toInt

section Fields

variable {s next : CommandLine} {pid timer : Int32} {now : Int}

theorem FieldsOfTasks.accepts (h : FieldsOfTasks s) (hBooked : Booked s)
    {d : Driver} {i : Nat} (hEntry : s.drivers[i]? = some d)
    (hPid : d.pid = pid) :
    FieldsOfTasks
      { drivers := s.drivers.modify i (Driver.withTask timer now)
        clock := some now
        accepted := s.accepted ++ [⟨pid, timer, now⟩] } := by
  intro d' hd' hTimer
  rcases mem_modify_key_cases hBooked.once hEntry hd' with rfl | ⟨hOld, -⟩
  · exact ⟨⟨pid, timer, now⟩,
      List.mem_append_right _ (List.mem_singleton_self _), hPid.symm, rfl,
      rfl⟩
  · obtain ⟨t, ht, hFields⟩ := h d' hOld hTimer
    exact ⟨t, List.mem_append_left _ ht, hFields⟩

/-- **The fields are those of tasks** after every command: a task that is
accepted overwrites both, and nothing else writes to them. -/
theorem FieldsOfTasks.step (h : FieldsOfTasks s) (hBooked : Booked s)
    {c : CliCommand} (hStep : cliStep s c = some next) :
    FieldsOfTasks next := by
  cases c with
  | createDriver pid =>
      cases pid with
      | none =>
          obtain rfl := Option.some.inj hStep
          exact h
      | some pid =>
          rw [cliStep] at hStep
          split at hStep
          · obtain rfl := Option.some.inj hStep
            exact h
          · rcases Option.ite_none_right_eq_some.mp hStep with ⟨-, hNext⟩
            obtain rfl := Option.some.inj hNext
            intro d hd hTimer
            rcases List.mem_append.mp hd with hOld | hNew
            · exact h d hOld hTimer
            · rw [List.mem_singleton.mp hNew] at hTimer
              exact absurd hTimer (by simp [createDriver])
  | sendTask pid timer now =>
      rcases Option.ite_none_right_eq_some.mp hStep with ⟨-, hNext⟩
      obtain rfl := Option.some.inj hNext
      by_cases hKnown : ∃ d ∈ s.drivers, d.pid = pid
      · rcases hKnown with ⟨d, hd, hPid⟩
        rcases sendTask_of_mem timer now hd (hBooked.active d hd) hPid
            hBooked.once with ⟨-, hTask⟩ | ⟨-, i, hEntry, hTask⟩
        · rw [hTask]
          exact h
        · rw [hTask]
          exact h.accepts hBooked hEntry hPid
      · rw [sendTask_of_unknown fun d hd hPid => hKnown ⟨d, hd, hPid⟩]
        exact h

end Fields

theorem commandLine_fields {s : CommandLine} (h : commandLine.Reachable s) :
    Booked s ∧ FieldsOfTasks s := by
  apply h.invariant (I := fun s => Booked s ∧ FieldsOfTasks s)
  · rintro start rfl
    refine ⟨booked_start, ?_⟩
    intro d hd
    contradiction
  · rintro s c next ⟨hBooked, hFields⟩ - hStep
    exact ⟨hBooked.step hStep, hFields.step hBooked hStep⟩

/-! ## What is printed -/

section Printed

variable {s : CommandLine} {now : Int}

theorem printDriverStatus_of_busy {d : Driver} (h : d.Busy now) :
    printDriverStatus d now =
      .busy d.pid (Int32.ofInt (d.taskEndTime - now)) :=
  if_pos h

theorem printDriverStatus_of_free {d : Driver} (h : ¬d.Busy now) :
    printDriverStatus d now = .available d.pid :=
  if_neg h

/-- The remaining seconds fit an `int`: they are part of a timer. -/
theorem toInt_remaining {d : Driver} {t : Task} (h : d.Busy now)
    (hEnd : d.taskEndTime = t.start + t.timer.toInt) (hStart : t.start ≤ now) :
    (Int32.ofInt (d.taskEndTime - now)).toInt =
      t.start + t.timer.toInt - now := by
  have hTimer := t.timer.toInt_lt
  have hPos := h.2
  rw [Int32.toInt_ofInt_of_le, hEnd]
  · rw [hEnd] at hPos ⊢
    omega
  · rw [hEnd]
    omega

theorem printDriverStatus_isStatus (hBooked : Booked s)
    (hFields : FieldsOfTasks s) (hLater : s.Later now) {d : Driver}
    (hd : d ∈ s.drivers) :
    IsStatus s.accepted d.pid now (printDriverStatus d now) := by
  by_cases hBusy : d.Busy now
  · rw [printDriverStatus_of_busy hBusy]
    obtain ⟨t, ht, hPid, -, hEnd⟩ := hFields d hd hBusy.1
    have hStart := hBooked.started t ht now hLater
    refine ⟨rfl, t, ht, hPid, ⟨hStart, ?_⟩, toInt_remaining hBusy hEnd hStart⟩
    rw [← hEnd]
    exact hBusy.2
  · rw [printDriverStatus_of_free hBusy]
    refine ⟨rfl, ?_⟩
    intro t ht hPid hIn
    apply hBusy
    rw [hBooked.busy_iff d hd now hLater]
    exact ⟨t, ht, hPid, hIn⟩

/-- **The status is the truth.**  After any commands, at any later time,
`get_status` finds exactly the drivers that were created, and says of such a
driver that it is busy exactly while one of the tasks accepted for it runs,
with the seconds that this task still takes; `send_task` refuses a task
exactly when `get_status` says busy, with the same number; and `get_drivers`
has one such line for each driver, in the order of their creation. -/
theorem status_truthful (h : commandLine.Reachable s) :
    (∀ pid now, s.Later now →
      (getStatus s.drivers pid now = none ↔ ∀ d ∈ s.drivers, d.pid ≠ pid) ∧
      (∀ status, getStatus s.drivers pid now = some status →
        IsStatus s.accepted pid now status) ∧
      ∀ timer remaining,
        (sendTask s.drivers pid timer now).reply = .busy remaining ↔
          getStatus s.drivers pid now = some (.busy pid remaining)) ∧
    ∀ now : Nat → Int, (∀ i, s.Later (now i)) → s.drivers ≠ [] →
      ∃ shown, printAllDrivers s.drivers now = some shown ∧
        List.Forall₂ (fun (d : Driver × Nat) status =>
          IsStatus s.accepted d.1.pid (now d.2) status)
          s.drivers.zipIdx shown := by
  obtain ⟨hBooked, hFields⟩ := commandLine_fields h
  constructor
  · intro pid now hLater
    by_cases hKnown : ∃ d ∈ s.drivers, d.pid = pid
    · rcases hKnown with ⟨d, hd, rfl⟩
      obtain ⟨i, hFind, hEntry⟩ :=
        findDriver_of_mem hd (hBooked.active d hd) rfl hBooked.once
      have hStatus : getStatus s.drivers d.pid now =
          some (printDriverStatus d now) := by
        rw [getStatus, hFind]
        simp only [hEntry, Option.map_some]
      refine ⟨?_, ?_, ?_⟩
      · rw [hStatus]
        exact iff_of_false (by simp) fun hNone => hNone d hd rfl
      · intro status hSome
        rw [hStatus] at hSome
        rw [← Option.some.inj hSome]
        exact printDriverStatus_isStatus hBooked hFields hLater hd
      · intro timer remaining
        rw [hStatus]
        rcases sendTask_of_mem timer now hd (hBooked.active d hd) rfl
            hBooked.once with ⟨hBusy, hTask⟩ | ⟨hFree, i, -, hTask⟩
        · rw [hTask, printDriverStatus_of_busy hBusy]
          simp
        · rw [hTask, printDriverStatus_of_free hFree]
          simp
    · have hUnknown : ∀ d ∈ s.drivers, d.pid ≠ pid :=
        fun d hd hPid => hKnown ⟨d, hd, hPid⟩
      have hNone : findDriver s.drivers pid = none := by
        rw [findDriver, List.findIdx?_eq_none_iff]
        intro d hd
        simp [hUnknown d hd]
      have hStatus : getStatus s.drivers pid now = none := by
        rw [getStatus, hNone]
      refine ⟨iff_of_true hStatus hUnknown, ?_, ?_⟩
      · intro status hSome
        rw [hStatus] at hSome
        contradiction
      · intro timer remaining
        rw [hStatus, sendTask_of_unknown hUnknown]
        simp
  · intro now hLater hSome
    have hAll : s.drivers.zipIdx.filter (fun d => d.1.active) =
        s.drivers.zipIdx := by
      rw [List.filter_eq_self]
      intro d hd
      exact hBooked.active d.1 (List.fst_mem_of_mem_zipIdx hd)
    refine ⟨_, if_neg fun hZero => hSome (List.length_eq_zero_iff.mp hZero),
      ?_⟩
    rw [hAll, List.forall₂_map_right_iff, List.forall₂_same]
    intro d hd
    exact printDriverStatus_isStatus hBooked hFields (hLater d.2)
      (List.fst_mem_of_mem_zipIdx hd)

end Printed

/-- A task of fifteen seconds, after three of them. -/
theorem status_truthful_busy : ∃ s, commandLine.Reachable s ∧
    getStatus s.drivers 7 103 = some (.busy 7 12) ∧
      IsStatus s.accepted 7 103 (.busy 7 12) := by
  have hRun : (commandLine.run ⟨[], none, []⟩
      [.createDriver (some 5), .createDriver (some 7),
        .sendTask 7 15 100]).any (fun s =>
      decide (getStatus s.drivers 7 103 = some (.busy 7 12) ∧
        s.clock = some 100)) = true := by
    decide +kernel
  rcases Machine.exists_reachable_of_run rfl hRun with ⟨s, hReach, hEnd⟩
  rcases of_decide_eq_true hEnd with ⟨hStatus, hClock⟩
  have hLater : s.Later 103 := by
    intro last hLast
    obtain rfl : 100 = last := Option.some.inj (hClock.symm.trans hLast)
    decide
  exact ⟨s, hReach, hStatus,
    ((status_truthful hReach).1 7 103 hLater).2.1 _ hStatus⟩

end UnixHomework.Ports.DriverManager
