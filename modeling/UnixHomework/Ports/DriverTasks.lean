import UnixHomework.Ports.DriverShutdown
import UnixHomework.Verified.Table
import UnixHomework.Verified.Traces
import Mathlib.Data.List.Nodup
import Mathlib.Order.Interval.Set.Disjoint
import Mathlib.Order.CompletePartialOrder

/-!
# When a driver is busy

`send_task` keeps two fields of a driver, `task_timer` and `task_end_time`, and
overwrites both with every task that it accepts, also one with a timer that is
not positive.  It refuses a task while the clock is before `task_end_time`.

Here the command line runs alone, with the clock readings that its commands
take and a record of the tasks accepted; it is the command line of the whole
system (`commandLine_of_driverManager`).  The two fields say about any later
time what the whole record says (`Booked.busy_iff`), so the tasks of a driver
never overlap (`tasks_never_overlap`).
-/

namespace UnixHomework.Ports.DriverManager

open UnixHomework.Verified

/-- A task that has been accepted. -/
structure Task where
  /-- The driver that has the task, -/
  pid : Int32
  /-- its seconds, -/
  timer : Int32
  /-- and the clock when it was accepted. -/
  start : Int

/-- The time that it takes; none if the timer is not positive. -/
def Task.interval (t : Task) : Set Int :=
  {now | t.start ≤ now ∧ now < t.start + t.timer.toInt}

/-- The table, the last reading of the clock, if any, and the tasks accepted.
The record of the tasks is not in the program. -/
structure CommandLine where
  drivers : List Driver
  clock : Option Int
  accepted : List Task

/-- A command, with what `fork` or `time` returns in it.  `none` is a `fork`
that fails. -/
inductive CliCommand where
  | createDriver (pid : Option Int32)
  | sendTask (pid timer : Int32) (now : Int)

/-- The time is not before the last reading. -/
def CommandLine.Later (s : CommandLine) (now : Int) : Prop :=
  ∀ last, s.clock = some last → last ≤ now

instance (s : CommandLine) (now : Int) : Decidable (s.Later now) :=
  match h : s.clock with
  | none => .isTrue (by simp [CommandLine.Later, h])
  | some last => decidable_of_iff (last ≤ now) (by simp [CommandLine.Later, h])

/-- One command.  `fork` returns a pid that is not in the table, and the clock
is not set back. -/
def cliStep (s : CommandLine) : CliCommand → Option CommandLine
  | .createDriver none => some s
  | .createDriver (some pid) =>
      if maxDrivers ≤ s.drivers.length then some s
      else if 0 < pid.toInt ∧ ∀ d ∈ s.drivers, d.pid ≠ pid then
        some { s with drivers := s.drivers ++ [createDriver pid] }
      else none
  | .sendTask pid timer now =>
      if s.Later now then
        let r := sendTask s.drivers pid timer now
        some
          { drivers := r.drivers
            clock := some now
            accepted :=
              if r.reply = .sent then s.accepted ++ [⟨pid, timer, now⟩]
              else s.accepted }
      else none

/-- The command line by itself, from an empty table. -/
def commandLine : Machine CommandLine CliCommand where
  init s := s = ⟨[], none, []⟩
  step := cliStep

/-- The test of `send_task`, which takes a timer that is not positive for
none. -/
def Driver.Busy (d : Driver) (now : Int) : Prop :=
  0 < d.taskTimer.toInt ∧ now < d.taskEndTime

/-- The entry, when `send_task` has accepted a task. -/
def Driver.withTask (timer : Int32) (now : Int) (d : Driver) : Driver :=
  { d with
    taskTimer := timer
    taskEndTime := now + timer.toInt }

/-! ## One command -/

section SendTask

variable {drivers : List Driver} {pid : Int32}

/-- The driver is not in the table. -/
theorem sendTask_of_unknown (h : ∀ d ∈ drivers, d.pid ≠ pid)
    (timer : Int32) (now : Int) :
    sendTask drivers pid timer now = ⟨drivers, .notFound, none⟩ := by
  have hNone : findDriver drivers pid = none := by
    rw [findDriver, List.findIdx?_eq_none_iff]
    intro d hd
    simp [h d hd]
  rw [sendTask, hNone]

/-- The driver is in the table. -/
theorem findDriver_of_mem {d : Driver} (hd : d ∈ drivers)
    (hActive : d.active = true) (hPid : d.pid = pid)
    (hOnce : (drivers.map Driver.pid).Nodup) :
    ∃ i, findDriver drivers pid = some i ∧ drivers[i]? = some d := by
  have hFound : (findDriver drivers pid).isSome = true := by
    rw [findDriver, List.findIdx?_isSome, List.any_eq_true]
    exact ⟨d, hd, by simp [hActive, hPid]⟩
  rcases Option.isSome_iff_exists.mp hFound with ⟨i, hi⟩
  rcases List.findIdx?_eq_some_iff_getElem.mp hi with ⟨hLength, hEntry, -⟩
  simp only [Bool.and_eq_true, decide_eq_true_eq] at hEntry
  have hSame : drivers[i] = d :=
    List.inj_on_of_nodup_map hOnce (List.getElem_mem hLength) hd
      (hEntry.1.trans hPid.symm)
  exact ⟨i, hi, hSame ▸ List.getElem?_eq_getElem hLength⟩

/-- A busy driver refuses the task, any other one accepts it.  In the first
case the seconds left are printed, in the second both fields are
overwritten. -/
theorem sendTask_of_mem (timer : Int32) (now : Int) {d : Driver}
    (hd : d ∈ drivers) (hActive : d.active = true) (hPid : d.pid = pid)
    (hOnce : (drivers.map Driver.pid).Nodup) :
    d.Busy now ∧ sendTask drivers pid timer now =
        ⟨drivers, .busy (Int32.ofInt (d.taskEndTime - now)), none⟩ ∨
      ¬d.Busy now ∧ ∃ i, drivers[i]? = some d ∧
        sendTask drivers pid timer now =
          ⟨drivers.modify i (Driver.withTask timer now), .sent,
            sendToDriver d (taskCommand timer)⟩ := by
  rcases findDriver_of_mem hd hActive hPid hOnce with ⟨i, hFind, hEntry⟩
  rw [sendTask, hFind]
  simp only [hEntry]
  by_cases hBusy : 0 < d.taskTimer.toInt ∧ now < d.taskEndTime
  · rw [if_pos hBusy]
    exact Or.inl ⟨hBusy, rfl⟩
  · rw [if_neg hBusy]
    refine Or.inr ⟨hBusy, i, hEntry, ?_⟩
    rw [List.modify_eq_set_getElem?, hEntry]
    rfl

end SendTask

/-! ## The invariant -/

/-- The entries of the table and the tasks accepted, seen from any later
time. -/
structure Booked (s : CommandLine) : Prop where
  /-- No pid is in the table twice. -/
  once : (s.drivers.map Driver.pid).Nodup
  /-- An entry stays active. -/
  active : ∀ d ∈ s.drivers, d.active = true
  /-- Tasks are accepted for drivers of the table only. -/
  known : ∀ t ∈ s.accepted, ∃ d ∈ s.drivers, d.pid = t.pid
  /-- No task starts in the future. -/
  started : ∀ t ∈ s.accepted, ∀ now, s.Later now → t.start ≤ now
  /-- The two fields say whether a task of the driver runs, now or later. -/
  busy_iff : ∀ d ∈ s.drivers, ∀ now, s.Later now →
    (d.Busy now ↔ ∃ t ∈ s.accepted, t.pid = d.pid ∧ now ∈ t.interval)
  /-- The tasks of a driver do not overlap. -/
  disjoint : s.accepted.Pairwise fun t u =>
    t.pid = u.pid → Disjoint t.interval u.interval

theorem booked_start : Booked ⟨[], none, []⟩ where
  once := List.nodup_nil
  active := nofun
  known := nofun
  started := nofun
  busy_iff := nofun
  disjoint := List.Pairwise.nil

section Booked

variable {s : CommandLine} {pid timer : Int32} {now : Int}

/-- A driver that is created has no tasks yet. -/
theorem Booked.created (h : Booked s) (hNew : ∀ d ∈ s.drivers, d.pid ≠ pid) :
    Booked { s with drivers := s.drivers ++ [createDriver pid] } where
  once := by
    rw [List.map_append, List.nodup_append]
    refine ⟨h.once, List.nodup_singleton _, ?_⟩
    intro a ha b hb
    rcases List.mem_map.mp ha with ⟨d, hd, rfl⟩
    rw [List.map_singleton, List.mem_singleton] at hb
    rw [hb]
    exact hNew d hd
  active d hd := by
    rcases List.mem_append.mp hd with hOld | hLast
    · exact h.active d hOld
    · rw [List.mem_singleton.mp hLast]
      rfl
  known t ht := by
    rcases h.known t ht with ⟨d, hd, hPid⟩
    exact ⟨d, List.mem_append_left _ hd, hPid⟩
  started := h.started
  busy_iff d hd now hLater := by
    rcases List.mem_append.mp hd with hOld | hLast
    · exact h.busy_iff d hOld now hLater
    · rw [List.mem_singleton.mp hLast]
      apply iff_of_false
      · exact fun hBusy => absurd hBusy.1 (by simp [createDriver])
      · rintro ⟨t, ht, hPid, -⟩
        rcases h.known t ht with ⟨d', hd', hSame⟩
        exact hNew d' hd' (hSame.trans hPid)
  disjoint := h.disjoint

/-- Time goes by: what holds of any later time holds of fewer times then. -/
theorem Booked.later (h : Booked s) (hLater : s.Later now) :
    Booked { s with clock := some now } where
  once := h.once
  active := h.active
  known := h.known
  started t ht later hNow :=
    Int.le_trans (h.started t ht now hLater) (hNow now rfl)
  busy_iff d hd later hNow := by
    apply h.busy_iff d hd later
    intro last hLast
    exact Int.le_trans (hLater last hLast) (hNow now rfl)
  disjoint := h.disjoint

/-- No task that the driver was given still runs when it is not busy, also not
one whose fields have been overwritten since. -/
theorem Booked.over (h : Booked s) {d : Driver} (hd : d ∈ s.drivers)
    (hLater : s.Later now) (hFree : ¬d.Busy now) {t : Task}
    (ht : t ∈ s.accepted) (hPid : t.pid = d.pid) :
    t.start + t.timer.toInt ≤ now := by
  by_contra hEnd
  apply hFree
  rw [h.busy_iff d hd now hLater]
  exact ⟨t, ht, hPid, h.started t ht now hLater, Int.lt_of_not_ge hEnd⟩

theorem busy_withTask_iff (d : Driver) (pid : Int32) {later : Int}
    (hLater : now ≤ later) :
    (d.withTask timer now).Busy later ↔
      later ∈ (Task.mk pid timer now).interval := by
  show 0 < timer.toInt ∧ later < now + timer.toInt ↔
    now ≤ later ∧ later < now + timer.toInt
  omega

/-- **A task that is accepted** starts behind all others of its driver.  From
then on the two fields are those of this task, which is the last to end. -/
theorem Booked.accepts (h : Booked s) {d : Driver} {i : Nat}
    (hEntry : s.drivers[i]? = some d) (hPid : d.pid = pid)
    (hLater : s.Later now) (hFree : ¬d.Busy now) :
    Booked
      { drivers := s.drivers.modify i (Driver.withTask timer now)
        clock := some now
        accepted := s.accepted ++ [⟨pid, timer, now⟩] } := by
  have hd : d ∈ s.drivers := List.mem_of_getElem? hEntry
  have hPids : (s.drivers.modify i (Driver.withTask timer now)).map
      Driver.pid = s.drivers.map Driver.pid :=
    map_modify_key fun _ => rfl
  -- the entries of other drivers are not changed
  have hEntries : ∀ d' ∈ s.drivers.modify i (Driver.withTask timer now),
      d' = d.withTask timer now ∨ d' ∈ s.drivers ∧ d'.pid ≠ d.pid :=
    fun d' hd' => mem_modify_key_cases h.once hEntry hd'
  refine ⟨hPids ▸ h.once, ?_, ?_, ?_, ?_, ?_⟩
  · intro d' hd'
    rcases hEntries d' hd' with rfl | ⟨hOld, -⟩
    · exact h.active d hd
    · exact h.active d' hOld
  · intro t ht
    have hKnown : t.pid ∈ s.drivers.map Driver.pid := by
      rcases List.mem_append.mp ht with hOld | hNew
      · rcases h.known t hOld with ⟨d', hd', hSame⟩
        exact hSame ▸ List.mem_map_of_mem hd'
      · rw [List.mem_singleton.mp hNew, ← hPid]
        exact List.mem_map_of_mem hd
    rw [← hPids] at hKnown
    exact List.mem_map.mp hKnown
  · intro t ht later hNow
    rcases List.mem_append.mp ht with hOld | hNew
    · exact (h.later hLater).started t hOld later hNow
    · rw [List.mem_singleton.mp hNew]
      exact hNow now rfl
  · intro d' hd' later hNow
    have hAfter : now ≤ later := hNow now rfl
    simp only [List.mem_append, List.mem_singleton, or_and_right, exists_or,
      exists_eq_left]
    rcases hEntries d' hd' with rfl | ⟨hOld, hOther⟩
    · rw [busy_withTask_iff d pid hAfter]
      constructor
      · exact fun hNew => Or.inr ⟨hPid.symm, hNew⟩
      · rintro (⟨t, ht, hSame, hIn⟩ | ⟨-, hNew⟩)
        · have hEnd := h.over hd hLater hFree ht hSame
          exact absurd hIn.2 (by omega)
        · exact hNew
    · rw [(h.later hLater).busy_iff d' hOld later hNow]
      constructor
      · exact Or.inl
      · rintro (hEarlier | ⟨hSame, -⟩)
        · exact hEarlier
        · exact absurd (hSame.symm.trans hPid.symm) hOther
  · rw [List.pairwise_append]
    refine ⟨h.disjoint, List.pairwise_singleton _ _, ?_⟩
    intro t ht u hu hSame
    obtain rfl := List.mem_singleton.mp hu
    have hEnd := h.over hd hLater hFree ht (hSame.trans hPid.symm)
    apply Set.disjoint_left.mpr
    intro later hEarlier hNew
    exact Int.not_lt.mpr (Int.le_trans hEnd hNew.1) hEarlier.2

theorem Booked.step {next : CommandLine} (h : Booked s) {c : CliCommand}
    (hStep : cliStep s c = some next) : Booked next := by
  cases c with
  | createDriver pid =>
      cases pid with
      | none =>
          obtain rfl := Option.some.inj hStep
          exact h
      | some pid =>
          rw [cliStep] at hStep
          split at hStep
          · obtain rfl := Option.some.inj hStep
            exact h
          · rcases Option.ite_none_right_eq_some.mp hStep with ⟨hFork, hNext⟩
            obtain rfl := Option.some.inj hNext
            exact h.created hFork.2
  | sendTask pid timer now =>
      rcases Option.ite_none_right_eq_some.mp hStep with ⟨hLater, hNext⟩
      obtain rfl := Option.some.inj hNext
      by_cases hKnown : ∃ d ∈ s.drivers, d.pid = pid
      · rcases hKnown with ⟨d, hd, hPid⟩
        rcases sendTask_of_mem timer now hd (h.active d hd) hPid h.once with
          ⟨-, hTask⟩ | ⟨hFree, i, hEntry, hTask⟩
        · rw [hTask]
          exact h.later hLater
        · rw [hTask]
          exact h.accepts hEntry hPid hLater hFree
      · rw [sendTask_of_unknown fun d hd hPid => hKnown ⟨d, hd, hPid⟩]
        exact h.later hLater

theorem Booked.reply (h : Booked s) (hLater : s.Later now)
    (pid timer : Int32) :
    ((∃ remaining, (sendTask s.drivers pid timer now).reply =
        .busy remaining) ↔
      ∃ t ∈ s.accepted, t.pid = pid ∧ now ∈ t.interval) ∧
    ((sendTask s.drivers pid timer now).reply ≠ .sent →
      (sendTask s.drivers pid timer now).drivers = s.drivers) := by
  by_cases hKnown : ∃ d ∈ s.drivers, d.pid = pid
  · rcases hKnown with ⟨d, hd, rfl⟩
    rw [← h.busy_iff d hd now hLater]
    rcases sendTask_of_mem timer now hd (h.active d hd) rfl h.once with
      ⟨hBusy, hTask⟩ | ⟨hFree, i, -, hTask⟩
    · rw [hTask]
      exact ⟨iff_of_true ⟨_, rfl⟩ hBusy, fun _ => rfl⟩
    · rw [hTask]
      exact ⟨iff_of_false (by simp) hFree, fun hSent => absurd rfl hSent⟩
  · have hUnknown : ∀ d ∈ s.drivers, d.pid ≠ pid :=
      fun d hd hPid => hKnown ⟨d, hd, hPid⟩
    rw [sendTask_of_unknown hUnknown]
    refine ⟨iff_of_false (by simp) ?_, fun _ => rfl⟩
    rintro ⟨t, ht, hPid, -⟩
    rcases h.known t ht with ⟨d, hd, hSame⟩
    exact hUnknown d hd (hSame.trans hPid)

end Booked

theorem commandLine_booked {s : CommandLine} (h : commandLine.Reachable s) :
    Booked s := by
  apply h.invariant
  · rintro start rfl
    exact booked_start
  · intro s c next hBooked _ hStep
    exact hBooked.step hStep

/-- **The tasks of a driver never overlap**, a task is refused exactly while
another one runs, and a command that is not carried out leaves the table
alone. -/
theorem tasks_never_overlap {s : CommandLine} (h : commandLine.Reachable s) :
    (s.accepted.Pairwise fun t u =>
      t.pid = u.pid → Disjoint t.interval u.interval) ∧
    ∀ pid timer now, s.Later now →
      ((∃ remaining, (sendTask s.drivers pid timer now).reply =
          .busy remaining) ↔
        ∃ t ∈ s.accepted, t.pid = pid ∧ now ∈ t.interval) ∧
      ((sendTask s.drivers pid timer now).reply ≠ .sent →
        (sendTask s.drivers pid timer now).drivers = s.drivers) := by
  have hBooked := commandLine_booked h
  exact ⟨hBooked.disjoint,
    fun pid timer now hLater => hBooked.reply hLater pid timer⟩

/-- Fifteen seconds, one that is refused in them, one of no time at their end,
and five more. -/
theorem tasks_in_a_row : ∃ s, commandLine.Reachable s ∧
    (s.accepted.map Task.start = [100, 115, 115] ∧ s.clock = some 116) ∧
    (s.accepted.Pairwise fun t u =>
      t.pid = u.pid → Disjoint t.interval u.interval) ∧
    ∀ pid timer now, s.Later now →
      ((∃ remaining, (sendTask s.drivers pid timer now).reply =
          .busy remaining) ↔
        ∃ t ∈ s.accepted, t.pid = pid ∧ now ∈ t.interval) ∧
      ((sendTask s.drivers pid timer now).reply ≠ .sent →
        (sendTask s.drivers pid timer now).drivers = s.drivers) := by
  have hRun : (commandLine.run ⟨[], none, []⟩
      [.createDriver none, .createDriver (some 7), .sendTask 7 15 100,
        .sendTask 7 3 114, .sendTask 7 0 115, .sendTask 7 5 115,
        .sendTask 8 5 115, .sendTask 7 (-1) 116]).any (fun s =>
      decide (s.accepted.map Task.start = [100, 115, 115] ∧
        s.clock = some 116)) = true := by
    decide +kernel
  rcases Machine.exists_reachable_of_run rfl hRun with ⟨s, hReach, hEnd⟩
  exact ⟨s, hReach, of_decide_eq_true hEnd, tasks_never_overlap hReach⟩

/-! ## The command line of the whole system -/

/-- The reading that a step takes. -/
def Label.readings : Label → List Int
  | .sendTask _ _ now => [now]
  | _ => []

/-- The clock is not set back between two readings. -/
def InOrder (t : State × List Int) (a : Label) : Prop :=
  ∀ now ∈ a.readings, ∀ last, t.2.getLast? = some last → last ≤ now

/-- **The table of the command line** in a run of the whole system is one that
the commands alone lead to. -/
theorem commandLine_of_driverManager {t : State × List Int}
    (h : (driverManager.logging Label.readings).ReachableBy InOrder t) :
    Listed t.1 ∧ ∃ s, commandLine.Reachable s ∧
      s.drivers = t.1.cli.drivers ∧ s.clock = t.2.getLast? := by
  apply h.invariant
  · rintro ⟨start, log⟩ ⟨rfl, rfl⟩
    exact ⟨nofun, _, .init rfl, rfl, rfl⟩
  · rintro t a next ⟨hListed, s, hReach, hDrivers, hClock⟩ hOrder hStep
    rcases Machine.logging_step_eq_some _ hStep with ⟨hStep, hLog⟩
    refine ⟨hListed.step hStep, ?_⟩
    rw [hLog]
    cases hTable : a.changesTable with
    | false =>
        have hSame := (step_leavesTable hListed hTable hStep).drivers
        have hNone : a.readings = [] := by
          cases a with
          | sendTask pid timer now => contradiction
          | _ => rfl
        rw [hSame, hNone, List.append_nil]
        exact ⟨s, hReach, hDrivers, hClock⟩
    | true =>
        cases a with
        | createDriver child =>
            have hNone : (Label.createDriver child).readings = [] := rfl
            rw [hNone, List.append_nil]
            cases child with
            | none =>
                rw [createDriver_none hStep]
                exact ⟨s, hReach, hDrivers, hClock⟩
            | some pid =>
                rcases createDriver_eq_some hStep with ⟨-, hSame⟩ |
                  ⟨hRoom, hAbsent, hPid, hNew, -⟩
                · rw [hSame]
                  exact ⟨s, hReach, hDrivers, hClock⟩
                · have hFresh : ∀ d ∈ s.drivers, d.pid ≠ pid := by
                    rintro d hd rfl
                    exact hListed d (hDrivers ▸ hd) hAbsent
                  refine ⟨{ s with drivers := s.drivers ++ [createDriver pid] },
                    hReach.step (a := .createDriver (some pid)) trivial ?_, ?_,
                    hClock⟩
                  · have hNotFull : ¬maxDrivers ≤ s.drivers.length := by
                      rw [hDrivers]
                      omega
                    simp only [commandLine, cliStep, if_neg hNotFull]
                    exact if_pos ⟨hPid, hFresh⟩
                  · rw [hNew, hDrivers]
        | sendTask pid timer now =>
            have hLater : s.Later now := by
              intro last hLast
              exact hOrder now (List.mem_singleton_self now) last
                (hClock ▸ hLast)
            refine ⟨_, hReach.step (a := .sendTask pid timer now) trivial
              (if_pos hLater), ?_, ?_⟩
            · rw [(sendTask_eq_some hStep).1, ← hDrivers]
            · exact List.getLast?_concat.symm
        | _ => contradiction

end UnixHomework.Ports.DriverManager
