import UnixHomework.Ports.PreFork
import UnixHomework.Verified.Table

/-!
# Accounting in the pre-forked server

What `busy` means.  A worker owes the main process something from the moment a
client is sent to it until the main process has read its report: the client is
then in the worker's socket, in the worker, or has turned into a status byte.
`Load` says that these add up to one exactly for the workers that are marked
busy, or are about to be.  It needs workers that do not die.

`Shape` and `Clients` hold in all runs: the table and the processes
correspond, and every client accepted is handed over once, or dropped once, or
still in the hands of the main process.
-/

namespace UnixHomework.Ports.PreFork

open UnixHomework.Verified

/-! ## What a step does -/

/-- The steps with their effects and the conditions under which they are
taken.  Invariants are proved from this list; `step` is unfolded once, in
`step_transition`. -/
inductive Transition (s : State) : Label → State → Prop where
  | arrive : Transition s .arrive
      { s with
        backlog := s.backlog ++ [s.arrivals]
        arrivals := s.arrivals + 1 }
  | started (i : Nat) (hMain : s.main = .starting i) :
      Transition s (.spawn true)
        { s.spawnWorker i with
          main := if i + 1 < initialWorkers then .starting (i + 1)
            else .accepting }
  | startFails (i : Nat) (hMain : s.main = .starting i) :
      Transition s (.spawn false) { s with main := .exited }
  | spawned (client idx : Nat) (hMain : s.main = .spawning client idx) :
      Transition s (.spawn true)
        { s.spawnWorker idx with main := .sending client idx }
  | spawnFails (client idx : Nat) (hMain : s.main = .spawning client idx) :
      Transition s (.spawn false) (s.drop client)
  | accept (client : Nat) (rest : List Nat) (hMain : s.main = .accepting)
      (hBacklog : s.backlog = client :: rest) :
      Transition s .accept
        { s with
          main := .accepted client
          backlog := rest
          accepted := s.accepted ++ [client] }
  | chosen (client idx : Nat) (hMain : s.main = .accepted client)
      (hFree : findFreeWorker s.workers s.workerCount = some idx) :
      Transition s .select { s with main := .sending client idx }
  | room (client : Nat) (hMain : s.main = .accepted client)
      (hFree : findFreeWorker s.workers s.workerCount = none)
      (hRoom : s.workerCount < workerMax) :
      Transition s .select { s with main := .spawning client s.workerCount }
  | refused (client : Nat) (hMain : s.main = .accepted client)
      (hFree : findFreeWorker s.workers s.workerCount = none)
      (hFull : workerMax ≤ s.workerCount) :
      Transition s .select (s.drop client)
  | sendFails (client idx : Nat) (ch : Child)
      (hMain : s.main = .sending client idx)
      (hChild : s.children[(s.workers idx).commFd]? = some ch)
      (hExited : ch.phase = .exited) :
      Transition s .send
        ({ s with workers := setBusy s.workers idx false }.drop client)
  | sends (client idx : Nat) (ch : Child)
      (hMain : s.main = .sending client idx)
      (hChild : s.children[(s.workers idx).commFd]? = some ch)
      (hAlive : ch.phase ≠ .exited) :
      Transition s .send
        { s.setChild (s.workers idx).commFd
            { ch with toWorker := ch.toWorker ++ [client] } with
          main := .sent client idx
          handed := s.handed ++ [(client, idx)] }
  | setBusy (client idx : Nat) (hMain : s.main = .sent client idx) :
      Transition s .setBusy
        { s with
          main := .sweeping 0
          workers := PreFork.setBusy s.workers idx true }
  | swept (i : Nat) (status : UInt8) (rest : List UInt8) (ch : Child)
      (hMain : s.main = .sweeping i) (hIndex : i < s.workerCount)
      (hBusy : (s.workers i).busy = true)
      (hChild : s.children[(s.workers i).commFd]? = some ch)
      (hStatus : ch.toMain = status :: rest) :
      Transition s .sweep
        { s.setChild (s.workers i).commFd { ch with toMain := rest } with
          main := .sweeping (i + 1)
          workers :=
            if status = freeStatus then PreFork.setBusy s.workers i false
            else s.workers }
  | skipped (i : Nat) (hMain : s.main = .sweeping i)
      (hIndex : i < s.workerCount) (hFree : (s.workers i).busy = false) :
      Transition s .sweep { s with main := .sweeping (i + 1) }
  | sweepEnds (i : Nat) (hMain : s.main = .sweeping i)
      (hIndex : s.workerCount ≤ i) :
      Transition s .sweep { s with main := .accepting }
  | readFails (i : Nat) (ch : Child) (hMain : s.main = .sweeping i)
      (hIndex : i < s.workerCount) (hBusy : (s.workers i).busy = true)
      (hChild : s.children[(s.workers i).commFd]? = some ch)
      (hExited : ch.phase = .exited) :
      Transition s .readFails { s with main := .sweeping (i + 1) }
  | recv (k : Nat) (ch : Child) (client : Nat) (rest : List Nat)
      (hChild : s.children[k]? = some ch) (hPhase : ch.phase = .receiving)
      (hQueue : ch.toWorker = client :: rest) :
      Transition s (.recv k)
        (s.setChild k { ch with phase := .serving client, toWorker := rest })
  | serve (k : Nat) (ch : Child) (client : Nat)
      (hChild : s.children[k]? = some ch)
      (hPhase : ch.phase = .serving client) :
      Transition s (.serve k) (s.setChild k { ch with phase := .reporting })
  | report (k : Nat) (ch : Child) (hChild : s.children[k]? = some ch)
      (hPhase : ch.phase = .reporting) :
      Transition s (.report k)
        (s.setChild k
          { ch with phase := .receiving, toMain := ch.toMain ++ [freeStatus] })
  | exit (k : Nat) (ch : Child) (hChild : s.children[k]? = some ch)
      (hPhase : ch.phase ≠ .exited) :
      Transition s (.exit k)
        (s.setChild k { ch with phase := .exited, toWorker := [] })

theorem childStep_eq_some {s next : State} {k : Nat}
    {f : Child → Option Child} (h : s.childStep k f = some next) :
    ∃ ch ch', s.children[k]? = some ch ∧ f ch = some ch' ∧
      next = s.setChild k ch' := by
  obtain ⟨ch, hChild, h⟩ := Option.bind_eq_some_iff.mp h
  obtain ⟨ch', hf, rfl⟩ := Option.map_eq_some_iff.mp h
  exact ⟨ch, ch', hChild, hf, rfl⟩

theorem select_transition {s : State} {client : Nat}
    (hMain : s.main = .accepted client) :
    Transition s .select (select s client) := by
  unfold select
  split
  · exact .chosen client _ hMain (by assumption)
  · by_cases hRoom : s.workerCount < workerMax
    · rw [if_pos hRoom]
      exact .room client hMain (by assumption) hRoom
    · rw [if_neg hRoom]
      exact .refused client hMain (by assumption) (Nat.le_of_not_lt hRoom)

theorem sendFd_transition {s next : State} {client idx : Nat}
    (hMain : s.main = .sending client idx)
    (h : sendFd s client idx = some next) : Transition s .send next := by
  obtain ⟨ch, hChild, rfl⟩ := Option.map_eq_some_iff.mp h
  by_cases hExited : ch.phase = .exited
  · rw [if_pos hExited]
    exact .sendFails client idx ch hMain hChild hExited
  · rw [if_neg hExited]
    exact .sends client idx ch hMain hChild hExited

theorem sweep_transition {s next : State} {i : Nat}
    (hMain : s.main = .sweeping i) (h : sweep s i = some next) :
    Transition s .sweep next := by
  unfold sweep at h
  by_cases hIndex : i < s.workerCount
  · rw [if_pos hIndex] at h
    by_cases hBusy : (s.workers i).busy = true
    · rw [if_pos hBusy] at h
      obtain ⟨ch, hChild, h⟩ := Option.bind_eq_some_iff.mp h
      cases hStatus : ch.toMain with
      | nil => simp [hStatus] at h
      | cons status rest =>
          simp only [hStatus, Option.some.injEq] at h
          exact h ▸ .swept i status rest ch hMain hIndex hBusy hChild hStatus
    · rw [if_neg hBusy] at h
      obtain rfl := Option.some.inj h
      exact .skipped i hMain hIndex (Bool.eq_false_iff.mpr hBusy)
  · rw [if_neg hIndex] at h
    obtain rfl := Option.some.inj h
    exact .sweepEnds i hMain (Nat.le_of_not_lt hIndex)

theorem step_transition {s next : State} {a : Label}
    (h : step s a = some next) : Transition s a next := by
  cases a with
  | arrive =>
      obtain rfl := Option.some.inj h
      exact .arrive
  | spawn ok =>
      simp only [step] at h
      split at h
      · rename_i i hMain
        cases ok with
        | true =>
            obtain rfl := Option.some.inj h
            exact .started i hMain
        | false =>
            obtain rfl := Option.some.inj h
            exact .startFails i hMain
      · rename_i client idx hMain
        cases ok with
        | true =>
            obtain rfl := Option.some.inj h
            exact .spawned client idx hMain
        | false =>
            obtain rfl := Option.some.inj h
            exact .spawnFails client idx hMain
      · contradiction
  | accept =>
      simp only [step] at h
      split at h
      · rename_i client rest hMain hBacklog
        obtain rfl := Option.some.inj h
        exact .accept client rest hMain hBacklog
      · contradiction
  | select =>
      simp only [step] at h
      split at h
      · rename_i client hMain
        obtain rfl := Option.some.inj h
        exact select_transition hMain
      · contradiction
  | send =>
      simp only [step] at h
      split at h
      · rename_i client idx hMain
        exact sendFd_transition hMain h
      · contradiction
  | setBusy =>
      simp only [step] at h
      split at h
      · rename_i client idx hMain
        obtain rfl := Option.some.inj h
        exact .setBusy client idx hMain
      · contradiction
  | sweep =>
      simp only [step] at h
      split at h
      · rename_i i hMain
        exact sweep_transition hMain h
      · contradiction
  | readFails =>
      simp only [step] at h
      split at h
      · rename_i i hMain
        obtain ⟨⟨hIndex, hBusy⟩, h⟩ := Option.ite_none_right_eq_some.mp h
        obtain ⟨ch, hChild, h⟩ := Option.bind_eq_some_iff.mp h
        obtain ⟨⟨hExited, -⟩, h⟩ := Option.ite_none_right_eq_some.mp h
        obtain rfl := Option.some.inj h
        exact .readFails i ch hMain hIndex hBusy hChild hExited
      · contradiction
  | recv k =>
      obtain ⟨ch, ch', hChild, hf, rfl⟩ := childStep_eq_some h
      unfold Child.recv at hf
      split at hf
      · rename_i client rest hPhase hQueue
        obtain rfl := Option.some.inj hf
        exact .recv k ch client rest hChild hPhase hQueue
      · contradiction
  | serve k =>
      obtain ⟨ch, ch', hChild, hf, rfl⟩ := childStep_eq_some h
      unfold Child.serve at hf
      split at hf
      · rename_i client hPhase
        obtain rfl := Option.some.inj hf
        exact .serve k ch client hChild hPhase
      · contradiction
  | report k =>
      obtain ⟨ch, ch', hChild, hf, rfl⟩ := childStep_eq_some h
      unfold Child.report at hf
      split at hf
      · rename_i hPhase
        obtain rfl := Option.some.inj hf
        exact .report k ch hChild hPhase
      · contradiction
  | exit k =>
      obtain ⟨ch, ch', hChild, hf, rfl⟩ := childStep_eq_some h
      unfold Child.exit at hf
      by_cases hPhase : ch.phase = .exited
      · rw [if_pos hPhase] at hf
        contradiction
      · rw [if_neg hPhase] at hf
        obtain rfl := Option.some.inj hf
        exact .exit k ch hChild hPhase

/-! ## The table and the processes -/

theorem findFreeWorker_eq_some {workers : Nat → Worker} {n i : Nat}
    (h : findFreeWorker workers n = some i) :
    i < n ∧ (workers i).busy = false := by
  obtain ⟨hFree, hMem, -⟩ := List.find?_range_eq_some.mp h
  exact ⟨List.mem_range.mp hMem, by simpa using hFree⟩

theorem busy_of_findFreeWorker_eq_none {workers : Nat → Worker} {n i : Nat}
    (h : findFreeWorker workers n = none) (hi : i < n) :
    (workers i).busy = true := by
  simpa using List.find?_range_eq_none.mp h i hi

/-- What the place of `main` says about the table: it starts the worker next in
line, makes a new one only where none is free, and hands a client to the first
free one. -/
def State.PhaseOk (s : State) : Prop :=
  match s.main with
  | .starting i => i = s.workerCount ∧ i < initialWorkers
  | .spawning _ idx =>
      idx = s.workerCount ∧ idx < workerMax ∧
        findFreeWorker s.workers s.workerCount = none
  | .sending _ idx | .sent _ idx =>
      findFreeWorker s.workers s.workerCount = some idx
  | _ => True

/-- Worker `i` of the table is process `i`. -/
structure Shape (s : State) : Prop where
  /-- The processes were made in the order of their indices. -/
  indices : s.children.map Child.index = List.range s.workerCount
  /-- An entry has the socket of its own process. -/
  commFd : ∀ i < s.workerCount, (s.workers i).commFd = i
  /-- The table is not over-full. -/
  bound : s.workerCount ≤ workerMax
  /-- `main` and the table fit together. -/
  phase : s.PhaseOk

@[simp] theorem setBusy_commFd (workers : Nat → Worker) (i j : Nat)
    (busy : Bool) :
    (setBusy workers i busy j).commFd = (workers j).commFd := by
  by_cases hj : j = i
  · subst hj
    simp [setBusy]
  · simp [setBusy, Function.update_of_ne hj]

theorem setBusy_self (workers : Nat → Worker) (i : Nat) (busy : Bool) :
    (setBusy workers i busy i).busy = busy := by
  simp [setBusy]

theorem setBusy_ne {i j : Nat} (hj : j ≠ i) (workers : Nat → Worker)
    (busy : Bool) : setBusy workers i busy j = workers j := by
  simp [setBusy, Function.update_of_ne hj]

/-- A process keeps its index, whatever it does. -/
theorem setChild_indices {s : State} {k : Nat} {ch ch' : Child}
    (hChild : s.children[k]? = some ch) (hIndex : ch'.index = ch.index) :
    (s.setChild k ch').children.map Child.index =
      s.children.map Child.index := by
  obtain ⟨hk, rfl⟩ := List.getElem?_eq_some_iff.mp hChild
  simp only [State.setChild, List.map_set, hIndex]
  rw [← List.getElem_map Child.index (h := by simpa using hk)]
  exact List.set_getElem_self _

theorem Shape.length_children {s : State} (h : Shape s) :
    s.children.length = s.workerCount := by
  have hLength := congrArg List.length h.indices
  rwa [List.length_map, List.length_range] at hLength

/-- The process of a worker in the table, which is there even when it has
exited: nobody waits for it. -/
theorem Shape.exists_child {s : State} (h : Shape s) {i : Nat}
    (hi : i < s.workerCount) :
    ∃ ch, s.children[i]? = some ch ∧ ch.index = i := by
  have hLength := h.length_children
  have hi' : i < s.children.length := by omega
  refine ⟨s.children[i], List.getElem?_eq_getElem hi', ?_⟩
  have hAt := congrArg (fun l => l[i]?) h.indices
  simp only [List.getElem?_map, List.getElem?_eq_getElem hi', Option.map_some,
    List.getElem?_range hi, Option.some.injEq] at hAt
  exact hAt

/-- The table after a new worker: its index is the old count, and the entry is
that of the new process. -/
theorem Shape.spawnWorker {s : State} (h : Shape s) :
    ((s.spawnWorker s.workerCount).children.map Child.index =
        List.range (s.workerCount + 1)) ∧
      ∀ i < s.workerCount + 1,
        ((s.spawnWorker s.workerCount).workers i).commFd = i := by
  refine ⟨?_, ?_⟩
  · simp only [State.spawnWorker, List.map_append, h.indices, List.map_cons,
      List.map_nil, Child.new, List.range_succ]
  · intro i hi
    by_cases hNew : i = s.workerCount
    · subst hNew
      simp [State.spawnWorker, h.length_children]
    · simp only [State.spawnWorker, Function.update_of_ne hNew]
      exact h.commFd i (by omega)

/-- After a new worker in a table without a free one, the new one is the first
free.  So `main` sends the client to the worker it has just made. -/
theorem findFreeWorker_spawnWorker {s : State}
    (hFree : findFreeWorker s.workers s.workerCount = none) :
    findFreeWorker (s.spawnWorker s.workerCount).workers
      (s.workerCount + 1) = some s.workerCount := by
  refine List.find?_range_eq_some.mpr ⟨?_, ?_, ?_⟩
  · simp [State.spawnWorker]
  · simp
  · intro j hj
    have hBusy := busy_of_findFreeWorker_eq_none hFree hj
    simp [State.spawnWorker, Function.update_of_ne (Nat.ne_of_lt hj), hBusy]

theorem shape_start : Shape State.start where
  indices := rfl
  commFd i hi := absurd hi (Nat.not_lt_zero i)
  bound := Nat.zero_le _
  phase := ⟨rfl, by decide⟩

/-- A step of a worker, which cannot change the table of `main`. -/
theorem Shape.setChild {s : State} (h : Shape s) {k : Nat} {ch ch' : Child}
    (hChild : s.children[k]? = some ch) (hIndex : ch'.index = ch.index) :
    Shape (s.setChild k ch') where
  indices := by
    rw [setChild_indices hChild hIndex]
    exact h.indices
  commFd := h.commFd
  bound := h.bound
  phase := h.phase

theorem Shape.step {s next : State} {a : Label} (h : Shape s)
    (hT : Transition s a next) : Shape next := by
  have hPhase := h.phase
  unfold State.PhaseOk at hPhase
  cases hT with
  | arrive | startFails | spawnFails | refused | accept | skipped | sweepEnds
  | readFails =>
      exact { h with phase := by simp_all [State.PhaseOk, State.drop] }
  | chosen client idx hMain hFree =>
      exact { h with phase := hFree }
  | room client hMain hFree hRoom =>
      exact { h with phase := ⟨rfl, hRoom, hFree⟩ }
  | started i hMain =>
      simp only [hMain] at hPhase
      obtain ⟨rfl, hi⟩ := hPhase
      obtain ⟨hIndices, hFds⟩ := h.spawnWorker
      refine { indices := hIndices, commFd := hFds, bound := ?_, phase := ?_ }
      · simp only [State.spawnWorker, workerMax]
        simp only [initialWorkers] at hi
        omega
      · by_cases hMore : s.workerCount + 1 < initialWorkers
        · simp [State.PhaseOk, State.spawnWorker, hMore]
        · simp [State.PhaseOk, hMore]
  | spawned client idx hMain =>
      simp only [hMain] at hPhase
      obtain ⟨rfl, hi, hFree⟩ := hPhase
      obtain ⟨hIndices, hFds⟩ := h.spawnWorker
      exact
        { indices := hIndices
          commFd := hFds
          bound := hi
          phase := findFreeWorker_spawnWorker hFree }
  | sendFails client idx ch hMain hChild hExited =>
      exact
        { h with
          commFd := fun i hi =>
            (setBusy_commFd ..).trans (h.commFd i hi)
          phase := trivial }
  | sends client idx ch hMain hChild hAlive =>
      simp only [hMain] at hPhase
      have hSet : Shape (s.setChild (s.workers idx).commFd
          { ch with toWorker := ch.toWorker ++ [client] }) :=
        h.setChild hChild rfl
      exact
        { indices := hSet.indices
          commFd := h.commFd
          bound := h.bound
          phase := hPhase }
  | setBusy client idx hMain =>
      exact
        { h with
          commFd := fun i hi =>
            (setBusy_commFd ..).trans (h.commFd i hi)
          phase := trivial }
  | swept i status rest ch hMain hIndex hBusy hChild hStatus =>
      have hSet : Shape (s.setChild (s.workers i).commFd
          { ch with toMain := rest }) :=
        h.setChild hChild rfl
      refine
        { indices := hSet.indices
          commFd := fun j hj => ?_
          bound := h.bound
          phase := trivial }
      by_cases hFree : status = freeStatus
      · simp only [hFree, if_true]
        exact (setBusy_commFd ..).trans (h.commFd j hj)
      · simp only [hFree, if_false]
        exact h.commFd j hj
  | recv k ch client rest hChild => exact h.setChild hChild rfl
  | serve k ch client hChild => exact h.setChild hChild rfl
  | report k ch hChild => exact h.setChild hChild rfl
  | exit k ch hChild => exact h.setChild hChild rfl

/-! ## Clients -/

/-- The client that `main` has accepted and not yet disposed of.  `main` has
one at a time. -/
def State.held (s : State) : Option Nat :=
  match s.main with
  | .accepted client | .spawning client _ | .sending client _ => some client
  | _ => none

/-- How often a client has been handed to a worker. -/
def State.handOvers (s : State) (client : Nat) : Nat :=
  (s.handed.map Prod.fst).count client

/-- Every client accepted is handed over, or dropped, or held. -/
structure Clients (s : State) : Prop where
  /-- Clients are accepted in the order in which they arrived. -/
  order : s.accepted ++ s.backlog = List.range s.arrivals
  /-- For each client the three add up to the number of its `accept`s. -/
  account : ∀ client, s.handOvers client + s.dropped.count client +
    (if s.held = some client then 1 else 0) = s.accepted.count client

theorem clients_start : Clients State.start where
  order := rfl
  account _ := rfl

theorem count_concat (cs : List Nat) (c client : Nat) :
    (cs ++ [c]).count client =
      cs.count client + if c = client then 1 else 0 := by
  rw [List.count_append, List.count_singleton]
  simp only [beq_iff_eq]

/-- A step that leaves the clients where they are: workers that receive, serve
and report, and the sweep of the reports. -/
theorem Clients.frame {s next : State} (h : Clients s)
    (hArrived : next.accepted ++ next.backlog = List.range next.arrivals)
    (hAccepted : next.accepted = s.accepted) (hHanded : next.handed = s.handed)
    (hDropped : next.dropped = s.dropped) (hHeld : next.held = s.held) :
    Clients next where
  order := hArrived
  account client := by
    rw [State.handOvers, hHanded, hDropped, hHeld, hAccepted]
    exact h.account client

/-- Closing the client that is held, for want of a worker or because a call has
failed. -/
theorem Clients.drop {s : State} (h : Clients s) {client : Nat}
    (hHeld : s.held = some client) : Clients (s.drop client) where
  order := h.order
  account c := by
    have hAccount := h.account c
    rw [hHeld] at hAccount
    simp only [Option.some.injEq] at hAccount
    simp only [State.drop, State.handOvers, State.held, count_concat,
      reduceCtorEq, if_false] at hAccount ⊢
    omega

theorem Clients.step {s next : State} {a : Label} (h : Clients s)
    (hT : Transition s a next) : Clients next := by
  cases hT with
  | arrive =>
      refine h.frame ?_ rfl rfl rfl rfl
      rw [← List.append_assoc, h.order, List.range_succ]
  | accept client rest hMain hBacklog =>
      have hOrder := h.order
      rw [hBacklog] at hOrder
      refine { order := by simpa using hOrder, account := fun c => ?_ }
      have hAccount := h.account c
      simp only [State.handOvers, State.held, hMain, count_concat,
        reduceCtorEq, if_false, Option.some.injEq] at hAccount ⊢
      omega
  | spawnFails client idx hMain =>
      exact h.drop (by simp [State.held, hMain])
  | refused client hMain =>
      exact h.drop (by simp [State.held, hMain])
  | sendFails client idx ch hMain =>
      have hBusy : Clients { s with
          workers := PreFork.setBusy s.workers idx false } :=
        h.frame h.order rfl rfl rfl rfl
      exact hBusy.drop (by simp [State.held, hMain])
  | sends client idx ch hMain hChild hAlive =>
      refine { order := h.order, account := fun c => ?_ }
      have hAccount := h.account c
      simp only [State.handOvers, State.held, hMain, List.map_append,
        List.map_cons, List.map_nil, count_concat, State.setChild,
        reduceCtorEq, if_false, Option.some.injEq] at hAccount ⊢
      omega
  | chosen client idx hMain | room client hMain | spawned client idx hMain
  | startFails i hMain | setBusy client idx hMain | skipped i hMain
  | sweepEnds i hMain | readFails i ch hMain
  | swept i status rest ch hMain =>
      exact h.frame h.order rfl rfl rfl (by simp [State.held, hMain])
  | started i hMain =>
      refine h.frame h.order rfl rfl rfl ?_
      by_cases hMore : i + 1 < initialWorkers
      · simp [State.held, hMain, hMore]
      · simp [State.held, hMain, hMore]
  | recv | serve | report | exit =>
      exact h.frame h.order rfl rfl rfl rfl

/-! ## What the workers owe -/

/-- A client counts as served until its worker has reported. -/
def Child.serving (ch : Child) : Nat :=
  match ch.phase with
  | .serving _ | .reporting => 1
  | _ => 0

/-- Descriptors queued to a worker, clients it serves, and its unread reports
of being free.  A client passes through all three, and counts one in each. -/
def Child.load (ch : Child) : Nat :=
  ch.toWorker.length + ch.serving + ch.toMain.count freeStatus

/-- The worker between `send_fd` and the setting of its `busy`.  It has a
client, and the table does not say so yet. -/
def State.window (s : State) : Option Nat :=
  match s.main with
  | .sent _ idx => some idx
  | _ => none

/-- Worker `k` is marked busy, or about to be: `main` expects a report from
it. -/
def State.owes (s : State) (k : Nat) : Bool :=
  (s.workers k).busy || s.window == some k

/-- A live worker that owes one report, or none. -/
structure Child.Sound (ch : Child) (owes : Bool) : Prop where
  /-- The process has not exited. -/
  alive : ch.phase ≠ .exited
  /-- All that it has written to `main` are reports of being free. -/
  statuses : ∀ status ∈ ch.toMain, status = freeStatus
  /-- What it has to do is one client exactly if `main` expects a report. -/
  load : ch.load = owes.toNat

/-- Every worker is alive and owes what the table says. -/
def Load (s : State) : Prop :=
  ∀ (k : Nat) (ch : Child), s.children[k]? = some ch → ch.Sound (s.owes k)

theorem load_start : Load State.start := fun _ _ h => by
  simp [State.start] at h

theorem sound_new (index : Nat) : (Child.new index).Sound false where
  alive := by simp [Child.new]
  statuses := by simp [Child.new]
  load := rfl

theorem Child.Sound.recv {ch : Child} {owes : Bool} {client : Nat}
    {rest : List Nat} (h : ch.Sound owes) (hPhase : ch.phase = .receiving)
    (hQueue : ch.toWorker = client :: rest) :
    Child.Sound { ch with phase := .serving client, toWorker := rest }
      owes where
  alive := by simp
  statuses := h.statuses
  load := by
    have hLoad := h.load
    simp only [Child.load, Child.serving, hPhase, hQueue,
      List.length_cons] at hLoad ⊢
    omega

theorem Child.Sound.serve {ch : Child} {owes : Bool} {client : Nat}
    (h : ch.Sound owes) (hPhase : ch.phase = .serving client) :
    Child.Sound { ch with phase := .reporting } owes where
  alive := by simp
  statuses := h.statuses
  load := by
    have hLoad := h.load
    simpa only [Child.load, Child.serving, hPhase] using hLoad

theorem Child.Sound.report {ch : Child} {owes : Bool} (h : ch.Sound owes)
    (hPhase : ch.phase = .reporting) :
    Child.Sound
      { ch with phase := .receiving, toMain := ch.toMain ++ [freeStatus] }
      owes where
  alive := by simp
  statuses status hStatus := by
    rcases List.mem_append.mp hStatus with hOld | hNew
    · exact h.statuses status hOld
    · exact List.mem_singleton.mp hNew
  load := by
    have hLoad := h.load
    simp only [Child.load, Child.serving, hPhase, List.count_append,
      List.count_singleton_self] at hLoad ⊢
    omega

/-- The hand-over to a worker that owes nothing. -/
theorem Child.Sound.send {ch : Child} (h : ch.Sound false) (client : Nat) :
    Child.Sound { ch with toWorker := ch.toWorker ++ [client] } true where
  alive := h.alive
  statuses := h.statuses
  load := by
    have hLoad := h.load
    simp only [Child.load, Child.serving, List.length_append,
      List.length_singleton, Bool.toNat_false, Bool.toNat_true] at hLoad ⊢
    omega

/-- Reading the report of a worker that owes one.  With the report read it has
nothing left, so the flag may be taken back. -/
theorem Child.Sound.swept {ch : Child} {status : UInt8} {rest : List UInt8}
    (h : ch.Sound true) (hStatus : ch.toMain = status :: rest) :
    status = freeStatus ∧ Child.Sound { ch with toMain := rest } false := by
  have hFree : status = freeStatus :=
    h.statuses status (hStatus ▸ List.mem_cons_self)
  refine ⟨hFree, h.alive, fun status' hRest => ?_, ?_⟩
  · exact h.statuses status' (hStatus ▸ List.mem_cons_of_mem _ hRest)
  · have hLoad := h.load
    rw [Child.load, hStatus, hFree, List.count_cons_self] at hLoad
    simp only [Child.load, Child.serving, Bool.toNat_false,
      Bool.toNat_true] at hLoad ⊢
    omega

/-- A step that changes no process and no flag. -/
theorem Load.frame {s next : State} (h : Load s)
    (hChildren : next.children = s.children)
    (hOwes : ∀ k, next.owes k = s.owes k) : Load next := by
  intro k ch hChild
  rw [hOwes]
  exact h k ch (hChildren ▸ hChild)

/-- A step that changes one process, and what it owes accordingly. -/
theorem Load.set {s next : State} (h : Load s) {k : Nat} {ch' : Child}
    (hChildren : next.children = s.children.set k ch')
    (hSound : ch'.Sound (next.owes k))
    (hOwes : ∀ j ≠ k, next.owes j = s.owes j) : Load next := by
  intro j ch hChild
  rw [hChildren] at hChild
  by_cases hj : j = k
  · subst hj
    rw [List.getElem?_set_self'] at hChild
    obtain ⟨-, -, rfl⟩ := Option.map_eq_some_iff.mp hChild
    exact hSound
  · rw [List.getElem?_set_ne (Ne.symm hj)] at hChild
    rw [hOwes j hj]
    exact h j ch hChild

/-- A new process at the end of the table, which has nothing to do and owes
nothing. -/
theorem Load.spawnWorker {s next : State} (h : Load s) (hShape : Shape s)
    (hChildren : next.children =
      (s.spawnWorker s.workerCount).children)
    (hWorkers : next.workers = (s.spawnWorker s.workerCount).workers)
    (hWindow : s.window = none) (hWindow' : next.window = none) :
    Load next := by
  have hLength := hShape.length_children
  intro k ch hChild
  rw [hChildren, State.spawnWorker] at hChild
  rcases getElem?_concat_cases hChild with hOld | ⟨hNew, rfl⟩
  · have hk := (List.getElem?_eq_some_iff.mp hOld).1
    have hOwes : next.owes k = s.owes k := by
      simp only [State.owes, hWorkers, hWindow, hWindow', State.spawnWorker]
      rw [Function.update_of_ne (by omega)]
    exact hOwes ▸ h k ch hOld
  · have hFree : next.owes k = false := by
      simp [State.owes, hWorkers, hWindow', State.spawnWorker, hNew,
        hLength]
    rw [hFree]
    exact sound_new _

/-- **What the workers owe is kept** by every step in which no worker dies.
The two halves of a hand-over, `send_fd` and the flag, are joined by
`State.window`. -/
theorem Load.step {s next : State} {a : Label} (h : Load s) (hShape : Shape s)
    (hLabel : a.noDeath = true) (hT : Transition s a next) : Load next := by
  have hPhase := hShape.phase
  unfold State.PhaseOk at hPhase
  cases hT with
  | arrive => exact h.frame rfl fun k => rfl
  | startFails i hMain | spawnFails client idx hMain
  | accept client rest hMain | chosen client idx hMain | room client hMain
  | refused client hMain | skipped i hMain | sweepEnds i hMain
  | readFails i ch hMain =>
      exact h.frame rfl fun k => by simp [State.owes, State.window, hMain,
        State.drop]
  | started i hMain =>
      simp only [hMain] at hPhase
      obtain ⟨rfl, -⟩ := hPhase
      refine h.spawnWorker hShape rfl rfl (by simp [State.window, hMain]) ?_
      by_cases hMore : s.workerCount + 1 < initialWorkers
      · simp [State.window, hMore]
      · simp [State.window, hMore]
  | spawned client idx hMain =>
      simp only [hMain] at hPhase
      obtain ⟨rfl, -⟩ := hPhase
      exact h.spawnWorker hShape rfl rfl (by simp [State.window, hMain])
        (by simp [State.window])
  | sendFails client idx ch hMain hChild hExited =>
      exact absurd hExited (h _ ch hChild).alive
  | sends client idx ch hMain hChild hAlive =>
      simp only [hMain] at hPhase
      obtain ⟨hIndex, hFree⟩ := findFreeWorker_eq_some hPhase
      have hFd := hShape.commFd idx hIndex
      rw [hFd] at hChild ⊢
      have hSound := h idx ch hChild
      have hOwes : s.owes idx = false := by
        simp [State.owes, State.window, hMain, hFree]
      rw [hOwes] at hSound
      refine h.set rfl ?_ fun j hj => ?_
      · simpa [State.owes, State.window] using hSound.send client
      · simp [State.owes, State.window, hMain, State.setChild,
          Ne.symm hj]
  | setBusy client idx hMain =>
      refine h.frame rfl fun k => ?_
      by_cases hk : k = idx
      · subst hk
        simp [State.owes, State.window, hMain, setBusy_self]
      · simp [State.owes, State.window, hMain, setBusy_ne hk, Ne.symm hk]
  | swept i status rest ch hMain hIndex hBusy hChild hStatus =>
      have hFd := hShape.commFd i hIndex
      rw [hFd] at hChild ⊢
      have hSound := h i ch hChild
      have hOwes : s.owes i = true := by simp [State.owes, hBusy]
      rw [hOwes] at hSound
      obtain ⟨rfl, hRead⟩ := hSound.swept hStatus
      refine h.set rfl ?_ fun j hj => ?_
      · simpa [State.owes, State.window, setBusy_self] using hRead
      · simp [State.owes, State.window, hMain, setBusy_ne hj]
  | recv k ch client rest hChild hPhase hQueue =>
      exact h.set rfl ((h k ch hChild).recv hPhase hQueue) fun j hj => rfl
  | serve k ch client hChild hPhase =>
      exact h.set rfl ((h k ch hChild).serve hPhase) fun j hj => rfl
  | report k ch hChild hPhase =>
      exact h.set rfl ((h k ch hChild).report hPhase) fun j hj => rfl
  | exit k => contradiction

/-! ## The account -/

/-- What the flags, the counter and the lists of `main` say about the
processes. -/
structure Accounting (s : State) : Prop where
  /-- A worker holds at most one client or unread report, and none if it is
  free and not just being handed a client. -/
  workers : ∀ i < s.workerCount, ∃ ch,
    s.children[(s.workers i).commFd]? = some ch ∧ ch.index = i ∧
      ch.load ≤ 1 ∧
      ((s.workers i).busy = false → s.window ≠ some i → ch.load = 0)
  /-- An accepted client is still held, or has been handed over once, or has
  been dropped once. -/
  clients : ∀ client ∈ s.accepted,
    s.held = some client ∧ s.handOvers client = 0 ∧
        s.dropped.count client = 0 ∨
      s.held ≠ some client ∧ s.handOvers client = 1 ∧
        s.dropped.count client = 0 ∨
      s.held ≠ some client ∧ s.handOvers client = 0 ∧
        s.dropped.count client = 1
  /-- No client is handed over or dropped without being accepted. -/
  onlyAccepted : ∀ client ∉ s.accepted,
    s.handOvers client = 0 ∧ s.dropped.count client = 0
  count : s.children.countP (fun ch => ch.index < s.workerCount) =
    s.workerCount

theorem Clients.count_accepted {s : State} (h : Clients s) {client : Nat}
    (hAccepted : client ∈ s.accepted) : s.accepted.count client = 1 := by
  have hNodup : (s.accepted ++ s.backlog).Nodup :=
    h.order ▸ List.nodup_range
  rw [(List.nodup_append.mp hNodup).1.count, if_pos hAccepted]

theorem Shape.countP_index {s : State} (h : Shape s) :
    s.children.countP (fun ch => ch.index < s.workerCount) =
      s.workerCount := by
  have hAll : ∀ ch ∈ s.children, ch.index < s.workerCount := by
    intro ch hMem
    have hIndex := List.mem_map_of_mem (f := Child.index) hMem
    rwa [h.indices, List.mem_range] at hIndex
  rw [List.countP_eq_length.mpr (by simpa using hAll), h.length_children]

theorem accounting {s : State} (hShape : Shape s) (hClients : Clients s)
    (hLoad : Load s) : Accounting s where
  workers i hi := by
    obtain ⟨ch, hChild, hIndex⟩ := hShape.exists_child hi
    have hSound := (hLoad i ch hChild).load
    rw [hShape.commFd i hi]
    refine ⟨ch, hChild, hIndex, ?_, fun hBusy hWindow => ?_⟩
    · rw [hSound]
      exact Bool.toNat_le _
    · simp [hSound, State.owes, hBusy, hWindow]
  clients client hAccepted := by
    have hAccount := hClients.account client
    rw [hClients.count_accepted hAccepted] at hAccount
    by_cases hHeld : s.held = some client
    · rw [if_pos hHeld] at hAccount
      exact .inl ⟨hHeld, by omega, by omega⟩
    · rw [if_neg hHeld] at hAccount
      by_cases hHanded : s.handOvers client = 0
      · exact .inr (.inr ⟨hHeld, hHanded, by omega⟩)
      · exact .inr (.inl ⟨hHeld, by omega, by omega⟩)
  onlyAccepted client hAccepted := by
    have hAccount := hClients.account client
    rw [List.count_eq_zero_of_not_mem hAccepted] at hAccount
    omega
  count := hShape.countP_index

/-- The two invariants of all runs, also of those in which workers die. -/
def Regular (s : State) : Prop := Shape s ∧ Clients s

theorem regular_start : Regular State.start := ⟨shape_start, clients_start⟩

theorem Regular.step {s next : State} {a : Label} (h : Regular s)
    (hStep : PreFork.step s a = some next) : Regular next :=
  ⟨h.1.step (step_transition hStep), h.2.step (step_transition hStep)⟩

/-- **Accounting.**  While no worker dies, a worker holds one client or one
unread report at most, and none if it is free; every client accepted is handed
to one worker, or dropped, and not both. -/
theorem busy_accounting {s : State}
    (h : (preFork.only Label.noDeath).Reachable s) : Accounting s := by
  have hInv : Regular s ∧ Load s := by
    refine h.invariant (I := fun s => Regular s ∧ Load s) ?_ ?_
    · rintro s rfl
      exact ⟨regular_start, load_start⟩
    · rintro s a next ⟨hRegular, hLoad⟩ - hStep
      obtain ⟨hLabel, hStep⟩ := preFork.only_step_eq_some hStep
      exact ⟨hRegular.step hStep,
        hLoad.step hRegular.1 hLabel (step_transition hStep)⟩
  exact accounting hInv.1.1 hInv.1.2 hInv.2

/-- A run that has handed a client to worker 0, which has not served it
yet. -/
theorem busy_accounting_handed :
    ∃ s : State, Accounting s ∧ s.handed = [(0, 0)] := by
  have hRun : (((preFork.only Label.noDeath).run State.start
      [.spawn true, .spawn true, .arrive, .accept, .select, .send,
        .recv 0]).any fun s => decide (s.handed = [(0, 0)])) = true := by
    decide
  obtain ⟨s, hReach, hHanded⟩ := Machine.exists_reachable_of_run rfl hRun
  exact ⟨s, busy_accounting hReach, of_decide_eq_true hHanded⟩

end UnixHomework.Ports.PreFork
