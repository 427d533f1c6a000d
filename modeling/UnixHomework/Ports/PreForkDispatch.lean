import UnixHomework.Ports.PreForkAccounting

/-!
# The pre-forked server serves one client at a time

After each hand-over the main process sweeps the workers, and the sweep reads
a status byte from every busy one.  The read blocks.  The worker that has just
been handed a client is busy, so the main process waits for it before it
accepts the next client, whatever the other workers do.

Without failures this has a simple form (`Sequential`): there are never more
than the two initial workers, and only worker 0 is ever busy, namely until the
read that follows its hand-over.  A client that arrives in the meantime waits
although a worker is free; `servesInParallel_iff` says that this is the only
way to wait.
-/

namespace UnixHomework.Ports.PreFork

open UnixHomework.Verified

/-- No status byte has arrived from worker `i`. -/
def State.silent (s : State) (i : Nat) : Bool :=
  s.children[(s.workers i).commFd]?.any fun ch => ch.toMain = []

/-- `main` is blocked reading a status byte from a busy worker. -/
def State.blocked (s : State) : Bool :=
  match s.main with
  | .sweeping i =>
      decide (i < s.workerCount) && (s.workers i).busy && s.silent i
  | _ => false

/-- There is a free worker, or room for another one. -/
def State.HasRoom (s : State) : Prop :=
  (∃ i, i < s.workerCount ∧ (s.workers i).busy = false) ∨
    s.workerCount < workerMax

/-- `main` does not wait for one worker while a client waits whom another
worker could serve. -/
def State.ServesInParallel (s : State) : Prop :=
  ¬ (s.blocked = true ∧ s.backlog ≠ [] ∧ s.HasRoom)

/-- No client arrives while `main` is blocked; and `main` does not begin its
sweep while a client waits, unless the status byte is already there. -/
def NobodyWaits (s : State) : Label → Prop
  | .arrive => s.blocked = false
  | .setBusy => s.backlog = [] ∨ ∀ i ∈ s.window, s.silent i = false
  | _ => True

instance (s : State) : Decidable s.HasRoom :=
  inferInstanceAs (Decidable ((∃ i, i < s.workerCount ∧ _) ∨ _))

instance (s : State) : Decidable s.ServesInParallel :=
  inferInstanceAs (Decidable (¬ _))

instance (s : State) : (a : Label) → Decidable (NobodyWaits s a)
  | .arrive => inferInstanceAs (Decidable (s.blocked = false))
  | .setBusy =>
      inferInstanceAs
        (Decidable (s.backlog = [] ∨ ∀ i ∈ s.window, s.silent i = false))
  | .spawn _ | .accept | .select | .send | .sweep | .readFails | .recv _
  | .serve _ | .report _ | .exit _ => .isTrue trivial

/-! ## Only worker 0 is ever busy -/

/-- Two workers at most, and none of them busy but worker 0 while `main` is
about to read its status. -/
structure Sequential (s : State) : Prop where
  /-- Once the initial workers have been started, there are no others. -/
  count : (∃ i, s.main = .starting i) ∨ s.workerCount = initialWorkers
  /-- Who is busy is worker 0, and `main` reads its status next. -/
  busy : ∀ i, (s.workers i).busy = true → i = 0 ∧ s.main = .sweeping 0
  /-- No worker is created, since one is free whenever `main` looks for one. -/
  notSpawning : ∀ client idx, s.main ≠ .spawning client idx

theorem Label.noDeath_of_noFailure {a : Label} (h : a.noFailure = true) :
    a.noDeath = true := by
  cases a with
  | exit k => exact h
  | _ => rfl

theorem sequential_start : Sequential State.start where
  count := .inl ⟨0, rfl⟩
  busy _ h := by simp [State.start] at h
  notSpawning _ _ := by simp [State.start]

/-- Outside of the first read, all workers are free. -/
theorem Sequential.free {s : State} (h : Sequential s)
    (hMain : s.main ≠ .sweeping 0) (i : Nat) : (s.workers i).busy = false :=
  Bool.eq_false_iff.mpr fun hBusy => hMain (h.busy i hBusy).2

/-- All workers have been started. -/
theorem Sequential.workers {s : State} (h : Sequential s)
    (hStarted : ∀ i, s.main ≠ .starting i) : s.workerCount = initialWorkers :=
  h.count.resolve_left fun ⟨i, hi⟩ => hStarted i hi

theorem Sequential.findFreeWorker {s : State} (h : Sequential s)
    (hMain : s.main ≠ .sweeping 0) (hStarted : ∀ i, s.main ≠ .starting i) :
    findFreeWorker s.workers s.workerCount = some 0 := by
  rw [h.workers hStarted]
  refine List.find?_range_eq_some.mpr ⟨?_, ?_, ?_⟩
  · simp [h.free hMain 0]
  · simp [initialWorkers]
  · intro j hj
    exact absurd hj (Nat.not_lt_zero j)

/-- A step after which all workers are free, which is the state that the sweep
leaves and every hand-over finds. -/
theorem sequential_of_free {s : State}
    (hCount : (∃ i, s.main = .starting i) ∨ s.workerCount = initialWorkers)
    (hFree : ∀ i, (s.workers i).busy = false)
    (hMain : ∀ client idx, s.main ≠ .spawning client idx) :
    Sequential s where
  count := hCount
  busy i hBusy := by
    rw [hFree i] at hBusy
    contradiction
  notSpawning := hMain

theorem Sequential.step {s next : State} {a : Label} (h : Sequential s)
    (hShape : Shape s) (hLoad : Load s) (hLabel : a.noFailure = true)
    (hT : Transition s a next) : Sequential next := by
  have hPhase := hShape.phase
  unfold State.PhaseOk at hPhase
  cases hT with
  | arrive => exact ⟨h.count, h.busy, h.notSpawning⟩
  | started i hMain =>
      simp only [hMain] at hPhase
      obtain ⟨rfl, hi⟩ := hPhase
      refine sequential_of_free ?_ (fun j => ?_) fun client idx => ?_
      · by_cases hMore : s.workerCount + 1 < initialWorkers
        · exact .inl ⟨s.workerCount + 1, by simp [hMore]⟩
        · simp only [initialWorkers] at hi hMore
          simp only [State.spawnWorker, initialWorkers]
          omega
      · by_cases hj : j = s.workerCount
        · simp [State.spawnWorker, hj]
        · simp only [State.spawnWorker, Function.update_of_ne hj]
          exact h.free (by simp [hMain]) j
      · by_cases hMore : s.workerCount + 1 < initialWorkers
        · simp [hMore]
        · simp [hMore]
  | startFails | spawnFails | exit => contradiction
  | spawned client idx hMain => exact absurd hMain (h.notSpawning client idx)
  | accept client rest hMain | chosen client idx hMain =>
      refine sequential_of_free (.inr ?_) (h.free (by simp [hMain])) (by simp)
      exact h.workers (by simp [hMain])
  | room client hMain hFree | refused client hMain hFree =>
      rw [h.findFreeWorker (by simp [hMain]) (by simp [hMain])] at hFree
      contradiction
  | sendFails client idx ch hMain hChild hExited =>
      exact absurd hExited (hLoad _ ch hChild).alive
  | sends client idx ch hMain =>
      refine sequential_of_free (.inr ?_) (h.free (by simp [hMain])) (by simp)
      exact h.workers (by simp [hMain])
  | setBusy client idx hMain =>
      simp only [hMain] at hPhase
      rw [h.findFreeWorker (by simp [hMain]) (by simp [hMain])] at hPhase
      obtain rfl := Option.some.inj hPhase
      refine ⟨.inr (h.workers (by simp [hMain])), ?_, by simp⟩
      intro i hBusy
      by_cases hi : i = 0
      · exact ⟨hi, rfl⟩
      · simp only [setBusy_ne hi] at hBusy
        rw [h.free (by simp [hMain]) i] at hBusy
        contradiction
  | swept i status rest ch hMain hIndex hBusy hChild hStatus =>
      obtain ⟨rfl, -⟩ := h.busy i hBusy
      have hFree : status = freeStatus :=
        (hLoad _ ch hChild).statuses status (hStatus ▸ List.mem_cons_self)
      refine sequential_of_free (.inr ?_) (fun j => ?_) (by simp)
      · exact h.workers (by simp [hMain])
      · simp only [hFree, if_true]
        by_cases hj : j = 0
        · rw [hj, setBusy_self]
        · rw [setBusy_ne hj]
          exact Bool.eq_false_iff.mpr fun hj' => hj (h.busy j hj').1
  | skipped i hMain hIndex hFree =>
      refine sequential_of_free (.inr ?_) (fun j => ?_) (by simp)
      · exact h.workers (by simp [hMain])
      · refine Bool.eq_false_iff.mpr fun hj => ?_
        obtain ⟨rfl, hMain'⟩ := h.busy j hj
        rw [hMain, MainPhase.sweeping.injEq] at hMain'
        rw [hMain', hj] at hFree
        contradiction
  | sweepEnds i hMain hIndex =>
      have hCount := h.workers (by simp [hMain])
      refine sequential_of_free (.inr hCount) (h.free ?_) (by simp)
      rw [hMain, Ne, MainPhase.sweeping.injEq]
      simp only [initialWorkers] at hCount
      omega
  | readFails i ch hMain hIndex hBusy hChild hExited =>
      exact absurd hExited (hLoad _ ch hChild).alive
  | recv | serve | report => exact ⟨h.count, h.busy, h.notSpawning⟩

/-! ## Waiting clients -/

/-- A blocked `main` waits for worker 0: nobody else is busy, and the sweep
begins with it. -/
theorem Sequential.blocked_iff {s : State} (h : Sequential s) :
    s.blocked = true ↔ s.main = .sweeping 0 ∧ 0 < s.workerCount ∧
      (s.workers 0).busy = true ∧ s.silent 0 = true := by
  constructor
  · intro hBlocked
    unfold State.blocked at hBlocked
    split at hBlocked
    · rename_i i hMain
      simp only [Bool.and_eq_true, decide_eq_true_eq] at hBlocked
      obtain ⟨⟨hIndex, hBusy⟩, hSilent⟩ := hBlocked
      obtain ⟨rfl, -⟩ := h.busy i hBusy
      exact ⟨hMain, hIndex, hBusy, hSilent⟩
    · contradiction
  · rintro ⟨hMain, hIndex, hBusy, hSilent⟩
    simp [State.blocked, hMain, hIndex, hBusy, hSilent]

theorem Sequential.blocked_eq_false {s : State} (h : Sequential s)
    (hMain : s.main ≠ .sweeping 0) : s.blocked = false :=
  Bool.eq_false_iff.mpr fun hBlocked => hMain (h.blocked_iff.mp hBlocked).1

/-- There is always room, since two workers are not five.  So serving in
parallel means that nobody waits while `main` is blocked. -/
theorem Sequential.parallel_iff_backlog {s : State} (h : Sequential s) :
    s.ServesInParallel ↔ (s.blocked = true → s.backlog = []) := by
  constructor
  · intro hParallel hBlocked
    refine Classical.byContradiction fun hBacklog => hParallel ?_
    refine ⟨hBlocked, hBacklog, .inr ?_⟩
    have hMain := (h.blocked_iff.mp hBlocked).1
    rw [h.workers (by simp [hMain])]
    decide
  · rintro hEmpty ⟨hBlocked, hBacklog, -⟩
    exact hBacklog (hEmpty hBlocked)

/-- A worker's step takes no status byte away, so it cannot block `main`. -/
theorem blocked_setChild {s : State} {k : Nat} {ch ch' : Child}
    (hChild : s.children[k]? = some ch)
    (hToMain : ch'.toMain = [] → ch.toMain = [])
    (hBlocked : (s.setChild k ch').blocked = true) : s.blocked = true := by
  have hSilent : ∀ i, (s.setChild k ch').silent i = true →
      s.silent i = true := by
    intro i hi
    by_cases hk : (s.workers i).commFd = k
    · have hLength := (List.getElem?_eq_some_iff.mp hChild).1
      simp only [State.silent, State.setChild, hk,
        List.getElem?_set_self hLength, Option.any_some,
        decide_eq_true_eq] at hi
      simp [State.silent, hk, hChild, hToMain hi]
    · simp only [State.silent, State.setChild,
        List.getElem?_set_ne (Ne.symm hk)] at hi
      exact hi
  unfold State.blocked at hBlocked ⊢
  simp only [State.setChild] at hBlocked
  split at hBlocked
  · simp only [Bool.and_eq_true] at hBlocked ⊢
    exact ⟨hBlocked.1, hSilent _ hBlocked.2⟩
  · contradiction

/-- The invariants of runs without failures: which descriptors belong to whom,
how many clients and status bytes are under way, and that only worker 0 is ever
busy. -/
def Steady (s : State) : Prop := Shape s ∧ Load s ∧ Sequential s

theorem Steady.step {s next : State} {a : Label} (h : Steady s)
    (hStep : (preFork.only Label.noFailure).step s a = some next) :
    Steady next := by
  obtain ⟨hLabel, hStep⟩ := preFork.only_step_eq_some hStep
  have hT := step_transition hStep
  obtain ⟨hShape, hLoad, hSequential⟩ := h
  exact ⟨hShape.step hT,
    hLoad.step hShape (Label.noDeath_of_noFailure hLabel) hT,
    hSequential.step hShape hLoad hLabel hT⟩

/-- One step lets no client wait exactly if it meets the guard.  A client that
arrives is let wait if `main` is blocked, and one in the backlog if `main` now
comes to block. -/
theorem Steady.servesInParallel_step {s next : State} {a : Label}
    (h : Steady s) (hParallel : s.ServesInParallel)
    (hStep : (preFork.only Label.noFailure).step s a = some next) :
    next.ServesInParallel ↔ NobodyWaits s a := by
  have hNext := (h.step hStep).2.2
  obtain ⟨hLabel, hStep'⟩ := preFork.only_step_eq_some hStep
  obtain ⟨hShape, -, hSequential⟩ := h
  rw [hSequential.parallel_iff_backlog] at hParallel
  rw [hNext.parallel_iff_backlog]
  cases step_transition hStep' with
  | arrive =>
      have hBlocked : ({ s with
          backlog := s.backlog ++ [s.arrivals]
          arrivals := s.arrivals + 1 } : State).blocked = s.blocked := rfl
      simp [hBlocked, NobodyWaits]
  | setBusy client idx hMain =>
      have hPhase := hShape.phase
      simp only [State.PhaseOk, hMain] at hPhase
      obtain ⟨hIndex, -⟩ := findFreeWorker_eq_some hPhase
      rw [hSequential.findFreeWorker (by simp [hMain]) (by simp [hMain])]
        at hPhase
      obtain rfl := Option.some.inj hPhase
      rw [hNext.blocked_iff]
      have hSilent : ({ s with
          main := .sweeping 0
          workers := PreFork.setBusy s.workers 0 true } : State).silent 0 =
            s.silent 0 := by
        simp [State.silent]
      rw [hSilent]
      cases hByte : s.silent 0 with
      | true => simp [NobodyWaits, State.window, hMain, hByte, hIndex,
          setBusy_self]
      | false => simp [NobodyWaits, State.window, hMain, hByte]
  | recv k ch client rest hChild =>
      exact iff_of_true (fun hBlocked => hParallel
        (blocked_setChild hChild (by simp) hBlocked)) trivial
  | serve k ch client hChild =>
      exact iff_of_true (fun hBlocked => hParallel
        (blocked_setChild hChild (by simp) hBlocked)) trivial
  | report k ch hChild =>
      exact iff_of_true (fun hBlocked => hParallel
        (blocked_setChild hChild (by simp) hBlocked)) trivial
  | exit | startFails | spawnFails => contradiction
  | started i hMain =>
      refine iff_of_true (fun hBlocked => ?_) trivial
      rw [hNext.blocked_eq_false] at hBlocked
      · contradiction
      · by_cases hMore : i + 1 < initialWorkers
        · simp [hMore]
        · simp [hMore]
  | _ =>
      refine iff_of_true (fun hBlocked => ?_) trivial
      rw [hNext.blocked_eq_false (by simp [State.drop])] at hBlocked
      contradiction

/-- **No parallelism.**  In a run without failures the main process never
keeps a client waiting for a busy worker, while another worker could serve it,
if and only if no client comes or waits while the main process is blocked. -/
theorem servesInParallel_iff {as : List Label} {last : State}
    (hRun : (preFork.only Label.noFailure).run State.start as = some last) :
    (preFork.only Label.noFailure).EachState State.ServesInParallel
        State.start as ↔
      (preFork.only Label.noFailure).EachStep NobodyWaits State.start as :=
  Machine.eachState_iff_eachStep (I := Steady)
    (fun _ _ _ h hStep => h.step hStep)
    (fun _ _ _ h hParallel hStep => h.servesInParallel_step hParallel hStep)
    ⟨shape_start, load_start, sequential_start⟩ (by decide) hRun

/-- Two clients, of which the second comes after the first is served. -/
theorem servesInParallel_iff_oneByOne :
    (preFork.only Label.noFailure).EachState State.ServesInParallel
      State.start
      [.spawn true, .spawn true, .arrive, .accept, .select, .send, .setBusy,
        .recv 0, .serve 0, .report 0, .arrive, .sweep] := by
  obtain ⟨last, hRun⟩ := Option.isSome_iff_exists.mp
    (show ((preFork.only Label.noFailure).run State.start
      [.spawn true, .spawn true, .arrive, .accept, .select, .send, .setBusy,
        .recv 0, .serve 0, .report 0, .arrive, .sweep]).isSome = true by
      decide)
  exact (servesInParallel_iff hRun).mpr (by decide)

/-- Two clients at once: the second waits for worker 0, and worker 1 is
free. -/
theorem second_client_waits :
    ¬ ∀ s, (preFork.only Label.noFailure).Reachable s →
      s.ServesInParallel := by
  intro hAll
  have hRun : (((preFork.only Label.noFailure).run State.start
      [.spawn true, .spawn true, .arrive, .arrive, .accept, .select, .send,
        .setBusy]).any fun s => decide (¬ s.ServesInParallel)) = true := by
    decide
  obtain ⟨s, hReach, hWaits⟩ := Machine.exists_reachable_of_run rfl hRun
  exact of_decide_eq_true hWaits (hAll s hReach)

end UnixHomework.Ports.PreFork
