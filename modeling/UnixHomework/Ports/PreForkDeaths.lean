import UnixHomework.Ports.PreForkAccounting

/-!
# Dead workers in the pre-forked server

The main process learns of a worker's death when `send_fd` fails, and it then
closes the client and clears the worker's `busy`.  Nothing else is remembered:
`find_free_worker` returns the first worker that is not busy, dead or alive.

So the dispatcher keeps its clients exactly as long as the first free worker
is alive whenever a live free one exists (`keepsClients_iff`).  Once a dead
worker is the first free one, it is chosen for every later client
(`Starved.run`).
-/

namespace UnixHomework.Ports.PreFork

open UnixHomework.Verified

/-- Worker `i` has not left its loop.  The main process does not know this. -/
def State.alive (s : State) (i : Nat) : Bool :=
  s.children[(s.workers i).commFd]?.any fun ch => ch.phase ≠ .exited

/-- Some live worker is free, so that there is somebody to serve a client. -/
def State.LiveFree (s : State) : Prop :=
  ∃ i, i < s.workerCount ∧ (s.workers i).busy = false ∧ s.alive i = true

instance (s : State) : Decidable s.LiveFree :=
  inferInstanceAs (Decidable (∃ i, i < s.workerCount ∧ _))

/-- The step closes no client unserved, unless no live worker is free.  A
client is closed when `send_fd` fails, and when no worker is free and none can
be added. -/
def KeepsClients (s : State) (a : Label) : Prop :=
  ∀ next ∈ step s a, next.dropped ≠ s.dropped → ¬ s.LiveFree

/-- At a hand-over, the first free worker is alive if any free one is. -/
def FirstFreeAlive (s : State) (a : Label) : Prop :=
  a = .send → s.LiveFree →
    (findFreeWorker s.workers s.workerCount).all s.alive = true

instance (s : State) (a : Label) : Decidable (KeepsClients s a) :=
  inferInstanceAs (Decidable (∀ next ∈ step s a, _))

instance (s : State) (a : Label) : Decidable (FirstFreeAlive s a) :=
  inferInstanceAs (Decidable (_ → _))

theorem not_liveFree_of_findFreeWorker_eq_none {s : State}
    (h : findFreeWorker s.workers s.workerCount = none) : ¬ s.LiveFree := by
  rintro ⟨i, hi, hFree, -⟩
  rw [busy_of_findFreeWorker_eq_none h hi] at hFree
  contradiction

theorem alive_eq {s : State} {i : Nat} {ch : Child}
    (hChild : s.children[(s.workers i).commFd]? = some ch) :
    s.alive i = decide (ch.phase ≠ .exited) := by
  rw [State.alive, hChild, Option.any_some]

/-- One step keeps its client exactly if it meets the guard.  A client that is
closed without a hand-over finds no free worker, so no live one is free. -/
theorem keepsClients_iff_firstFreeAlive {s next : State} {a : Label}
    (h : Shape s) (hStep : step s a = some next) :
    KeepsClients s a ↔ FirstFreeAlive s a := by
  have hPhase := h.phase
  unfold State.PhaseOk at hPhase
  have hKeeps : KeepsClients s a ↔
      (next.dropped ≠ s.dropped → ¬ s.LiveFree) := by
    constructor
    · intro hAll
      exact hAll next hStep
    · intro hNext next' hStep'
      obtain rfl : next = next' := Option.some.inj (hStep.symm.trans hStep')
      exact hNext
  rw [hKeeps]
  cases step_transition hStep with
  | sendFails client idx ch hMain hChild hExited =>
      simp only [hMain] at hPhase
      have hDead : s.alive idx = false := by
        rw [alive_eq hChild, hExited]
        rfl
      constructor
      · rintro hNot - hLive
        exact absurd hLive (hNot (by simp [State.drop]))
      · rintro hGuard - hLive
        have hAlive := hGuard rfl hLive
        rw [hPhase, Option.all_some, hDead] at hAlive
        contradiction
  | sends client idx ch hMain hChild hAlive =>
      simp only [hMain] at hPhase
      constructor
      · rintro - - -
        rw [hPhase, Option.all_some, alive_eq hChild]
        exact decide_eq_true hAlive
      · rintro - hDropped
        exact absurd rfl hDropped
  | spawnFails client idx hMain =>
      simp only [hMain] at hPhase
      exact iff_of_true
        (fun _ => not_liveFree_of_findFreeWorker_eq_none hPhase.2.2)
        (fun hSend => Label.noConfusion hSend)
  | refused client hMain hFree hFull =>
      exact iff_of_true
        (fun _ => not_liveFree_of_findFreeWorker_eq_none hFree)
        (fun hSend => Label.noConfusion hSend)
  | _ =>
      exact iff_of_true (fun hDropped => absurd rfl hDropped)
        (fun hSend => Label.noConfusion hSend)

/-- **Dead workers.**  In a run the main process never closes a client while
a live worker is free if and only if at each hand-over the first free worker
is alive, or no free one is. -/
theorem keepsClients_iff {as : List Label} {last : State}
    (hRun : preFork.run State.start as = some last) :
    preFork.EachStep KeepsClients State.start as ↔
      preFork.EachStep FirstFreeAlive State.start as :=
  Machine.eachStep_congr (I := Shape)
    (fun _ _ _ h hStep => h.step (step_transition hStep))
    (fun _ _ _ h hStep => keepsClients_iff_firstFreeAlive h hStep)
    shape_start hRun

/-- Worker 1 dies, and worker 0 takes the client. -/
theorem keepsClients_iff_laterDead :
    preFork.EachStep KeepsClients State.start
      [.spawn true, .spawn true, .exit 1, .arrive, .accept, .select,
        .send] := by
  obtain ⟨last, hRun⟩ := Option.isSome_iff_exists.mp
    (show (preFork.run State.start
      [.spawn true, .spawn true, .exit 1, .arrive, .accept, .select,
        .send]).isSome = true by decide)
  exact (keepsClients_iff hRun).mpr (by decide)

/-- Worker 0 dies, and the first client is closed although worker 1 waits. -/
theorem firstDead_drops_client :
    ¬ ∀ as last, preFork.run State.start as = some last →
      preFork.EachStep KeepsClients State.start as := by
  intro hAll
  obtain ⟨last, hRun⟩ := Option.isSome_iff_exists.mp
    (show (preFork.run State.start
      [.spawn true, .spawn true, .exit 0, .arrive, .accept, .select,
        .send]).isSome = true by decide)
  exact absurd (hAll _ last hRun) (by decide)

/-! ## A dead worker is chosen again and again -/

/-- Between two hand-overs, with a dead worker as the first free one. -/
structure Starved (i : Nat) (s : State) : Prop where
  /-- The worker that is found is this one, -/
  first : findFreeWorker s.workers s.workerCount = some i
  /-- and it is dead. -/
  dead : s.alive i = false
  /-- `main` is on its way to the hand-over, to this worker if it has chosen. -/
  main : s.main = .accepting ∨ (∃ client, s.main = .accepted client) ∨
    ∃ client, s.main = .sending client i

/-- Marking a free worker free changes nothing. -/
theorem setBusy_eq_self {workers : Nat → Worker} {i : Nat}
    (h : (workers i).busy = false) : setBusy workers i false = workers := by
  rw [setBusy, ← h]
  exact Function.update_eq_self i workers

theorem alive_setChild {s : State} {i k : Nat} {ch ch' : Child}
    (hDead : s.alive i = false) (hChild : s.children[k]? = some ch)
    (hPhase : ch.phase ≠ .exited) : (s.setChild k ch').alive i = false := by
  by_cases hk : (s.workers i).commFd = k
  · rw [alive_eq (hk ▸ hChild)] at hDead
    exact absurd hPhase (of_decide_eq_false hDead)
  · simp only [State.alive, State.setChild]
    rw [List.getElem?_set_ne (Ne.symm hk)]
    exact hDead

/-- A step of a worker that has not left its loop. -/
theorem Starved.setChild {s : State} {i k : Nat} {ch ch' : Child}
    (h : Starved i s) (hChild : s.children[k]? = some ch)
    (hPhase : ch.phase ≠ .exited) : Starved i (s.setChild k ch') where
  first := h.first
  dead := alive_setChild h.dead hChild hPhase
  main := h.main

theorem Starved.step {s next : State} {a : Label} {i : Nat}
    (h : Starved i s) (hT : Transition s a next) :
    Starved i next ∧ next.handed = s.handed := by
  have hMain := h.main
  cases hT with
  | arrive => exact ⟨⟨h.first, h.dead, h.main⟩, rfl⟩
  | accept client rest =>
      exact ⟨⟨h.first, h.dead, .inr (.inl ⟨client, rfl⟩)⟩, rfl⟩
  | chosen client idx hAccepted hFree =>
      obtain rfl : i = idx := Option.some.inj (h.first.symm.trans hFree)
      exact ⟨⟨h.first, h.dead, .inr (.inr ⟨client, rfl⟩)⟩, rfl⟩
  | room client hAccepted hFree | refused client hAccepted hFree =>
      rw [h.first] at hFree
      contradiction
  | sendFails client idx ch hSending hChild hExited =>
      simp only [hSending, reduceCtorEq, MainPhase.sending.injEq, false_or,
        exists_const, exists_eq_left'] at hMain
      subst hMain
      have hFree := (findFreeWorker_eq_some h.first).2
      simp only [setBusy_eq_self hFree]
      exact ⟨⟨h.first, h.dead, .inl rfl⟩, rfl⟩
  | sends client idx ch hSending hChild hAlive =>
      simp only [hSending, reduceCtorEq, MainPhase.sending.injEq, false_or,
        exists_const, exists_eq_left'] at hMain
      subst hMain
      have hDead := h.dead
      rw [alive_eq hChild] at hDead
      exact absurd hAlive (of_decide_eq_false hDead)
  | recv k ch client rest hChild hPhase =>
      exact ⟨h.setChild hChild (by simp [hPhase]), rfl⟩
  | serve k ch client hChild hPhase =>
      exact ⟨h.setChild hChild (by simp [hPhase]), rfl⟩
  | report k ch hChild hPhase =>
      exact ⟨h.setChild hChild (by simp [hPhase]), rfl⟩
  | exit k ch hChild hPhase =>
      exact ⟨h.setChild hChild hPhase, rfl⟩
  | _ => simp_all

/-- From then on no client reaches a worker: every hand-over fails, and clears
a `busy` that was not set. -/
theorem Starved.run {s last : State} {as : List Label} {i : Nat}
    (h : Starved i s) (hRun : preFork.run s as = some last) :
    Starved i last ∧ last.handed = s.handed := by
  induction as generalizing s with
  | nil =>
      obtain rfl : s = last := Option.some.inj hRun
      exact ⟨h, rfl⟩
  | cons a as ih =>
      obtain ⟨next, hStep, hRest⟩ := Machine.run_cons_eq_some hRun
      obtain ⟨hNext, hHanded⟩ := h.step (step_transition hStep)
      obtain ⟨hLast, hHanded'⟩ := ih hNext hRest
      exact ⟨hLast, hHanded'.trans hHanded⟩

end UnixHomework.Ports.PreFork
