import UnixHomework.Ports.BoundedQueueFifo
import UnixHomework.Ports.BoundedQueueWakeup
import UnixHomework.Ports.QueueStatementsRefine

/-!
# Statements under the mutex are one step

The queue whose statements are steps of their own refines the queue in which a
stretch under the mutex is one step (`statements_refine`).  So what is known of
the coarser queue holds of the statements: threads exclude each other, and the
queue is a channel whenever the mutex is free (`statements_fifo`).

The relation is `Refines` of the module before.  A call, a lock, a test, an
assignment and an unlock are not seen by the coarser model; the wait and the
signal each end a stretch and are its one step there (`Refines.wait`,
`Refines.signal`), and a spurious wake-up is one in both models.  So the proof
has one lemma for each kind of statement, and `Refines.step` puts them
together.

What holds between two statements and not only between two stretches is said
separately: the indices are in range even while an index has been assigned and
the count has not.
-/

namespace UnixHomework.Ports.QueueStatements

open UnixHomework.Verified
open UnixHomework.Ports.BoundedQueue (SocketQueue queueInit pushStretch
  popStretch queueMachine)

/-! ## Steps of the coarser model -/

section Stretches

variable {Tid : Type*} [DecidableEq Tid] {f f' : State Tid}
  {c d : BoundedQueue.State Tid} {t u : Tid} {call : Call} {again : Bool}
  {chosen : Multiset Tid}

/-- The stretch of a call, in the coarser model: all that happens between two
points where the mutex is free. -/
def stretch (c : BoundedQueue.State Tid) (t : Tid) (chosen : Multiset Tid) :
    Call → Option (BoundedQueue.State Tid)
  | .push => pushStretch c t chosen
  | .pop => popStretch c t chosen

/-- The label of a stretch, by whether it starts the call or goes on behind a
wait. -/
def stretchLabel (t : Tid) (clientSock : Int) (chosen : Multiset Tid) :
    Call → Bool → BoundedQueue.Label Tid
  | .push, false => .push t clientSock chosen
  | .push, true => .pushResume t chosen
  | .pop, false => .pop t chosen
  | .pop, true => .popResume t chosen

/-- The state in which a stretch of `t` starts: `t` is not among the woken any
more, its argument is where `queue_push` will look for it, and nothing else has
changed. -/
structure Started (c d : BoundedQueue.State Tid) (t : Tid) (call : Call)
    (clientSock : Int) : Prop where
  q : d.q = c.q
  /-- Nobody has fallen asleep. -/
  waiting : ∀ call, (cond d call).waiting = (cond c call).waiting
  /-- `t` has been taken from the woken, if it was one. -/
  woken : ∀ call u, (cond d call).woken.count u =
    if u = t then 0 else (cond c call).woken.count u
  /-- A `queue_push` has its argument. -/
  own : call = .push → d.clientSock t = clientSock
  others : ∀ u, u ≠ t → d.clientSock u = c.clientSock u
  pushed : d.pushed = c.pushed
  popped : d.popped = c.popped

/-- A thread inside the mutex sleeps nowhere. -/
theorem Refines.not_asleep (h : Refines f c)
    (hInside : (f.place t).inside = true) (call : Call) :
    (cond c call).waiting.count t = 0 := by
  rw [h.waiting, h.asleep]
  cases hp : f.place t with
  | testing _ _ | body _ _ _ | unlocking => rfl
  | outside | locking _ | asleep _ | woken _ =>
      rw [hp] at hInside
      contradiction

/-- The first stretch of a call starts with the argument.  The thread was
outside of the queue, so it is not among the woken either. -/
theorem Refines.start_first (h : Refines f c) (call : Call)
    (hInside : (f.place t).inside = true)
    (hWoken : ∀ call', (cond c call').woken.count t = 0) :
    ∃ d, Started c d t call (f.clientSock t) ∧
      ∀ chosen, BoundedQueue.step c
        (stretchLabel t (f.clientSock t) chosen call false) =
          stretch d t chosen call := by
  have hWaiting := h.not_asleep hInside
  have hOutside : c.Outside t := by
    have h1 := hWoken .push
    have h2 := hWoken .pop
    have h3 := hWaiting .push
    have h4 := hWaiting .pop
    simp only [cond] at h1 h2 h3 h4
    simp only [BoundedQueue.State.Outside, CondVar.places]
    omega
  have hNone : ∀ call' u, (cond c call').woken.count u =
      if u = t then 0 else (cond c call').woken.count u := by
    intro call' u
    by_cases hut : u = t
    · rw [if_pos hut, hut]
      exact hWoken call'
    · rw [if_neg hut]
  cases call with
  | push =>
      refine ⟨{ c with clientSock :=
        Function.update c.clientSock t (f.clientSock t) }, ?_, ?_⟩
      · refine ⟨rfl, fun call' => ?_, fun call' u => ?_,
          fun _ => Function.update_self .., ?_, rfl, rfl⟩
        · cases call' <;> rfl
        · rw [← hNone]
          cases call' <;> rfl
        · exact fun u hut => Function.update_of_ne hut ..
      · exact fun chosen => if_pos hOutside
  | pop =>
      refine ⟨c, ⟨rfl, fun _ => rfl, hNone, by simp, fun _ _ => rfl, rfl,
        rfl⟩, ?_⟩
      exact fun chosen => if_pos hOutside

/-- The stretch behind a wait starts by leaving the woken.  The argument of the
call is the one it slept with. -/
theorem Refines.start_again (h : Refines f c) (call : Call)
    (hWakes : ∀ call', (f.place t).wakes call' = decide (call = call')) :
    ∃ d, Started c d t call (f.clientSock t) ∧
      ∀ chosen, BoundedQueue.step c
        (stretchLabel t (f.clientSock t) chosen call true) =
          stretch d t chosen call := by
  have hWoken : ∀ call', (cond c call').woken.count t =
      (decide (call = call')).toNat := fun call' => by
    rw [h.woken, hWakes]
  have hOne : (cond c call).woken.count t = 1 := by
    rw [hWoken, decide_eq_true rfl]
    rfl
  have hErase : ∀ u, ((cond c call).woken.erase t).count u =
      if u = t then 0 else (cond c call).woken.count u := by
    intro u
    by_cases hut : u = t
    · rw [if_pos hut, hut, Multiset.count_erase_self, hOne]
    · rw [if_neg hut, Multiset.count_erase_of_ne hut]
  have hOther : ∀ call', call ≠ call' → ∀ u,
      (cond c call').woken.count u =
        if u = t then 0 else (cond c call').woken.count u := by
    intro call' hCall u
    by_cases hut : u = t
    · rw [if_pos hut, hut, hWoken call', decide_eq_false hCall]
      rfl
    · rw [if_neg hut]
  have hMem : t ∈ (cond c call).woken :=
    Multiset.count_pos.mp (hOne ▸ Nat.one_pos)
  have hSock : call = .push → c.clientSock t = f.clientSock t := by
    rintro rfl
    refine h.sock t (.inr ?_)
    rw [hWakes]
    rfl
  cases call with
  | push =>
      refine ⟨{ c with condNonfull :=
        { c.condNonfull with woken := c.condNonfull.woken.erase t } },
        ⟨rfl, fun call' => ?_, fun call' u => ?_, hSock, fun _ _ => rfl,
          rfl, rfl⟩, fun chosen => ?_⟩
      · cases call' <;> rfl
      · cases call' with
        | push => exact hErase u
        | pop => exact hOther .pop (by decide) u
      · have hIn : t ∈ c.condNonfull.woken := hMem
        show (c.condNonfull.resume t).bind _ = _
        rw [CondVar.resume, if_pos hIn]
        rfl
  | pop =>
      refine ⟨{ c with condNonempty :=
        { c.condNonempty with woken := c.condNonempty.woken.erase t } },
        ⟨rfl, fun call' => ?_, fun call' u => ?_, hSock, fun _ _ => rfl,
          rfl, rfl⟩, fun chosen => ?_⟩
      · cases call' <;> rfl
      · cases call' with
        | push => exact hOther .push (by decide) u
        | pop => exact hErase u
      · have hIn : t ∈ c.condNonempty.woken := hMem
        show (c.condNonempty.resume t).bind _ = _
        rw [CondVar.resume, if_pos hIn]
        rfl

/-- **The stretch starts** in every state in which the thread has the mutex,
behind a wait or not.  Here the coarser model makes up for what it has not seen
of the call. -/
theorem Refines.start (h : Refines f c) (call : Call) (again : Bool)
    (hInside : (f.place t).inside = true)
    (hWakes : ∀ call', (f.place t).wakes call' =
      (again && decide (call = call'))) :
    ∃ d, Started c d t call (f.clientSock t) ∧
      ∀ chosen, BoundedQueue.step c
        (stretchLabel t (f.clientSock t) chosen call again) =
          stretch d t chosen call := by
  cases again with
  | false =>
      refine h.start_first call hInside fun call' => ?_
      rw [h.woken, hWakes]
      rfl
  | true => exact h.start_again call hWakes

/-- A stretch that ends in the wait: the thread joins the sleepers of its
condition variable, and the queue stays as it is. -/
theorem stretch_blocked (t : Tid) (chosen : Multiset Tid)
    (hBlocked : call.Blocked d.q) :
    ∃ c', stretch d t chosen call = some c' ∧ c'.q = d.q ∧
      (∀ call', cond c' call' = if call' = call then (cond d call).wait t
        else cond d call') ∧
      c'.clientSock = d.clientSock ∧ c'.pushed = d.pushed ∧
      c'.popped = d.popped := by
  cases call with
  | push =>
      refine ⟨_, if_pos hBlocked, rfl, fun call' => ?_, rfl, rfl, rfl⟩
      cases call' <;> rfl
  | pop =>
      refine ⟨_, if_pos hBlocked, rfl, fun call' => ?_, rfl, rfl, rfl⟩
      cases call' <;> rfl

/-- A stretch that ends with its signal: the assignments are made, the threads
chosen by the signal are woken, and the value is recorded. -/
theorem stretch_goes (t : Tid) (hGoes : ¬call.Blocked d.q)
    (hChosen : chosen ≤ (cond d call.other).waiting)
    (hSome : (cond d call.other).waiting = 0 ∨ chosen ≠ 0) :
    ∃ c', stretch d t chosen call = some c' ∧
      c'.q = partway d.q (d.clientSock t) call .signal ∧
      (∀ call', cond c' call' = if call' = call.other
        then ⟨(cond d call').waiting - chosen, (cond d call').woken + chosen⟩
        else cond d call') ∧
      c'.clientSock = d.clientSock ∧
      (c'.pushed = if call = .push then d.pushed ++ [d.clientSock t]
        else d.pushed) ∧
      (c'.popped = if call = .pop then d.popped ++ [d.q.data d.q.front]
        else d.popped) := by
  cases call with
  | push =>
      have hSignal : d.condNonempty.signal chosen = some
          ⟨d.condNonempty.waiting - chosen, d.condNonempty.woken + chosen⟩ :=
        if_pos ⟨hChosen, hSome⟩
      have hStretch : stretch d t chosen .push =
          (d.condNonempty.signal chosen).map _ := if_neg hGoes
      rw [hSignal] at hStretch
      refine ⟨_, hStretch, rfl, fun call' => ?_, rfl, rfl, rfl⟩
      cases call' <;> rfl
  | pop =>
      have hSignal : d.condNonfull.signal chosen = some
          ⟨d.condNonfull.waiting - chosen, d.condNonfull.woken + chosen⟩ :=
        if_pos ⟨hChosen, hSome⟩
      have hStretch : stretch d t chosen .pop =
          (d.condNonfull.signal chosen).map _ := if_neg hGoes
      rw [hSignal] at hStretch
      refine ⟨_, hStretch, rfl, fun call' => ?_, rfl, rfl, rfl⟩
      cases call' <;> rfl

/-- `pthread_cond_wait` is the end of a stretch.  It gives the mutex up and
puts the thread to sleep in one step, so no signal falls between the two. -/
theorem Refines.wait (h : Refines f c)
    (hPlace : f.place t = .testing call again) (hBlocked : call.Blocked f.q) :
    ∃ c', BoundedQueue.step c
        (stretchLabel t (f.clientSock t) 0 call again) = some c' ∧
      Refines (f.wait t call) c' := by
  have hInside : (f.place t).inside = true := by
    rw [hPlace]
    rfl
  have hQueue := h.queue_eq hPlace (.inr ⟨call, again, rfl⟩)
  have hWaiting := h.not_asleep hInside
  obtain ⟨d, hStart, hStep⟩ := h.start call again hInside
    fun call' => by rw [hPlace]; rfl
  obtain ⟨c', hStretch, hq, hCond, hSock, hPushed, hPopped⟩ :=
    stretch_blocked t 0
      (show call.Blocked d.q by rw [hStart.q, ← hQueue]; exact hBlocked)
  refine ⟨c', (hStep 0).trans hStretch, ?_⟩
  generalize hNext : f.wait t call = f'
  have hMove : f'.place = Function.update f.place t (.asleep call) :=
    hNext ▸ rfl
  have hFree : f'.mutex = none := hNext ▸ rfl
  have hSleepers : f'.sleepers = Function.update f.sleepers call
      (f.sleepers call + {t}) := hNext ▸ rfl
  have hSocks : f'.clientSock = f.clientSock := hNext ▸ rfl
  have hAt : f'.place t = .asleep call := by rw [hMove, Function.update_self]
  have hElse : ∀ u, u ≠ t → f'.place u = f.place u := fun u hu => by
    rw [hMove, Function.update_of_ne hu]
  have hNobody : ∀ u, (f'.place u).inside ≠ true := by
    intro u
    by_cases hut : u = t
    · rw [hut, hAt]
      nofun
    · rw [hElse u hut]
      exact fun hu => hut (h.exclusive hu hInside)
  refine ⟨?_, fun u => ?_, ?_, ?_, ?_, ?_, ?_, ?_, ?_⟩
  · rw [shown_of_free hFree, hq, hStart.q, ← hQueue, ← hNext]
    rfl
  · rw [hFree]
    exact iff_of_false (hNobody u) nofun
  · intro u call' again' statement hu
    exact absurd (by rw [hu]; rfl) (hNobody u)
  · intro call' u
    rw [hSleepers]
    by_cases hut : u = t
    · subst hut
      rw [hAt]
      by_cases hCall : call' = call
      · subst hCall
        rw [Function.update_self, Multiset.count_add, ← h.waiting,
          hWaiting, Multiset.count_singleton_self]
        simp [Place.sleeps]
      · rw [Function.update_of_ne hCall, ← h.waiting, hWaiting]
        simp [Place.sleeps, Ne.symm hCall]
    · rw [hElse u hut, ← h.asleep]
      by_cases hCall : call' = call
      · subst hCall
        rw [Function.update_self, Multiset.count_add,
          Multiset.count_singleton, if_neg hut, Nat.add_zero]
      · rw [Function.update_of_ne hCall]
  · intro call'
    rw [hCond, hSleepers]
    by_cases hCall : call' = call
    · subst hCall
      rw [if_pos rfl, Function.update_self, ← h.waiting, ← hStart.waiting]
      rfl
    · rw [if_neg hCall, Function.update_of_ne hCall, hStart.waiting,
        h.waiting]
  · intro call' u
    have hWoken : (cond c' call').woken = (cond d call').woken := by
      rw [hCond]
      by_cases hCall : call' = call
      · rw [if_pos hCall, hCall]
        rfl
      · rw [if_neg hCall]
    rw [hWoken, hStart.woken]
    by_cases hut : u = t
    · rw [if_pos hut, hut, hAt]
      rfl
    · rw [if_neg hut, hElse u hut, h.woken]
  · intro u hu
    rw [hSock, hSocks]
    by_cases hut : u = t
    · subst hut
      rw [hAt] at hu
      refine hStart.own ?_
      rcases hu with hu | hu
      · cases call with
        | push => rfl
        | pop => contradiction
      · contradiction
    · rw [hElse u hut] at hu
      rw [hStart.others u hut]
      exact h.sock u hu
  · rw [hPushed, hStart.pushed, ← h.pushed, ← hNext]
    rfl
  · rw [hPopped, hStart.popped, ← h.popped, ← hNext]
    rfl

/-- The threads in `chosen` have been woken, each from its wait in `call`;
nobody else has fallen asleep or been woken. -/
structure Wakes (f f' : State Tid) (call : Call) (chosen : Multiset Tid) :
    Prop where
  /-- They slept before, -/
  asleep : ∀ u ∈ chosen, f.place u = .asleep call
  /-- each of them is woken once, -/
  once : ∀ u ∈ chosen, chosen.count u = 1
  /-- and now they are awake. -/
  woken : ∀ u ∈ chosen, f'.place u = .woken call
  /-- The others sleep or do not, as before. -/
  sleeps : ∀ u ∉ chosen, ∀ call',
    (f'.place u).sleeps call' = (f.place u).sleeps call'
  /-- They have been taken from the sleepers. -/
  sleepers : f'.sleepers =
    Function.update f.sleepers call (f.sleepers call - chosen)

/-- Who sleeps is still counted once, and nobody else. -/
theorem Wakes.count_sleepers (hWakes : Wakes f f' call chosen)
    (hOld : ∀ call' u, (f.sleepers call').count u =
      ((f.place u).sleeps call').toNat) (call' : Call) (u : Tid) :
    (f'.sleepers call').count u = ((f'.place u).sleeps call').toNat := by
  have hBefore := hOld call' u
  rw [hWakes.sleepers]
  by_cases hu : u ∈ chosen
  · rw [hWakes.woken u hu]
    rw [hWakes.asleep u hu] at hBefore
    by_cases hCall : call' = call
    · subst hCall
      rw [Function.update_self, Multiset.count_sub, hBefore, hWakes.once u hu]
      simp [Place.sleeps]
    · rw [Function.update_of_ne hCall, hBefore]
      simp [Place.sleeps, Ne.symm hCall]
  · rw [hWakes.sleeps u hu, ← hBefore]
    by_cases hCall : call' = call
    · rw [hCall, Function.update_self, Multiset.count_sub,
        Multiset.count_eq_zero.mpr hu, Nat.sub_zero]
    · rw [Function.update_of_ne hCall]

/-- The condition variables of the coarser model lose the same threads to the
woken. -/
theorem Wakes.waiting_eq {c' : BoundedQueue.State Tid}
    (hWakes : Wakes f f' call chosen)
    (hOld : ∀ call', (cond d call').waiting = f.sleepers call')
    (hCond : ∀ call', cond c' call' = if call' = call
      then ⟨(cond d call').waiting - chosen, (cond d call').woken + chosen⟩
      else cond d call') (call' : Call) :
    (cond c' call').waiting = f'.sleepers call' := by
  rw [hCond, hWakes.sleepers]
  by_cases hCall : call' = call
  · rw [if_pos hCall, hCall, Function.update_self, ← hOld]
  · rw [if_neg hCall, Function.update_of_ne hCall, hOld]

/-- And they are among its woken threads, each of them once.  A chosen thread
was asleep, so it was not there before. -/
theorem Wakes.count_woken {c' : BoundedQueue.State Tid}
    (hWakes : Wakes f f' call chosen)
    (hCond : ∀ call', cond c' call' = if call' = call
      then ⟨(cond d call').waiting - chosen, (cond d call').woken + chosen⟩
      else cond d call') {call' : Call} {u : Tid}
    (hNone : u ∈ chosen → (cond d call').woken.count u = 0)
    (hOld : u ∉ chosen → (cond d call').woken.count u =
      ((f'.place u).wakes call').toNat) :
    (cond c' call').woken.count u = ((f'.place u).wakes call').toNat := by
  have hCount : (cond c' call').woken.count u = (cond d call').woken.count u
      + if call' = call then chosen.count u else 0 := by
    rw [hCond]
    by_cases hCall : call' = call
    · rw [if_pos hCall, if_pos hCall, Multiset.count_add]
    · rw [if_neg hCall, if_neg hCall, Nat.add_zero]
  by_cases hu : u ∈ chosen
  · rw [hCount, hNone hu, hWakes.woken u hu, hWakes.once u hu]
    by_cases hCall : call' = call
    · simp [Place.wakes, hCall]
    · simp [Place.wakes, hCall, Ne.symm hCall]
  · rw [hCount, Multiset.count_eq_zero.mpr hu, ite_self, Nat.add_zero, hOld hu]

/-- A signal wakes threads that sleep, each of them once, since nobody sleeps
twice. -/
theorem Refines.chosen_asleep (h : Refines f c)
    (hChosen : chosen ≤ f.sleepers call) (hu : u ∈ chosen) :
    f.place u = .asleep call ∧ chosen.count u = 1 := by
  have hLe := Multiset.count_le_of_le u hChosen
  have hPos := Multiset.count_pos.mpr hu
  rw [h.asleep] at hLe
  have hOne := Bool.toNat_le ((f.place u).sleeps call)
  refine ⟨?_, by omega⟩
  cases hs : (f.place u).sleeps call with
  | true => exact of_decide_eq_true hs
  | false =>
      rw [hs, Bool.toNat_false] at hLe
      omega

/-- `pthread_cond_signal`, by what it does to each thread: those chosen
wake up, the one that signals goes on to unlock, and the others stay where
they are. -/
structure Signals (f f' : State Tid) (t : Tid) (call : Call)
    (chosen : Multiset Tid) : Prop where
  /-- Those chosen wake up. -/
  wakes : Wakes f f' call.other chosen
  /-- The thread itself is not one of them, and goes on to unlock. -/
  own : t ∉ chosen ∧ f'.place t = .unlocking
  /-- The others stay where they are. -/
  others : ∀ u, u ∉ chosen → u ≠ t → f'.place u = f.place u
  /-- A signal does not touch the mutex, the queue or the arguments. -/
  mutex : f'.mutex = f.mutex
  q : f'.q = f.q
  clientSock : f'.clientSock = f.clientSock

theorem Refines.signals (h : Refines f c)
    (hPlace : f.place t = .body call again .signal)
    (hStep : f.signal t call chosen = some f') :
    Signals f f' t call chosen := by
  obtain ⟨⟨hChosen, -⟩, hNext⟩ := Option.ite_none_right_eq_some.mp hStep
  replace hNext := Option.some.inj hNext
  have hAsleep : ∀ u ∈ chosen, f.place u = .asleep call.other ∧
      chosen.count u = 1 := fun u hu => h.chosen_asleep hChosen hu
  have hNot : t ∉ chosen := by
    intro ht
    have hAt := (hAsleep t ht).1
    rw [hPlace] at hAt
    contradiction
  have hPlaces : f'.place = fun u => if u ∈ chosen then .woken call.other
      else if u = t then .unlocking else f.place u := hNext ▸ rfl
  have hAt : f'.place t = .unlocking := by
    rw [hPlaces]
    exact (if_neg hNot).trans (if_pos rfl)
  have hElse : ∀ u, u ∉ chosen → u ≠ t → f'.place u = f.place u :=
    fun u hu hut => by
      rw [hPlaces]
      exact (if_neg hu).trans (if_neg hut)
  have hWakes : Wakes f f' call.other chosen := {
    asleep := fun u hu => (hAsleep u hu).1
    once := fun u hu => (hAsleep u hu).2
    woken := fun u hu => by
      rw [hPlaces]
      exact if_pos hu
    sleeps := fun u hu call' => by
      by_cases hut : u = t
      · rw [hut, hAt, hPlace]
        rfl
      · rw [hElse u hu hut]
    sleepers := hNext ▸ rfl }
  exact ⟨hWakes, ⟨hNot, hAt⟩, hElse, hNext ▸ rfl, hNext ▸ rfl, hNext ▸ rfl⟩

section Signals

variable (hSignals : Signals f f' t call chosen)

include hSignals

/-- Nobody leaves the mutex or gets it by a signal. -/
theorem Signals.inside_eq (hPlace : f.place t = .body call again .signal)
    (u : Tid) : (f'.place u).inside = (f.place u).inside := by
  by_cases hu : u ∈ chosen
  · rw [hSignals.wakes.woken u hu, hSignals.wakes.asleep u hu]
    rfl
  · by_cases hut : u = t
    · rw [hut, hSignals.own.2, hPlace]
      rfl
    · rw [hSignals.others u hu hut]

/-- No other thread is in the body of its call, because the one that signals
has the mutex. -/
theorem Signals.not_body (h : Refines f c)
    (hPlace : f.place t = .body call again .signal) {u : Tid} {call' : Call}
    {again' : Bool} {statement : Statement} :
    f'.place u ≠ .body call' again' statement := by
  intro hBody
  by_cases hu : u ∈ chosen
  · rw [hSignals.wakes.woken u hu] at hBody
    contradiction
  · by_cases hut : u = t
    · rw [hut, hSignals.own.2] at hBody
      contradiction
    · rw [hSignals.others u hu hut] at hBody
      exact absurd (h.exclusive (by rw [hBody]; rfl) (by rw [hPlace]; rfl)) hut

/-- Whoever will want its argument again wanted it before: a thread woken by
the signal has slept with it. -/
theorem Signals.wants_before {u : Tid}
    (hPush : (f'.place u).sleeps .push = true ∨
      (f'.place u).wakes .push = true) :
    u ≠ t ∧ ((f.place u).sleeps .push = true ∨
      (f.place u).wakes .push = true) := by
  have hut : u ≠ t := by
    rintro rfl
    rw [hSignals.own.2] at hPush
    rcases hPush with hp | hp <;> contradiction
  refine ⟨hut, ?_⟩
  by_cases hu : u ∈ chosen
  · rw [hSignals.wakes.asleep u hu]
    rw [hSignals.wakes.woken u hu] at hPush
    rcases hPush with hp | hp
    · contradiction
    · exact .inl (by simpa [Place.wakes, Place.sleeps] using hp)
  · rwa [hSignals.others u hu hut] at hPush

end Signals

omit [DecidableEq Tid] in
/-- The assignments of `queue_pop` do not look at the variable, they set it. -/
theorem partway_pop (q : SocketQueue) (v w : Int) (statement : Statement) :
    partway q v .pop statement = partway q w .pop statement := by
  cases statement <;> rfl

/-- `pthread_cond_signal` is the other end of a stretch.  The assignments were
made statement by statement, and `partway` says that together they are those of
the stretch. -/
theorem Refines.signal (h : Refines f c)
    (hPlace : f.place t = .body call again .signal)
    (hStep : f.signal t call chosen = some f') :
    ∃ c', BoundedQueue.step c
        (stretchLabel t (f.clientSock t) chosen call again) = some c' ∧
      Refines f' c' := by
  have hSignals := h.signals hPlace hStep
  obtain ⟨⟨hChosen, hSome⟩, hNext⟩ := Option.ite_none_right_eq_some.mp hStep
  replace hNext := Option.some.inj hNext
  have hInside : (f.place t).inside = true := by
    rw [hPlace]
    rfl
  have hHolder : f.mutex = some t := (h.mutex t).mp hInside
  obtain ⟨hGoes, hRead⟩ := h.body t call again .signal hPlace
  obtain ⟨d, hStart, hStretchStep⟩ := h.start call again hInside
    fun call' => by rw [hPlace]; rfl
  have hWaiting : ∀ call', (cond d call').waiting = f.sleepers call' :=
    fun call' => by rw [hStart.waiting, h.waiting]
  rw [← hWaiting] at hSome
  obtain ⟨c', hStretch, hq, hCond, hSock, hPushed, hPopped⟩ :=
    stretch_goes t (show ¬call.Blocked d.q by rw [hStart.q]; exact hGoes)
      (by rw [hWaiting]; exact hChosen) hSome
  have hValue : call = .push → d.clientSock t = f.clientSock t := hStart.own
  refine ⟨c', (hStretchStep chosen).trans hStretch, ?_⟩
  exact {
    queue := by
      rw [shown_of_holder (hSignals.mutex.trans hHolder), hSignals.own.2, hq,
        hStart.q, hSignals.q]
      show f.q = _
      rw [h.queue_body hPlace]
      cases call with
      | push => rw [hValue rfl]
      | pop => exact partway_pop _ _ _ _
    mutex := fun u => by
      rw [hSignals.mutex, hSignals.inside_eq hPlace u, h.mutex u]
    body := fun u call' again' statement hBody =>
      absurd hBody (hSignals.not_body h hPlace)
    asleep := hSignals.wakes.count_sleepers h.asleep
    waiting := hSignals.wakes.waiting_eq hWaiting hCond
    woken := fun call' u => by
      apply hSignals.wakes.count_woken hCond
      · intro hu
        rw [hStart.woken, h.woken, hSignals.wakes.asleep u hu]
        exact ite_self 0
      · intro hu
        rw [hStart.woken, h.woken]
        by_cases hut : u = t
        · rw [if_pos hut, hut, hSignals.own.2]
          rfl
        · rw [if_neg hut, hSignals.others u hu hut]
    sock := fun u hPush => by
      obtain ⟨hut, hBefore⟩ := hSignals.wants_before hPush
      rw [hSock, hSignals.clientSock, hStart.others u hut]
      exact h.sock u hBefore
    pushed := by
      rw [hPushed, hStart.pushed, ← h.pushed, ← hNext]
      cases call with
      | push => rw [hValue rfl]
      | pop => rfl
    popped := by
      rw [hPopped, hStart.popped, ← h.popped, hStart.q, ← hNext]
      cases call with
      | push => rfl
      | pop => rw [← hRead rfl (by decide)] }

/-- The coarser model has the same wake-up without a signal, at either
condition variable. -/
theorem spurious_step (hMem : t ∈ (cond c call).waiting) :
    ∃ l c', BoundedQueue.step c l = some c' ∧ c'.q = c.q ∧
      (∀ call', cond c' call' = if call' = call
        then ⟨(cond c call').waiting - {t}, (cond c call').woken + {t}⟩
        else cond c call') ∧
      c'.clientSock = c.clientSock ∧ c'.pushed = c.pushed ∧
      c'.popped = c.popped := by
  simp only [Multiset.sub_singleton]
  cases call with
  | push =>
      refine ⟨.spuriousNonfull t, { c with condNonfull :=
          ⟨c.condNonfull.waiting.erase t, c.condNonfull.woken + {t}⟩ },
        Option.map_eq_some_iff.mpr ⟨_, if_pos hMem, rfl⟩, rfl,
        fun call' => ?_, rfl, rfl, rfl⟩
      cases call' <;> rfl
  | pop =>
      refine ⟨.spuriousNonempty t, { c with condNonempty :=
          ⟨c.condNonempty.waiting.erase t, c.condNonempty.woken + {t}⟩ },
        Option.map_eq_some_iff.mpr ⟨_, if_pos hMem, rfl⟩, rfl,
        fun call' => ?_, rfl, rfl, rfl⟩
      cases call' <;> rfl

/-- A wake-up without a signal is one in both models: the thread will lock the
mutex and test its condition again. -/
theorem Refines.spurious (h : Refines f c) (hPlace : f.place t = .asleep call)
    (hNext : f' = { f.move t (.woken call) with
      sleepers := Function.update f.sleepers call
        ((f.sleepers call).erase t) }) :
    ∃ l c', BoundedQueue.step c l = some c' ∧ Refines f' c' := by
  have hMove : f'.place = Function.update f.place t (.woken call) :=
    hNext ▸ rfl
  have hAt : f'.place t = .woken call := by rw [hMove, Function.update_self]
  have hElse : ∀ u, u ≠ t → f'.place u = f.place u := fun u hu => by
    rw [hMove, Function.update_of_ne hu]
  have hWakes : Wakes f f' call {t} := {
    asleep := fun u hu => by rw [Multiset.mem_singleton.mp hu, hPlace]
    once := fun u hu => by
      rw [Multiset.mem_singleton.mp hu, Multiset.count_singleton_self]
    woken := fun u hu => by rw [Multiset.mem_singleton.mp hu, hAt]
    sleeps := fun u hu call' => by
      rw [hElse u fun hut => hu (Multiset.mem_singleton.mpr hut)]
    sleepers := by
      rw [hNext, Multiset.sub_singleton] }
  have hMem : t ∈ (cond c call).waiting := by
    rw [h.waiting, ← Multiset.count_pos, h.asleep, hPlace, Place.sleeps,
      decide_eq_true rfl]
    exact Nat.one_pos
  obtain ⟨l, c', hStep, hq, hCond, hSock, hPushed, hPopped⟩ :=
    spurious_step hMem
  have hMutex : f'.mutex = f.mutex := hNext ▸ rfl
  have hSocks : f'.clientSock = f.clientSock := hNext ▸ rfl
  refine ⟨l, c', hStep, ?_⟩
  exact {
    queue := by
      have hQueue : f'.q = f.q := hNext ▸ rfl
      rw [hQueue, h.queue, hq, h.shown_kept (by rw [hPlace]; rfl) hMove hMutex
        fun u _ => by rw [hSocks]]
    mutex := h.mutex_kept hMove (by rw [hPlace]; rfl) hMutex
    body := fun u call' again' statement hu => by
      rw [hq, hSocks]
      by_cases hut : u = t
      · rw [hut, hAt] at hu
        contradiction
      · rw [hElse u hut] at hu
        exact h.body u call' again' statement hu
    asleep := hWakes.count_sleepers h.asleep
    waiting := hWakes.waiting_eq h.waiting hCond
    woken := fun call' u => by
      apply hWakes.count_woken hCond
      · intro hu
        rw [h.woken, hWakes.asleep u hu]
        rfl
      · intro hu
        rw [h.woken, hElse u fun hut => hu (Multiset.mem_singleton.mpr hut)]
    sock := fun u hu => by
      rw [hSock, hSocks]
      refine h.sock u ?_
      by_cases hut : u = t
      · subst hut
        rw [hAt] at hu
        rw [hPlace]
        exact .inl (by simpa [Place.wakes, Place.sleeps] using hu)
      · rwa [hElse u hut] at hu
    pushed := by
      rw [hPushed, ← h.pushed, hNext]
      rfl
    popped := by
      rw [hPopped, ← h.popped, hNext]
      rfl }

end Stretches

/-! ## The refinement -/

section Runs

variable {Tid : Type*} [DecidableEq Tid] {capacity : Nat} {f f' : State Tid}
  {c : BoundedQueue.State Tid}

theorem init_refines (h : (statementMachine Tid capacity).init f) :
    ∃ c, (queueMachine Tid capacity).init c ∧ Refines f c := by
  obtain ⟨data, clientSock, rfl⟩ := h
  refine ⟨_, ⟨data, clientSock, rfl⟩, rfl, ?_, ?_, ?_, ?_, ?_, ?_, rfl, rfl⟩
  · exact fun _ => iff_of_false nofun nofun
  · intro t call again statement ht
    contradiction
  · exact fun _ _ => rfl
  · intro call
    cases call <;> rfl
  · intro call t
    cases call <;> rfl
  · rintro t (ht | ht) <;> contradiction

/-- A thread that goes on does nothing that the coarser model sees, or the one
step that is its stretch. -/
theorem Refines.go (h : Refines f c) {t : Tid} {chosen : Multiset Tid}
    (hStep : f.go t chosen = some f') :
    Refines f' c ∨ ∃ l c', BoundedQueue.step c l = some c' ∧
      Refines f' c' := by
  unfold State.go at hStep
  cases hPlace : f.place t with
  | outside | asleep call =>
      rw [hPlace] at hStep
      contradiction
  | locking call =>
      rw [hPlace] at hStep
      exact .inl (h.lock false hPlace hStep)
  | woken call =>
      rw [hPlace] at hStep
      exact .inl (h.lock true hPlace hStep)
  | testing call again =>
      rw [hPlace] at hStep
      by_cases hBlocked : call.Blocked f.q
      · obtain rfl := Option.some.inj ((if_pos hBlocked).symm.trans hStep)
        obtain ⟨c', hCoarse, hR⟩ := h.wait hPlace hBlocked
        exact .inr ⟨_, c', hCoarse, hR⟩
      · obtain rfl := Option.some.inj ((if_neg hBlocked).symm.trans hStep)
        exact .inl (h.test hPlace hBlocked)
  | body call again statement =>
      rw [hPlace] at hStep
      cases statement with
      | data | index | count =>
          obtain rfl := Option.some.inj hStep
          exact .inl (h.assign hPlace (by decide))
      | signal =>
          obtain ⟨c', hCoarse, hR⟩ := h.signal hPlace hStep
          exact .inr ⟨_, c', hCoarse, hR⟩
  | unlocking =>
      rw [hPlace] at hStep
      obtain rfl := Option.some.inj hStep
      exact .inl (h.unlock hPlace)

/-- One statement is at most one step of the coarser model: none for calls,
locks, tests, assignments and unlocks, one for a signal, a wait or a spurious
wake-up. -/
theorem Refines.step (h : Refines f c) {l : Label Tid}
    (hStep : QueueStatements.step f l = some f') :
    Refines f' c ∨ ∃ l' c', BoundedQueue.step c l' = some c' ∧
      Refines f' c' := by
  cases l with
  | call t call clientSock =>
      obtain ⟨hPlace, hNext⟩ := Option.ite_none_right_eq_some.mp hStep
      obtain rfl := Option.some.inj hNext
      exact .inl (h.call hPlace call clientSock)
  | go t chosen => exact h.go hStep
  | spurious t =>
      unfold QueueStatements.step at hStep
      cases hPlace : f.place t with
      | asleep call =>
          simp only [hPlace] at hStep
          exact .inr (h.spurious hPlace (Option.some.inj hStep).symm)
      | outside | locking _ | testing _ _ | woken _ | body _ _ _
      | unlocking =>
          simp only [hPlace] at hStep
          contradiction

/-- **Statements refine stretches.**  Every run of single statements, however
the threads interleave, has a run of the coarser machine beside it, with
related states all along. -/
theorem statements_refine (Tid : Type*) [DecidableEq Tid] (capacity : Nat) :
    Simulation (statementMachine Tid capacity) (queueMachine Tid capacity)
      Refines where
  init _ h := init_refines h
  step f c l f' h hStep := by
    rcases h.step hStep with hR | ⟨l', c', hCoarse, hR⟩
    · exact ⟨[], c, rfl, hR⟩
    · refine ⟨[l'], c', ?_, hR⟩
      rw [Machine.run_cons]
      exact Option.bind_eq_some_iff.mpr ⟨c', hCoarse, rfl⟩

omit [DecidableEq Tid] in
/-- The indices are in range between any two statements: an assignment to an
index is one `%` away from the old one. -/
theorem shown_indices {q : SocketQueue}
    (h : BoundedQueue.WellFormed capacity q) :
    (shown f q).front < capacity ∧ (shown f q).rear < capacity := by
  have hPositive := Nat.zero_lt_of_lt h.frontLt
  have hNext : ∀ i, (i + 1) % q.capacity < capacity := fun i => by
    rw [h.capacityEq]
    exact Nat.mod_lt _ hPositive
  unfold shown
  split
  · exact ⟨h.frontLt, h.rear_lt⟩
  · split
    · rename_i call again statement _
      cases call with
      | push =>
          cases statement with
          | data | index => exact ⟨h.frontLt, h.rear_lt⟩
          | count | signal => exact ⟨h.frontLt, hNext _⟩
      | pop =>
          cases statement with
          | data | index => exact ⟨h.frontLt, h.rear_lt⟩
          | count | signal => exact ⟨hNext _, h.rear_lt⟩
    · exact ⟨h.frontLt, h.rear_lt⟩

/-- A thread on its way from a wait, seen while the mutex is free.  The coarser
model knows that the woken are enough for what can be done (`Covers`), and with
the mutex free all the woken are really on their way. -/
theorem Refines.exists_woken (h : Refines f c) (hFree : f.mutex = none)
    (call : Call) {n : Nat} (hCovers : (cond c call).Covers n) (hn : 0 < n)
    (hSleeps : ∃ t, f.place t = .asleep call) :
    ∃ u, f.place u = .woken call := by
  obtain ⟨t, ht⟩ := hSleeps
  have hWaiting : (cond c call).waiting ≠ 0 := by
    intro hNone
    have hCount := h.asleep call t
    rw [← h.waiting, hNone, ht] at hCount
    simp [Place.sleeps] at hCount
  obtain ⟨u, hu⟩ := hCovers.exists_woken hn hWaiting
  have hWakes := Multiset.count_pos.mpr hu
  have hOutside : (f.place u).inside ≠ true := fun hu => by
    rw [h.mutex u, hFree] at hu
    contradiction
  rw [h.woken] at hWakes
  refine ⟨u, ?_⟩
  cases hp : f.place u with
  | woken call' =>
      rw [hp] at hWakes
      by_cases hCall : call' = call
      · rw [hCall]
      · simp [Place.wakes, hCall] at hWakes
  | testing _ _ | body _ _ _ | unlocking =>
      rw [hp] at hOutside
      exact absurd rfl hOutside
  | outside | locking _ | asleep _ =>
      rw [hp] at hWakes
      contradiction

/-- **The queue between its statements.**  A thread is between locking and
unlocking exactly if it has the mutex, and the indices are always in range.
Whenever the mutex is free, the descriptors popped followed by those in the
queue are the descriptors pushed, and if a sleeping thread could go on, a
thread that waits for the same has been woken. -/
theorem statements_fifo (hcap : 0 < capacity)
    (h : (statementMachine Tid capacity).Reachable f) :
    (∀ t, (f.place t).inside = true ↔ f.mutex = some t) ∧
      f.q.front < capacity ∧ f.q.rear < capacity ∧
      (f.mutex = none →
        f.q.count ≤ capacity ∧ f.popped ++ f.q.contents = f.pushed ∧
        (0 < f.q.count → (∃ t, f.place t = .asleep .pop) →
          ∃ u, f.place u = .woken .pop) ∧
        (f.q.count < capacity → (∃ t, f.place t = .asleep .push) →
          ∃ u, f.place u = .woken .push)) := by
  obtain ⟨c, hc, hR⟩ := (statements_refine Tid capacity).reachable h
  obtain ⟨fifo, _, hFifo⟩ :=
    (BoundedQueue.queue_simulates_fifo hcap).reachable hc
  have hWake := BoundedQueue.reachable_wakeInv hc
  have hIndices := shown_indices (f := f) hFifo.wf
  rw [← hR.queue] at hIndices
  refine ⟨hR.mutex, hIndices.1, hIndices.2, fun hFree => ?_⟩
  have hQueue : f.q = c.q := by rw [hR.queue, shown_of_free hFree]
  rw [hQueue]
  refine ⟨hFifo.wf.countLe, ?_, fun hCount => ?_, fun hCount => ?_⟩
  · rw [hR.pushed, hR.popped, ← hFifo.items, ← hFifo.left, ← hFifo.entered]
    exact fifo.conserved
  · exact hR.exists_woken hFree .pop hWake.nonempty hCount
  · exact hR.exists_woken hFree .push hWake.nonfull
      (Nat.sub_pos_of_lt hCount)

/-- Two consumers sleep, a producer pushes 5 and wakes one of them: while the
other sleeps on, 5 waits in the queue for the one that has been woken. -/
theorem statements_fifo_woken : ∃ f : State Nat,
    (statementMachine Nat 2).Reachable f ∧
      f.popped ++ f.q.contents = f.pushed ∧ f.q.contents = [5] ∧
      f.place 1 = .asleep .pop ∧ ∃ u, f.place u = .woken .pop := by
  have hRun : ((statementMachine Nat 2).run ⟨queueInit (fun _ => 0) 2, none,
      fun _ => .outside, fun _ => 0, fun _ => 0, [], []⟩
      [.call 0 .pop 0, .go 0 0, .go 0 0, .call 1 .pop 0, .go 1 0, .go 1 0,
        .call 2 .push 5, .go 2 0, .go 2 0, .go 2 0, .go 2 0, .go 2 0,
        .go 2 {0}, .go 2 0]).any (fun f => decide (f.mutex = none ∧
          0 < f.q.count ∧ f.q.contents = [5] ∧ f.place 1 = .asleep .pop)) =
      true := by decide +kernel
  obtain ⟨f, hf, hSeen⟩ := Machine.exists_reachable_of_run
    (show (statementMachine Nat 2).init _ from
      ⟨fun _ => 0, fun _ => 0, rfl⟩) hRun
  obtain ⟨hFree, hCount, hContents, hAsleep⟩ := of_decide_eq_true hSeen
  obtain ⟨-, -, -, hQueue⟩ := statements_fifo (by decide) hf
  obtain ⟨-, hFifo, hWoken, -⟩ := hQueue hFree
  exact ⟨f, hf, hFifo, hContents, hAsleep, hWoken hCount ⟨1, hAsleep⟩⟩

end Runs

end UnixHomework.Ports.QueueStatements
