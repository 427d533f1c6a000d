import UnixHomework.Ports.QueueStatements

/-!
# What a statement under the mutex changes

The states of the queue whose statements are steps of their own, and those of
the queue in which a stretch under the mutex is one step.  A stretch happens at
its last statement that others can see, the signal or the wait.  Until then the
queue is that of the coarser model with some of the assignments made (`shown`),
and only the thread that has the mutex knows; so all other statements leave the
state of the coarser model as it is.
-/

namespace UnixHomework.Ports.QueueStatements

open UnixHomework.Verified
open UnixHomework.Ports.BoundedQueue (SocketQueue)

/-! ## Two levels -/

section Levels

variable {Tid : Type*}

/-- The condition variable a call waits for: `queue_push` for room, `queue_pop`
for a descriptor. -/
def cond (c : BoundedQueue.State Tid) : Call → CondVar Tid
  | .push => c.condNonfull
  | .pop => c.condNonempty

/-- The thread is between `pthread_mutex_lock` and `pthread_mutex_unlock`, and
has not given the mutex up in a wait. -/
def Place.inside : Place → Bool
  | .testing _ _ | .body _ _ _ | .unlocking => true
  | .outside | .locking _ | .asleep _ | .woken _ => false

/-- The thread sleeps in the wait of this call. -/
def Place.sleeps (place : Place) (call : Call) : Bool :=
  decide (place = .asleep call)

/-- The thread has been woken, and its stretch has not happened yet.  The
coarser model counts it among the woken until the stretch, so it stays one of
them while it locks the mutex, tests the condition again and assigns. -/
def Place.wakes (place : Place) (call : Call) : Bool :=
  match place with
  | .woken call' => decide (call' = call)
  | .testing call' again | .body call' again _ => again && decide (call' = call)
  | .outside | .locking _ | .asleep _ | .unlocking => false

/-- The assignments before a statement.  The body of a call is the same four
statements in both functions: the element of the array, the index, the count,
and the signal. -/
def partway (q : SocketQueue) (clientSock : Int) (call : Call) :
    Statement → SocketQueue
  | .data => q
  | .index => (assign q clientSock call .data).1
  | .count =>
      (assign (assign q clientSock call .data).1 clientSock call .index).1
  | .signal =>
      (assign (assign (assign q clientSock call .data).1 clientSock call
        .index).1 clientSock call .count).1

/-- The queue as the thread with the mutex has left it so far.  The coarser
model knows only `q`, the queue before this thread's stretch. -/
def shown (f : State Tid) (q : SocketQueue) : SocketQueue :=
  match f.mutex with
  | none => q
  | some t =>
      match f.place t with
      | .body call _ statement => partway q (f.clientSock t) call statement
      | _ => q

variable [DecidableEq Tid]

/-- A state of the statements, and the state of the stretches it stands for.
The relation is kept by all statements but two without a step of the coarser
model; these two are the signal and the wait. -/
structure Refines (f : State Tid) (c : BoundedQueue.State Tid) : Prop where
  /-- The queue is that of the coarser model, but for what the thread with the
  mutex has done. -/
  queue : f.q = shown f c.q
  /-- The thread between locking and unlocking is the one that has the mutex. -/
  mutex : ∀ t, (f.place t).inside = true ↔ f.mutex = some t
  /-- A thread is in the body of its call only where the call can go on; a
  `queue_pop` past its first assignment has read the head of the queue. -/
  body : ∀ t call again statement, f.place t = .body call again statement →
    ¬call.Blocked c.q ∧ (call = .pop → statement ≠ .data →
      f.clientSock t = c.q.data c.q.front)
  /-- A thread sleeps at the condition variable of its call, once. -/
  asleep : ∀ call t, (f.sleepers call).count t =
    ((f.place t).sleeps call).toNat
  /-- Those asleep wait in the coarser model. -/
  waiting : ∀ call, (cond c call).waiting = f.sleepers call
  /-- Those woken, up to their stretch, are woken in the coarser model. -/
  woken : ∀ call t, (cond c call).woken.count t =
    ((f.place t).wakes call).toNat
  /-- The argument of a `queue_push` that has slept is known to both. -/
  sock : ∀ t, (f.place t).sleeps .push = true ∨
    (f.place t).wakes .push = true → c.clientSock t = f.clientSock t
  /-- The same descriptors have been pushed, -/
  pushed : f.pushed = c.pushed
  /-- and popped. -/
  popped : f.popped = c.popped

end Levels

section Facts

variable {Tid : Type*} [DecidableEq Tid] {f f' : State Tid}
  {c : BoundedQueue.State Tid} {t u : Tid} {p : Place}

omit [DecidableEq Tid] in
theorem shown_of_free (h : f.mutex = none) (q : SocketQueue) :
    shown f q = q := by
  rw [shown, h]

omit [DecidableEq Tid] in
theorem shown_of_holder (h : f.mutex = some t) (q : SocketQueue) :
    shown f q =
      match f.place t with
      | .body call _ statement => partway q (f.clientSock t) call statement
      | _ => q := by
  rw [shown, h]

/-- **Mutual exclusion.**  Two threads between locking and unlocking are one,
since the mutex has one owner. -/
theorem Refines.exclusive (h : Refines f c) (ht : (f.place t).inside = true)
    (hu : (f.place u).inside = true) : t = u := by
  have hT := (h.mutex t).mp ht
  rw [(h.mutex u).mp hu] at hT
  exact (Option.some.inj hT).symm

/-- The queue of a thread at the test of its loop, or after its signal, is that
of the coarser model: it has assigned nothing yet, or its stretch is over. -/
theorem Refines.queue_eq (h : Refines f c) (hPlace : f.place t = p)
    (hp : p = .unlocking ∨ ∃ call again, p = .testing call again) :
    f.q = c.q := by
  have hInside : (f.place t).inside = true := by
    rw [hPlace]
    rcases hp with rfl | ⟨call, again, rfl⟩ <;> rfl
  rw [h.queue, shown_of_holder ((h.mutex t).mp hInside), hPlace]
  rcases hp with rfl | ⟨call, again, rfl⟩ <;> rfl

theorem Refines.queue_body (h : Refines f c) {call : Call} {again : Bool}
    {statement : Statement}
    (hPlace : f.place t = .body call again statement) :
    f.q = partway c.q (f.clientSock t) call statement := by
  have hInside : (f.place t).inside = true := by
    rw [hPlace]
    rfl
  rw [h.queue, shown_of_holder ((h.mutex t).mp hInside), hPlace]

/-- An assignment is one more of those before the signal.  The value popped is
the one that the first assignment of `queue_pop` reads. -/
theorem assign_partway (q : SocketQueue) (v : Int) (call : Call)
    (statement : Statement) :
    (assign (partway q v call statement) v call statement).1 =
      partway q (assign (partway q v call statement) v call statement).2 call
        statement.next := by
  cases call <;> cases statement <;> rfl

/-- What does not change in the coarser model: a thread goes from one place to
another, and is as much asleep, or woken, as before. -/
theorem Refines.stay (h : Refines f c)
    (hPlace : f'.place = Function.update f.place t p)
    (hSleepers : f'.sleepers = f.sleepers)
    (hPushed : f'.pushed = f.pushed) (hPopped : f'.popped = f.popped)
    (hSleeps : ∀ call, p.sleeps call = (f.place t).sleeps call)
    (hWakes : ∀ call, p.wakes call = (f.place t).wakes call)
    (hOthers : ∀ u, u ≠ t → f'.clientSock u = f.clientSock u)
    (hSock : p.sleeps .push = true ∨ p.wakes .push = true →
      f'.clientSock t = f.clientSock t)
    (hMutex : ∀ u, (f'.place u).inside = true ↔ f'.mutex = some u)
    (hQueue : f'.q = shown f' c.q)
    (hBody : ∀ call again statement, p = .body call again statement →
      ¬call.Blocked c.q ∧ (call = .pop → statement ≠ .data →
        f'.clientSock t = c.q.data c.q.front)) :
    Refines f' c := by
  have hAt : f'.place t = p := by rw [hPlace, Function.update_self]
  have hElse : ∀ u, u ≠ t → f'.place u = f.place u := fun u hu => by
    rw [hPlace, Function.update_of_ne hu]
  refine ⟨hQueue, hMutex, ?_, ?_, ?_, ?_, ?_, ?_, ?_⟩
  · intro u call again statement hu
    by_cases hut : u = t
    · subst hut
      exact hBody call again statement (hAt.symm.trans hu)
    · rw [hElse u hut] at hu
      rw [hOthers u hut]
      exact h.body u call again statement hu
  · intro call u
    rw [hSleepers, h.asleep]
    by_cases hut : u = t
    · subst hut
      rw [hAt, hSleeps]
    · rw [hElse u hut]
  · intro call
    rw [hSleepers]
    exact h.waiting call
  · intro call u
    rw [h.woken]
    by_cases hut : u = t
    · subst hut
      rw [hAt, hWakes]
    · rw [hElse u hut]
  · intro u hu
    by_cases hut : u = t
    · subst hut
      rw [hAt] at hu
      rw [hSock hu]
      rw [hSleeps, hWakes] at hu
      exact h.sock u hu
    · rw [hElse u hut] at hu
      rw [hOthers u hut]
      exact h.sock u hu
  · rw [hPushed]
    exact h.pushed
  · rw [hPopped]
    exact h.popped

/-! ## Steps that the coarser model does not see -/

/-- The places of the threads, after a step of one that neither takes nor
releases the mutex. -/
theorem Refines.mutex_kept (h : Refines f c)
    (hPlace : f'.place = Function.update f.place t p)
    (hInside : p.inside = (f.place t).inside) (hMutex : f'.mutex = f.mutex)
    (u : Tid) : (f'.place u).inside = true ↔ f'.mutex = some u := by
  rw [hMutex, ← h.mutex u, hPlace]
  by_cases hut : u = t
  · subst hut
    rw [Function.update_self, hInside]
  · rw [Function.update_of_ne hut]

/-- A thread without the mutex moves, and the queue shown is the same: only the
place and the argument of the owner matter for it. -/
theorem Refines.shown_kept (h : Refines f c)
    (hInside : (f.place t).inside = false)
    (hPlace : f'.place = Function.update f.place t p)
    (hMutex : f'.mutex = f.mutex)
    (hOthers : ∀ u, u ≠ t → f'.clientSock u = f.clientSock u)
    (q : SocketQueue) : shown f' q = shown f q := by
  cases hHolder : f.mutex with
  | none => rw [shown_of_free hHolder, shown_of_free (hMutex.trans hHolder)]
  | some u =>
      have hut : u ≠ t := by
        rintro rfl
        rw [(h.mutex _).mpr hHolder] at hInside
        contradiction
      rw [shown_of_holder hHolder, shown_of_holder (hMutex.trans hHolder),
        hPlace, Function.update_of_ne hut, hOthers u hut]

theorem Refines.call (h : Refines f c) (hPlace : f.place t = .outside)
    (call : Call) (clientSock : Int) :
    Refines { f.move t (.locking call) with
      clientSock := Function.update f.clientSock t clientSock } c := by
  generalize hNext : ({ f.move t (.locking call) with
    clientSock := Function.update f.clientSock t clientSock } : State Tid) =
      f'
  have hMove : f'.place = Function.update f.place t (.locking call) :=
    hNext ▸ rfl
  have hSocks : f'.clientSock = Function.update f.clientSock t clientSock :=
    hNext ▸ rfl
  have hMutex : f'.mutex = f.mutex := hNext ▸ rfl
  have hElse : ∀ u, u ≠ t → f'.clientSock u = f.clientSock u := fun u hu => by
    rw [hSocks, Function.update_of_ne hu]
  refine h.stay hMove (hNext ▸ rfl) (hNext ▸ rfl) (hNext ▸ rfl) ?_ ?_ hElse
    ?_ (h.mutex_kept hMove ?_ hMutex) ?_ nofun
  · intro call'
    rw [hPlace]
    rfl
  · intro call'
    rw [hPlace]
    rfl
  · rintro (hp | hp) <;> contradiction
  · rw [hPlace]
    rfl
  · have hQueue : f'.q = f.q := hNext ▸ rfl
    rw [hQueue, h.queue, h.shown_kept (by rw [hPlace]; rfl) hMove hMutex hElse]

/-- `pthread_mutex_lock`, at the start of a call or after a wait.  The mutex
was free, so the queue shown is that of the coarser model before and after. -/
theorem Refines.lock (h : Refines f c) {call : Call} (again : Bool)
    (hPlace : f.place t = if again then .woken call else .locking call)
    (hStep : f.lock t (.testing call again) = some f') : Refines f' c := by
  obtain ⟨hFree, hNext⟩ := Option.ite_none_right_eq_some.mp hStep
  obtain rfl := Option.some.inj hNext
  refine h.stay (p := .testing call again) rfl rfl rfl rfl ?_ ?_
    (fun _ _ => rfl) (fun _ => rfl) ?_ ?_ nofun
  · intro call'
    rw [hPlace]
    cases again <;> rfl
  · intro call'
    rw [hPlace]
    cases again <;> rfl
  · intro u
    show (Function.update f.place t (.testing call again) u).inside = true ↔
      some t = some u
    by_cases hut : u = t
    · subst hut
      rw [Function.update_self]
      exact iff_of_true rfl rfl
    · rw [Function.update_of_ne hut, h.mutex u, hFree]
      exact iff_of_false nofun fun hu => hut (Option.some.inj hu).symm
  · rw [shown_of_holder (t := t) rfl]
    show f.q = match Function.update f.place t (.testing call again) t with
      | .body call _ statement => partway c.q (f.clientSock t) call statement
      | _ => c.q
    rw [Function.update_self, h.queue, shown_of_free hFree]

/-- The end of the wait loop.  The thread has the mutex and goes on to the
body; nobody can block it again before its signal. -/
theorem Refines.test (h : Refines f c) {call : Call} {again : Bool}
    (hPlace : f.place t = .testing call again) (hGoes : ¬call.Blocked f.q) :
    Refines (f.move t (.body call again .data)) c := by
  have hQueue : f.q = c.q := h.queue_eq hPlace (.inr ⟨call, again, rfl⟩)
  have hHolder : f.mutex = some t := by
    rw [← h.mutex t, hPlace]
    rfl
  refine h.stay (p := .body call again .data) rfl rfl rfl rfl ?_ ?_
    (fun _ _ => rfl) (fun _ => rfl) ?_ ?_ ?_
  · intro call'
    rw [hPlace]
    rfl
  · intro call'
    rw [hPlace]
    rfl
  · refine h.mutex_kept (p := .body call again .data) rfl ?_ rfl
    rw [hPlace]
    rfl
  · rw [shown_of_holder (f := f.move t _) hHolder]
    show f.q = match Function.update f.place t (.body call again .data) t with
      | .body call _ statement => partway c.q (f.clientSock t) call statement
      | _ => c.q
    rw [Function.update_self, hQueue]
    rfl
  · intro call' again' statement hp
    cases hp
    exact ⟨hQueue ▸ hGoes, fun _ hData => absurd rfl hData⟩

/-- An assignment, which no other thread sees before it has the mutex. -/
theorem Refines.assign (h : Refines f c) {call : Call} {again : Bool}
    {statement : Statement}
    (hPlace : f.place t = .body call again statement)
    (hStatement : statement ≠ .signal) :
    Refines { f.move t (.body call again statement.next) with
      q := (assign f.q (f.clientSock t) call statement).1
      clientSock := Function.update f.clientSock t
        (assign f.q (f.clientSock t) call statement).2 } c := by
  generalize hNext : ({ f.move t (.body call again statement.next) with
      q := (QueueStatements.assign f.q (f.clientSock t) call statement).1
      clientSock := Function.update f.clientSock t
        (QueueStatements.assign f.q (f.clientSock t) call statement).2 } :
          State Tid) = f'
  have hMove : f'.place =
      Function.update f.place t (.body call again statement.next) :=
    hNext ▸ rfl
  have hSocks : f'.clientSock = Function.update f.clientSock t
      (QueueStatements.assign f.q (f.clientSock t) call statement).2 :=
    hNext ▸ rfl
  have hMutex : f'.mutex = f.mutex := hNext ▸ rfl
  have hHolder : f.mutex = some t := by
    rw [← h.mutex t, hPlace]
    rfl
  have hQueue := h.queue_body hPlace
  obtain ⟨hGoes, hRead⟩ := h.body t call again statement hPlace
  refine h.stay hMove (hNext ▸ rfl) (hNext ▸ rfl) (hNext ▸ rfl) ?_ ?_ ?_ ?_
    (h.mutex_kept hMove ?_ hMutex) ?_ ?_
  · intro call'
    rw [hPlace]
    rfl
  · intro call'
    rw [hPlace]
    rfl
  · intro u hut
    rw [hSocks, Function.update_of_ne hut]
  · intro hPush
    rw [hSocks, Function.update_self]
    cases call with
    | push => cases statement <;> rfl
    | pop =>
        rcases hPush with hp | hp
        · contradiction
        · simp [Place.wakes] at hp
  · rw [hPlace]
    rfl
  · rw [shown_of_holder (hMutex.trans hHolder), hMove, hSocks]
    have hq : f'.q =
        (QueueStatements.assign f.q (f.clientSock t) call statement).1 :=
      hNext ▸ rfl
    simp only [Function.update_self]
    rw [hq, hQueue, assign_partway]
  · intro call' again' statement' hp
    cases hp
    refine ⟨hGoes, fun hPop _ => ?_⟩
    subst hPop
    rw [hSocks, Function.update_self]
    cases statement with
    | data =>
        rw [hQueue]
        rfl
    | index => exact hRead rfl (by decide)
    | count => exact hRead rfl (by decide)
    | signal => contradiction

/-- `pthread_mutex_unlock`.  The stretch has happened with the signal, so the
others find the queue as the coarser model has it. -/
theorem Refines.unlock (h : Refines f c) (hPlace : f.place t = .unlocking) :
    Refines { f.move t .outside with mutex := none } c := by
  have hQueue := h.queue_eq hPlace (.inl rfl)
  have hInside : (f.place t).inside = true := by
    rw [hPlace]
    rfl
  refine h.stay (p := .outside) rfl rfl rfl rfl ?_ ?_ (fun _ _ => rfl)
    (fun _ => rfl) ?_ ?_ nofun
  · intro call'
    rw [hPlace]
    rfl
  · intro call'
    rw [hPlace]
    rfl
  · intro u
    show (Function.update f.place t .outside u).inside = true ↔ none = some u
    refine iff_of_false ?_ nofun
    by_cases hut : u = t
    · subst hut
      rw [Function.update_self]
      nofun
    · rw [Function.update_of_ne hut]
      exact fun hu => hut (h.exclusive hu hInside)
  · rw [shown_of_free (f := { f.move t .outside with mutex := none }) rfl]
    exact hQueue

end Facts

end UnixHomework.Ports.QueueStatements
