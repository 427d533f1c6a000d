import UnixHomework.Ports.Pipeline

/-!
# The end of a pipeline

A reader gets the end of the file only when no process has the write end any
more, and a writer gets `SIGPIPE` only when none has the read end; an end that
stayed open in a child or in the parent would keep the other command waiting
for ever.  The calls of `close` leave each end with its command alone once the
parent waits, so in every order of steps the turn ends, and the second command
has got what it wants of the text of the first (`pipeline_carries`).
-/

namespace UnixHomework.Ports.Pipeline

open UnixHomework.Verified

/-! ## Descriptors -/

/-- The calls a child has still to make, with its `exit` and the `waitpid` that
takes it away. -/
def ChildAt.calls : ChildAt → Nat
  | .closing => 5
  | .duping => 4
  | .closingDup => 3
  | .running => 2
  | .exited => 1
  | .reaped => 0

/-- The calls the parent has still to make before its next prompt. -/
def ParentAt.calls : ParentAt → Nat
  | .forking1 => 6
  | .forking2 => 5
  | .closingRead => 4
  | .closingWrite => 3
  | .waiting1 => 2
  | .waiting2 => 1
  | .prompting => 0

/-- The child has exited; the kernel has closed its descriptors. -/
def ChildAt.gone : ChildAt → Bool
  | .exited | .reaped => true
  | .closing | .duping | .closingDup | .running => false

/-- The descriptors of a child that uses the end `f`, its descriptor `used` at
first.  It closes the other end, puts its own on the standard descriptor `std`
with `dup2`, and closes the number that is no longer needed. -/
def Opened.childFds (o : Opened) (used std : Nat) (f : File) :
    ChildAt → FdTable File
  | .closing => o.fds
  | .duping => (used, f) :: o.shellFds
  | .closingDup => (std, f) :: (used, f) :: o.shellFds.close std
  | .running => (std, f) :: o.shellFds.close std
  | .exited | .reaped => []

/-- The descriptors of the parent, which has closed both ends before it
waits. -/
def Opened.parentFds (o : Opened) : ParentAt → FdTable File
  | .forking1 | .forking2 | .closingRead => o.fds
  | .closingWrite => (o.fd1, .writeEnd) :: o.shellFds
  | .waiting1 | .waiting2 | .prompting => o.shellFds

section Descriptors

variable (o : Opened)

theorem close_fd0 : o.fds.close o.fd0 = (o.fd1, .writeEnd) :: o.shellFds := by
  rw [Opened.fds, FdTable.close_cons_self,
    FdTable.close_cons_of_ne o.distinct.symm,
    FdTable.close_of_fresh o.fresh0]

theorem close_fd1 : o.fds.close o.fd1 = (o.fd0, .readEnd) :: o.shellFds := by
  rw [Opened.fds, FdTable.close_cons_of_ne o.distinct,
    FdTable.close_cons_self, FdTable.close_of_fresh o.fresh1]

/-- The standard descriptors are not those of the pipe: the shell has them
open, and `pipe` returns numbers that were free. -/
theorem ne_standard {fd std : Nat} (hFresh : o.shellFds.Fresh fd)
    (hStd : std < 2) : fd ≠ std := by
  rintro rfl
  exact o.standard fd hStd hFresh

/-- The calls of a child do what they are for: each leads to the descriptors of
the next place, and is one call less to make. -/
theorem prepare_spec {unused used std : Nat} {f : File} {c c' : Child}
    (hOpen : o.fds.close unused = (used, f) :: o.shellFds)
    (hFresh : o.shellFds.Fresh used) (hStd : std < 2)
    (hFds : c.fds = o.childFds used std f c.place)
    (hStep : c.prepare unused used std = some c') :
    c'.fds = o.childFds used std f c'.place ∧
      c'.place.calls < c.place.calls ∧ c'.place.gone = false := by
  have hNe := ne_standard o hFresh hStd
  unfold Child.prepare at hStep
  cases hPlace : c.place with
  | closing =>
      rw [hPlace] at hFds
      simp only [hPlace, Option.some.injEq] at hStep
      subst hStep
      refine ⟨?_, Nat.lt_succ_self _, rfl⟩
      rw [hFds]
      exact hOpen
  | duping =>
      rw [hPlace] at hFds
      simp only [hPlace, Option.some.injEq] at hStep
      subst hStep
      refine ⟨?_, Nat.lt_succ_self _, rfl⟩
      rw [hFds]
      show FdTable.dup2 ((used, f) :: o.shellFds) used std = _
      rw [FdTable.dup2_eq hNe FdTable.file_cons_self,
        FdTable.close_cons_of_ne hNe]
      rfl
  | closingDup =>
      rw [hPlace] at hFds
      simp only [hPlace, Option.some.injEq] at hStep
      subst hStep
      refine ⟨?_, Nat.lt_succ_self _, rfl⟩
      rw [hFds]
      show FdTable.close ((std, f) :: (used, f) :: o.shellFds.close std) used
        = _
      rw [FdTable.close_cons_of_ne hNe.symm, FdTable.close_cons_self,
        FdTable.close_of_fresh hFresh.close]
      rfl
  | running | exited | reaped => simp only [hPlace, reduceCtorEq] at hStep

theorem prepare_not_gone {unused used std : Nat} {c c' : Child}
    (hStep : c.prepare unused used std = some c') : c.place.gone = false := by
  unfold Child.prepare at hStep
  cases hPlace : c.place with
  | closing | duping | closingDup | running => rfl
  | exited | reaped => simp only [hPlace, reduceCtorEq] at hStep

theorem refers_fds (f : File) (hf : f = .readEnd ∨ f = .writeEnd) :
    o.fds.refers f = true := by
  rcases hf with rfl | rfl <;> simp [Opened.fds]

/-- A child has its end until it exits, under one number or two. -/
theorem child_refers {used std : Nat} {f : File} {place : ChildAt}
    (hf : f = .readEnd ∨ f = .writeEnd) (hPlace : place.gone = false) :
    (o.childFds used std f place).refers f = true := by
  cases place with
  | closing => exact refers_fds o f hf
  | duping | closingDup | running => simp [Opened.childFds]
  | exited | reaped => contradiction

/-- It has no other end after its first call.  This is what lets the other
command see the end of the file, or `SIGPIPE`. -/
theorem child_refers_other {used std : Nat} {f g : File} {place : ChildAt}
    (hg : o.shellFds.refers g = false) (hfg : f ≠ g)
    (hPlace : place ≠ .closing) :
    (o.childFds used std f place).refers g = false := by
  cases place with
  | closing => contradiction
  | duping => simp [Opened.childFds, hg, hfg]
  | closingDup | running =>
      simp [Opened.childFds, FdTable.refers_close_of_not hg, hfg]
  | exited | reaped => rfl

end Descriptors

/-! ## The invariant -/

/-- A child that has exited. -/
def Gone (child : Option Child) : Prop :=
  ∃ c, child = some c ∧ c.place.gone = true

/-- The parent has closed both ends. -/
def ParentAt.closed : ParentAt → Bool
  | .waiting1 | .waiting2 | .prompting => true
  | .forking1 | .forking2 | .closingRead | .closingWrite => false

/-- What holds in every state of a turn.  Each process has the descriptors of
the place where it stands, and the children that have been waited for are those
that the parent has passed.  No byte of the text is lost or repeated between
the commands (`data`).  The first command stops early only if the second one
has gone, and this one goes when it has what it wants or everything has been
read. -/
structure Inv (o : Opened) (s : Turn) : Prop where
  /-- The parent has the descriptors of its place. -/
  parentFds : s.parentFds = o.parentFds s.parent
  /-- The first child is there from the first `fork` on, -/
  none1 : s.child1 = none ↔ s.parent = .forking1
  /-- and the second from the second one on. -/
  none2 : s.child2 = none ↔ s.parent = .forking1 ∨ s.parent = .forking2
  /-- The first child has the write end and no other, -/
  fds1 : ∀ c, s.child1 = some c → c.fds = o.childFds o.fd1 1 .writeEnd c.place
  /-- and the second the read end, as far as they have got. -/
  fds2 : ∀ c, s.child2 = some c → c.fds = o.childFds o.fd0 0 .readEnd c.place
  /-- The first `waitpid` takes the first child, -/
  reaped1 : ∀ c, s.child1 = some c →
    (c.place = .reaped ↔ s.parent = .waiting2 ∨ s.parent = .prompting)
  /-- and the second one the second. -/
  reaped2 : ∀ c, s.child2 = some c →
    (c.place = .reaped ↔ s.parent = .prompting)
  /-- What was read, what is in the pipe and what is still to be written are the
  text. -/
  data : s.got ++ s.pipe ++ s.rest = o.text
  /-- The second command reads no more than it wants. -/
  within : ∀ k ∈ o.limit, s.got.length ≤ k
  /-- The first command has written everything, or nobody reads any more. -/
  ended1 : Gone s.child1 → s.rest = [] ∨ Gone s.child2
  /-- The second command has what it wants, or has read everything. -/
  ended2 : Gone s.child2 →
    o.limit = some s.got.length ∨ s.pipe = [] ∧ s.rest = []

section References

variable {o : Opened} {s : Turn} {c : Child}

theorem not_gone (h : c.place.gone = false) : ¬Gone (some c) := by
  rintro ⟨e, he, hGone⟩
  obtain rfl := Option.some.inj he
  rw [h] at hGone
  contradiction

theorem gone_of_place {child : Option Child} (hc : child = some c)
    (h : c.place = .exited) : Gone child := by
  refine ⟨c, hc, ?_⟩
  rw [h]
  rfl

/-- Without a reader the second command has exited: as long as it lives it has
the read end itself. -/
theorem Inv.gone_of_no_reader (hI : Inv o s)
    (h : s.refers .readEnd = false) : Gone s.child2 := by
  simp only [Turn.refers, Bool.or_eq_false_iff] at h
  obtain ⟨⟨hParent, -⟩, hChild⟩ := h
  cases hc : s.child2 with
  | none =>
      have hOpen : s.parentFds = o.fds := by
        rw [hI.parentFds]
        rcases hI.none2.mp hc with hp | hp <;>
        · rw [hp]
          rfl
      rw [hOpen, refers_fds o _ (.inl rfl)] at hParent
      contradiction
  | some c =>
      refine ⟨c, rfl, ?_⟩
      rw [hc, Option.any_some, hI.fds2 c hc] at hChild
      by_contra hGone
      rw [child_refers o (.inl rfl) (Bool.not_eq_true _ ▸ hGone)] at hChild
      contradiction

/-- Without a writer the first command has exited. -/
theorem Inv.gone_of_no_writer (hI : Inv o s)
    (h : s.refers .writeEnd = false) : Gone s.child1 := by
  simp only [Turn.refers, Bool.or_eq_false_iff] at h
  obtain ⟨⟨hParent, hChild⟩, -⟩ := h
  cases hc : s.child1 with
  | none =>
      have hOpen : s.parentFds = o.fds := by
        rw [hI.parentFds, hI.none1.mp hc]
        rfl
      rw [hOpen, refers_fds o _ (.inr rfl)] at hParent
      contradiction
  | some c =>
      refine ⟨c, rfl, ?_⟩
      rw [hc, Option.any_some, hI.fds1 c hc] at hChild
      by_contra hGone
      rw [child_refers o (.inr rfl) (Bool.not_eq_true _ ▸ hGone)] at hChild
      contradiction

theorem parent_refers_not (hI : Inv o s) (hClosed : s.parent.closed = true) :
    s.parentFds.refers .readEnd = false ∧
      s.parentFds.refers .writeEnd = false := by
  rw [hI.parentFds]
  cases hp : s.parent with
  | waiting1 | waiting2 | prompting => exact o.others
  | forking1 | forking2 | closingRead | closingWrite =>
      rw [hp] at hClosed
      contradiction

theorem gone_refers_not {child : Option Child} {used std : Nat} {f g : File}
    (hFds : ∀ c, child = some c → c.fds = o.childFds used std f c.place)
    (h : Gone child) : child.any (fun c => c.fds.refers g) = false := by
  obtain ⟨c, rfl, hGone⟩ := h
  rw [Option.any_some, hFds c rfl]
  cases hPlace : c.place with
  | exited | reaped => rfl
  | closing | duping | closingDup | running =>
      rw [hPlace] at hGone
      contradiction

/-- No end is left open: the reader gets the end of the file when the first
command has exited, because the parent has closed its write end and the second
child the one it inherited. -/
theorem Inv.no_writer (hI : Inv o s) (hClosed : s.parent.closed = true)
    (hGone : Gone s.child1) (hc : s.child2 = some c)
    (hPlace : c.place ≠ .closing) : s.refers .writeEnd = false := by
  rw [Turn.refers, (parent_refers_not hI hClosed).2,
    gone_refers_not hI.fds1 hGone, hc, Option.any_some, hI.fds2 c hc,
    child_refers_other o o.others.2 (by decide) hPlace]
  rfl

/-- And the writer gets `SIGPIPE` when the second has exited, for the same
reasons. -/
theorem Inv.no_reader (hI : Inv o s) (hClosed : s.parent.closed = true)
    (hGone : Gone s.child2) (hc : s.child1 = some c)
    (hPlace : c.place ≠ .closing) : s.refers .readEnd = false := by
  rw [Turn.refers, (parent_refers_not hI hClosed).1,
    gone_refers_not hI.fds2 hGone, hc, Option.any_some, hI.fds1 c hc,
    child_refers_other o o.others.1 (by decide) hPlace]
  rfl

end References

/-! ## Steps -/

/-- A child that has not been started has all its calls before it. -/
def childCalls (child : Option Child) : Nat :=
  (child.map fun c => c.place.calls).getD 5

/-- The calls and bytes that are left.  A byte not yet written counts twice,
because it is written and read, and a byte in the pipe once.  Every step makes
this smaller. -/
def Turn.work (s : Turn) : Nat :=
  s.parent.calls + childCalls s.child1 + childCalls s.child2 +
    2 * s.rest.length + s.pipe.length

section Steps

variable {o : Opened} {s next : Turn} {c c' : Child}

theorem inv_start (o : Opened) : Inv o o.start where
  parentFds := rfl
  none1 := ⟨fun _ => rfl, fun _ => rfl⟩
  none2 := ⟨fun _ => .inl rfl, fun _ => rfl⟩
  fds1 := nofun
  fds2 := nofun
  reaped1 := nofun
  reaped2 := nofun
  data := rfl
  within := fun _ _ => Nat.zero_le _
  ended1 := fun ⟨_, h, _⟩ => nomatch h
  ended2 := fun ⟨_, h, _⟩ => nomatch h

/-- A child goes on in its part, or exits.  The parent and the other child do
not notice, and the pipe is not touched. -/
theorem Inv.set_child1 (hI : Inv o s) (hc : s.child1 = some c)
    (hPlace : c.place.gone = false)
    (hFds : c'.fds = o.childFds o.fd1 1 .writeEnd c'.place)
    (hPlace' : c'.place ≠ .reaped)
    (hEnd : c'.place.gone = true → s.rest = [] ∨ Gone s.child2) :
    Inv o { s with child1 := some c' } where
  parentFds := hI.parentFds
  none1 := by
    have hOld := hI.none1
    rw [hc] at hOld
    exact iff_of_false nofun fun hp => nomatch hOld.mpr hp
  none2 := hI.none2
  fds1 := by
    intro e he
    obtain rfl := Option.some.inj he
    exact hFds
  fds2 := hI.fds2
  reaped1 := by
    intro e he
    obtain rfl := Option.some.inj he
    refine iff_of_false hPlace' fun hp => ?_
    rw [(hI.reaped1 c hc).mpr hp] at hPlace
    contradiction
  reaped2 := hI.reaped2
  data := hI.data
  within := hI.within
  ended1 := by
    rintro ⟨e, he, hGone⟩
    obtain rfl := Option.some.inj he
    exact hEnd hGone
  ended2 := hI.ended2

theorem Inv.set_child2 (hI : Inv o s) (hc : s.child2 = some c)
    (hPlace : c.place.gone = false)
    (hFds : c'.fds = o.childFds o.fd0 0 .readEnd c'.place)
    (hPlace' : c'.place ≠ .reaped)
    (hEnd : c'.place.gone = true →
      o.limit = some s.got.length ∨ s.pipe = [] ∧ s.rest = []) :
    Inv o { s with child2 := some c' } where
  parentFds := hI.parentFds
  none1 := hI.none1
  none2 := by
    have hOld := hI.none2
    rw [hc] at hOld
    exact iff_of_false nofun fun hp => nomatch hOld.mpr hp
  fds1 := hI.fds1
  fds2 := by
    intro e he
    obtain rfl := Option.some.inj he
    exact hFds
  reaped1 := hI.reaped1
  reaped2 := by
    intro e he
    obtain rfl := Option.some.inj he
    refine iff_of_false hPlace' fun hp => ?_
    rw [(hI.reaped2 c hc).mpr hp] at hPlace
    contradiction
  data := hI.data
  within := hI.within
  ended1 := by
    intro hGone
    have hOld := hI.ended1 hGone
    rw [hc] at hOld
    exact .inl (hOld.resolve_right (not_gone hPlace))
  ended2 := by
    rintro ⟨e, he, hGone⟩
    obtain rfl := Option.some.inj he
    exact hEnd hGone

/-- The first command writes, or exits when it is done or nobody reads.  How
much a `write` takes is not in its hands. -/
theorem Inv.command1_cases (hI : Inv o s) {n : Nat} (hc : s.child1 = some c)
    (hPlace : c.place = .running) (hStep : s.command1 o c n = some next) :
    (next = { s with child1 := some .exit } ∧
      (s.rest = [] ∨ Gone s.child2)) ∨
    (0 < n ∧ n ≤ s.rest.length ∧ next = { s with
      pipe := s.pipe ++ s.rest.take n
      rest := s.rest.drop n }) := by
  have hFile : c.fds.file 1 = some .writeEnd := by
    rw [hI.fds1 c hc, hPlace]
    exact FdTable.file_cons_self
  unfold Turn.command1 at hStep
  by_cases hRest : s.rest = []
  · rw [if_pos hRest] at hStep
    exact .inl ⟨(Option.some.inj hStep).symm, .inl hRest⟩
  · simp only [if_neg hRest, hFile] at hStep
    by_cases hReader : s.refers .readEnd = false
    · rw [if_pos hReader] at hStep
      exact .inl ⟨(Option.some.inj hStep).symm,
        .inr (hI.gone_of_no_reader hReader)⟩
    · rw [if_neg hReader, Option.ite_none_right_eq_some] at hStep
      obtain ⟨⟨hPos, hLe, -⟩, hNext⟩ := hStep
      exact .inr ⟨hPos, hLe, (Option.some.inj hNext).symm⟩

/-- The second command reads, or exits when it has enough or has all.  A `read`
returns 0 only at the end of the file. -/
theorem Inv.command2_cases (hI : Inv o s) {n : Nat} (hc : s.child2 = some c)
    (hPlace : c.place = .running) (hStep : s.command2 o c n = some next) :
    (next = { s with child2 := some .exit } ∧
      (o.limit = some s.got.length ∨ s.pipe = [] ∧ s.rest = [])) ∨
    (0 < n ∧ n ≤ s.pipe.length ∧ (∀ k ∈ o.limit, s.got.length + n ≤ k) ∧
      next = { s with
        pipe := s.pipe.drop n
        got := s.got ++ s.pipe.take n }) := by
  have hFile : c.fds.file 0 = some .readEnd := by
    rw [hI.fds2 c hc, hPlace]
    exact FdTable.file_cons_self
  unfold Turn.command2 at hStep
  by_cases hLimit : o.limit = some s.got.length
  · rw [if_pos hLimit] at hStep
    exact .inl ⟨(Option.some.inj hStep).symm, .inl hLimit⟩
  · simp only [if_neg hLimit, hFile] at hStep
    by_cases hPipe : s.pipe = []
    · rw [if_pos hPipe, Option.ite_none_right_eq_some] at hStep
      obtain ⟨hWriter, hNext⟩ := hStep
      -- Only a writer that nobody listens to exits before its end.
      have hRest := hI.ended1 (hI.gone_of_no_writer hWriter)
      rw [hc] at hRest
      have hNot : ¬Gone (some c) := not_gone (by rw [hPlace]; rfl)
      exact .inl ⟨(Option.some.inj hNext).symm,
        .inr ⟨hPipe, hRest.resolve_right hNot⟩⟩
    · rw [if_neg hPipe, Option.ite_none_right_eq_some] at hStep
      obtain ⟨⟨hPos, hLe, hWants⟩, hNext⟩ := hStep
      exact .inr ⟨hPos, hLe, hWants, (Option.some.inj hNext).symm⟩

theorem Inv.write (hI : Inv o s) {n : Nat} (hc : s.child1 = some c)
    (hPlace : c.place = .running) (hPos : 0 < n) (hLe : n ≤ s.rest.length) :
    Inv o { s with
      pipe := s.pipe ++ s.rest.take n
      rest := s.rest.drop n } where
  parentFds := hI.parentFds
  none1 := hI.none1
  none2 := hI.none2
  fds1 := hI.fds1
  fds2 := hI.fds2
  reaped1 := hI.reaped1
  reaped2 := hI.reaped2
  data := by
    simp only [List.append_assoc, List.take_append_drop]
    rw [← List.append_assoc]
    exact hI.data
  within := hI.within
  ended1 := by
    show Gone s.child1 → _
    rw [hc]
    exact fun hGone => absurd hGone (not_gone (by rw [hPlace]; rfl))
  ended2 := by
    intro hGone
    refine (hI.ended2 hGone).imp id fun hEmpty => ?_
    rw [hEmpty.2, List.length_nil] at hLe
    omega

theorem Inv.read (hI : Inv o s) {n : Nat} (hc : s.child2 = some c)
    (hPlace : c.place = .running) (hLe : n ≤ s.pipe.length)
    (hWants : ∀ k ∈ o.limit, s.got.length + n ≤ k) :
    Inv o { s with
      pipe := s.pipe.drop n
      got := s.got ++ s.pipe.take n } where
  parentFds := hI.parentFds
  none1 := hI.none1
  none2 := hI.none2
  fds1 := hI.fds1
  fds2 := hI.fds2
  reaped1 := hI.reaped1
  reaped2 := hI.reaped2
  data := by
    simp only [List.append_assoc]
    rw [← List.append_assoc (s.pipe.take n), List.take_append_drop,
      ← List.append_assoc]
    exact hI.data
  within := by
    intro k hk
    rw [List.length_append, List.length_take_of_le hLe]
    exact hWants k hk
  ended1 := hI.ended1
  ended2 := by
    show Gone s.child2 → _
    rw [hc]
    exact fun hGone => absurd hGone (not_gone (by rw [hPlace]; rfl))

/-! ### The parent -/

/-- A new child has the descriptors of the parent, both ends of the pipe among
them. -/
theorem Inv.fork1 (hI : Inv o s) (hp : s.parent = .forking1) :
    Inv o { s with
      parent := .forking2
      child1 := some ⟨.closing, s.parentFds⟩ } := by
  have hFds : s.parentFds = o.fds := by
    rw [hI.parentFds, hp]
    rfl
  have hNone : s.child2 = none := hI.none2.mpr (.inl hp)
  exact
    { parentFds := hFds
      none1 := iff_of_false nofun nofun
      none2 := ⟨fun _ => .inr rfl, fun _ => hNone⟩
      fds1 := by
        intro e he
        obtain rfl := Option.some.inj he
        exact hFds
      fds2 := hI.fds2
      reaped1 := by
        intro e he
        obtain rfl := Option.some.inj he
        exact iff_of_false nofun nofun
      reaped2 := by
        intro e he
        rw [hNone] at he
        contradiction
      data := hI.data
      within := hI.within
      ended1 := fun hGone => absurd hGone (not_gone rfl)
      ended2 := hI.ended2 }

theorem Inv.fork2 (hI : Inv o s) (hp : s.parent = .forking2) :
    Inv o { s with
      parent := .closingRead
      child2 := some ⟨.closing, s.parentFds⟩ } := by
  have hFds : s.parentFds = o.fds := by
    rw [hI.parentFds, hp]
    rfl
  have hSome : s.child1 ≠ none := by
    rw [Ne, hI.none1, hp]
    nofun
  have hNone : s.child2 = none := hI.none2.mpr (.inr hp)
  exact
    { parentFds := hFds
      none1 := iff_of_false hSome nofun
      none2 := iff_of_false nofun nofun
      fds1 := hI.fds1
      fds2 := by
        intro e he
        obtain rfl := Option.some.inj he
        exact hFds
      reaped1 := by
        intro e he
        rw [hI.reaped1 e he, hp]
        exact iff_of_false nofun nofun
      reaped2 := by
        intro e he
        obtain rfl := Option.some.inj he
        exact iff_of_false nofun nofun
      data := hI.data
      within := hI.within
      ended1 := by
        intro hGone
        have hOld := hI.ended1 hGone
        rw [hNone] at hOld
        exact .inl (hOld.resolve_right fun ⟨_, h, _⟩ => nomatch h)
      ended2 := fun hGone => absurd hGone (not_gone rfl) }

/-- The parent goes on without touching the children: it closes its ends. -/
theorem Inv.parent_only (hI : Inv o s) {place : ParentAt} {fds : FdTable File}
    (hFds : fds = o.parentFds place)
    (hFrom : s.parent ≠ .forking1 ∧ s.parent ≠ .forking2)
    (hTo : place ≠ .forking1 ∧ place ≠ .forking2)
    (hWaited : (s.parent = .waiting2 ∨ s.parent = .prompting) ↔
      (place = .waiting2 ∨ place = .prompting))
    (hDone : s.parent = .prompting ↔ place = .prompting) :
    Inv o { s with parent := place, parentFds := fds } where
  parentFds := hFds
  none1 := hI.none1.trans (iff_of_false hFrom.1 hTo.1)
  none2 := hI.none2.trans
    (iff_of_false (not_or.mpr hFrom) (not_or.mpr hTo))
  fds1 := hI.fds1
  fds2 := hI.fds2
  reaped1 c hc := (hI.reaped1 c hc).trans hWaited
  reaped2 c hc := (hI.reaped2 c hc).trans hDone
  data := hI.data
  within := hI.within
  ended1 := hI.ended1
  ended2 := hI.ended2

theorem Inv.reap1 (hI : Inv o s) (hp : s.parent = .waiting1)
    (hc : s.child1 = some c) (hPlace : c.place = .exited) :
    Inv o { s with parent := .waiting2, child1 := some ⟨.reaped, []⟩ } where
  parentFds := by
    rw [hI.parentFds, hp]
    rfl
  none1 := iff_of_false nofun nofun
  none2 := by
    have hOld := hI.none2
    rw [hp] at hOld
    exact iff_of_false (fun h => nomatch hOld.mp h) nofun
  fds1 := by
    intro e he
    obtain rfl := Option.some.inj he
    rfl
  fds2 := hI.fds2
  reaped1 := by
    intro e he
    obtain rfl := Option.some.inj he
    exact iff_of_true rfl (.inl rfl)
  reaped2 := by
    intro e he
    rw [hI.reaped2 e he, hp]
    exact iff_of_false nofun nofun
  data := hI.data
  within := hI.within
  ended1 := fun _ => hI.ended1 (gone_of_place hc hPlace)
  ended2 := hI.ended2

theorem Inv.reap2 (hI : Inv o s) (hp : s.parent = .waiting2)
    (hc : s.child2 = some c) (hPlace : c.place = .exited) :
    Inv o { s with parent := .prompting, child2 := some ⟨.reaped, []⟩ } where
  parentFds := by
    rw [hI.parentFds, hp]
    rfl
  none1 := by
    have hOld := hI.none1
    rw [hp] at hOld
    exact iff_of_false (fun h => nomatch hOld.mp h) nofun
  none2 := iff_of_false nofun nofun
  fds1 := hI.fds1
  fds2 := by
    intro e he
    obtain rfl := Option.some.inj he
    rfl
  reaped1 := by
    intro e he
    rw [hI.reaped1 e he, hp]
    exact iff_of_true (.inl rfl) (.inr rfl)
  reaped2 := by
    intro e he
    obtain rfl := Option.some.inj he
    exact iff_of_true rfl rfl
  data := hI.data
  within := hI.within
  ended1 := fun _ => .inr ⟨_, rfl, rfl⟩
  ended2 := fun _ => hI.ended2 (gone_of_place hc hPlace)

theorem Inv.goOn (hI : Inv o s) (hStep : s.goOn o = some next) :
    Inv o next ∧ next.work < s.work := by
  unfold Turn.goOn at hStep
  cases hp : s.parent with
  | forking1 =>
      simp only [hp, Option.some.injEq] at hStep
      subst hStep
      refine ⟨hI.fork1 hp, ?_⟩
      simp only [Turn.work, hp, hI.none1.mpr hp, childCalls,
        ParentAt.calls, ChildAt.calls, Option.map_some, Option.getD_some,
        Option.map_none, Option.getD_none]
      omega
  | forking2 =>
      simp only [hp, Option.some.injEq] at hStep
      subst hStep
      refine ⟨hI.fork2 hp, ?_⟩
      simp only [Turn.work, hp, hI.none2.mpr (.inr hp), childCalls,
        ParentAt.calls, ChildAt.calls, Option.map_some, Option.getD_some,
        Option.map_none, Option.getD_none]
      omega
  | closingRead =>
      simp only [hp, Option.some.injEq] at hStep
      subst hStep
      refine ⟨hI.parent_only ?_ ?_ ?_ ?_ ?_, ?_⟩
      · rw [hI.parentFds, hp]
        exact close_fd0 o
      · rw [hp]
        decide
      · decide
      · rw [hp]
        decide
      · rw [hp]
        decide
      · simp only [Turn.work, hp, ParentAt.calls]
        omega
  | closingWrite =>
      simp only [hp, Option.some.injEq] at hStep
      subst hStep
      refine ⟨hI.parent_only ?_ ?_ ?_ ?_ ?_, ?_⟩
      · rw [hI.parentFds, hp]
        show FdTable.close ((o.fd1, .writeEnd) :: o.shellFds) o.fd1 = _
        rw [FdTable.close_cons_self, FdTable.close_of_fresh o.fresh1]
        rfl
      · rw [hp]
        decide
      · decide
      · rw [hp]
        decide
      · rw [hp]
        decide
      · simp only [Turn.work, hp, ParentAt.calls]
        omega
  | waiting1 =>
      simp only [hp, Option.ite_none_right_eq_some, Option.any_eq_true,
        decide_eq_true_eq] at hStep
      obtain ⟨⟨c, hc, hPlace⟩, hNext⟩ := hStep
      obtain rfl := Option.some.inj hNext
      refine ⟨hI.reap1 hp hc hPlace, ?_⟩
      simp only [Turn.work, hp, hc, childCalls, hPlace, ParentAt.calls,
        ChildAt.calls, Option.map_some, Option.getD_some]
      omega
  | waiting2 =>
      simp only [hp, Option.ite_none_right_eq_some, Option.any_eq_true,
        decide_eq_true_eq] at hStep
      obtain ⟨⟨c, hc, hPlace⟩, hNext⟩ := hStep
      obtain rfl := Option.some.inj hNext
      refine ⟨hI.reap2 hp hc hPlace, ?_⟩
      simp only [Turn.work, hp, hc, childCalls, hPlace, ParentAt.calls,
        ChildAt.calls, Option.map_some, Option.getD_some]
      omega
  | prompting => simp only [hp, reduceCtorEq] at hStep

/-! ### The children -/

theorem Inv.child1 (hI : Inv o s) {n : Nat}
    (hStep : step o s (.child1 n) = some next) :
    Inv o next ∧ next.work < s.work := by
  obtain ⟨c, hc, hStep⟩ := Option.bind_eq_some_iff.mp hStep
  by_cases hPlace : c.place = .running
  · rw [if_pos hPlace] at hStep
    have hGone : c.place.gone = false := by
      rw [hPlace]
      rfl
    rcases hI.command1_cases hc hPlace hStep with ⟨rfl, hEnd⟩ |
      ⟨hPos, hLe, rfl⟩
    · refine ⟨hI.set_child1 hc hGone rfl nofun fun _ => hEnd, ?_⟩
      simp only [Turn.work, hc, childCalls, hPlace, Child.exit,
        ChildAt.calls, Option.map_some, Option.getD_some]
      omega
    · refine ⟨hI.write hc hPlace hPos hLe, ?_⟩
      simp only [Turn.work, List.length_append, List.length_drop,
        List.length_take_of_le hLe]
      omega
  · rw [if_neg hPlace] at hStep
    obtain ⟨c', hc', rfl⟩ := Option.map_eq_some_iff.mp hStep
    obtain ⟨hFds, hCalls, hGone'⟩ := prepare_spec o (close_fd0 o) o.fresh1
      (by decide) (hI.fds1 c hc) hc'
    have hReaped : c'.place ≠ .reaped := by
      intro h
      rw [h] at hGone'
      contradiction
    refine ⟨hI.set_child1 hc (prepare_not_gone hc') hFds hReaped ?_, ?_⟩
    · intro h
      rw [h] at hGone'
      contradiction
    · simp only [Turn.work, hc, childCalls, Option.map_some,
        Option.getD_some]
      omega

theorem Inv.child2 (hI : Inv o s) {n : Nat}
    (hStep : step o s (.child2 n) = some next) :
    Inv o next ∧ next.work < s.work := by
  obtain ⟨c, hc, hStep⟩ := Option.bind_eq_some_iff.mp hStep
  by_cases hPlace : c.place = .running
  · rw [if_pos hPlace] at hStep
    have hGone : c.place.gone = false := by
      rw [hPlace]
      rfl
    rcases hI.command2_cases hc hPlace hStep with ⟨rfl, hEnd⟩ |
      ⟨hPos, hLe, hWants, rfl⟩
    · refine ⟨hI.set_child2 hc hGone rfl nofun fun _ => hEnd, ?_⟩
      simp only [Turn.work, hc, childCalls, hPlace, Child.exit,
        ChildAt.calls, Option.map_some, Option.getD_some]
      omega
    · refine ⟨hI.read hc hPlace hLe hWants, ?_⟩
      simp only [Turn.work, List.length_drop]
      omega
  · rw [if_neg hPlace] at hStep
    obtain ⟨c', hc', rfl⟩ := Option.map_eq_some_iff.mp hStep
    obtain ⟨hFds, hCalls, hGone'⟩ := prepare_spec o (close_fd1 o) o.fresh0
      (by decide) (hI.fds2 c hc) hc'
    have hReaped : c'.place ≠ .reaped := by
      intro h
      rw [h] at hGone'
      contradiction
    refine ⟨hI.set_child2 hc (prepare_not_gone hc') hFds hReaped ?_, ?_⟩
    · intro h
      rw [h] at hGone'
      contradiction
    · simp only [Turn.work, hc, childCalls, Option.map_some,
        Option.getD_some]
      omega

theorem descends (o : Opened) : (turnMachine o).Descends (Inv o) Turn.work := by
  intro s l next hI hStep
  cases l with
  | parent => exact hI.goOn hStep
  | child1 n => exact hI.child1 hStep
  | child2 n => exact hI.child2 hStep

end Steps

/-! ## Nobody waits for ever -/

section Progress

variable {o : Opened} {s : Turn} {c : Child}

theorem prepare_enabled (unused used std : Nat) (hGone : c.place.gone = false)
    (hPlace : c.place ≠ .running) :
    ∃ c', c.prepare unused used std = some c' := by
  unfold Child.prepare
  cases h : c.place with
  | closing | duping | closingDup => exact ⟨_, rfl⟩
  | running => contradiction
  | exited | reaped =>
      rw [h] at hGone
      contradiction

/-- The second command can go on, unless the pipe is empty and the first has
not exited: then it waits in `read`. -/
theorem child2_enabled (hI : Inv o s) (hClosed : s.parent.closed = true)
    (hc : s.child2 = some c) (hGone : c.place.gone = false)
    (hSource : s.pipe ≠ [] ∨ Gone s.child1) :
    ∃ n next, step o s (.child2 n) = some next := by
  refine ⟨1, ?_⟩
  show ∃ next, s.child2.bind _ = some next
  rw [hc, Option.bind_some]
  by_cases hPlace : c.place = .running
  · rw [if_pos hPlace]
    have hFile : c.fds.file 0 = some .readEnd := by
      rw [hI.fds2 c hc, hPlace]
      exact FdTable.file_cons_self
    unfold Turn.command2
    by_cases hLimit : o.limit = some s.got.length
    · exact ⟨_, if_pos hLimit⟩
    · simp only [if_neg hLimit, hFile]
      by_cases hPipe : s.pipe = []
      · have hWriter := hI.no_writer hClosed
          (hSource.resolve_left (not_not_intro hPipe)) hc
          (by rw [hPlace]; decide)
        rw [if_pos hPipe, if_pos hWriter]
        exact ⟨_, rfl⟩
      · rw [if_neg hPipe, if_pos]
        · exact ⟨_, rfl⟩
        · refine ⟨Nat.one_pos, List.length_pos_iff.mpr hPipe, ?_⟩
          intro k hk
          have hWithin := hI.within k hk
          refine Nat.lt_of_le_of_ne hWithin ?_
          rintro rfl
          exact hLimit hk
  · rw [if_neg hPlace]
    obtain ⟨c', hc'⟩ := prepare_enabled o.fd1 o.fd0 0 hGone hPlace
    exact ⟨_, by rw [hc']; rfl⟩

/-- The first command can go on, unless the pipe is full and somebody is to
read it: then it waits in `write`. -/
theorem child1_enabled (hI : Inv o s) (hc : s.child1 = some c)
    (hGone : c.place.gone = false)
    (hSink : c.place = .running →
      s.pipe.length < o.capacity ∨ s.refers .readEnd = false) :
    ∃ n next, step o s (.child1 n) = some next := by
  refine ⟨1, ?_⟩
  show ∃ next, s.child1.bind _ = some next
  rw [hc, Option.bind_some]
  by_cases hPlace : c.place = .running
  · rw [if_pos hPlace]
    have hFile : c.fds.file 1 = some .writeEnd := by
      rw [hI.fds1 c hc, hPlace]
      exact FdTable.file_cons_self
    unfold Turn.command1
    by_cases hRest : s.rest = []
    · exact ⟨_, if_pos hRest⟩
    · simp only [if_neg hRest, hFile]
      by_cases hReader : s.refers .readEnd = false
      · exact ⟨_, if_pos hReader⟩
      · rw [if_neg hReader, if_pos]
        · exact ⟨_, rfl⟩
        · exact ⟨Nat.one_pos, List.length_pos_iff.mpr hRest,
            (hSink hPlace).resolve_right hReader⟩
  · rw [if_neg hPlace]
    obtain ⟨c', hc'⟩ := prepare_enabled o.fd0 o.fd1 1 hGone hPlace
    exact ⟨_, by rw [hc']; rfl⟩

/-- Once the parent waits, there is a second command, so a pipe that is full
has a reader to come. -/
theorem Inv.started2 (hI : Inv o s) (hClosed : s.parent.closed = true) :
    ∃ c, s.child2 = some c := by
  refine Option.ne_none_iff_exists'.mp fun hNone => ?_
  rcases hI.none2.mp hNone with hp | hp <;>
  · rw [hp] at hClosed
    contradiction

theorem gone_cases (hGone : c.place.gone = true) :
    c.place = .exited ∨ c.place = .reaped := by
  cases h : c.place with
  | exited => exact .inl rfl
  | reaped => exact .inr rfl
  | closing | duping | closingDup | running =>
      rw [h] at hGone
      contradiction

/-- **Until the prompt somebody can go on.**  Where the parent waits for a
child, one of the commands can move: the second if the pipe has something or
the first has gone, and the first otherwise. -/
theorem exists_step (hI : Inv o s) (hNot : s.parent ≠ .prompting) :
    ∃ l next, step o s l = some next := by
  have hParent : (∃ next, s.goOn o = some next) →
      ∃ l next, step o s l = some next := fun h => ⟨.parent, h⟩
  cases hp : s.parent with
  | forking1 | forking2 | closingRead | closingWrite =>
      refine hParent ?_
      unfold Turn.goOn
      simp only [hp]
      exact ⟨_, rfl⟩
  | prompting => exact absurd hp hNot
  | waiting1 =>
      have hClosed : s.parent.closed = true := by
        rw [hp]
        rfl
      obtain ⟨c, hc⟩ : ∃ c, s.child1 = some c := by
        refine Option.ne_none_iff_exists'.mp fun hNone => ?_
        rw [hI.none1.mp hNone] at hp
        contradiction
      by_cases hGone : c.place.gone = true
      · refine hParent ?_
        have hExited : c.place = .exited := by
          refine (gone_cases hGone).resolve_right fun hReaped => ?_
          rw [hI.reaped1 c hc, hp] at hReaped
          rcases hReaped with h | h <;> contradiction
        unfold Turn.goOn
        simp only [hp, hc, Option.any_some, hExited]
        exact ⟨_, rfl⟩
      · have hRuns : c.place.gone = false := Bool.not_eq_true _ ▸ hGone
        by_cases hSink : c.place = .running →
            s.pipe.length < o.capacity ∨ s.refers .readEnd = false
        · obtain ⟨n, hStep⟩ := child1_enabled hI hc hRuns hSink
          exact ⟨.child1 n, hStep⟩
        · -- The pipe is full, and the second command reads it.
          obtain ⟨hFirst, hSink⟩ := Classical.not_imp.mp hSink
          obtain ⟨hFull, hReader⟩ := not_or.mp hSink
          obtain ⟨e, he⟩ := hI.started2 hClosed
          have hPipe : s.pipe ≠ [] := by
            intro hNil
            rw [hNil] at hFull
            exact hFull o.room
          have heRuns : e.place.gone = false := by
            by_contra heGone
            refine hReader (hI.no_reader hClosed ⟨e, he, ?_⟩ hc ?_)
            · exact Bool.not_eq_false _ ▸ heGone
            · rw [hFirst]
              decide
          obtain ⟨n, hStep⟩ :=
            child2_enabled hI hClosed he heRuns (.inl hPipe)
          exact ⟨.child2 n, hStep⟩
  | waiting2 =>
      have hClosed : s.parent.closed = true := by
        rw [hp]
        rfl
      obtain ⟨e, he⟩ := hI.started2 hClosed
      by_cases heGone : e.place.gone = true
      · refine hParent ?_
        have hExited : e.place = .exited := by
          refine (gone_cases heGone).resolve_right fun hReaped => ?_
          rw [hI.reaped2 e he, hp] at hReaped
          contradiction
        unfold Turn.goOn
        simp only [hp, he, Option.any_some, hExited]
        exact ⟨_, rfl⟩
      · have heRuns : e.place.gone = false := Bool.not_eq_true _ ▸ heGone
        have hFirst : Gone s.child1 := by
          obtain ⟨c, hc⟩ : ∃ c, s.child1 = some c := by
            refine Option.ne_none_iff_exists'.mp fun hNone => ?_
            rw [hI.none1.mp hNone] at hp
            contradiction
          have hReaped := (hI.reaped1 c hc).mpr (.inl hp)
          exact ⟨c, hc, by rw [hReaped]; rfl⟩
        obtain ⟨n, hStep⟩ :=
          child2_enabled hI hClosed he heRuns (.inr hFirst)
        exact ⟨.child2 n, hStep⟩

end Progress

/-! ## The whole turn -/

section Run

variable {o : Opened} {s last : Turn}

/-- The second command has what it wants once it has exited: all of the text,
or as much of its beginning as its limit says. -/
theorem Inv.got_eq (hI : Inv o s) (hGone : Gone s.child2) :
    s.got = o.wanted := by
  have hData := hI.data
  rw [List.append_assoc] at hData
  unfold Opened.wanted
  rcases hI.ended2 hGone with hLimit | ⟨hPipe, hRest⟩
  · simp only [hLimit]
    rw [← hData, List.take_left]
  · rw [hPipe, hRest, List.append_nil, List.append_nil] at hData
    cases hk : o.limit with
    | none => exact hData
    | some k =>
        simp only
        rw [← hData, List.take_of_length_le (hI.within k hk)]

/-- **The pipeline carries the text.**  Whatever the sizes of the pieces and
the order of the steps, the turn is bounded and nobody waits for ever; what the
second command has read, what is in the pipe and what the first one has not
written yet are the text, in this order; and when nobody can move any more, the
second command has got what it wants, both children have been waited for, and
the parent is at its prompt with the descriptors it had before. -/
theorem pipeline_carries {as : List Label}
    (hRun : (turnMachine o).run o.start as = some last) :
    as.length ≤ 16 + 2 * o.text.length ∧
    (∃ more last', (turnMachine o).run last more = some last' ∧
      (turnMachine o).Settled last') ∧
    last.got ++ last.pipe ++ last.rest = o.text ∧
    ((turnMachine o).Settled last →
      last.parent = .prompting ∧ last.parentFds = o.shellFds ∧
      last.child1 = some ⟨.reaped, []⟩ ∧ last.child2 = some ⟨.reaped, []⟩ ∧
      last.got = o.wanted) := by
  obtain ⟨hI, hLength⟩ := (descends o).run_length_le (inv_start o) hRun
  refine ⟨?_, (descends o).exists_settled hI, hI.data, fun hSettled => ?_⟩
  · have hWork : o.start.work = 16 + 2 * o.text.length := rfl
    omega
  · have hp : last.parent = .prompting := by
      by_contra hNot
      obtain ⟨l, next, hStep⟩ := exists_step hI hNot
      have hNone : step o last l = none := hSettled l
      rw [hStep] at hNone
      contradiction
    have hClosed : last.parent.closed = true := by
      rw [hp]
      rfl
    obtain ⟨⟨place1, fds1⟩, hc1⟩ : ∃ c, last.child1 = some c := by
      refine Option.ne_none_iff_exists'.mp fun hNone => ?_
      rw [hI.none1.mp hNone] at hp
      contradiction
    obtain ⟨⟨place2, fds2⟩, hc2⟩ := hI.started2 hClosed
    have hPlace1 : place1 = .reaped := (hI.reaped1 _ hc1).mpr (.inr hp)
    have hPlace2 : place2 = .reaped := (hI.reaped2 _ hc2).mpr hp
    have hFds1 := hI.fds1 _ hc1
    have hFds2 := hI.fds2 _ hc2
    subst hPlace1 hPlace2
    obtain rfl : fds1 = [] := hFds1
    obtain rfl : fds2 = [] := hFds2
    refine ⟨hp, ?_, hc1, hc2, hI.got_eq ⟨_, hc2, rfl⟩⟩
    rw [hI.parentFds, hp]
    rfl

end Run

/-- The second command wants one of three bytes, and the pipe has room for
two. -/
def headOpened : Opened where
  shellFds := [(0, .other 0), (1, .other 1), (2, .other 2)]
  fd0 := 3
  fd1 := 4
  capacity := 2
  text := [97, 98, 99]
  limit := some 1
  fresh0 := by
    unfold FdTable.Fresh
    decide
  fresh1 := by
    unfold FdTable.Fresh
    decide
  distinct := by decide
  standard := by
    unfold FdTable.Fresh
    decide
  others := by decide
  room := by decide

/-- The first command is killed by `SIGPIPE` after the second has exited. -/
theorem pipeline_carries_head : ∃ last,
    (turnMachine headOpened).run headOpened.start
      [.parent, .parent, .child1 0, .child1 0, .child1 0, .child1 2,
        .child2 0, .child2 0, .child2 0, .child2 1, .child2 0, .parent,
        .parent, .child1 1, .parent, .parent] = some last ∧
      last.rest = [99] ∧
        last.got ++ last.pipe ++ last.rest = [97, 98, 99] := by
  have hRun : ((turnMachine headOpened).run headOpened.start
      [.parent, .parent, .child1 0, .child1 0, .child1 0, .child1 2,
        .child2 0, .child2 0, .child2 0, .child2 1, .child2 0, .parent,
        .parent, .child1 1, .parent, .parent]).any
          (fun s => decide (s.rest = [99])) = true := by
    decide +kernel
  obtain ⟨last, hLast, hRest⟩ := (Option.any_eq_true _ _).mp hRun
  exact ⟨last, hLast, of_decide_eq_true hRest, (pipeline_carries hLast).2.2.1⟩

end UnixHomework.Ports.Pipeline
