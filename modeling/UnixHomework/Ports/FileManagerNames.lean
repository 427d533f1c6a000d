import UnixHomework.Ports.FileManager
import UnixHomework.Verified.Allocations

/-!
# Who owns the file names

The names in a list are allocated by `strdup` and released by `free`, in three
functions.  Here the program runs from its start, where the panels hold
anything, to its exit, and each list entry has its pointer: the number of the
`strdup` call that returned it, or no number for any other value.

Two things go wrong.  The first `load_directory` of a panel frees what the
uninitialised list has below its uninitialised count, if `opendir` succeeds;
and a later one that fails sets the count to zero and forgets the names.
Without these every name is freed exactly once (`names_owned_iff`).
-/

namespace UnixHomework.Ports.FileManager

open UnixHomework.Verified

/-! ## The program -/

/-- `FileEntry` with its pointer.  In the program the name is the pointer; here
they are apart, so that the same name can be told from the same allocation. -/
structure Slot where
  entry : FileEntry
  /-- The allocation that the name is in; `none` is a value that no allocation
  has returned. -/
  pointer : Option Nat

/-- The part of `FileList` that decides about names.  The slots are those that
the loops see, below `count`; there are none if it is negative. -/
structure NameList where
  slots : List Slot
  selected : Int

/-- What `readdir` returns, with the answers of `snprintf` and `stat`. -/
structure Reading where
  name : List UInt8
  ret : Int
  isDir : Bool

/-- The pointers of a list. -/
def NameList.pointers (l : NameList) : List (Option Nat) :=
  l.slots.map Slot.pointer

/-- The loop of `load_directory`; every `strdup` succeeds.  A name whose path
does not fit is freed again at once, and `.` is left out before `strdup`. -/
def readNames : List Reading → List Slot → Allocations → List Slot × Allocations
  | [], slots, h => (slots, h)
  | r :: rest, slots, h =>
      if slots.length < maxFiles then
        if r.name = dot then readNames rest slots h
        else if r.ret < 0 ∨ pathMax ≤ r.ret then
          readNames rest slots (h.alloc.free [h.next])
        else
          readNames rest (slots ++ [⟨⟨r.name, r.isDir⟩, h.next⟩]) h.alloc
      else (slots, h)

/-- `qsort` with `compare_entries`, which sees the entries only. -/
def sortSlots (slots : List Slot) : List Slot :=
  slots.insertionSort fun a b => compareEntries a.entry b.entry ≤ 0

/-- `load_directory`; `none` is an `opendir` that fails.  The count is set to 0
then, without a `free` for the names it counted; otherwise they are freed
before the directory is read. -/
def loadNames (l : NameList) (h : Allocations) :
    Option (List Reading) → NameList × Allocations
  | none => ({ l with slots := [] }, h)
  | some readings =>
      let r := readNames readings [] (h.free l.pointers)
      (⟨sortSlots r.1, 0⟩, r.2)

/-- `move_selection`, as far as it matters here. -/
def NameList.move (l : NameList) (delta : Int) : NameList :=
  let newSel := l.selected + delta
  let newSel := if newSel < 0 then 0 else newSel
  let newSel := if (l.slots.length : Int) ≤ newSel then
    (l.slots.length : Int) - 1 else newSel
  { l with selected := newSel }

/-- Where `main` stands. -/
inductive Phase where
  | loadLeft
  | loadRight
  | keys
  | ended
  deriving DecidableEq

/-- The two panels, the one that takes the keys, and the calls of `strdup` and
`free` so far. -/
structure Program where
  /-- The lists of the two panels. -/
  lists : Side → NameList
  /-- The panel that takes the keys. -/
  active : Side
  /-- What `main` does next. -/
  phase : Phase
  /-- The calls of `strdup` and `free` so far. -/
  heap : Allocations

/-- A key; `q` is `quit`.  `enter` comes with what `opendir` and `readdir`
return if the selected entry is a directory. -/
inductive NameKey where
  | tab
  | up
  | down
  | enter (dir : Option (List Reading))
  | other

/-- The steps of `main`. -/
inductive Action where
  | load (dir : Option (List Reading))
  | key (k : NameKey)
  | quit

/-- `load_directory` of one panel, before `main` goes on.  The other panel
keeps its names. -/
def Program.load (t : Program) (side : Side) (dir : Option (List Reading))
    (phase : Phase) : Program :=
  { t with
    lists := Function.update t.lists side
      (loadNames (t.lists side) t.heap dir).1
    phase := phase
    heap := (loadNames (t.lists side) t.heap dir).2 }

/-- A read of `files[selected]`; there are no slots outside `[0, count)`. -/
def NameList.selected? (l : NameList) : Option Slot :=
  if 0 ≤ l.selected then l.slots[l.selected.toNat]? else none

/-- One key in the loop of `main`, as far as the names are concerned.  `none`
is a read of `files` outside the array. -/
def nameKeyStep (t : Program) : NameKey → Option Program
  | .tab => some { t with active := t.active.other }
  | .up =>
      some { t with
        lists := Function.update t.lists t.active
          ((t.lists t.active).move (-1)) }
  | .down =>
      some { t with
        lists := Function.update t.lists t.active
          ((t.lists t.active).move 1) }
  | .enter dir => do
      if 0 < (t.lists t.active).slots.length then do
        let slot ← (t.lists t.active).selected?
        if slot.entry.isDir then some (t.load t.active dir .keys)
        else some t
      else some t
  | .other => some t

/-- `free_files` for both panels. -/
def Program.finish (t : Program) : Program :=
  { t with
    lists := fun side => { t.lists side with slots := [] }
    phase := .ended
    heap := (t.heap.free (t.lists .left).pointers).free
      (t.lists .right).pointers }

/-- `main`: two loads, any number of keys, and the end, in which both lists are
freed. -/
def programStep (t : Program) : Action → Option Program
  | .load dir =>
      match t.phase with
      | .loadLeft => some (t.load .left dir .loadRight)
      | .loadRight => some (t.load .right dir .keys)
      | _ => none
  | .key k => if t.phase = .keys then nameKeyStep t k else none
  | .quit => if t.phase = .keys then some t.finish else none

/-- The panels hold anything at first, but nothing that `strdup` returned. -/
def program : Machine Program Action where
  init t := t.active = .left ∧ t.phase = .loadLeft ∧ t.heap = ⟨0, []⟩ ∧
    ∀ side, ∀ p ∈ (t.lists side).pointers, p = none
  step := programStep

/-- A run of `main`: two directories, some keys, and the exit. -/
def session (left right : Option (List Reading)) (keys : List NameKey) :
    List Action :=
  [.load left, .load right] ++ keys.map .key ++ [.quit]

/-! ## What is asked for -/

/-- `free` has been called for names only, for each at most once. -/
def FreesNames (t : Program) : Prop :=
  t.heap.FreesOnce

/-- All names have been freed. -/
def AllFreed (t : Program) : Prop :=
  t.heap.AllFreed

/-- The panel that `load_directory` reads before it is initialised has nothing
to free, or cannot be loaded; and a directory that is entered can be opened.
This is asked of the state before a step and of the answer of the system. -/
def KeepsNames (t : Program) : Action → Prop
  | .load dir =>
      (t.phase = .loadLeft → dir = none ∨ (t.lists .left).slots = []) ∧
        (t.phase = .loadRight → dir = none ∨ (t.lists .right).slots = [])
  | .key (.enter dir) =>
      ∀ slot, (t.lists t.active).selected? = some slot →
        slot.entry.isDir = true → dir ≠ none
  | _ => True

/-! ## Loading -/

section Loading

variable {h : Allocations} {held : List (Option Nat)}

/-- **The loop** hands the pointers on to the list or to `free`.  Each `strdup`
makes one pointer more to own, and it is owned at once. -/
theorem readNames_owned (readings : List Reading) {slots : List Slot}
    (hOwned : h.Owned (held ++ slots.map Slot.pointer)) :
    (readNames readings slots h).2.Owned
      (held ++ (readNames readings slots h).1.map Slot.pointer) := by
  induction readings generalizing slots h with
  | nil => exact hOwned
  | cons r rest ih =>
      rw [readNames]
      split
      · split
        · exact ih hOwned
        · split
          · apply ih
            apply Allocations.Owned.free
            exact hOwned.alloc.perm List.perm_append_comm
          · apply ih
            rw [List.map_append, ← List.append_assoc]
            exact hOwned.alloc
      · exact hOwned

theorem readNames_balance (readings : List Reading) (slots : List Slot)
    (h : Allocations) (held : List (Option Nat)) :
    (readNames readings slots h).2.balance
        (held ++ (readNames readings slots h).1.map Slot.pointer) =
      h.balance (held ++ slots.map Slot.pointer) := by
  induction readings generalizing slots h with
  | nil => rfl
  | cons r rest ih =>
      rw [readNames]
      split
      · split
        · exact ih slots h
        · split
          · rw [ih, Allocations.balance_free, Allocations.balance_perm _
              List.perm_append_comm, Allocations.balance_alloc]
          · rw [ih, List.map_append, ← List.append_assoc]
            exact Allocations.balance_alloc h _
      · rfl

theorem freed_readNames (readings : List Reading) (slots : List Slot)
    (h : Allocations) : h.freed <+: (readNames readings slots h).2.freed := by
  induction readings generalizing slots h with
  | nil => exact List.prefix_refl _
  | cons r rest ih =>
      rw [readNames]
      split
      · split
        · exact ih slots h
        · split
          · exact (h.alloc.freed_free _).trans (ih slots _)
          · exact ih _ h.alloc
      · exact List.prefix_refl _

theorem sortSlots_perm (slots : List Slot) :
    ((sortSlots slots).map Slot.pointer).Perm (slots.map Slot.pointer) :=
  (List.perm_insertionSort _ _).map _

/-- **A directory that is opened**: the old names are freed, and the new ones
are held.  Sorting moves the pointers and loses none. -/
theorem loadNames_owned (l : NameList) (readings : List Reading)
    (hOwned : h.Owned (held ++ l.pointers)) :
    (loadNames l h (some readings)).2.Owned
      (held ++ (loadNames l h (some readings)).1.pointers) := by
  have hFreed : (h.free l.pointers).Owned (held ++ [].map Slot.pointer) := by
    rw [List.map_nil, List.append_nil]
    exact (hOwned.perm List.perm_append_comm).free
  exact (readNames_owned readings hFreed).perm
    (List.Perm.append_left held (sortSlots_perm _).symm)

theorem loadNames_balance (l : NameList) (readings : List Reading)
    (h : Allocations) (held : List (Option Nat)) :
    (loadNames l h (some readings)).2.balance
        (held ++ (loadNames l h (some readings)).1.pointers) =
      h.balance (held ++ l.pointers) := by
  have hSort := Allocations.balance_perm
    (readNames readings [] (h.free l.pointers)).2
    (List.Perm.append_left held
      (sortSlots_perm (readNames readings [] (h.free l.pointers)).1))
  show Allocations.balance _ (held ++ (sortSlots _).map Slot.pointer) = _
  rw [loadNames, hSort, readNames_balance, List.map_nil, List.append_nil,
    Allocations.balance_free]
  exact Allocations.balance_perm h List.perm_append_comm

theorem freed_loadNames (l : NameList) (h : Allocations)
    (dir : Option (List Reading)) :
    h.freed <+: (loadNames l h dir).2.freed := by
  cases dir with
  | none => exact List.prefix_refl _
  | some readings =>
      exact (h.freed_free _).trans (freed_readNames readings [] _)

/-- **The first load** of a panel, with nothing to free in it, or with no
directory. -/
theorem firstLoad_owned {l : NameList} {dir : Option (List Reading)}
    (hOwned : h.Owned held) (hKeeps : dir = none ∨ l.slots = []) :
    (loadNames l h dir).2.Owned (held ++ (loadNames l h dir).1.pointers) := by
  cases dir with
  | none =>
      show h.Owned (held ++ [])
      rw [List.append_nil]
      exact hOwned
  | some readings =>
      have hEmpty : l.slots = [] := hKeeps.resolve_left (by simp)
      apply loadNames_owned
      rw [NameList.pointers, hEmpty, List.map_nil, List.append_nil]
      exact hOwned

/-- Otherwise `free` is called for what was there, which no `strdup` has
returned. -/
theorem firstLoad_keeps {l : NameList} {dir : Option (List Reading)}
    (hGarbage : ∀ p ∈ l.pointers, p = none)
    (hNone : none ∉ (loadNames l h dir).2.freed) :
    dir = none ∨ l.slots = [] := by
  cases dir with
  | none => exact Or.inl rfl
  | some readings =>
      refine Or.inr (List.eq_nil_iff_forall_not_mem.mpr fun slot hSlot => ?_)
      have hPointer : slot.pointer ∈ l.pointers := List.mem_map_of_mem hSlot
      rw [hGarbage _ hPointer] at hPointer
      apply hNone
      apply (freed_readNames readings [] _).subset
      exact List.mem_append_right _ hPointer

theorem firstLoad_balance {l : NameList} {dir : Option (List Reading)}
    (hKeeps : dir = none ∨ l.slots = []) (h : Allocations)
    (held : List (Option Nat)) :
    (loadNames l h dir).2.balance (held ++ (loadNames l h dir).1.pointers) =
      h.balance held := by
  cases dir with
  | none =>
      show h.balance (held ++ []) = h.balance held
      rw [List.append_nil]
  | some readings =>
      have hEmpty : l.slots = [] := hKeeps.resolve_left (by simp)
      rw [loadNames_balance, NameList.pointers, hEmpty, List.map_nil,
        List.append_nil]

/-- A directory that cannot be opened: the names are forgotten.  The balance
falls by their number, and nothing later can bring them back. -/
theorem failedLoad_balance (l : NameList) (h : Allocations)
    (held : List (Option Nat)) :
    (loadNames l h none).2.balance (held ++ (loadNames l h none).1.pointers) +
      l.slots.length = h.balance (held ++ l.pointers) := by
  show h.balance (held ++ []) + (l.slots.length : Int) = _
  rw [List.append_nil, Allocations.balance_append, NameList.pointers,
    List.length_map]

end Loading

/-! ## One step -/

/-- The pointers in the lists that have been loaded.  Before that a list holds
whatever was in memory. -/
def Program.held (t : Program) : List (Option Nat) :=
  match t.phase with
  | .loadLeft => []
  | .loadRight => (t.lists .left).pointers
  | _ => (t.lists .left).pointers ++ (t.lists .right).pointers

/-- The lists that have not been loaded hold no names. -/
structure Program.Fresh (t : Program) : Prop where
  left : t.phase = .loadLeft → ∀ p ∈ (t.lists .left).pointers, p = none
  right : t.phase = .loadLeft ∨ t.phase = .loadRight →
    ∀ p ∈ (t.lists .right).pointers, p = none

/-- What a step does with the names.  All keys but `enter` on a directory are
one case, since they leave the pointers and the calls alone. -/
inductive NameStep (t : Program) : Action → Program → Prop where
  | loadLeft {dir} (hPhase : t.phase = .loadLeft) :
      NameStep t (.load dir) (t.load .left dir .loadRight)
  | loadRight {dir} (hPhase : t.phase = .loadRight) :
      NameStep t (.load dir) (t.load .right dir .keys)
  | enter {dir slot} (hPhase : t.phase = .keys)
      (hCount : 0 < (t.lists t.active).slots.length)
      (hSlot : (t.lists t.active).selected? = some slot)
      (hDir : slot.entry.isDir = true) :
      NameStep t (.key (.enter dir)) (t.load t.active dir .keys)
  | other {k next} (hPhase : t.phase = .keys) (hNext : next.phase = .keys)
      (hHeap : next.heap = t.heap)
      (hPointers : ∀ side,
        (next.lists side).pointers = (t.lists side).pointers)
      (hKeeps : KeepsNames t (.key k)) :
      NameStep t (.key k) next
  | quit {next} (hPhase : t.phase = .keys) (hNext : next.phase = .ended)
      (hHeap : next.heap = (t.heap.free (t.lists .left).pointers).free
        (t.lists .right).pointers)
      (hEmpty : next.held = []) :
      NameStep t .quit next

section Steps

variable {t next : Program}

theorem held_split (f : Side → List (Option Nat)) (side : Side) :
    (f .left ++ f .right).Perm (f side.other ++ f side) := by
  cases side with
  | left => exact List.perm_append_comm
  | right => exact List.Perm.refl _

@[simp] theorem load_lists_self (t : Program) (side : Side)
    (dir : Option (List Reading)) (phase : Phase) :
    (t.load side dir phase).lists side =
      (loadNames (t.lists side) t.heap dir).1 :=
  Function.update_self ..

theorem load_lists_ne (t : Program) {side other : Side}
    (hOther : other ≠ side) (dir : Option (List Reading)) (phase : Phase) :
    (t.load side dir phase).lists other = t.lists other :=
  Function.update_of_ne hOther ..

theorem held_loadLeft (hPhase : t.phase = .loadLeft) : t.held = [] := by
  rw [Program.held, hPhase]

theorem held_loadRight (hPhase : t.phase = .loadRight) :
    t.held = (t.lists .left).pointers := by
  rw [Program.held, hPhase]

theorem held_keys (hPhase : t.phase = .keys) :
    t.held = (t.lists .left).pointers ++ (t.lists .right).pointers := by
  rw [Program.held, hPhase]

theorem other_ne (side : Side) : side.other ≠ side := by
  cases side <;> simp [Side.other]

/-- The lists after a load in the key loop: the other panel's names, and what
was loaded. -/
theorem held_load (t : Program) (side : Side) (dir : Option (List Reading)) :
    (t.load side dir .keys).held.Perm ((t.lists side.other).pointers ++
      (loadNames (t.lists side) t.heap dir).1.pointers) := by
  have hSplit := held_split
    (fun s => ((t.load side dir .keys).lists s).pointers) side
  simp only [load_lists_self, load_lists_ne t (other_ne side)] at hSplit
  exact hSplit

theorem nameKeyStep_enter {dir : Option (List Reading)}
    (hPhase : t.phase = .keys)
    (hStep : nameKeyStep t (.enter dir) = some next) :
    NameStep t (.key (.enter dir)) next := by
  rw [nameKeyStep] at hStep
  split at hStep
  · rename_i hCount
    rcases Option.bind_eq_some_iff.mp hStep with ⟨slot, hSlot, hNext⟩
    split at hNext
    · rename_i hDir
      obtain rfl := Option.some.inj hNext
      exact .enter hPhase hCount hSlot hDir
    · rename_i hFile
      obtain rfl := Option.some.inj hNext
      apply NameStep.other hPhase hPhase rfl fun _ => rfl
      intro other hOther hDir
      obtain rfl := Option.some.inj (hSlot.symm.trans hOther)
      exact absurd hDir hFile
  · rename_i hCount
    obtain rfl := Option.some.inj hStep
    apply NameStep.other hPhase hPhase rfl fun _ => rfl
    intro slot hSlot
    have hMem := (Option.ite_none_right_eq_some.mp hSlot).2
    rw [List.eq_nil_of_length_eq_zero (Nat.eq_zero_of_not_pos hCount)] at hMem
    contradiction

/-- The names do not move with the selection. -/
theorem pointers_move (l : Side → NameList) (active side : Side)
    (delta : Int) :
    (Function.update l active ((l active).move delta) side).pointers =
      (l side).pointers := by
  by_cases hSide : side = active
  · rw [hSide, Function.update_self]
    rfl
  · rw [Function.update_of_ne hSide]

theorem programStep_nameStep {a : Action}
    (hStep : programStep t a = some next) : NameStep t a next := by
  cases a with
  | load dir =>
      rw [programStep] at hStep
      split at hStep
      · obtain rfl := Option.some.inj hStep
        exact .loadLeft ‹_›
      · obtain rfl := Option.some.inj hStep
        exact .loadRight ‹_›
      · contradiction
  | key k =>
      rcases Option.ite_none_right_eq_some.mp hStep with ⟨hPhase, hKey⟩
      cases k with
      | enter dir => exact nameKeyStep_enter hPhase hKey
      | up | down =>
          obtain rfl := Option.some.inj hKey
          exact .other hPhase hPhase rfl (fun side => pointers_move _ _ side _)
            trivial
      | tab | other =>
          obtain rfl := Option.some.inj hKey
          exact .other hPhase hPhase rfl (fun _ => rfl) trivial
  | quit =>
      rcases Option.ite_none_right_eq_some.mp hStep with ⟨hPhase, hQuit⟩
      obtain rfl := Option.some.inj hQuit
      exact .quit hPhase rfl rfl rfl

theorem Program.Fresh.step (h : t.Fresh) {a : Action}
    (hStep : NameStep t a next) : next.Fresh := by
  cases hStep with
  | loadLeft hPhase =>
      constructor
      · intro hLeft
        contradiction
      · intro _ p hp
        rw [load_lists_ne t (by simp)] at hp
        exact h.right (Or.inl hPhase) p hp
  | loadRight hPhase => exact ⟨by simp [Program.load], by simp [Program.load]⟩
  | enter hPhase => exact ⟨by simp [Program.load], by simp [Program.load]⟩
  | other hPhase hNext => exact ⟨by simp [hNext], by simp [hNext]⟩
  | quit hPhase hNext => exact ⟨by simp [hNext], by simp [hNext]⟩

/-- **One step** that keeps the names keeps every name owned: in a list, or
freed once. -/
theorem owned_step (hOwned : t.heap.Owned t.held) {a : Action}
    (hKeeps : KeepsNames t a) (hStep : NameStep t a next) :
    next.heap.Owned next.held := by
  cases hStep with
  | loadLeft hPhase =>
      rw [held_loadLeft hPhase] at hOwned
      have hLoaded := firstLoad_owned hOwned (hKeeps.1 hPhase)
      rw [held_loadRight rfl, load_lists_self]
      exact hLoaded
  | loadRight hPhase =>
      rw [held_loadRight hPhase] at hOwned
      exact (firstLoad_owned hOwned (hKeeps.2 hPhase)).perm
        (held_load t .right _).symm
  | enter hPhase hCount hSlot hDir =>
      rename_i dir slot
      have hOpened : dir ≠ none := hKeeps slot hSlot hDir
      rcases Option.ne_none_iff_exists'.mp hOpened with ⟨readings, rfl⟩
      rw [held_keys hPhase] at hOwned
      have hSplit := hOwned.perm
        (held_split (fun s => (t.lists s).pointers) t.active)
      exact (loadNames_owned _ readings hSplit).perm
        (held_load t t.active _).symm
  | other hPhase hNext hHeap hPointers =>
      rw [hHeap, held_keys hNext, hPointers, hPointers, ← held_keys hPhase]
      exact hOwned
  | quit hPhase hNext hHeap hEmpty =>
      rw [hHeap, hEmpty]
      rw [held_keys hPhase] at hOwned
      apply Allocations.Owned.free
      rw [List.append_nil]
      exact hOwned.free

/-- What `free` has been called with stays. -/
theorem freed_step {a : Action} (hStep : NameStep t a next) :
    t.heap.freed <+: next.heap.freed := by
  cases hStep with
  | loadLeft => exact freed_loadNames _ _ _
  | loadRight => exact freed_loadNames _ _ _
  | enter => exact freed_loadNames _ _ _
  | other _ _ hHeap => exact hHeap ▸ List.prefix_refl _
  | quit _ _ hHeap =>
      rw [hHeap]
      exact (Allocations.freed_free _ _).trans (Allocations.freed_free _ _)

/-- **The balance** never grows, unless `free` has been called with something
else, and a step that does not keep the names makes it smaller.  So one such
step cannot be made good by later ones. -/
theorem balance_step (hFresh : t.Fresh) {a : Action}
    (hStep : NameStep t a next) (hNone : none ∉ next.heap.freed) :
    next.heap.balance next.held ≤ t.heap.balance t.held ∧
      (t.heap.balance t.held ≤ next.heap.balance next.held →
        KeepsNames t a) := by
  cases hStep with
  | loadLeft hPhase =>
      have hKeeps := firstLoad_keeps (hFresh.left hPhase) hNone
      constructor
      · rw [held_loadLeft hPhase, held_loadRight rfl, load_lists_self]
        exact Int.le_of_eq (firstLoad_balance hKeeps t.heap [])
      · intro _
        exact ⟨fun _ => hKeeps, by simp [hPhase]⟩
  | loadRight hPhase =>
      have hKeeps := firstLoad_keeps (hFresh.right (Or.inr hPhase)) hNone
      constructor
      · rw [held_loadRight hPhase,
          Allocations.balance_perm _ (held_load t .right _)]
        exact Int.le_of_eq (firstLoad_balance hKeeps t.heap _)
      · intro _
        exact ⟨by simp [hPhase], fun _ => hKeeps⟩
  | enter hPhase hCount hSlot hDir =>
      rename_i dir slot
      rw [Allocations.balance_perm _ (held_load t t.active _), held_keys hPhase,
        Allocations.balance_perm t.heap
          (held_split (fun s => (t.lists s).pointers) t.active)]
      cases dir with
      | none =>
          have hLost : (t.load t.active none .keys).heap.balance _ + _ = _ :=
            failedLoad_balance (t.lists t.active) t.heap
              (t.lists t.active.other).pointers
          constructor
          · omega
          · intro hKept
            omega
      | some readings =>
          exact ⟨Int.le_of_eq (loadNames_balance _ readings _ _),
            fun _ _ _ _ => by simp⟩
  | other hPhase hNext hHeap hPointers hKeeps =>
      refine ⟨?_, fun _ => hKeeps⟩
      rw [hHeap, held_keys hNext, hPointers, hPointers, ← held_keys hPhase]
  | quit hPhase hNext hHeap hEmpty =>
      refine ⟨?_, fun _ => trivial⟩
      rw [hHeap, hEmpty, Allocations.balance_free, Allocations.balance_free,
        held_keys hPhase, List.append_nil]

end Steps

/-! ## Whole runs -/

/-- The selection is in the list, if there is one. -/
def InList (t : Program) : Prop :=
  ∀ side, 0 < (t.lists side).slots.length →
    0 ≤ (t.lists side).selected ∧
      (t.lists side).selected < (t.lists side).slots.length

section Runs

variable {t next : Program}

theorem inList_load (h : InList t) (side : Side)
    (dir : Option (List Reading)) (phase : Phase) :
    InList (t.load side dir phase) := by
  intro other hCount
  by_cases hSame : other = side
  · subst hSame
    rw [load_lists_self] at hCount ⊢
    cases dir with
    | none => exact absurd hCount (Nat.lt_irrefl 0)
    | some readings =>
        exact ⟨Int.le_refl 0, Int.ofNat_lt.mpr hCount⟩
  · rw [load_lists_ne t hSame] at hCount ⊢
    exact h other hCount

theorem inList_move (h : InList t) (delta : Int) :
    InList { t with
      lists := Function.update t.lists t.active
        ((t.lists t.active).move delta) } := by
  intro side hCount
  by_cases hSame : side = t.active
  · subst hSame
    simp only [Function.update_self] at hCount ⊢
    have hSlots : ((t.lists t.active).move delta).slots =
        (t.lists t.active).slots := rfl
    rw [hSlots] at hCount ⊢
    simp only [NameList.move]
    omega
  · simp only [Function.update_of_ne hSame] at hCount ⊢
    exact h side hCount

/-- Every key is defined, because the selection stays in the list. -/
theorem inList_key (h : InList t) (hPhase : t.phase = .keys) (k : NameKey) :
    ∃ next, programStep t (.key k) = some next ∧ next.phase = .keys ∧
      InList next := by
  rw [programStep, if_pos hPhase]
  cases k with
  | tab => exact ⟨_, rfl, hPhase, h⟩
  | up => exact ⟨_, rfl, hPhase, inList_move h (-1)⟩
  | down => exact ⟨_, rfl, hPhase, inList_move h 1⟩
  | other => exact ⟨_, rfl, hPhase, h⟩
  | enter dir =>
      rw [nameKeyStep]
      split
      · rename_i hCount
        have hIn := h t.active hCount
        have hIndex : (t.lists t.active).selected.toNat <
            (t.lists t.active).slots.length := by
          omega
        rw [NameList.selected?, if_pos hIn.1,
          List.getElem?_eq_getElem hIndex, Option.bind_eq_bind,
          Option.bind_some]
        split
        · exact ⟨_, rfl, rfl, inList_load h t.active dir .keys⟩
        · exact ⟨_, rfl, hPhase, h⟩
      · exact ⟨_, rfl, hPhase, h⟩

theorem run_keys (h : InList t) (hPhase : t.phase = .keys)
    (keys : List NameKey) :
    ∃ last, program.run t (keys.map .key ++ [.quit]) = some last ∧
      last.phase = .ended ∧ last.held = [] := by
  induction keys generalizing t with
  | nil =>
      have hQuit : programStep t .quit = some t.finish := if_pos hPhase
      exact ⟨t.finish, Option.bind_eq_some_iff.mpr ⟨_, hQuit, rfl⟩, rfl, rfl⟩
  | cons k keys ih =>
      rcases inList_key h hPhase k with ⟨next, hStep, hNext, hIn⟩
      rcases ih hIn hNext with ⟨last, hRun, hEnd⟩
      exact ⟨last, Option.bind_eq_some_iff.mpr ⟨next, hStep, hRun⟩, hEnd⟩

/-- **A run of `main`** is defined to its end. -/
theorem run_session (hInit : program.init t)
    (left right : Option (List Reading)) (keys : List NameKey) :
    ∃ last, program.run t (session left right keys) = some last ∧
      last.phase = .ended ∧ last.held = [] := by
  rcases hInit with ⟨-, hPhase, -, -⟩
  have hLeft : programStep t (.load left) =
      some (t.load .left left .loadRight) := by
    rw [programStep, hPhase]
  have hRight : programStep (t.load .left left .loadRight) (.load right) =
      some ((t.load .left left .loadRight).load .right right .keys) := rfl
  have hIn : InList ((t.load .left left .loadRight).load .right right
      .keys) := by
    have hLoaded : ∀ l h dir, 0 < (loadNames l h dir).1.slots.length →
        0 ≤ (loadNames l h dir).1.selected ∧ (loadNames l h dir).1.selected <
          (loadNames l h dir).1.slots.length := by
      intro l h dir hCount
      cases dir with
      | none => exact absurd hCount (Nat.lt_irrefl 0)
      | some readings => exact ⟨Int.le_refl 0, Int.ofNat_lt.mpr hCount⟩
    intro side hCount
    cases side with
    | left =>
        rw [load_lists_ne _ (by simp), load_lists_self] at hCount ⊢
        exact hLoaded _ _ _ hCount
    | right =>
        rw [load_lists_self] at hCount ⊢
        exact hLoaded _ _ _ hCount
  rcases run_keys hIn rfl keys with ⟨last, hRun, hEnd⟩
  refine ⟨last, ?_, hEnd⟩
  apply Option.bind_eq_some_iff.mpr
  refine ⟨_, hLeft, ?_⟩
  exact Option.bind_eq_some_iff.mpr ⟨_, hRight, hRun⟩

theorem freed_run {as : List Action} {last : Program}
    (hRun : program.run t as = some last) :
    t.heap.freed <+: last.heap.freed := by
  induction as generalizing t with
  | nil =>
      obtain rfl := Option.some.inj hRun
      exact List.prefix_refl _
  | cons a as ih =>
      rcases Machine.run_cons_eq_some hRun with ⟨next, hStep, hRest⟩
      exact (freed_step (programStep_nameStep hStep)).trans (ih hRest)

/-- **The balance of a run** in which nothing else is freed: it is kept only
by steps that keep the names. -/
theorem balance_run (hFresh : t.Fresh) {as : List Action} {last : Program}
    (hRun : program.run t as = some last) (hNone : none ∉ last.heap.freed) :
    last.heap.balance last.held ≤ t.heap.balance t.held ∧
      (t.heap.balance t.held ≤ last.heap.balance last.held →
        program.EachStep KeepsNames t as) := by
  induction as generalizing t with
  | nil =>
      obtain rfl := Option.some.inj hRun
      exact ⟨Int.le_refl _, fun _ => trivial⟩
  | cons a as ih =>
      rcases Machine.run_cons_eq_some hRun with ⟨next, hStep, hRest⟩
      have hName := programStep_nameStep hStep
      rcases balance_step hFresh hName
        (fun hMem => hNone ((freed_run hRest).subset hMem)) with
        ⟨hLess, hKeeps⟩
      rcases ih (hFresh.step hName) hRest with ⟨hRestLess, hRestKeeps⟩
      refine ⟨Int.le_trans hRestLess hLess, fun hSame => ?_⟩
      refine ⟨hKeeps (Int.le_trans hSame hRestLess), fun next' hStep' => ?_⟩
      obtain rfl := Option.some.inj (hStep.symm.trans hStep')
      exact hRestKeeps (Int.le_trans hLess hSame)

/-- **The names.**  Every run of `main` reaches its end.  In it `free` is
called for the names only, for each once, and for all of them, exactly if no
uninitialised list is freed and every directory that is entered can be
opened. -/
theorem names_owned_iff (hInit : program.init t)
    (left right : Option (List Reading)) (keys : List NameKey) :
    ∃ last, program.run t (session left right keys) = some last ∧
      last.phase = .ended ∧
      (program.EachState FreesNames t (session left right keys) ∧
          AllFreed last ↔
        program.EachStep KeepsNames t (session left right keys)) := by
  rcases run_session hInit left right keys with ⟨last, hRun, hEnd, hHeld⟩
  rcases hInit with ⟨-, hPhase, hHeap, hPointers⟩
  refine ⟨last, hRun, hEnd, ?_⟩
  constructor
  · rintro ⟨hAll, hFreed⟩
    have hOnce : last.heap.FreesOnce := hAll.last hRun
    have hOwned := Allocations.owned_of_allFreed hOnce hFreed
    have hFresh : t.Fresh :=
      ⟨fun _ => hPointers .left, fun _ => hPointers .right⟩
    apply (balance_run hFresh hRun hOnce.none_notMem).2
    rw [hHeld, hOwned.balance_eq, held_loadLeft hPhase, hHeap]
    exact Int.le_refl 0
  · intro hKeeps
    have hStart : t.heap.Owned t.held := by
      rw [held_loadLeft hPhase, hHeap]
      exact Allocations.owned_start
    have hStep : ∀ s a next, s.heap.Owned s.held → KeepsNames s a →
        program.step s a = some next → next.heap.Owned next.held :=
      fun s a next hOwned hOk hStep =>
        owned_step hOwned hOk (programStep_nameStep hStep)
    constructor
    · exact Machine.eachState_of_eachStep hStep
        (fun s hOwned => hOwned.freesOnce) hStart hKeeps
    · have hLast := (Machine.eachState_of_eachStep hStep
        (fun s hOwned => hOwned) hStart hKeeps).last hRun
      rw [hHeld] at hLast
      exact hLast.allFreed

end Runs

/-- The start, with these slots in the left panel. -/
def startWith (slots : List Slot) : Program where
  lists := fun side =>
    match side with
    | .left => ⟨slots, 0⟩
    | .right => ⟨[], 0⟩
  active := .left
  phase := .loadLeft
  heap := ⟨0, []⟩

theorem init_startWith {slots : List Slot}
    (h : ∀ p ∈ slots.map Slot.pointer, p = none) :
    program.init (startWith slots) := by
  refine ⟨rfl, rfl, rfl, fun side => ?_⟩
  cases side with
  | left => exact h
  | right => exact fun p hp => absurd hp List.not_mem_nil

/-- A directory with a directory in it. -/
def oneDirectory : List Reading :=
  [⟨dot, 4, true⟩, ⟨ascii ['d'], 4, true⟩]

/-- Anything is freed if the left panel has a count of one before it is
loaded, and a name is lost if the directory cannot be opened. -/
theorem names_not_owned :
    (program.run (startWith [⟨⟨[], false⟩, none⟩])
        (session (some []) (some []) [])).map
      (fun t => (t.heap.allocated, t.heap.freed)) = some (0, [none]) ∧
    (program.run (startWith [])
        (session (some oneDirectory) (some []) [.enter none])).map
      (fun t => (t.heap.allocated, t.heap.freed)) = some (1, []) ∧
    ¬∀ (t last : Program) left right keys, program.init t →
      program.run t (session left right keys) = some last →
        program.EachState FreesNames t (session left right keys) ∧
          AllFreed last := by
  have hFailed : (program.run (startWith [])
      (session (some oneDirectory) (some []) [.enter none])).map
        (fun t => (t.heap.allocated, t.heap.freed)) = some (1, []) := by
    decide +kernel
  refine ⟨by decide +kernel, hFailed, fun hAll => ?_⟩
  rcases Option.map_eq_some_iff.mp hFailed with ⟨last, hRun, hHeap⟩
  have hInit : program.init (startWith []) :=
    init_startWith fun _ h => absurd h List.not_mem_nil
  have hFreed := (hAll (startWith []) last _ _ _ hInit hRun).2 0
  rw [(Prod.mk.inj hHeap).1, (Prod.mk.inj hHeap).2] at hFreed
  exact List.not_mem_nil (hFreed Nat.one_pos)

/-- The directory is entered, and can be opened. -/
theorem names_owned_iff_opened :
    ∃ last, program.run (startWith [])
        (session (some oneDirectory) none [.enter (some oneDirectory), .up]) =
          some last ∧
      last.phase = .ended ∧
      (program.EachState FreesNames (startWith [])
          (session (some oneDirectory) none
            [.enter (some oneDirectory), .up]) ∧ AllFreed last ↔
        program.EachStep KeepsNames (startWith [])
          (session (some oneDirectory) none
            [.enter (some oneDirectory), .up])) :=
  names_owned_iff (init_startWith fun _ h => absurd h List.not_mem_nil) _ _ _

/-! ## The names and the panels -/

/-- The list has the entries of the panel, with the same selection.  This joins
the names to the model that shows what is on the screen. -/
structure Lists (p : Panel) (l : NameList) : Prop where
  entries : l.slots.map Slot.entry = p.files
  selected : l.selected = p.selected

/-- The program is in its key loop with these panels. -/
structure Shows (s : Screen) (t : Program) : Prop where
  /-- Both panels have been loaded. -/
  phase : t.phase = .keys
  /-- The same panel takes the keys. -/
  active : t.active = s.active
  /-- Each list has what its panel shows. -/
  lists : ∀ side, Lists (s.panels side) (t.lists side)

/-- What is read for an entry of a directory with this path. -/
def reading (path : List UInt8) (entry : Dirent) : Reading where
  name := entry.name
  ret := (path.length + 1 + entry.name.length : Nat)
  isDir := entry.isDir

section Panels

variable {p : Panel} {l : NameList}

theorem readNames_entries (path : List UInt8) (entries : List Dirent)
    (slots : List Slot) (h : Allocations) :
    (readNames (entries.map (reading path)) slots h).1.map Slot.entry =
      readEntries path entries (slots.map Slot.entry) := by
  induction entries generalizing slots h with
  | nil => rfl
  | cons entry rest ih =>
      have hLong : ((reading path entry).ret < 0 ∨
          (pathMax : Int) ≤ (reading path entry).ret) ↔
            pathMax ≤ path.length + 1 + entry.name.length := by
        rw [show (reading path entry).ret =
          ((path.length + 1 + entry.name.length : Nat) : Int) from rfl]
        omega
      have hName : (reading path entry).name = entry.name := rfl
      rw [List.map_cons, readNames, readEntries, List.length_map]
      simp only [hLong, hName]
      split
      · split
        · exact ih slots h
        · split
          · exact ih slots _
          · rw [ih, List.map_append]
            rfl
      · rfl

theorem sortSlots_entries (slots : List Slot) :
    (sortSlots slots).map Slot.entry = qsort (slots.map Slot.entry) :=
  List.map_insertionSort _ _ Slot.entry slots fun _ _ _ _ => Iff.rfl

theorem Lists.length_eq (h : Lists p l) : l.slots.length = p.count := by
  rw [Panel.count, ← h.entries, List.length_map]

theorem Lists.readSelected (h : Lists p l) :
    p.entry? p.selected = l.selected?.map Slot.entry := by
  rw [Panel.entry?, NameList.selected?, ← h.entries, ← h.selected]
  split
  · exact List.getElem?_map ..
  · rfl

theorem Lists.move (h : Lists p l) (delta height : Int) :
    Lists (moveSelection p delta height) (l.move delta) where
  entries := h.entries
  selected := by
    simp only [NameList.move, moveSelection, h.selected, h.length_eq]

theorem Lists.load (h : Lists p l) (subdir : List UInt8)
    (resolved : Option (List UInt8)) (dir : Option (List Dirent))
    (heap : Allocations) :
    Lists (loadDirectory (updatePath p subdir resolved) dir)
      (loadNames l heap (dir.map (·.map
        (reading (updatePath p subdir resolved).path)))).1 := by
  cases dir with
  | none =>
      refine ⟨rfl, h.selected.trans ?_⟩
      cases resolved <;> rfl
  | some entries =>
      refine ⟨?_, rfl⟩
      show (sortSlots _).map Slot.entry = qsort (readEntries _ _ [])
      rw [sortSlots_entries, readNames_entries]
      rfl

end Panels

/-- The active list changes with the active panel. -/
theorem Shows.setActive {s : Screen} {t t' : Program} (h : Shows s t)
    {p : Panel} {l : NameList} (hPanel : Lists p l) (hPhase : t'.phase = .keys)
    (hActive : t'.active = t.active)
    (hLists : t'.lists = Function.update t.lists t.active l) :
    Shows (s.setActive p) t' where
  phase := hPhase
  active := hActive.trans h.active
  lists side := by
    rw [hLists, h.active]
    show Lists (Function.update s.panels s.active p side) _
    by_cases hSide : side = s.active
    · subst hSide
      rw [Function.update_self, Function.update_self]
      exact hPanel
    · rw [Function.update_of_ne hSide, Function.update_of_ne hSide]
      exact h.lists side

/-- **The key loop of the panels** is the key loop of the names: a key that is
defined in one is defined in the other, and afterwards the lists still have
what the panels show. -/
theorem Shows.step {height : Int} {s next : Screen} {t : Program}
    (h : Shows s t) {key : Key} (hStep : keyStep height s key = some next) :
    ∃ k t', programStep t (.key k) = some t' ∧ Shows next t' := by
  have hKeys : ∀ k, programStep t (.key k) = nameKeyStep t k :=
    fun k => if_pos h.phase
  have hActive : Lists (s.panels s.active) (t.lists t.active) :=
    h.active ▸ h.lists s.active
  cases key with
  | tab =>
      obtain rfl := Option.some.inj hStep
      exact ⟨.tab, _, hKeys _, h.phase, congrArg Side.other h.active, h.lists⟩
  | up =>
      obtain rfl := Option.some.inj hStep
      exact ⟨.up, _, hKeys _,
        h.setActive (hActive.move (-1) height) h.phase rfl rfl⟩
  | down =>
      obtain rfl := Option.some.inj hStep
      exact ⟨.down, _, hKeys _,
        h.setActive (hActive.move 1 height) h.phase rfl rfl⟩
  | other =>
      obtain rfl := Option.some.inj hStep
      exact ⟨.other, t, hKeys _, h⟩
  | enter resolved dir =>
      by_cases hCount : 0 < (s.panels s.active).count
      · simp only [keyStep, if_pos hCount, hActive.readSelected] at hStep
        rcases Option.bind_eq_some_iff.mp hStep with ⟨entry, hEntry, hNext⟩
        rcases Option.map_eq_some_iff.mp hEntry with ⟨slot, hSlot, rfl⟩
        have hEnter : ∀ dir', programStep t (.key (.enter dir')) =
            if slot.entry.isDir then some (t.load t.active dir' .keys)
            else some t := by
          intro dir'
          rw [hKeys, nameKeyStep, if_pos (hActive.length_eq ▸ hCount), hSlot]
          rfl
        by_cases hDir : slot.entry.isDir = true
        · rw [if_pos hDir] at hNext
          obtain rfl := Option.some.inj hNext
          have hLoad := hActive.load slot.entry.name resolved dir t.heap
          exact ⟨.enter _, _, (hEnter _).trans (if_pos hDir),
            h.setActive hLoad rfl rfl rfl⟩
        · rw [if_neg hDir] at hNext
          obtain rfl := Option.some.inj hNext
          exact ⟨.enter none, t, (hEnter _).trans (if_neg hDir), h⟩
      · simp only [keyStep, if_neg hCount] at hStep
        obtain rfl := Option.some.inj hStep
        exact ⟨.other, t, hKeys _, h⟩

end UnixHomework.Ports.FileManager
