import UnixHomework.Verified.Fifo
import Mathlib.Logic.Function.Basic

/-!
# POSIX message queues

The part of the kernel that `mq_open`, `mq_unlink`, `mq_send` and
`mq_receive` see: a namespace of paths, and queues that outlive their names as
long as somebody holds a descriptor.  Queues are identified by numbers in
order of creation; a descriptor is such a number.  All messages have the same
priority, so a queue is a bounded FIFO whose writer blocks when it is full and
whose reader blocks when it is empty.

A name always refers to a queue that exists and was created under that name:
this is the field `named`, which every operation re-establishes.
-/

namespace UnixHomework.Verified

universe u v

/-- A queue and the path it was created under. -/
structure MessageQueue (π : Type u) (μ : Type v) (cap : Nat) where
  path : π
  fifo : BoundedFifo μ cap

/-- The namespace and all queues ever created, numbered below `next`. -/
structure MqKernel (π : Type u) (μ : Type v) (cap : Nat) where
  /-- The queue that a path means, if any. -/
  names : π → Option Nat
  /-- The queues, also those whose names are gone. -/
  queues : Nat → MessageQueue π μ cap
  /-- The number of the next queue to be made. -/
  next : Nat
  /-- A name means a queue made under it. -/
  named : ∀ path q, names path = some q → q < next ∧ (queues q).path = path

namespace MqKernel

variable {π : Type u} {μ : Type v} {cap : Nat} [DecidableEq π]

/-- `mq_unlink`: the name goes, the queue stays with those who have opened
it. -/
def unlink (k : MqKernel π μ cap) (path : π) : MqKernel π μ cap where
  names := Function.update k.names path none
  queues := k.queues
  next := k.next
  named p q h := by
    by_cases hp : p = path
    · rw [hp, Function.update_self] at h
      contradiction
    · rw [Function.update_of_ne hp] at h
      exact k.named p q h

/-- The new queue of an `mq_open` that creates. -/
def create (k : MqKernel π μ cap) (path : π) : MqKernel π μ cap where
  names := Function.update k.names path (some k.next)
  queues := Function.update k.queues k.next ⟨path, .empty⟩
  next := k.next + 1
  named p q h := by
    by_cases hp : p = path
    · rw [hp, Function.update_self] at h
      obtain rfl := Option.some.inj h
      rw [Function.update_self]
      exact ⟨Nat.lt_succ_self _, hp.symm⟩
    · rw [Function.update_of_ne hp] at h
      obtain ⟨hlt, hpath⟩ := k.named p q h
      rw [Function.update_of_ne (Nat.ne_of_lt hlt)]
      exact ⟨Nat.lt_succ_of_lt hlt, hpath⟩

/-- `mq_open(path, O_CREAT)`: the queue of that name, created if there is
none. -/
def openCreate (k : MqKernel π μ cap) (path : π) : MqKernel π μ cap × Nat :=
  match k.names path with
  | some q => (k, q)
  | none => (k.create path, k.next)

/-- `mq_open(path)` without `O_CREAT`, which fails if there is no such name. -/
def openExisting (k : MqKernel π μ cap) (path : π) : Option Nat :=
  k.names path

/-- Replace the contents of one queue. -/
def setFifo (k : MqKernel π μ cap) (q : Nat) (f : BoundedFifo μ cap) :
    MqKernel π μ cap where
  names := k.names
  queues := Function.update k.queues q { k.queues q with fifo := f }
  next := k.next
  named p r h := by
    obtain ⟨hlt, hpath⟩ := k.named p r h
    refine ⟨hlt, ?_⟩
    by_cases hr : r = q
    · subst hr
      rw [Function.update_self]
      exact hpath
    · rw [Function.update_of_ne hr]
      exact hpath

/-- `mq_send`; blocked (`none`) on a full queue. -/
def send (k : MqKernel π μ cap) (q : Nat) (m : μ) :
    Option (MqKernel π μ cap) :=
  ((k.queues q).fifo.enter? m).map (k.setFifo q)

/-- `mq_receive`; blocked (`none`) on an empty queue. -/
def receive (k : MqKernel π μ cap) (q : Nat) :
    Option (μ × MqKernel π μ cap) :=
  (k.queues q).fifo.leave?.map fun (m, f) => (m, k.setFifo q f)

/-- No names and no queues; `path` labels the queue numbers not in use. -/
def empty (path : π) : MqKernel π μ cap where
  names _ := none
  queues _ := ⟨path, .empty⟩
  next := 0
  named _ _ h := by contradiction

/-- The effect of an `mq_send` that does not block. -/
def enter (k : MqKernel π μ cap) (q : Nat) (m : μ)
    (room : (k.queues q).fifo.items.length < cap) : MqKernel π μ cap :=
  k.setFifo q ((k.queues q).fifo.enter m room)

/-- The effect of an `mq_receive` that takes `m`. -/
def leave (k : MqKernel π μ cap) (q : Nat) (m : μ) (rest : List μ)
    (front : (k.queues q).fifo.items = m :: rest) : MqKernel π μ cap :=
  k.setFifo q ((k.queues q).fifo.leave m rest front)

omit [DecidableEq π] in
theorem send_eq_some {k k' : MqKernel π μ cap} {q : Nat} {m : μ}
    (h : k.send q m = some k') : ∃ room, k' = k.enter q m room := by
  obtain ⟨f, hf, rfl⟩ := Option.map_eq_some_iff.mp h
  obtain ⟨room, rfl⟩ := BoundedFifo.enter?_eq_some hf
  exact ⟨room, rfl⟩

omit [DecidableEq π] in
theorem receive_eq_some {k k' : MqKernel π μ cap} {q : Nat} {m : μ}
    (h : k.receive q = some (m, k')) :
    ∃ rest front, k' = k.leave q m rest front := by
  obtain ⟨⟨w, f⟩, hf, heq⟩ := Option.map_eq_some_iff.mp h
  simp only [Prod.mk.injEq] at heq
  obtain ⟨rfl, rfl⟩ := heq
  obtain ⟨rest, front, rfl⟩ := BoundedFifo.leave?_eq_some hf
  exact ⟨rest, front, rfl⟩

/-! ## What the operations do to a queue -/

section Effects

variable (k : MqKernel π μ cap)

omit [DecidableEq π] in
theorem setFifo_fifo (q r : Nat) (f : BoundedFifo μ cap) :
    ((k.setFifo q f).queues r).fifo =
      if r = q then f else (k.queues r).fifo := by
  by_cases hr : r = q
  · subst hr
    simp [setFifo]
  · simp [setFifo, hr]

omit [DecidableEq π] in
@[simp] theorem setFifo_path (q r : Nat) (f : BoundedFifo μ cap) :
    ((k.setFifo q f).queues r).path = (k.queues r).path := by
  by_cases hr : r = q
  · subst hr
    simp [setFifo]
  · simp [setFifo, Function.update_of_ne hr]

omit [DecidableEq π] in
theorem enter_entered (q r : Nat) (m : μ)
    (room : (k.queues q).fifo.items.length < cap) :
    ((k.enter q m room).queues r).fifo.entered =
      if r = q then (k.queues r).fifo.entered ++ [m]
      else (k.queues r).fifo.entered := by
  rw [enter, setFifo_fifo]
  by_cases hr : r = q
  · subst hr
    rw [if_pos rfl, if_pos rfl, BoundedFifo.enter_entered]
  · rw [if_neg hr, if_neg hr]

omit [DecidableEq π] in
@[simp] theorem enter_left (q r : Nat) (m : μ)
    (room : (k.queues q).fifo.items.length < cap) :
    ((k.enter q m room).queues r).fifo.left = (k.queues r).fifo.left := by
  rw [enter, setFifo_fifo]
  split
  · rename_i h
    rw [h]
    rfl
  · rfl

omit [DecidableEq π] in
theorem enter_items (q r : Nat) (m : μ)
    (room : (k.queues q).fifo.items.length < cap) :
    ((k.enter q m room).queues r).fifo.items =
      if r = q then (k.queues r).fifo.items ++ [m]
      else (k.queues r).fifo.items := by
  rw [enter, setFifo_fifo]
  by_cases hr : r = q
  · subst hr
    rw [if_pos rfl, if_pos rfl, BoundedFifo.enter_items]
  · rw [if_neg hr, if_neg hr]

omit [DecidableEq π] in
@[simp] theorem leave_entered (q r : Nat) (m : μ) (rest : List μ)
    (front : (k.queues q).fifo.items = m :: rest) :
    ((k.leave q m rest front).queues r).fifo.entered =
      (k.queues r).fifo.entered := by
  rw [leave, setFifo_fifo]
  split
  · rename_i h
    rw [h]
    rfl
  · rfl

omit [DecidableEq π] in
theorem leave_left (q r : Nat) (m : μ) (rest : List μ)
    (front : (k.queues q).fifo.items = m :: rest) :
    ((k.leave q m rest front).queues r).fifo.left =
      if r = q then (k.queues r).fifo.left ++ [m]
      else (k.queues r).fifo.left := by
  rw [leave, setFifo_fifo]
  by_cases hr : r = q
  · subst hr
    rw [if_pos rfl, if_pos rfl, BoundedFifo.leave_left]
  · rw [if_neg hr, if_neg hr]

omit [DecidableEq π] in
theorem leave_items (q r : Nat) (m : μ) (rest : List μ)
    (front : (k.queues q).fifo.items = m :: rest) :
    ((k.leave q m rest front).queues r).fifo.items =
      if r = q then rest else (k.queues r).fifo.items := by
  rw [leave, setFifo_fifo]
  split <;> rfl

@[simp] theorem unlink_names_self (path : π) :
    (k.unlink path).names path = none :=
  Function.update_self ..

theorem unlink_names_ne {path path' : π} (h : path' ≠ path) :
    (k.unlink path).names path' = k.names path' :=
  Function.update_of_ne h ..

/-- Whatever was there before, the name now refers to the queue opened. -/
theorem openCreate_names_self (path : π) :
    (k.openCreate path).1.names path = some (k.openCreate path).2 := by
  unfold openCreate
  split
  · assumption
  · exact Function.update_self ..

theorem openCreate_names_ne {path path' : π} (h : path' ≠ path) :
    (k.openCreate path).1.names path' = k.names path' := by
  unfold openCreate
  split
  · rfl
  · exact Function.update_of_ne h ..

/-- Queues that exist are not touched, so what is in them stays. -/
theorem openCreate_queues (path : π) {q : Nat} (h : q < k.next) :
    (k.openCreate path).1.queues q = k.queues q := by
  unfold openCreate
  split
  · rfl
  · exact Function.update_of_ne (Nat.ne_of_lt h) ..

/-- Without the name a new and empty queue is made. -/
theorem openCreate_of_none {path : π} (h : k.names path = none) :
    k.openCreate path = (k.create path, k.next) := by
  simp [openCreate, h]

/-- Queues that did not exist start empty. -/
theorem openCreate_fifo_new (path : π) {q : Nat} (hOld : k.next ≤ q)
    (hNew : q < (k.openCreate path).1.next) :
    ((k.openCreate path).1.queues q).fifo = .empty := by
  unfold openCreate at hNew ⊢
  split at hNew
  · exact absurd hNew (Nat.not_lt_of_le hOld)
  · obtain rfl : q = k.next :=
      Nat.le_antisymm (Nat.le_of_lt_succ hNew) hOld
    simp [create]

@[simp] theorem create_queues_next (path : π) :
    (k.create path).queues k.next = ⟨path, .empty⟩ := by
  simp [create]

end Effects

/-! ## Later kernels

No operation renumbers or renames a queue, and a name that changes its
meaning changes it to a new queue. -/

/-- `k'` can follow `k`: this much is kept by all operations. -/
structure Extends (k k' : MqKernel π μ cap) : Prop where
  /-- Numbers are not used again. -/
  next_le : k.next ≤ k'.next
  /-- A queue keeps the path it was made under. -/
  path_eq : ∀ q, q < k.next → (k'.queues q).path = (k.queues q).path
  /-- A name means what it meant, or a new queue. -/
  names_new : ∀ path q, k'.names path = some q →
    k.names path = some q ∨ k.next ≤ q

section Extends

variable (k : MqKernel π μ cap)

omit [DecidableEq π] in
theorem Extends.refl : k.Extends k where
  next_le := Nat.le_refl _
  path_eq _ _ := rfl
  names_new _ _ h := Or.inl h

omit [DecidableEq π] in
theorem setFifo_extends (q : Nat) (f : BoundedFifo μ cap) :
    k.Extends (k.setFifo q f) where
  next_le := Nat.le_refl _
  path_eq r _ := k.setFifo_path q r f
  names_new _ _ h := Or.inl h

theorem unlink_extends (path : π) : k.Extends (k.unlink path) where
  next_le := Nat.le_refl _
  path_eq _ _ := rfl
  names_new path' q h := by
    by_cases hp : path' = path
    · rw [hp, unlink_names_self] at h
      contradiction
    · rw [unlink_names_ne k hp] at h
      exact Or.inl h

theorem openCreate_extends (path : π) :
    k.Extends (k.openCreate path).1 where
  next_le := by
    unfold openCreate
    split
    · exact Nat.le_refl _
    · exact Nat.le_succ _
  path_eq q h := by rw [openCreate_queues k path h]
  names_new path' q h := by
    by_cases hp : path' = path
    · subst hp
      rw [openCreate_names_self] at h
      obtain rfl := Option.some.inj h
      unfold openCreate
      split
      · exact Or.inl (by assumption)
      · exact Or.inr (Nat.le_refl _)
    · rw [openCreate_names_ne k hp] at h
      exact Or.inl h

end Extends

end MqKernel

end UnixHomework.Verified
