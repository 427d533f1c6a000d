import UnixHomework.Verified.Machine

/-!
# The bounded FIFO

The abstract channel that several programs of this package implement or use:
at most `cap` items, inserted at one end and removed at the other.  The two
histories (everything ever inserted, everything ever removed) are part of the
state, and the laws tying them to the current contents are fields of the
structure, so a channel that loses, duplicates or reorders an item cannot be
built.
-/

namespace UnixHomework.Verified

universe u

/-- A FIFO of capacity `cap` with its histories. -/
structure BoundedFifo (α : Type u) (cap : Nat) where
  /-- What is in it, the oldest first. -/
  items : List α
  /-- All that was ever inserted, -/
  entered : List α
  /-- and all that was ever removed, in order. -/
  left : List α
  /-- Nothing is lost, repeated or overtaken. -/
  conserved : left ++ items = entered
  /-- There is not more in it than it holds. -/
  bounded : items.length ≤ cap

namespace BoundedFifo

variable {α : Type u} {cap : Nat}

/-- A new channel. -/
def empty : BoundedFifo α cap where
  items := []
  entered := []
  left := []
  conserved := rfl
  bounded := Nat.zero_le _

/-- Insert at the back; there must be room. -/
def enter (f : BoundedFifo α cap) (v : α) (room : f.items.length < cap) :
    BoundedFifo α cap where
  items := f.items ++ [v]
  entered := f.entered ++ [v]
  left := f.left
  conserved := by rw [← f.conserved, List.append_assoc]
  bounded := by
    rw [List.length_append, List.length_singleton]
    exact room

/-- Remove the front item `v`. -/
def leave (f : BoundedFifo α cap) (v : α) (rest : List α)
    (front : f.items = v :: rest) : BoundedFifo α cap where
  items := rest
  entered := f.entered
  left := f.left ++ [v]
  conserved := by rw [← f.conserved, front, List.append_assoc]; rfl
  bounded := by
    have h := f.bounded
    rw [front, List.length_cons] at h
    exact Nat.le_of_succ_le h

@[simp] theorem enter_items (f : BoundedFifo α cap) (v : α)
    (room : f.items.length < cap) : (f.enter v room).items = f.items ++ [v] :=
  rfl

@[simp] theorem enter_entered (f : BoundedFifo α cap) (v : α)
    (room : f.items.length < cap) :
    (f.enter v room).entered = f.entered ++ [v] := rfl

@[simp] theorem enter_left (f : BoundedFifo α cap) (v : α)
    (room : f.items.length < cap) : (f.enter v room).left = f.left := rfl

@[simp] theorem leave_items (f : BoundedFifo α cap) (v : α) (rest : List α)
    (front : f.items = v :: rest) : (f.leave v rest front).items = rest := rfl

@[simp] theorem leave_entered (f : BoundedFifo α cap) (v : α) (rest : List α)
    (front : f.items = v :: rest) :
    (f.leave v rest front).entered = f.entered := rfl

@[simp] theorem leave_left (f : BoundedFifo α cap) (v : α) (rest : List α)
    (front : f.items = v :: rest) :
    (f.leave v rest front).left = f.left ++ [v] := rfl

/-- The item at the front was inserted at some time. -/
theorem front_mem_entered (f : BoundedFifo α cap) {v : α} {rest : List α}
    (front : f.items = v :: rest) : v ∈ f.entered := by
  rw [← f.conserved, front]
  exact List.mem_append_right _ List.mem_cons_self

/-- Insert if there is room: a full channel blocks its writer. -/
def enter? (f : BoundedFifo α cap) (v : α) : Option (BoundedFifo α cap) :=
  if room : f.items.length < cap then some (f.enter v room) else none

/-- Remove the front item, if any: an empty channel blocks its reader. -/
def leave? (f : BoundedFifo α cap) : Option (α × BoundedFifo α cap) :=
  match h : f.items with
  | [] => none
  | v :: rest => some (v, f.leave v rest h)

theorem enter?_eq_some {f g : BoundedFifo α cap} {v : α}
    (h : f.enter? v = some g) : ∃ room, g = f.enter v room := by
  unfold enter? at h
  split at h
  · exact ⟨‹_›, (Option.some.inj h).symm⟩
  · contradiction

theorem enter?_of_full {f : BoundedFifo α cap} (h : cap ≤ f.items.length)
    (v : α) : f.enter? v = none :=
  dif_neg (Nat.not_lt_of_le h)

theorem leave?_eq_some {f g : BoundedFifo α cap} {v : α}
    (h : f.leave? = some (v, g)) :
    ∃ rest front, g = f.leave v rest front := by
  unfold leave? at h
  split at h
  · contradiction
  · rename_i w rest front
    simp only [Option.some.injEq, Prod.mk.injEq] at h
    obtain ⟨rfl, rfl⟩ := h
    exact ⟨rest, front, rfl⟩

theorem leave?_of_items {f : BoundedFifo α cap} {v : α} {rest : List α}
    (front : f.items = v :: rest) :
    f.leave? = some (v, f.leave v rest front) := by
  unfold leave?
  split
  · rename_i hnil
    rw [front] at hnil
    contradiction
  · rename_i w rest' hcons
    obtain ⟨rfl, rfl⟩ := List.cons.inj (front.symm.trans hcons)
    rfl

end BoundedFifo

/-- The two operations of a channel. -/
inductive FifoOp (α : Type u) where
  | enter (v : α)
  | leave

/-- The channel as a machine, started empty. -/
def fifoMachine (α : Type u) (cap : Nat) :
    Machine (BoundedFifo α cap) (FifoOp α) where
  init f := f = .empty
  step f
    | .enter v => f.enter? v
    | .leave => f.leave?.map Prod.snd

end UnixHomework.Verified
