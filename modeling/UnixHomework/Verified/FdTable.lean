import Mathlib.Data.List.Basic
import Mathlib.Tactic.Common

/-!
# Descriptor tables

The descriptors of a process are numbers that stand for open files.  `fork`
copies the table, so a pipe has a reader or a writer as long as some process
still has a descriptor for that end (`FdTable.refers`).  This module names no
program.
-/

namespace UnixHomework.Verified

/-- Numbers and what they stand for. -/
abbrev FdTable (φ : Type*) := List (Nat × φ)

namespace FdTable

variable {φ : Type*}

/-- What a number stands for. -/
def file (t : FdTable φ) (fd : Nat) : Option φ :=
  List.lookup fd t

/-- `close`. -/
def close (t : FdTable φ) (fd : Nat) : FdTable φ :=
  t.filter fun e => e.1 ≠ fd

/-- `dup2 (old, new)`: what `new` stood for is closed. -/
def dup2 (t : FdTable φ) (old new : Nat) : FdTable φ :=
  if old = new then t
  else
    match t.file old with
    | none => t
    | some f => (new, f) :: t.close new

/-- There is a descriptor for this file. -/
def refers [DecidableEq φ] (t : FdTable φ) (f : φ) : Bool :=
  t.any fun e => e.2 = f

/-- The number is not in use. -/
def Fresh (t : FdTable φ) (fd : Nat) : Prop :=
  ∀ e ∈ t, e.1 ≠ fd

variable {t : FdTable φ} {fd old new : Nat} {f g : φ}

theorem close_of_fresh (h : t.Fresh fd) : t.close fd = t :=
  List.filter_eq_self.mpr fun e he => decide_eq_true (h e he)

theorem close_cons_self : FdTable.close ((fd, f) :: t) fd = t.close fd :=
  List.filter_cons_of_neg (by simp)

theorem close_cons_of_ne (h : new ≠ fd) :
    FdTable.close ((new, f) :: t) fd = (new, f) :: t.close fd :=
  List.filter_cons_of_pos (by simp [h])

theorem Fresh.close (h : t.Fresh fd) : (t.close new).Fresh fd :=
  fun e he => h e (List.mem_of_mem_filter he)

theorem file_cons_self : FdTable.file ((fd, f) :: t) fd = some f :=
  List.lookup_cons_self

theorem dup2_eq (hNe : old ≠ new) (hFile : t.file old = some f) :
    t.dup2 old new = (new, f) :: t.close new := by
  rw [dup2, if_neg hNe, hFile]

variable [DecidableEq φ]

@[simp] theorem refers_nil : FdTable.refers ([] : FdTable φ) f = false := rfl

@[simp] theorem refers_cons :
    FdTable.refers ((fd, g) :: t) f = (decide (g = f) || t.refers f) := rfl

/-- Closing takes references away and adds none. -/
theorem refers_close_of_not (h : t.refers f = false) :
    (t.close fd).refers f = false := by
  rw [refers, List.any_eq_false] at *
  exact fun e he => h e (List.mem_of_mem_filter he)

end FdTable

end UnixHomework.Verified
