import Mathlib.Data.List.Range
import Mathlib.Data.List.Nodup
import Mathlib.Data.Option.Basic
import Mathlib.Tactic.Common

/-!
# Allocations and what becomes of them

An allocation is known by its number, and a pointer is the number of the
allocation that returned it, or `none` for any other value.  Counted are the
allocations, and the arguments of `free` are recorded.

`Owned held` says that every allocation has either been freed, once, or is
among the pointers held, once, and that there is nothing else in the two lists
(`Owned.alloc`, `Owned.free`).  The balance of the two lists with the number of
allocations shows whether pointers have been lost.
-/

namespace UnixHomework.Verified

/-- The allocations of a program, by their numbers. -/
structure Allocations where
  /-- How many there have been. -/
  allocated : Nat
  /-- The arguments of `free`, in order; `none` is something that was never
  allocated. -/
  freed : List (Option Nat)

namespace Allocations

variable {h : Allocations} {held held' ps : List (Option Nat)}

/-- The pointer that the next allocation returns. -/
def next (h : Allocations) : Option Nat :=
  some h.allocated

/-- An allocation, which always succeeds here. -/
def alloc (h : Allocations) : Allocations :=
  { h with allocated := h.allocated + 1 }

/-- `free`, for one pointer after the other. -/
def free (h : Allocations) (ps : List (Option Nat)) : Allocations :=
  { h with freed := h.freed ++ ps }

theorem freed_free (h : Allocations) (ps : List (Option Nat)) :
    h.freed <+: (h.free ps).freed :=
  List.prefix_append _ _

/-- Only allocations have been freed, each at most once. -/
structure FreesOnce (h : Allocations) : Prop where
  /-- Nothing else has been given to `free`, -/
  allocated : ∀ p ∈ h.freed, ∃ i < h.allocated, p = some i
  /-- and nothing twice. -/
  once : h.freed.Nodup

/-- Nothing has been forgotten. -/
def AllFreed (h : Allocations) : Prop :=
  ∀ i < h.allocated, some i ∈ h.freed

/-- Every allocation has been freed or is held, once, and nothing else is in
either list. -/
def Owned (h : Allocations) (held : List (Option Nat)) : Prop :=
  (h.freed ++ held).Perm ((List.range h.allocated).map some)

/-- What has been freed and what is held, less what was allocated.  It is 0
while everything is owned, and falls when a pointer is lost. -/
def balance (h : Allocations) (held : List (Option Nat)) : Int :=
  h.freed.length + held.length - h.allocated

theorem owned_start : Owned ⟨0, []⟩ [] := List.Perm.nil

theorem Owned.perm (hOwned : h.Owned held) (hPerm : held.Perm held') :
    h.Owned held' :=
  (List.Perm.append_left h.freed hPerm.symm).trans hOwned

theorem Owned.alloc (hOwned : h.Owned held) :
    h.alloc.Owned (held ++ [h.next]) := by
  show (h.freed ++ (held ++ [some h.allocated])).Perm
    ((List.range (h.allocated + 1)).map some)
  rw [← List.append_assoc, List.range_succ, List.map_append,
    List.map_singleton]
  exact hOwned.append_right _

theorem Owned.free (hOwned : h.Owned (ps ++ held)) :
    (h.free ps).Owned held := by
  show (h.freed ++ ps ++ held).Perm _
  rw [List.append_assoc]
  exact hOwned

theorem Owned.freesOnce (hOwned : h.Owned held) : h.FreesOnce where
  allocated p hp := by
    have hMem : p ∈ (List.range h.allocated).map some :=
      hOwned.subset (List.mem_append_left held hp)
    rcases List.mem_map.mp hMem with ⟨i, hi, rfl⟩
    exact ⟨i, List.mem_range.mp hi, rfl⟩
  once := by
    have hNodup : ((List.range h.allocated).map some).Nodup :=
      List.nodup_range.map (Option.some_injective Nat)
    exact List.Nodup.of_append_left (hOwned.nodup_iff.mpr hNodup)

/-- When nothing is held, everything has been freed. -/
theorem Owned.allFreed (hOwned : h.Owned []) : h.AllFreed := by
  intro i hi
  have hMem : some i ∈ h.freed ++ [] :=
    hOwned.symm.subset (List.mem_map_of_mem (List.mem_range.mpr hi))
  rwa [List.append_nil] at hMem

/-- Conversely, when everything has been freed, once, and nothing else. -/
theorem owned_of_allFreed (hOnce : h.FreesOnce) (hAll : h.AllFreed) :
    h.Owned [] := by
  show (h.freed ++ []).Perm _
  rw [List.append_nil, List.perm_ext_iff_of_nodup hOnce.once
    (List.nodup_range.map (Option.some_injective Nat))]
  intro p
  constructor
  · intro hp
    rcases hOnce.allocated p hp with ⟨i, hi, rfl⟩
    exact List.mem_map_of_mem (List.mem_range.mpr hi)
  · intro hp
    rcases List.mem_map.mp hp with ⟨i, hi, rfl⟩
    exact hAll i (List.mem_range.mp hi)

theorem Owned.balance_eq (hOwned : h.Owned held) : h.balance held = 0 := by
  have hLength := hOwned.length_eq
  rw [List.length_append, List.length_map, List.length_range] at hLength
  rw [balance]
  omega

theorem FreesOnce.none_notMem (hOnce : h.FreesOnce) : none ∉ h.freed := by
  intro hMem
  rcases hOnce.allocated none hMem with ⟨i, -, hSome⟩
  contradiction

theorem balance_alloc (h : Allocations) (held : List (Option Nat)) :
    h.alloc.balance (held ++ [h.next]) = h.balance held := by
  rw [balance, balance, List.length_append, List.length_singleton]
  show (h.freed.length : Int) + ((held.length + 1 : Nat) : Int) -
    ((h.allocated + 1 : Nat) : Int) = _
  omega

theorem balance_free (h : Allocations) (ps held : List (Option Nat)) :
    (h.free ps).balance held = h.balance (ps ++ held) := by
  rw [balance, balance, free, List.length_append, List.length_append]
  show ((h.freed.length + ps.length : Nat) : Int) + _ - (h.allocated : Int) = _
  omega

theorem balance_append (h : Allocations) (held ps : List (Option Nat)) :
    h.balance (held ++ ps) = h.balance held + ps.length := by
  rw [balance, balance, List.length_append]
  show (h.freed.length : Int) + ((held.length + ps.length : Nat) : Int) -
    (h.allocated : Int) = _
  omega

theorem balance_perm (h : Allocations) (hPerm : held.Perm held') :
    h.balance held = h.balance held' := by
  rw [balance, balance, hPerm.length_eq]

end Allocations

end UnixHomework.Verified
