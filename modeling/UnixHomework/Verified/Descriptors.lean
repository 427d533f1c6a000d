import Mathlib.Data.List.Nodup
import Mathlib.Tactic.Common
import UnixHomework.Verified.Table

/-!
# Descriptors that are used again

A server gives its connections descriptors that the kernel uses again: the
next connection may get the number that another one had before it was closed.
A connection is therefore known by its place in the order of `accept`, and
`Descriptors.table` says which connection an open descriptor stands for.  Two
open descriptors never stand for one connection, and what has been closed is
recorded; both are fields, so a table that breaks them cannot be built.  A
`close` of something that is not open fails in the kernel and closes nothing;
that it happened is recorded as well (`strays`), so that a program can be shown
never to close a descriptor twice.

`Descriptors.Open` is the resource that the threads of a server hold
(`open_accept`, `open_close`).  This module names no program.
-/

namespace UnixHomework.Verified

/-- The connections so far, those that are open and those closed, and the
descriptors that were given to `close` without being open. -/
structure Descriptors where
  /-- How many connections have been accepted; they are numbered in that
  order. -/
  accepted : Nat
  /-- The connection that an open descriptor stands for. -/
  table : Int → Option Nat
  /-- The connections closed, in order. -/
  closed : List Nat
  /-- The descriptors given to `close` that were not open. -/
  strays : List Int
  /-- Only accepted connections are open. -/
  earlier : ∀ fd c, table fd = some c → c < accepted
  /-- A connection has one descriptor. -/
  distinct : ∀ fd fd' c, table fd = some c → table fd' = some c → fd = fd'
  /-- A descriptor is not negative. -/
  nonneg : ∀ fd c, table fd = some c → 0 ≤ fd
  /-- No connection is closed twice. -/
  closedOnce : closed.Nodup
  /-- What is accepted and no longer open is closed. -/
  closed_iff : ∀ c, c ∈ closed ↔ c < accepted ∧ ∀ fd, table fd ≠ some c

namespace Descriptors

variable {d : Descriptors} {fd : Int} {c : Nat}

/-- No connection has been accepted. -/
def empty : Descriptors where
  accepted := 0
  table := fun _ => none
  closed := []
  strays := []
  earlier := by
    intro fd c h
    contradiction
  distinct := by
    intro fd fd' c h
    contradiction
  nonneg := by
    intro fd c h
    contradiction
  closedOnce := List.nodup_nil
  closed_iff := by simp

/-- `accept` returns a descriptor that is not open: one never used, or one that
has been closed. -/
def accept (d : Descriptors) (fd : Int) (hPos : 0 ≤ fd)
    (hFree : d.table fd = none) : Descriptors where
  accepted := d.accepted + 1
  table := Function.update d.table fd (some d.accepted)
  closed := d.closed
  strays := d.strays
  earlier := by
    intro x c h
    rcases update_some_iff.mp h with ⟨-, rfl⟩ | ⟨-, hOld⟩
    · exact Nat.lt_succ_self _
    · exact Nat.lt_succ_of_lt (d.earlier x c hOld)
  distinct := by
    intro x y c hx hy
    rcases update_some_iff.mp hx with ⟨rfl, rfl⟩ | ⟨-, hxOld⟩ <;>
      rcases update_some_iff.mp hy with ⟨hyf, hcy⟩ | ⟨-, hyOld⟩
    · exact hyf.symm
    · exact absurd (d.earlier y _ hyOld) (Nat.lt_irrefl _)
    · rw [← hcy] at hxOld
      exact absurd (d.earlier x _ hxOld) (Nat.lt_irrefl _)
    · exact d.distinct x y c hxOld hyOld
  nonneg := by
    intro x c h
    rcases update_some_iff.mp h with ⟨rfl, -⟩ | ⟨-, hOld⟩
    · exact hPos
    · exact d.nonneg x c hOld
  closedOnce := d.closedOnce
  closed_iff := by
    intro c
    rw [d.closed_iff]
    constructor
    · rintro ⟨hLt, hNone⟩
      refine ⟨by omega, ?_⟩
      intro x h
      rcases update_some_iff.mp h with ⟨-, rfl⟩ | ⟨-, hOld⟩
      · exact Nat.lt_irrefl _ hLt
      · exact hNone x hOld
    · rintro ⟨hLt, hNone⟩
      have hSelf : d.accepted ≠ c := fun hc =>
        hNone fd (update_some_iff.mpr (.inl ⟨rfl, hc⟩))
      refine ⟨by omega, ?_⟩
      intro x h
      apply hNone x
      refine update_some_iff.mpr (.inr ⟨?_, h⟩)
      rintro rfl
      rw [hFree] at h
      contradiction

/-- `accept` with a descriptor the kernel may choose. -/
def accept? (d : Descriptors) (fd : Int) : Option Descriptors :=
  if h : 0 ≤ fd ∧ d.table fd = none then some (d.accept fd h.1 h.2) else none

/-- `close`; closing what is not open leaves the table as it is, and is
recorded as a stray. -/
def close (d : Descriptors) (fd : Int) : Descriptors where
  accepted := d.accepted
  table := Function.update d.table fd none
  closed := d.closed ++ (d.table fd).toList
  strays := if d.table fd = none then d.strays ++ [fd] else d.strays
  earlier := by
    intro x c h
    exact d.earlier x c (update_none_iff.mp h).2
  distinct := by
    intro x y c hx hy
    exact d.distinct x y c (update_none_iff.mp hx).2 (update_none_iff.mp hy).2
  nonneg := by
    intro x c h
    exact d.nonneg x c (update_none_iff.mp h).2
  closedOnce := by
    rw [List.nodup_append]
    refine ⟨d.closedOnce, ?_, ?_⟩
    · cases d.table fd <;> simp
    · rintro x hx _ hy rfl
      exact ((d.closed_iff x).mp hx).2 fd (Option.mem_toList.mp hy)
  closed_iff := by
    intro c
    rw [List.mem_append, d.closed_iff, Option.mem_toList]
    constructor
    · rintro (⟨hLt, hNone⟩ | hSelf)
      · refine ⟨hLt, ?_⟩
        intro x h
        exact hNone x (update_none_iff.mp h).2
      · refine ⟨d.earlier fd c hSelf, ?_⟩
        intro x h
        obtain ⟨hne, hOld⟩ := update_none_iff.mp h
        exact hne (d.distinct x fd c hOld hSelf)
    · rintro ⟨hLt, hNone⟩
      by_cases hSelf : d.table fd = some c
      · exact .inr hSelf
      · left
        refine ⟨hLt, ?_⟩
        intro x h
        apply hNone x
        refine update_none_iff.mpr ⟨?_, h⟩
        rintro rfl
        exact hSelf h

theorem accept?_eq_some {d' : Descriptors} (h : d.accept? fd = some d') :
    0 ≤ fd ∧ d.table fd = none ∧ d'.accepted = d.accepted + 1 ∧
      d'.table = Function.update d.table fd (some d.accepted) ∧
      d'.closed = d.closed := by
  unfold accept? at h
  split at h
  · rename_i hfd
    obtain rfl := Option.some.inj h
    exact ⟨hfd.1, hfd.2, rfl, rfl, rfl⟩
  · contradiction

@[simp] theorem table_close_self : (d.close fd).table fd = none :=
  Function.update_self ..

theorem table_close_of_ne {x : Int} (h : x ≠ fd) :
    (d.close fd).table x = d.table x :=
  Function.update_of_ne h ..

@[simp] theorem accepted_close : (d.close fd).accepted = d.accepted := rfl

theorem closed_close (h : d.table fd = some c) :
    (d.close fd).closed = d.closed ++ [c] := by
  show d.closed ++ (d.table fd).toList = _
  rw [h]
  rfl

theorem strays_accept? {d' : Descriptors} (h : d.accept? fd = some d') :
    d'.strays = d.strays := by
  unfold accept? at h
  split at h
  · obtain rfl := Option.some.inj h
    rfl
  · contradiction

/-- Closing what is open. -/
theorem strays_close (h : d.table fd = some c) :
    (d.close fd).strays = d.strays :=
  if_neg (by rw [h]; exact Option.some_ne_none c)

/-- An open connection has not been closed. -/
theorem notMem_closed (h : d.table fd = some c) : c ∉ d.closed :=
  fun hc => ((d.closed_iff c).mp hc).2 fd h

/-- A connection is open until it is closed. -/
theorem open_or_closed (h : c < d.accepted) :
    (∃ fd, d.table fd = some c) ∨ c ∈ d.closed := by
  by_cases hOpen : ∃ fd, d.table fd = some c
  · exact .inl hOpen
  · right
    rw [d.closed_iff]
    exact ⟨h, fun fd hfd => hOpen ⟨fd, hfd⟩⟩

/-! ## Open descriptors -/

/-- The descriptor stands for a connection.  This is the resource whose custody
a server keeps. -/
def Open (d : Descriptors) (fd : Int) : Prop :=
  ∃ c, d.table fd = some c

theorem not_open_of_free (h : d.table fd = none) : ¬d.Open fd := by
  rintro ⟨c, hc⟩
  rw [h] at hc
  contradiction

theorem open_accept {d' : Descriptors} (h : d.accept? fd = some d') (x : Int) :
    d'.Open x ↔ d.Open x ∨ x = fd := by
  obtain ⟨-, -, -, hTable, -⟩ := accept?_eq_some h
  rw [Open, hTable]
  by_cases hx : x = fd
  · subst hx
    rw [Function.update_self]
    exact ⟨fun _ => .inr rfl, fun _ => ⟨_, rfl⟩⟩
  · rw [Function.update_of_ne hx]
    exact ⟨.inl, fun h => h.resolve_right hx⟩

theorem open_close (x : Int) : (d.close fd).Open x ↔ x ≠ fd ∧ d.Open x := by
  by_cases hx : x = fd
  · subst hx
    exact ⟨fun h => absurd h (not_open_of_free table_close_self),
      fun h => absurd rfl h.1⟩
  · rw [Open, table_close_of_ne hx]
    exact ⟨fun h => ⟨hx, h⟩, And.right⟩

end Descriptors

end UnixHomework.Verified
