import Mathlib.Data.List.Nodup
import Mathlib.Data.List.Perm.Basic
import Mathlib.Logic.Function.Basic
import Mathlib.Tactic.Common

/-!
# Doubly linked lists on a heap

A heap is a finite table of cells, and a pointer is an address or `none`, the
null pointer.  All accesses are partial: reading, writing or freeing a cell
that is not allocated is `none`, so a program that is defined has followed no
dangling pointer and freed nothing twice.

`Segment` describes a piece of a list between two neighbours, with the links
in both directions.  Segments are put together and taken apart at any node
(`segment_append`), and an operation on one of them leaves the other alone as
long as their addresses are different (`Segment.frame`).  `Holds` is a whole
heap that consists of one list.
-/

namespace UnixHomework.Verified

universe u

abbrev Addr := Nat

/-- A cell of the list: what it carries, and its two neighbours. -/
structure Cell (α : Type u) where
  data : α
  prev : Option Addr
  next : Option Addr

/-- The cells, and the addresses at which there is one. -/
structure Heap (α : Type u) where
  /-- What is at each address, -/
  cells : Addr → Option (Cell α)
  /-- and where there is something. -/
  live : List Addr
  nodup : live.Nodup
  mem_live : ∀ a, a ∈ live ↔ (cells a).isSome

namespace Heap

variable {α : Type u}

def empty : Heap α where
  cells _ := none
  live := []
  nodup := List.nodup_nil
  mem_live a := by simp

/-! ## Operations -/

/-- A new cell at an address that is free. -/
def alloc (h : Heap α) (a : Addr) (c : Cell α) : Option (Heap α) :=
  if hFree : a ∈ h.live then none
  else some
    { cells := Function.update h.cells a (some c)
      live := a :: h.live
      nodup := List.nodup_cons.mpr ⟨hFree, h.nodup⟩
      mem_live := by
        intro b
        by_cases hb : b = a
        · simp [hb]
        · rw [Function.update_of_ne hb, ← h.mem_live, List.mem_cons,
            or_iff_right hb] }

/-- Overwrite a cell. -/
def write (h : Heap α) (a : Addr) (c : Cell α) : Option (Heap α) :=
  if hLive : a ∈ h.live then some
    { cells := Function.update h.cells a (some c)
      live := h.live
      nodup := h.nodup
      mem_live := by
        intro b
        by_cases hb : b = a
        · simp [hb, hLive]
        · rw [Function.update_of_ne hb, ← h.mem_live] }
  else none

def free (h : Heap α) (a : Addr) : Option (Heap α) :=
  if a ∈ h.live then some
    { cells := Function.update h.cells a none
      live := h.live.erase a
      nodup := h.nodup.erase a
      mem_live := by
        intro b
        by_cases hb : b = a
        · simp [hb, h.nodup.mem_erase_iff]
        · rw [Function.update_of_ne hb, ← h.mem_live,
            List.mem_erase_of_ne hb] }
  else none

/-- `a->next = n`. -/
def setNext (h : Heap α) (a : Addr) (n : Option Addr) : Option (Heap α) := do
  let c ← h.cells a
  h.write a { c with next := n }

/-- `a->prev = p`. -/
def setPrev (h : Heap α) (a : Addr) (p : Option Addr) : Option (Heap α) := do
  let c ← h.cells a
  h.write a { c with prev := p }

section Operations

variable {h : Heap α} {a : Addr} {c : Cell α}

theorem alloc_eq (c : Cell α) (hFree : a ∉ h.live) :
    ∃ h', h.alloc a c = some h' ∧
      h'.cells = Function.update h.cells a (some c) ∧
        h'.live = a :: h.live :=
  ⟨_, dif_neg hFree, rfl, rfl⟩

theorem write_eq {c' : Cell α} (hc : h.cells a = some c) :
    ∃ h', h.write a c' = some h' ∧
      h'.cells = Function.update h.cells a (some c') ∧ h'.live = h.live :=
  ⟨_, dif_pos ((h.mem_live a).mpr (by simp [hc])), rfl, rfl⟩

theorem free_eq (hc : h.cells a = some c) :
    ∃ h', h.free a = some h' ∧
      h'.cells = Function.update h.cells a none ∧
        h'.live = h.live.erase a :=
  ⟨_, if_pos ((h.mem_live a).mpr (by simp [hc])), rfl, rfl⟩

theorem setNext_eq (n : Option Addr) (hc : h.cells a = some c) :
    ∃ h', h.setNext a n = some h' ∧
      h'.cells = Function.update h.cells a (some { c with next := n }) ∧
        h'.live = h.live := by
  simp only [setNext, hc, Option.bind_eq_bind, Option.bind_some]
  exact write_eq hc

theorem setPrev_eq (p : Option Addr) (hc : h.cells a = some c) :
    ∃ h', h.setPrev a p = some h' ∧
      h'.cells = Function.update h.cells a (some { c with prev := p }) ∧
        h'.live = h.live := by
  simp only [setPrev, hc, Option.bind_eq_bind, Option.bind_some]
  exact write_eq hc

end Operations

/-! ## Segments -/

/-- The nodes of a list from `head` on, up to but not including `next`; `prev`
is the node before the first and `last` the last node, or `prev` again if there
is none.  The two chains of pointers are followed at once, so that a list can
be cut into segments and put together again. -/
def Segment (h : Heap α) (prev head : Option Addr) :
    List (Addr × α) → Option Addr → Option Addr → Prop
  | [], last, next => head = next ∧ last = prev
  | (a, x) :: rest, last, next =>
      head = some a ∧ ∃ c, h.cells a = some c ∧ c.data = x ∧
        c.prev = prev ∧ h.Segment (some a) c.next rest last next

/-- The addresses of some nodes. -/
abbrev addrs (nodes : List (Addr × α)) : List Addr :=
  nodes.map Prod.fst

section Segments

variable {h h' : Heap α} {prev head last next : Option Addr}
  {xs ys : List (Addr × α)} {a : Addr} {x : α}

/-- Two segments, one behind the other: the last node of the first is the
predecessor of the second. -/
theorem segment_append :
    h.Segment prev head (xs ++ ys) last next ↔
      ∃ k m, h.Segment prev head xs k m ∧ h.Segment k m ys last next := by
  induction xs generalizing prev head with
  | nil =>
      constructor
      · intro hSeg
        exact ⟨prev, head, ⟨rfl, rfl⟩, hSeg⟩
      · rintro ⟨k, m, ⟨rfl, rfl⟩, hSeg⟩
        exact hSeg
  | cons node xs ih =>
      constructor
      · rintro ⟨hHead, c, hCell, hData, hPrev, hRest⟩
        obtain ⟨k, m, hXs, hYs⟩ := ih.mp hRest
        exact ⟨k, m, ⟨hHead, c, hCell, hData, hPrev, hXs⟩, hYs⟩
      · rintro ⟨k, m, ⟨hHead, c, hCell, hData, hPrev, hXs⟩, hYs⟩
        exact ⟨hHead, c, hCell, hData, hPrev, ih.mpr ⟨k, m, hXs, hYs⟩⟩

/-- What happens at other addresses does not matter. -/
theorem Segment.frame (hSeg : h.Segment prev head xs last next)
    (hSame : ∀ a ∈ addrs xs, h'.cells a = h.cells a) :
    h'.Segment prev head xs last next := by
  induction xs generalizing prev head with
  | nil => exact hSeg
  | cons node xs ih =>
      obtain ⟨hHead, c, hCell, hData, hPrev, hRest⟩ := hSeg
      refine ⟨hHead, c, ?_, hData, hPrev, ih hRest ?_⟩
      · rw [hSame node.1 (by simp), hCell]
      · intro a ha
        exact hSame a (List.mem_cons_of_mem _ ha)

theorem Segment.cell (hSeg : h.Segment prev head xs last next)
    (ha : (a, x) ∈ xs) : ∃ c, h.cells a = some c ∧ c.data = x := by
  induction xs generalizing prev head with
  | nil => simp at ha
  | cons node xs ih =>
      obtain ⟨-, c, hCell, hData, -, hRest⟩ := hSeg
      rcases List.mem_cons.mp ha with rfl | ha
      · exact ⟨c, hCell, hData⟩
      · exact ih hRest ha

/-- The pointer to the first node, or to what follows if there is none. -/
theorem Segment.head_eq (hSeg : h.Segment prev head xs last next) :
    head = ((addrs xs).head?).or next := by
  cases xs with
  | nil => exact hSeg.1
  | cons node xs => exact hSeg.1

/-- The pointer to the last node, or to what comes before if there is none. -/
theorem Segment.last_eq (hSeg : h.Segment prev head xs last next) :
    last = ((addrs xs).getLast?).or prev := by
  induction xs generalizing prev head with
  | nil => exact hSeg.2
  | cons node xs ih =>
      obtain ⟨-, c, -, -, -, hRest⟩ := hSeg
      show last = ((node.1 :: addrs xs).getLast?).or prev
      rw [ih hRest, List.getLast?_cons]
      cases (addrs xs).getLast? <;> rfl

/-- A single node. -/
theorem segment_singleton :
    h.Segment prev head [(a, x)] last next ↔
      head = some a ∧ last = some a ∧ h.cells a = some ⟨x, prev, next⟩ := by
  constructor
  · rintro ⟨hHead, ⟨data, p, n⟩, hCell, rfl, rfl, rfl, hLast⟩
    exact ⟨hHead, hLast, hCell⟩
  · rintro ⟨hHead, hLast, hCell⟩
    exact ⟨hHead, _, hCell, rfl, rfl, rfl, hLast⟩

end Segments

/-! ## Relinking -/

/-- Set `prev` of a node, if there is one: `if (p) p->prev = …`. -/
def relinkPrev (h : Heap α) (target p : Option Addr) : Option (Heap α) :=
  match target with
  | none => some h
  | some a => h.setPrev a p

/-- Set `next` of a node, if there is one: `if (p) p->next = …`. -/
def relinkNext (h : Heap α) (target n : Option Addr) : Option (Heap α) :=
  match target with
  | none => some h
  | some a => h.setNext a n

section Relinking

variable {h : Heap α} {prev head last next : Option Addr}
  {xs : List (Addr × α)}

/-- The last piece of a list gets another predecessor.  Only its first node is
written to. -/
theorem Segment.relinkPrev (hSeg : h.Segment prev head xs last none)
    (hNodup : (addrs xs).Nodup) (p : Option Addr) :
    ∃ h', h.relinkPrev head p = some h' ∧
      (∃ last', h'.Segment p head xs last' none) ∧
        (∀ a, a ∉ addrs xs → h'.cells a = h.cells a) ∧
          h'.live = h.live := by
  cases xs with
  | nil =>
      obtain ⟨rfl, -⟩ := hSeg
      exact ⟨h, rfl, ⟨p, rfl, rfl⟩, fun _ _ => rfl, rfl⟩
  | cons node xs =>
      obtain ⟨rfl, c, hCell, hData, -, hRest⟩ := hSeg
      obtain ⟨hFirst, -⟩ := List.nodup_cons.mp hNodup
      obtain ⟨h', hSet, hCells, hLive⟩ := setPrev_eq p hCell
      refine ⟨h', hSet, ⟨last, rfl, { c with prev := p }, ?_, hData, rfl, ?_⟩,
        ?_, hLive⟩
      · rw [hCells, Function.update_self]
      · apply hRest.frame
        intro a ha
        have hNe : a ≠ node.1 := by
          rintro rfl
          exact hFirst ha
        rw [hCells, Function.update_of_ne hNe]
      · intro a ha
        have hNe : a ≠ node.1 := by
          rintro rfl
          exact ha (by simp)
        rw [hCells, Function.update_of_ne hNe]

/-- A piece of a list that has a node gets another successor.  Only its last
node is written to. -/
theorem Segment.relinkNext (hSeg : h.Segment prev head xs last next)
    (hNodup : (addrs xs).Nodup) (hSome : xs ≠ []) (n : Option Addr) :
    ∃ h', h.relinkNext last n = some h' ∧
      h'.Segment prev head xs last n ∧
        (∀ a, a ∉ addrs xs → h'.cells a = h.cells a) ∧
          h'.live = h.live := by
  rcases List.eq_nil_or_concat xs with hNil | ⟨front, ⟨b, x⟩, hXs⟩
  · exact absurd hNil hSome
  · rw [List.concat_eq_append] at hXs
    subst hXs
    obtain ⟨k, m, hFront, hLast⟩ := segment_append.mp hSeg
    obtain ⟨rfl, rfl, hCell⟩ := segment_singleton.mp hLast
    have hAddrs : addrs (front ++ [(b, x)]) = addrs front ++ [b] :=
      List.map_append
    rw [hAddrs] at hNodup ⊢
    have hNot : b ∉ addrs front := by
      intro hb
      exact (List.nodup_append'.mp hNodup).2.2 hb (List.mem_singleton_self b)
    obtain ⟨h', hSet, hCells, hLive⟩ := setNext_eq n hCell
    refine ⟨h', hSet, segment_append.mpr ⟨k, some b, hFront.frame ?_,
      segment_singleton.mpr ⟨rfl, rfl, ?_⟩⟩, ?_, hLive⟩
    · intro a ha
      have hNe : a ≠ b := by
        rintro rfl
        exact hNot ha
      rw [hCells, Function.update_of_ne hNe]
    · rw [hCells, Function.update_self]
    · intro a ha
      have hNe : a ≠ b := by
        rintro rfl
        exact ha (by simp)
      rw [hCells, Function.update_of_ne hNe]

end Relinking

/-! ## Whole lists -/

/-- Following `next` visits these addresses and then ends.  It is a finite
list, so there is no cycle. -/
def Path (h : Heap α) : Option Addr → List Addr → Prop
  | head, [] => head = none
  | head, a :: rest => head = some a ∧ ∃ c, h.cells a = some c ∧
      h.Path c.next rest

/-- The heap is one list, and there is nothing else on it: no cell is lost, and
none belongs to two places. -/
structure Holds (h : Heap α) (head : Option Addr)
    (nodes : List (Addr × α)) : Prop where
  /-- The links go through the nodes in both directions. -/
  linked : ∃ last, h.Segment none head nodes last none
  /-- No address comes twice. -/
  nodup : (addrs nodes).Nodup
  /-- What is allocated are the nodes. -/
  live : ∀ a, a ∈ h.live ↔ a ∈ addrs nodes

theorem holds_empty : Holds (empty : Heap α) none [] where
  linked := ⟨none, rfl, rfl⟩
  nodup := List.nodup_nil
  live _ := Iff.rfl

section Whole

variable {h : Heap α} {prev head last next : Option Addr}
  {xs ys nodes : List (Addr × α)} {a : Addr} {x : α}

/-- The cell of a node: its neighbours are the neighbours in the list. -/
theorem Segment.cell_eq
    (hSeg : h.Segment prev head (xs ++ (a, x) :: ys) last next) :
    h.cells a = some ⟨x, ((addrs xs).getLast?).or prev,
      ((addrs ys).head?).or next⟩ := by
  obtain ⟨k, m, hXs, -, c, hCell, rfl, rfl, hYs⟩ := segment_append.mp hSeg
  rw [hCell, ← hXs.last_eq, ← hYs.head_eq]

theorem Segment.path (hSeg : h.Segment prev head xs last none) :
    h.Path head (addrs xs) := by
  induction xs generalizing prev head with
  | nil => exact hSeg.1
  | cons node xs ih =>
      obtain ⟨hHead, c, hCell, -, -, hRest⟩ := hSeg
      exact ⟨hHead, c, hCell, ih hRest⟩

/-- The number of cells, with which every loop over the list gets by. -/
theorem Holds.length_live (hHolds : Holds h head nodes) :
    h.live.length = nodes.length := by
  have hPerm : h.live.Perm (addrs nodes) :=
    (List.perm_ext_iff_of_nodup h.nodup hHolds.nodup).mpr hHolds.live
  rw [hPerm.length_eq, List.length_map]

theorem Holds.mem_of_cell (hHolds : Holds h head nodes) {c : Cell α}
    (hCell : h.cells a = some c) : ∃ xs ys, nodes = xs ++ (a, c.data) :: ys ∧
      c.prev = (addrs xs).getLast? ∧ c.next = (addrs ys).head? := by
  have hLive : a ∈ addrs nodes :=
    (hHolds.live a).mp ((h.mem_live a).mpr (by simp [hCell]))
  obtain ⟨⟨b, x⟩, hMem, rfl⟩ := List.mem_map.mp hLive
  obtain ⟨xs, ys, rfl⟩ := List.append_of_mem hMem
  obtain ⟨last, hSeg⟩ := hHolds.linked
  have hCell' := hSeg.cell_eq
  rw [hCell, Option.or_none, Option.or_none, Option.some.injEq] at hCell'
  subst hCell'
  exact ⟨xs, ys, rfl, rfl, rfl⟩

/-- The first node has no predecessor. -/
theorem Holds.head_prev (hHolds : Holds h head nodes) {c : Cell α}
    (hHead : head = some a) (hCell : h.cells a = some c) : c.prev = none := by
  obtain ⟨last, hSeg⟩ := hHolds.linked
  cases nodes with
  | nil =>
      rw [hSeg.1] at hHead
      contradiction
  | cons node nodes =>
      obtain ⟨hFirst, c', hCell', -, hPrev, -⟩ := hSeg
      rw [hHead, Option.some.injEq] at hFirst
      rw [← hFirst, hCell, Option.some.injEq] at hCell'
      rw [hCell', hPrev]

/-- **The two directions agree**: a node is the next of another exactly if that
one is its previous. -/
theorem Holds.next_iff_prev (hHolds : Holds h head nodes) {b : Addr}
    {c d : Cell α} (hC : h.cells a = some c) (hD : h.cells b = some d) :
    c.next = some b ↔ d.prev = some a := by
  obtain ⟨last, hSeg⟩ := hHolds.linked
  constructor
  · intro hNext
    obtain ⟨xs, ys, rfl, -, hHead⟩ := hHolds.mem_of_cell hC
    rw [hNext, List.head?_map] at hHead
    obtain ⟨node, hFirst, rfl⟩ := Option.map_eq_some_iff.mp hHead.symm
    obtain ⟨ys', rfl⟩ := List.head?_eq_some_iff.mp hFirst
    have hNodes : xs ++ (a, c.data) :: node :: ys' =
        (xs ++ [(a, c.data)]) ++ node :: ys' := by simp
    rw [hNodes] at hSeg
    have hCell := hSeg.cell_eq
    rw [hD, Option.some.injEq] at hCell
    simp [hCell]
  · intro hPrev
    obtain ⟨xs, ys, rfl, hLast, -⟩ := hHolds.mem_of_cell hD
    rw [hPrev, List.getLast?_map] at hLast
    obtain ⟨node, hFirst, rfl⟩ := Option.map_eq_some_iff.mp hLast.symm
    obtain ⟨xs', rfl⟩ := List.getLast?_eq_some_iff.mp hFirst
    rw [← List.append_cons] at hSeg
    have hCell := hSeg.cell_eq
    rw [hC, Option.some.injEq] at hCell
    simp [hCell]

end Whole

/-! ## Linking and unlinking -/

section Linking

variable {h : Heap α} {head : Option Addr} {nodes xs ys : List (Addr × α)}
  {a : Addr} {x : α}

theorem addrs_append : addrs (xs ++ ys) = addrs xs ++ addrs ys :=
  List.map_append

theorem addrs_cons : addrs ((a, x) :: ys) = a :: addrs ys := rfl

/-- The first node of an empty list. -/
theorem Holds.link_first (hHolds : h.Holds head []) (hFree : a ∉ h.live) :
    ∃ h', h.alloc a ⟨x, none, none⟩ = some h' ∧
      h'.Holds (some a) [(a, x)] := by
  obtain ⟨h', hAlloc, hCells, hLive⟩ := alloc_eq ⟨x, none, none⟩ hFree
  refine ⟨h', hAlloc, ⟨some a, segment_singleton.mpr ⟨rfl, rfl, ?_⟩⟩,
    List.nodup_singleton a, ?_⟩
  · rw [hCells, Function.update_self]
  · intro b
    rw [hLive, List.mem_cons, hHolds.live b]
    simp

/-- A new node behind the last one.  The list is not whole between the two
assignments, and is afterwards. -/
theorem Holds.link_last (hHolds : h.Holds head nodes) (hSome : nodes ≠ [])
    (hFree : a ∉ h.live) :
    ∃ last h1 h2 h3, h.alloc a ⟨x, none, none⟩ = some h1 ∧
      h1.Segment none head nodes (some last) none ∧
        h1.setNext last (some a) = some h2 ∧
          h2.setPrev a (some last) = some h3 ∧
            h3.Holds head (nodes ++ [(a, x)]) := by
  obtain ⟨last, hSeg⟩ := hHolds.linked
  have hNot : a ∉ addrs nodes := fun ha => hFree ((hHolds.live a).mpr ha)
  have hNe : ∀ b ∈ addrs nodes, b ≠ a := by
    rintro b hb rfl
    exact hNot hb
  obtain ⟨l, hLast⟩ : ∃ l, last = some l := by
    have hAddrs : addrs nodes ≠ [] := by simpa using hSome
    rw [hSeg.last_eq, List.getLast?_eq_some_getLast hAddrs]
    exact ⟨_, rfl⟩
  subst hLast
  obtain ⟨h1, hAlloc, hCells1, hLive1⟩ := alloc_eq ⟨x, none, none⟩ hFree
  have hSeg1 : h1.Segment none head nodes (some l) none := by
    apply hSeg.frame
    intro b hb
    rw [hCells1, Function.update_of_ne (hNe b hb)]
  obtain ⟨h2, hNext, hSeg2, hFrame2, hLive2⟩ :=
    hSeg1.relinkNext hHolds.nodup hSome (some a)
  have hNew : h2.cells a = some ⟨x, none, none⟩ := by
    rw [hFrame2 a hNot, hCells1, Function.update_self]
  obtain ⟨h3, hPrev, hCells3, hLive3⟩ := setPrev_eq (some l) hNew
  have hSeg3 : h3.Segment none head nodes (some l) (some a) := by
    apply hSeg2.frame
    intro b hb
    rw [hCells3, Function.update_of_ne (hNe b hb)]
  refine ⟨l, h1, h2, h3, hAlloc, hSeg1, hNext, hPrev,
    ⟨some a, segment_append.mpr ⟨some l, some a, hSeg3,
      segment_singleton.mpr ⟨rfl, rfl, ?_⟩⟩⟩, ?_, ?_⟩
  · rw [hCells3, Function.update_self]
  · rw [addrs_append]
    exact List.nodup_append'.mpr ⟨hHolds.nodup, List.nodup_singleton a,
      List.disjoint_singleton.mpr hNot⟩
  · intro b
    have hOne : addrs [(a, x)] = [a] := rfl
    rw [hLive3, hLive2, hLive1, List.mem_cons, hHolds.live b, addrs_append,
      List.mem_append, or_comm, hOne, List.mem_singleton]

/-- The addresses of the other nodes. -/
theorem nodup_unlink (hNodup : (addrs (xs ++ (a, x) :: ys)).Nodup) :
    (addrs xs).Nodup ∧ (addrs ys).Nodup ∧ (addrs (xs ++ ys)).Nodup ∧
      ∀ b ∈ addrs (xs ++ ys), b ≠ a := by
  have hPerm : (addrs (xs ++ (a, x) :: ys)).Perm (a :: addrs (xs ++ ys)) := by
    rw [addrs_append, addrs_append]
    exact List.perm_middle
  obtain ⟨hNot, hRest⟩ := List.nodup_cons.mp (hPerm.nodup_iff.mp hNodup)
  have hBoth := hRest
  rw [addrs_append] at hBoth
  refine ⟨hBoth.of_append_left, hBoth.of_append_right, hRest, ?_⟩
  rintro b hb rfl
  exact hNot hb

/-- Freeing a node that the rest of the list no longer refers to. -/
theorem Holds.freed (hHolds : h.Holds head (xs ++ (a, x) :: ys))
    {h1 : Heap α} {head' last : Option Addr} {c : Cell α}
    (hLive : h1.live = h.live) (hCell : h1.cells a = some c)
    (hSeg : h1.Segment none head' (xs ++ ys) last none) :
    ∃ h', h1.free a = some h' ∧ h'.Holds head' (xs ++ ys) := by
  obtain ⟨-, -, hNodup, hNe⟩ := nodup_unlink hHolds.nodup
  obtain ⟨h', hFree, hCells, hLive'⟩ := free_eq hCell
  refine ⟨h', hFree, ⟨last, hSeg.frame ?_⟩, hNodup, ?_⟩
  · intro b hb
    rw [hCells, Function.update_of_ne (hNe b hb)]
  · intro b
    rw [hLive', hLive, h.nodup.mem_erase_iff, hHolds.live b, addrs_append,
      addrs_append, List.mem_append, List.mem_append, addrs_cons,
      List.mem_cons]
    have hApart := hNe b
    rw [addrs_append, List.mem_append] at hApart
    tauto

/-- Taking the first node out: the second one, if there is one, becomes the
head and has no predecessor. -/
theorem Holds.unlink_first (hHolds : h.Holds head ((a, x) :: ys)) :
    head = some a ∧ ∃ c h1 h2, h.cells a = some c ∧
      h.relinkPrev c.next none = some h1 ∧ h1.free a = some h2 ∧
        h2.Holds c.next ys := by
  have hAll : h.Holds head ([] ++ (a, x) :: ys) := hHolds
  obtain ⟨-, hNodup, -, hNe⟩ := nodup_unlink hAll.nodup
  obtain ⟨last, hHead, c, hCell, -, -, hYs⟩ := hHolds.linked
  obtain ⟨h1, hLink, ⟨last', hSeg⟩, hFrame, hLive⟩ :=
    hYs.relinkPrev hNodup none
  have hCell1 : h1.cells a = some c := by
    rw [hFrame a fun ha => hNe a ha rfl, hCell]
  obtain ⟨h2, hFree, hHolds2⟩ := hAll.freed hLive hCell1 hSeg
  exact ⟨hHead, c, h1, h2, hCell, hLink, hFree, hHolds2⟩

/-- Taking another node out: its neighbours refer to each other then.  Its own
links are untouched until it is freed. -/
theorem Holds.unlink_inner (hHolds : h.Holds head (xs ++ (a, x) :: ys))
    (hInner : xs ≠ []) :
    head ≠ some a ∧ ∃ c h1 h2 h3, h.cells a = some c ∧
      h.relinkNext c.prev c.next = some h1 ∧ h1.cells a = some c ∧
        h1.relinkPrev c.next c.prev = some h2 ∧ h2.free a = some h3 ∧
          h3.Holds head (xs ++ ys) := by
  obtain ⟨hXsNodup, hYsNodup, hNodup, hNe⟩ := nodup_unlink hHolds.nodup
  rw [addrs_append] at hNodup hNe
  have hApart := (List.nodup_append'.mp hNodup).2.2
  obtain ⟨last, hSeg⟩ := hHolds.linked
  obtain ⟨k, m, hXs, -, c, hCell, -, rfl, hYs⟩ := segment_append.mp hSeg
  have hNotXs : a ∉ addrs xs := fun ha =>
    hNe a (List.mem_append_left _ ha) rfl
  have hNotYs : a ∉ addrs ys := fun ha =>
    hNe a (List.mem_append_right _ ha) rfl
  obtain ⟨h1, hLink1, hXs1, hFrame1, hLive1⟩ :=
    hXs.relinkNext hXsNodup hInner c.next
  have hYs1 : h1.Segment (some a) c.next ys last none := by
    apply hYs.frame
    intro b hb
    exact hFrame1 b fun hb' => hApart hb' hb
  obtain ⟨h2, hLink2, ⟨last', hYs2⟩, hFrame2, hLive2⟩ :=
    hYs1.relinkPrev hYsNodup c.prev
  have hXs2 : h2.Segment none head xs c.prev c.next := by
    apply hXs1.frame
    intro b hb
    exact hFrame2 b fun hb' => hApart hb hb'
  have hCell1 : h1.cells a = some c := by rw [hFrame1 a hNotXs, hCell]
  have hCell2 : h2.cells a = some c := by rw [hFrame2 a hNotYs, hCell1]
  obtain ⟨h3, hFree, hHolds3⟩ := hHolds.freed (hLive2.trans hLive1) hCell2
    (segment_append.mpr ⟨c.prev, c.next, hXs2, hYs2⟩)
  refine ⟨?_, c, h1, h2, h3, hCell, hLink1, hCell1, hLink2, hFree, hHolds3⟩
  intro hHead
  rw [hXs.head_eq] at hHead
  cases xs with
  | nil => exact hInner rfl
  | cons node xs =>
      obtain rfl : node.1 = a := Option.some.inj hHead
      exact hNotXs (by simp)

end Linking

end Heap

end UnixHomework.Verified
