import UnixHomework.Verified.CharArray
import UnixHomework.Verified.DoublyLinked
import UnixHomework.Verified.Traces

/-!
# The linked phone book

`Append` and `DeleteAbonent` keep the subscribers in a doubly linked list that
starts at `head`.  A label gives what a call reads from the user, and for
`Append` the address of the block that `malloc` returns.  An access to a block
that is not allocated, and a `free` of one, are undefined, and so is a loop
that visits more nodes than there are: it has come back to a node and will not
end.

None of this happens (`phoneBook_refines`).  After any calls the heap is one
list with links that agree in both directions, its data is the plain list to
which the same calls are applied, and `FreeList` gives back each of its nodes
once.
-/

namespace UnixHomework.Ports.PhoneList

open UnixHomework.Verified

/-- `struct Abonent`.  The three words are read with `%9s`. -/
structure Abonent where
  name : CharArray 10
  secondName : CharArray 10
  tel : CharArray 10

/-- The heap and `head`. -/
structure Book where
  heap : Heap Abonent
  head : Option Addr

/-! ## The functions of the program -/

/-- `while (last_node->next != NULL) last_node = last_node->next`.  More turns
than there are nodes would never end. -/
def lastNode (h : Heap Abonent) : Nat → Addr → Option Addr
  | 0, _ => none
  | fuel + 1, last => do
      let c ← h.cells last
      match c.next with
      | none => some last
      | some next => lastNode h fuel next

/-- `Append`; `CreateNode` has got the block at `newNode` and read `data`. -/
def append (s : Book) (newNode : Addr) (data : Abonent) :
    Option Book := do
  let heap ← s.heap.alloc newNode ⟨data, none, none⟩
  match s.head with
  | none => some ⟨heap, some newNode⟩
  | some head => do
      let last ← lastNode heap heap.live.length head
      let heap ← heap.setNext last (some newNode)
      let heap ← heap.setPrev newNode (some last)
      some ⟨heap, some head⟩

/-- `while (current != NULL && count < index)`, with `index - count` steps to
go. -/
def findNode (h : Heap Abonent) : Nat → Option Addr → Option (Option Addr)
  | 0, current => some current
  | _ + 1, none => some none
  | steps + 1, some current => do
      let c ← h.cells current
      findNode h steps c.next

/-- The branches of `DeleteAbonent` for the head and for another node.  Links
are read from the heap as the statements before have left it. -/
def unlink (s : Book) (current : Addr) : Option Book := do
  let c ← s.heap.cells current
  if s.head = some current then do
    let heap ← s.heap.relinkPrev c.next none
    some ⟨heap, c.next⟩
  else do
    let heap ← s.heap.relinkNext c.prev c.next
    let c ← heap.cells current
    let heap ← heap.relinkPrev c.next c.prev
    some ⟨heap, s.head⟩

/-- `DeleteAbonent`: an index that is not positive, or behind the end, changes
nothing. -/
def deleteAbonent (s : Book) (index : Int) : Option Book :=
  if s.head = none ∨ index ≤ 0 then some s
  else do
    match ← findNode s.heap (index.toNat - 1) s.head with
    | none => some s
    | some current => do
        let s ← unlink s current
        let heap ← s.heap.free current
        some ⟨heap, s.head⟩

/-- `FreeList`: the heap it leaves, and the blocks in the order in which they
are freed. -/
def freeList : Nat → Heap Abonent → Option Addr →
    Option (Heap Abonent × List Addr)
  | _, h, none => some (h, [])
  | 0, _, some _ => none
  | fuel + 1, h, some head => do
      let c ← h.cells head
      let h ← h.free head
      let (h, freed) ← freeList fuel h c.next
      some (h, head :: freed)

/-! ## Calls -/

/-- A call with its input. -/
inductive Call where
  | append (newNode : Addr) (data : Abonent)
  | delete (index : Int)

/-- One call.  `none` is undefined behaviour, or a loop that does not end. -/
def phoneStep (s : Book) : Call → Option Book
  | .append newNode data => append s newNode data
  | .delete index => deleteAbonent s index

def Book.start : Book :=
  ⟨.empty, none⟩

def phoneBook : Machine Book Call where
  init s := s = Book.start
  step := phoneStep

/-- `malloc` returns a block that is not in use. -/
def MallocFresh (s : Book) : Call → Prop
  | .append newNode _ => newNode ∉ s.heap.live
  | .delete _ => True

/-! ## The plain list -/

section Plain

variable {β : Type}

/-- The list without its element at a position from 1 on. -/
def eraseAt (book : List β) (index : Int) : List β :=
  if 1 ≤ index ∧ index ≤ book.length then book.eraseIdx (index.toNat - 1)
  else book

theorem eraseAt_map {γ : Type} (f : β → γ) (book : List β) (index : Int) :
    eraseAt (book.map f) index = (eraseAt book index).map f := by
  rw [eraseAt, eraseAt, List.length_map]
  split
  · rw [List.eraseIdx_map]
  · rfl

end Plain

/-- What a call does to a plain list of subscribers: the purpose of the two
functions. -/
def edit (book : List Abonent) : Call → List Abonent
  | .append _ data => book ++ [data]
  | .delete index => eraseAt book index

/-! ## Loops over the list -/

section Loops

variable {h : Heap Abonent} {prev head last : Option Addr}
  {nodes : List (Addr × Abonent)}

theorem lastNode_eq {a l : Addr} {fuel : Nat}
    (hSeg : h.Segment prev (some a) nodes (some l) none)
    (hFuel : nodes.length ≤ fuel) : lastNode h fuel a = some l := by
  induction nodes generalizing prev a fuel with
  | nil => exact absurd hSeg.1 (by simp)
  | cons node nodes ih =>
      obtain ⟨hHead, c, hCell, -, -, hRest⟩ := hSeg
      obtain rfl : a = node.1 := Option.some.inj hHead
      cases fuel with
      | zero => simp at hFuel
      | succ fuel =>
          simp only [lastNode, hCell, Option.bind_eq_bind, Option.bind_some]
          cases nodes with
          | nil =>
              obtain ⟨hNext, hLast⟩ := hRest
              rw [hNext]
              exact hLast.symm
          | cons node' nodes =>
              obtain ⟨hNext, -⟩ := id hRest
              rw [hNext] at hRest ⊢
              exact ih hRest (Nat.le_of_succ_le_succ hFuel)

theorem findNode_eq (hSeg : h.Segment prev head nodes last none)
    (steps : Nat) :
    findNode h steps head = some ((Heap.addrs nodes)[steps]?) := by
  induction nodes generalizing prev head steps with
  | nil =>
      obtain ⟨rfl, -⟩ := hSeg
      cases steps <;> rfl
  | cons node nodes ih =>
      obtain ⟨rfl, c, hCell, -, -, hRest⟩ := hSeg
      cases steps with
      | zero => rfl
      | succ steps =>
          simp only [findNode, hCell, Option.bind_eq_bind, Option.bind_some]
          exact ih hRest steps

/-- `FreeList` gives back the nodes of the list in order. -/
theorem freeList_eq {fuel : Nat} (hSeg : h.Segment prev head nodes last none)
    (hNodup : (Heap.addrs nodes).Nodup) (hFuel : nodes.length ≤ fuel) :
    ∃ h', freeList fuel h head = some (h', Heap.addrs nodes) ∧
      ∀ b, b ∈ h'.live ↔ b ∈ h.live ∧ b ∉ Heap.addrs nodes := by
  induction nodes generalizing h prev head fuel with
  | nil =>
      obtain ⟨rfl, -⟩ := hSeg
      refine ⟨h, ?_, fun b => by simp⟩
      cases fuel <;> rfl
  | cons node nodes ih =>
      obtain ⟨rfl, c, hCell, -, -, hRest⟩ := hSeg
      obtain ⟨hFirst, hNodup⟩ := List.nodup_cons.mp hNodup
      obtain ⟨h1, hFree, hCells, hLive⟩ := Heap.free_eq hCell
      cases fuel with
      | zero => simp at hFuel
      | succ fuel =>
          have hRest1 : h1.Segment (some node.1) c.next nodes last none := by
            apply hRest.frame
            intro b hb
            have hNe : b ≠ node.1 := by
              rintro rfl
              exact hFirst hb
            rw [hCells, Function.update_of_ne hNe]
          obtain ⟨h2, hFreed, hLive2⟩ :=
            ih hRest1 hNodup (Nat.le_of_succ_le_succ hFuel)
          refine ⟨h2, ?_, fun b => ?_⟩
          · simp only [freeList, hCell, hFree, hFreed, Option.bind_eq_bind,
              Option.bind_some]
            rfl
          · rw [hLive2, hLive, h.nodup.mem_erase_iff]
            show (b ≠ node.1 ∧ b ∈ h.live) ∧ b ∉ Heap.addrs nodes ↔
              b ∈ h.live ∧ b ∉ node.1 :: Heap.addrs nodes
            rw [List.mem_cons, not_or]
            tauto

end Loops

/-! ## Calls on the list -/

/-- The heap of a book is the list of some nodes. -/
def HoldsNodes (s : Book) (nodes : List (Addr × Abonent)) : Prop :=
  s.heap.Holds s.head nodes

section Calls

variable {s : Book} {nodes : List (Addr × Abonent)}

theorem append_eq (hHolds : HoldsNodes s nodes) {newNode : Addr}
    (data : Abonent) (hFresh : newNode ∉ s.heap.live) :
    ∃ s', append s newNode data = some s' ∧
      HoldsNodes s' (nodes ++ [(newNode, data)]) := by
  have hHolds' : s.heap.Holds s.head nodes := hHolds
  obtain ⟨last, hSeg⟩ := hHolds'.linked
  cases nodes with
  | nil =>
      obtain ⟨h', hAlloc, hNext⟩ := hHolds'.link_first (x := data) hFresh
      refine ⟨⟨h', some newNode⟩, ?_, hNext⟩
      simp only [append, hAlloc, hSeg.1, Option.bind_eq_bind,
        Option.bind_some]
  | cons node nodes =>
      obtain ⟨l, h1, h2, h3, hAlloc, hSeg1, hLink1, hLink2, hNext⟩ :=
        hHolds'.link_last (x := data) (List.cons_ne_nil _ _) hFresh
      have hFuel : (node :: nodes).length ≤ h1.live.length := by
        have hOld := hHolds'.length_live
        obtain ⟨h', hAlloc', -, hLive⟩ :=
          Heap.alloc_eq ⟨data, none, none⟩ hFresh
        obtain rfl := Option.some.inj (hAlloc.symm.trans hAlloc')
        simp only [hLive, List.length_cons] at hOld ⊢
        omega
      have hLast := lastNode_eq (hSeg1.1 ▸ hSeg1) hFuel
      refine ⟨⟨h3, s.head⟩, ?_, hNext⟩
      simp only [append, hAlloc, hSeg.1, hLast, hLink1, hLink2,
        Option.bind_eq_bind, Option.bind_some]

/-- The two branches together: the node is taken out and freed. -/
theorem unlink_eq {xs ys : List (Addr × Abonent)} {a : Addr} {x : Abonent}
    (hHolds : HoldsNodes s (xs ++ (a, x) :: ys)) :
    ∃ s1 h, unlink s a = some s1 ∧ s1.heap.free a = some h ∧
      HoldsNodes ⟨h, s1.head⟩ (xs ++ ys) := by
  have hHolds' : s.heap.Holds s.head (xs ++ (a, x) :: ys) := hHolds
  cases xs with
  | nil =>
      obtain ⟨hHead, c, h1, h2, hCell, hLink, hFree, hNext⟩ :=
        Heap.Holds.unlink_first hHolds'
      refine ⟨⟨h1, c.next⟩, h2, ?_, hFree, hNext⟩
      simp only [unlink, hCell, hHead, hLink, if_true, Option.bind_eq_bind,
        Option.bind_some]
  | cons node xs =>
      obtain ⟨hHead, c, h1, h2, h3, hCell, hLink1, hCell1, hLink2, hFree,
        hNext⟩ := hHolds'.unlink_inner (List.cons_ne_nil _ _)
      refine ⟨⟨h2, s.head⟩, h3, ?_, hFree, hNext⟩
      simp only [unlink, hCell, if_neg hHead, hLink1, hCell1, hLink2,
        Option.bind_eq_bind, Option.bind_some]

theorem deleteAbonent_eq (hHolds : HoldsNodes s nodes) (index : Int) :
    ∃ s', deleteAbonent s index = some s' ∧
      HoldsNodes s' (eraseAt nodes index) := by
  have hHolds' : s.heap.Holds s.head nodes := hHolds
  obtain ⟨last, hSeg⟩ := hHolds'.linked
  by_cases hSkip : s.head = none ∨ index ≤ 0
  · have hSame : eraseAt nodes index = nodes := by
      apply if_neg
      rintro ⟨hLow, hHigh⟩
      rcases hSkip with hNone | hZero
      · cases nodes with
        | nil =>
            rw [List.length_nil] at hHigh
            omega
        | cons node nodes =>
            rw [hSeg.1] at hNone
            contradiction
      · omega
    refine ⟨s, if_pos hSkip, ?_⟩
    rw [hSame]
    exact hHolds
  · have hFind := findNode_eq hSeg (index.toNat - 1)
    have hLow : 1 ≤ index := by omega
    by_cases hHigh : index ≤ nodes.length
    · have hAt : index.toNat - 1 < nodes.length := by omega
      obtain ⟨xs, ⟨a, x⟩, ys, rfl, hLen⟩ : ∃ xs node ys,
          nodes = xs ++ node :: ys ∧ xs.length = index.toNat - 1 :=
        ⟨nodes.take (index.toNat - 1), nodes[index.toNat - 1],
          nodes.drop (index.toNat - 1 + 1),
          by rw [← List.drop_eq_getElem_cons hAt, List.take_append_drop],
          by rw [List.length_take]; omega⟩
      have hErase : eraseAt (xs ++ (a, x) :: ys) index = xs ++ ys := by
        rw [eraseAt, if_pos ⟨hLow, hHigh⟩, ← hLen,
          List.eraseIdx_append_of_length_le (Nat.le_refl _), Nat.sub_self,
          List.eraseIdx_cons_zero]
      have hAddr : (Heap.addrs (xs ++ (a, x) :: ys))[index.toNat - 1]? =
          some a := by
        simp [Heap.addrs, ← hLen]
      obtain ⟨s1, h, hUnlink, hFree, hNext⟩ := unlink_eq hHolds
      refine ⟨⟨h, s1.head⟩, ?_, ?_⟩
      · simp only [deleteAbonent, if_neg hSkip, hFind, hAddr, hUnlink, hFree,
          Option.bind_eq_bind, Option.bind_some]
      · rw [hErase]
        exact hNext
    · have hAddr : (Heap.addrs nodes)[index.toNat - 1]? = none := by
        rw [List.getElem?_eq_none_iff, List.length_map]
        omega
      refine ⟨s, ?_, ?_⟩
      · simp only [deleteAbonent, if_neg hSkip, hFind, hAddr,
          Option.bind_eq_bind, Option.bind_some]
      · rw [eraseAt, if_neg fun hBoth => hHigh hBoth.2]
        exact hHolds

end Calls

/-! ## Whole runs -/

/-- What is meant by a book with its nodes at `addrs`, from the head on, and
the subscribers `book`. -/
structure Linked (s : Book) (addrs : List Addr) (book : List Abonent) :
    Prop where
  /-- The links lead from the head through the nodes to the end. -/
  path : s.heap.Path s.head addrs
  /-- No node comes twice. -/
  acyclic : addrs.Nodup
  /-- The first node has no predecessor. -/
  headPrev : ∀ a c, s.head = some a → s.heap.cells a = some c → c.prev = none
  /-- `next` and `prev` agree. -/
  mirrored : ∀ a b c d, s.heap.cells a = some c → s.heap.cells b = some d →
    (c.next = some b ↔ d.prev = some a)
  /-- The nodes have the subscribers, in order. -/
  data : addrs.map (fun a => (s.heap.cells a).map Cell.data) = book.map some
  /-- Nothing else is allocated. -/
  live : ∀ a, a ∈ s.heap.live ↔ a ∈ addrs
  /-- `FreeList` frees each node once, and nothing is left. -/
  freed : ∃ h, freeList s.heap.live.length s.heap s.head = some (h, addrs) ∧
    h.live = []

theorem linked_of_holdsNodes {s : Book} {nodes : List (Addr × Abonent)}
    (hHolds : HoldsNodes s nodes) :
    Linked s (Heap.addrs nodes) (nodes.map Prod.snd) := by
  have hHolds' : s.heap.Holds s.head nodes := hHolds
  obtain ⟨last, hSeg⟩ := hHolds'.linked
  constructor
  · exact hSeg.path
  · exact hHolds'.nodup
  · intro a c hHead hCell
    exact hHolds'.head_prev hHead hCell
  · intro a b c d hC hD
    exact hHolds'.next_iff_prev hC hD
  · rw [Heap.addrs, List.map_map, List.map_map]
    apply List.map_congr_left
    intro node hNode
    obtain ⟨c, hCell, hData⟩ := hSeg.cell hNode
    simp [hCell, hData]
  · exact hHolds'.live
  · obtain ⟨h, hFreed, hLive⟩ := freeList_eq hSeg hHolds'.nodup
      (Nat.le_of_eq hHolds'.length_live.symm)
    refine ⟨h, hFreed, List.eq_nil_iff_forall_not_mem.mpr fun b hb => ?_⟩
    obtain ⟨hOld, hNot⟩ := (hLive b).mp hb
    exact hNot ((hHolds'.live b).mp hOld)

/-- One call: it is defined, and does to the nodes what it does to the plain
list. -/
theorem phoneStep_holdsNodes {s : Book} {nodes : List (Addr × Abonent)}
    (hHolds : HoldsNodes s nodes) {call : Call} (hFresh : MallocFresh s call) :
    ∃ s' nodes', phoneStep s call = some s' ∧ HoldsNodes s' nodes' ∧
      nodes'.map Prod.snd = edit (nodes.map Prod.snd) call := by
  cases call with
  | append newNode data =>
      obtain ⟨s', hStep, hNext⟩ := append_eq hHolds data hFresh
      exact ⟨s', _, hStep, hNext, List.map_append⟩
  | delete index =>
      obtain ⟨s', hStep, hNext⟩ := deleteAbonent_eq hHolds index
      exact ⟨s', _, hStep, hNext, (eraseAt_map Prod.snd nodes index).symm⟩

theorem run_holdsNodes {s : Book} {nodes : List (Addr × Abonent)}
    {calls : List Call} (hHolds : HoldsNodes s nodes)
    (hMalloc : phoneBook.EachStep MallocFresh s calls) :
    ∃ s' nodes', phoneBook.run s calls = some s' ∧ HoldsNodes s' nodes' ∧
      nodes'.map Prod.snd = calls.foldl edit (nodes.map Prod.snd) := by
  induction calls generalizing s nodes with
  | nil => exact ⟨s, nodes, rfl, hHolds, rfl⟩
  | cons call calls ih =>
      obtain ⟨hFresh, hRest⟩ := hMalloc
      obtain ⟨s1, nodes1, hStep, hHolds1, hData1⟩ :=
        phoneStep_holdsNodes hHolds hFresh
      obtain ⟨s2, nodes2, hRun, hHolds2, hData2⟩ :=
        ih hHolds1 (hRest s1 hStep)
      refine ⟨s2, nodes2, ?_, hHolds2, ?_⟩
      · rw [Machine.run_cons]
        exact Option.bind_eq_some_iff.mpr ⟨s1, hStep, hRun⟩
      · rw [hData2, hData1, List.foldl_cons]

/-- **The phone book is the list.**  Any calls on an empty book are defined,
and leave a list in both directions with the data of the plain list. -/
theorem phoneBook_refines {calls : List Call}
    (hMalloc : phoneBook.EachStep MallocFresh Book.start calls) :
    ∃ s addrs, phoneBook.run Book.start calls = some s ∧
      Linked s addrs (calls.foldl edit []) := by
  obtain ⟨s, nodes, hRun, hHolds, hData⟩ :=
    run_holdsNodes (show HoldsNodes Book.start [] from Heap.holds_empty)
      hMalloc
  refine ⟨s, Heap.addrs nodes, hRun, ?_⟩
  rw [List.map_nil] at hData
  exact hData ▸ linked_of_holdsNodes hHolds

instance (s : Book) (call : Call) : Decidable (MallocFresh s call) := by
  cases call <;> unfold MallocFresh <;> infer_instance

/-- A subscriber with one letter for each field. -/
def subscriber (c : UInt8) : Abonent where
  name := (CharArray.zeros 10).set 0 c
  secondName := (CharArray.zeros 10).set 0 c
  tel := (CharArray.zeros 10).set 0 c

/-- Three subscribers, of which the one in the middle, the first and the last
are deleted; a block is used twice, and two indices are out of range. -/
theorem phoneBook_refines_deletions :
    ∃ s addrs, phoneBook.run Book.start
        [.append 16 (subscriber 65), .append 48 (subscriber 66),
          .append 32 (subscriber 67), .delete 2, .append 48 (subscriber 68),
          .delete 0, .delete 9, .delete 1, .delete 2] = some s ∧
      Linked s addrs [subscriber 67] :=
  phoneBook_refines (by decide +kernel)

end UnixHomework.Ports.PhoneList
