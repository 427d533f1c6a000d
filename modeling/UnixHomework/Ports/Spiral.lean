import UnixHomework.Verified.Loops
import UnixHomework.Verified.Numbering
import Mathlib.Data.List.Perm.Subperm
import Mathlib.Data.List.ProdSigma

/-!
# The spiral matrix

`fourthTask` fills a matrix from its border inwards.  Each turn of its loop
goes once around: along the upper row, down the right column, back along the
lower row and up the left column, and moves the four bounds in between.  The
size `N` is a constant of the program and a parameter here.

The cells are written ring by ring (`rings`), each once and each next to the one
before.  The values are of type `int`: `value++` is undefined
at `INT_MAX`, which a matrix of more than 46340 rows reaches
(`spiral_filled_iff`).
-/

namespace UnixHomework.Ports.Spiral

open UnixHomework.Verified

/-- `INT_MAX`. -/
def intMax : Nat := 2147483647

/-- A row and a column. -/
abbrev Cell := Int × Int

/-- The cell is in the matrix. -/
def Inside (n : Nat) (p : Cell) : Prop :=
  0 ≤ p.1 ∧ p.1 < n ∧ 0 ≤ p.2 ∧ p.2 < n

instance (n : Nat) (p : Cell) : Decidable (Inside n p) :=
  inferInstanceAs (Decidable (_ ∧ _))

/-- `matrix`, which is not initialised, and `value`; `written` records the
assignments in their order. -/
structure Filling where
  /-- What has been assigned. -/
  matrix : Cell → Option Nat
  /-- The next number. -/
  value : Nat
  /-- The cells, in the order of their assignments. -/
  written : List Cell

/-- `matrix[i][j] = value++`, undefined outside the array and where the value
would overflow. -/
def assign (n : Nat) (m : Filling) (p : Cell) : Option Filling :=
  if Inside n p ∧ m.value < intMax then
    some
      { matrix := Function.update m.matrix p (some m.value)
        value := m.value + 1
        written := m.written ++ [p] }
  else none

/-- The assignments of a `for` loop over a part of a row. -/
def fillRow (n : Nat) (m : Filling) (row : Int) (columns : List Int) :
    Option Filling :=
  columns.foldlM (fun m i => assign n m (row, i)) m

/-- The same over a part of a column. -/
def fillColumn (n : Nat) (m : Filling) (column : Int) (rows : List Int) :
    Option Filling :=
  rows.foldlM (fun m i => assign n m (i, column)) m

/-- The variables of `fourthTask`. -/
structure State where
  rowStart : Int
  rowEnd : Int
  colStart : Int
  colEnd : Int
  fill : Filling

/-- The body of the `while` loop: four `for` loops, of which the last two are
under an `if`, and the four bounds moved in between. -/
def turn (n : Nat) (s : State) : Option State := do
  let m ← fillRow n s.fill s.rowStart (upTo s.colStart s.colEnd)
  let rowStart := s.rowStart + 1
  let m ← fillColumn n m s.colEnd (upTo rowStart s.rowEnd)
  let colEnd := s.colEnd - 1
  let (m, rowEnd) ←
    if rowStart ≤ s.rowEnd then do
      let m ← fillRow n m s.rowEnd (downTo colEnd s.colStart)
      some (m, s.rowEnd - 1)
    else some (m, s.rowEnd)
  let (m, colStart) ←
    if s.colStart ≤ colEnd then do
      let m ← fillColumn n m s.colStart (downTo rowEnd rowStart)
      some (m, s.colStart + 1)
    else some (m, s.colStart)
  some ⟨rowStart, rowEnd, colStart, colEnd, m⟩

/-- `fourthTask`, up to the loops that print. -/
def fourthTask (n : Nat) : Loop State where
  cond s := s.rowStart ≤ s.rowEnd && s.colStart ≤ s.colEnd
  body := turn n

/-- The variables before the loop. -/
def start (n : Nat) : State where
  rowStart := 0
  rowEnd := n - 1
  colStart := 0
  colEnd := n - 1
  fill :=
    { matrix := fun _ => none
      value := 1
      written := [] }

/-! ## What is asked for -/

/-- The ring of a cell, counted from the border. -/
def depth (n : Nat) (p : Cell) : Int :=
  min (min p.1 p.2) (min (n - 1 - p.1) (n - 1 - p.2))

/-- The cells have a side in common. -/
def Adjacent (p q : Cell) : Prop :=
  (p.1 = q.1 ∧ (q.2 = p.2 + 1 ∨ p.2 = q.2 + 1)) ∨
    (p.2 = q.2 ∧ (q.1 = p.1 + 1 ∨ p.1 = q.1 + 1))

/-- The matrix is a spiral of the values from 1 to `n * n`. -/
structure Filled (n : Nat) (m : Filling) : Prop where
  /-- Nothing is written outside the array. -/
  inside : ∀ p ∈ m.written, Inside n p
  /-- Every cell is written once. -/
  once : ∀ p, Inside n p → m.written.count p = 1
  /-- The values are the numbers from 1 on, -/
  values : ∀ v, (∃ p, Inside n p ∧ m.matrix p = some v) ↔ 0 < v ∧ v ≤ n * n
  /-- and every cell has one. -/
  cells : ∀ p, Inside n p → ∃ v, m.matrix p = some v
  /-- It begins in the upper left corner, -/
  corner : m.matrix (0, 0) = some 1
  /-- goes on to a neighbour each time, -/
  adjacent : ∀ p q v, m.matrix p = some v → m.matrix q = some (v + 1) →
    Adjacent p q
  /-- and finishes a ring before the next one inwards. -/
  rings : ∀ p q v w, m.matrix p = some v → m.matrix q = some w →
    depth n p < depth n q → v < w

/-- The loop ends, with the matrix filled, and nothing undefined has
happened. -/
def FillsSpirally (n : Nat) : Prop :=
  ∃ s, (fourthTask n).EndsIn (start n) s ∧ Filled n s.fill

/-! ## Assignments one after the other -/

def assignAll (n : Nat) (m : Filling) (cells : List Cell) : Option Filling :=
  cells.foldlM (assign n) m

theorem assignAll_append (n : Nat) (m : Filling) (front rest : List Cell) :
    assignAll n m (front ++ rest) =
      (assignAll n m front).bind fun m => assignAll n m rest :=
  List.foldlM_append

theorem fillRow_eq (n : Nat) (m : Filling) (row : Int) (columns : List Int) :
    fillRow n m row columns = assignAll n m (columns.map fun i => (row, i)) :=
  (List.foldlM_map ..).symm

theorem fillColumn_eq (n : Nat) (m : Filling) (column : Int)
    (rows : List Int) :
    fillColumn n m column rows =
      assignAll n m (rows.map fun i => (i, column)) :=
  (List.foldlM_map ..).symm

/-- The cells are numbered in the order in which they were written. -/
structure Numbered (m : Filling) : Prop where
  /-- No cell was written twice. -/
  nodup : m.written.Nodup
  /-- A cell has the number of its place in the list. -/
  matrix : m.matrix = number m.written
  /-- `value` is the number of the next one, -/
  value : m.value = m.written.length + 1
  /-- and still of type `int`. -/
  inInt : m.value ≤ intMax

/-- One assignment to a new cell. -/
theorem Numbered.assign {n : Nat} {m : Filling} (h : Numbered m) {p : Cell}
    (hInside : Inside n p) (hNew : (m.written ++ [p]).Nodup)
    (hMax : m.value < intMax) :
    ∃ m', assign n m p = some m' ∧ Numbered m' ∧
      m'.written = m.written ++ [p] ∧ m'.value = m.value + 1 := by
  refine ⟨_, if_pos ⟨hInside, hMax⟩, ⟨hNew, ?_, ?_, hMax⟩, rfl, rfl⟩
  · rw [h.matrix, h.value, number_concat hNew]
  · rw [h.value, List.length_append, List.length_singleton]

/-- **New cells** get the next numbers, as long as these are values of type
`int`. -/
theorem Numbered.assignAll_eq {n : Nat} {m : Filling} (h : Numbered m)
    {cells : List Cell} (hInside : ∀ p ∈ cells, Inside n p)
    (hNew : (m.written ++ cells).Nodup) :
    (m.value + cells.length ≤ intMax →
      ∃ m', assignAll n m cells = some m' ∧ Numbered m' ∧
        m'.written = m.written ++ cells) ∧
    (intMax < m.value + cells.length → assignAll n m cells = none) := by
  induction cells generalizing m with
  | nil =>
      constructor
      · intro _
        exact ⟨m, rfl, h, (List.append_nil _).symm⟩
      · intro hOver
        exact absurd h.inInt (Nat.not_le.mpr hOver)
  | cons p cells ih =>
      rw [List.append_cons] at hNew
      rw [List.length_cons, assignAll, List.foldlM_cons]
      by_cases hMax : m.value < intMax
      · rcases h.assign (hInside p List.mem_cons_self) hNew.of_append_left
          hMax with ⟨next, hAssign, hNext, hWritten, hValue⟩
        rw [← hWritten] at hNew
        have hRest := ih hNext
          (fun q hq => hInside q (List.mem_cons_of_mem p hq)) hNew
        rw [hAssign, Option.bind_eq_bind, Option.bind_some]
        constructor
        · intro hLe
          rcases hRest.1 (by omega) with ⟨m', hAll, hNumbered, hEnd⟩
          rw [hWritten, ← List.append_cons] at hEnd
          exact ⟨m', hAll, hNumbered, hEnd⟩
        · intro hOver
          exact hRest.2 (by omega)
      · have hAssign : Spiral.assign n m p = none :=
          if_neg fun hAnd => hMax hAnd.2
        rw [hAssign]
        constructor
        · intro hLe
          exact absurd hLe (by omega)
        · exact fun _ => rfl

/-! ## Rings -/

/-- The cells of a ring in the order of a turn: the upper row, the right
column, the lower row and the left column. -/
def ring (lo hi : Int) : List Cell :=
  (upTo lo hi).map (fun i => (lo, i)) ++
    ((upTo (lo + 1) hi).map (fun i => (i, hi)) ++
      ((downTo (hi - 1) lo).map (fun i => (hi, i)) ++
        (downTo (hi - 1) (lo + 1)).map (fun i => (i, lo))))

/-- The four bounds are those of a square. -/
structure State.IsFrame (s : State) (lo hi : Int) : Prop where
  rowStart : s.rowStart = lo
  rowEnd : s.rowEnd = hi
  colStart : s.colStart = lo
  colEnd : s.colEnd = hi

/-- The bounds after a turn.  A ring that is a single cell has no lower row
and no left column. -/
def bounds (lo hi : Int) (m : Filling) : State :=
  if lo < hi then ⟨lo + 1, hi - 1, lo + 1, hi - 1, m⟩
  else ⟨lo + 1, hi, lo, hi - 1, m⟩

/-- **One turn** of the loop writes a ring.  The four `for` loops are the four
sides, and `ring` leaves the corners to the first side that has them. -/
theorem turn_eq {n : Nat} {s : State} {lo hi : Int} (h : s.IsFrame lo hi)
    (hLe : lo ≤ hi) :
    turn n s = (assignAll n s.fill (ring lo hi)).map (bounds lo hi) := by
  simp only [turn, h.rowStart, h.rowEnd, h.colStart, h.colEnd, fillRow_eq,
    fillColumn_eq, ring, assignAll_append, Option.bind_eq_bind,
    Option.map_bind]
  congr 1
  funext m1
  rcases Int.lt_or_eq_of_le hLe with hLess | rfl
  · simp only [Int.add_one_le_of_lt hLess, Int.le_sub_one_of_lt hLess,
      if_true, Option.bind_some, Function.comp_def, Option.map_bind]
    congr 1
    funext m2
    congr 1
    funext m3
    rw [Option.map_eq_bind]
    congr 1
    funext m4
    exact congrArg some (if_pos hLess).symm
  · have hRow : ¬lo + 1 ≤ lo := by omega
    have hColumn : ¬lo ≤ lo - 1 := by omega
    have hRight : upTo (lo + 1) lo = [] := upTo_of_lt (by omega)
    have hBottom : downTo (lo - 1) lo = [] :=
      congrArg List.reverse (upTo_of_lt (by omega))
    have hLeft : downTo (lo - 1) (lo + 1) = [] :=
      congrArg List.reverse (upTo_of_lt (by omega))
    simp only [if_neg hRow, if_neg hColumn, hRight, hBottom, hLeft,
      List.map_nil]
    exact congrArg some (if_neg (Int.lt_irrefl lo)).symm

/-! ## The walk -/

/-- The first `k` rings of the matrix, the outer ones first: the order in which
the cells have been filled after so many turns. -/
def rings (n k : Nat) : List Cell :=
  (List.range k).flatMap fun (j : Nat) => ring j (n - 1 - j)

theorem rings_succ (n k : Nat) :
    rings n (k + 1) = rings n k ++ ring k (n - 1 - k) := by
  rw [rings, List.range_succ, List.flatMap_append, List.flatMap_singleton,
    rings]

section Walk

variable {n k : Nat} {lo hi : Int} {p : Cell}

theorem mem_ring_iff :
    p ∈ ring k (n - 1 - k) ↔ Inside n p ∧ depth n p = k := by
  rcases p with ⟨r, c⟩
  simp only [ring, List.mem_append, List.mem_map, mem_upTo, mem_downTo,
    Prod.mk.injEq, Inside, depth]
  constructor
  · rintro (⟨i, hi, rfl, rfl⟩ | ⟨i, hi, rfl, rfl⟩ | ⟨i, hi, rfl, rfl⟩ |
      ⟨i, hi, rfl, rfl⟩) <;> omega
  · rintro ⟨hInside, hDepth⟩
    by_cases hTop : r = k
    · exact Or.inl ⟨c, by omega, by omega, rfl⟩
    · by_cases hRight : c = n - 1 - k
      · exact Or.inr (Or.inl ⟨r, by omega, rfl, by omega⟩)
      · by_cases hBottom : r = n - 1 - k
        · exact Or.inr (Or.inr (Or.inl ⟨c, by omega, by omega, rfl⟩))
        · exact Or.inr (Or.inr (Or.inr ⟨r, by omega, rfl, by omega⟩))

theorem mem_rings_iff : p ∈ rings n k ↔ Inside n p ∧ depth n p < k := by
  rw [rings, List.mem_flatMap]
  constructor
  · rintro ⟨j, hj, hRing⟩
    rcases mem_ring_iff.mp hRing with ⟨hInside, hDepth⟩
    rw [List.mem_range] at hj
    exact ⟨hInside, by omega⟩
  · rintro ⟨hInside, hDepth⟩
    have hPos : 0 ≤ depth n p := by
      simp only [Inside, depth] at hInside ⊢
      omega
    refine ⟨(depth n p).toNat, List.mem_range.mpr (by omega), ?_⟩
    rw [Int.toNat_of_nonneg hPos]
    have hRing := (mem_ring_iff (k := (depth n p).toNat)).mpr
      ⟨hInside, (Int.toNat_of_nonneg hPos).symm⟩
    rw [Int.toNat_of_nonneg hPos] at hRing
    exact hRing

/-- Half of the rings are all. -/
theorem mem_rings_of_le (hLe : n ≤ 2 * k) : p ∈ rings n k ↔ Inside n p := by
  rw [mem_rings_iff]
  refine and_iff_left_of_imp fun hInside => ?_
  simp only [Inside, depth] at hInside ⊢
  omega

theorem nodup_ring : (ring lo hi).Nodup := by
  have hRow : ∀ (r : Int) {is : List Int}, is.Nodup →
      (is.map fun i => (r, i)).Nodup :=
    fun r is h => h.map fun i j hSame => (Prod.mk.inj hSame).2
  have hColumn : ∀ (c : Int) {is : List Int}, is.Nodup →
      (is.map fun i => (i, c)).Nodup :=
    fun c is h => h.map fun i j hSame => (Prod.mk.inj hSame).1
  have hTop := hRow lo (nodup_upTo lo hi)
  have hRight := hColumn hi (nodup_upTo (lo + 1) hi)
  have hBottom := hRow hi (nodup_downTo (hi - 1) lo)
  have hLeft := hColumn lo (nodup_downTo (hi - 1) (lo + 1))
  rw [ring, List.nodup_append, List.nodup_append, List.nodup_append]
  refine ⟨hTop, ⟨hRight, ⟨hBottom, hLeft, ?_⟩, ?_⟩, ?_⟩ <;>
    · intro p hp q hq hSame
      subst hSame
      simp only [List.mem_append, List.mem_map, mem_upTo, mem_downTo] at hp hq
      grind

theorem nodup_rings : (rings n k).Nodup := by
  rw [rings, List.nodup_flatMap]
  refine ⟨fun j _ => nodup_ring, ?_⟩
  refine List.nodup_range.imp_of_mem fun {i j} _ _ hDiff => ?_
  show List.Disjoint (ring i (n - 1 - i)) (ring j (n - 1 - j))
  rw [List.disjoint_left]
  intro p hi hj
  have hSame := (mem_ring_iff.mp hi).2.symm.trans (mem_ring_iff.mp hj).2
  exact hDiff (Int.ofNat.inj hSame)

/-- Inner rings come later. -/
theorem sorted_rings :
    (rings n k).Pairwise fun p q => depth n p ≤ depth n q := by
  rw [rings, List.pairwise_flatMap]
  constructor
  · intro j _
    refine List.pairwise_of_forall_mem_list fun p hp q hq => ?_
    rw [(mem_ring_iff.mp hp).2, (mem_ring_iff.mp hq).2]
  · refine List.pairwise_lt_range.imp fun {i j} hLess p hp q hq => ?_
    rw [(mem_ring_iff.mp hp).2, (mem_ring_iff.mp hq).2]
    omega

theorem length_rings_le : (rings n k).length ≤ n * n := by
  have hSub : rings n k ⊆ upTo 0 (n - 1) ×ˢ upTo 0 (n - 1) := by
    intro p hp
    have hInside := (mem_rings_iff.mp hp).1
    rw [Inside] at hInside
    rw [List.mem_product, mem_upTo, mem_upTo]
    omega
  have hLength := (nodup_rings.subperm hSub).length_le
  rw [List.length_product, length_upTo] at hLength
  simpa using hLength

theorem length_rings (hLe : n ≤ 2 * k) : (rings n k).length = n * n := by
  refine Nat.le_antisymm length_rings_le ?_
  have hSub : upTo 0 (n - 1) ×ˢ upTo 0 (n - 1) ⊆ rings n k := by
    intro p hp
    rw [List.mem_product, mem_upTo, mem_upTo] at hp
    rw [mem_rings_of_le hLe, Inside]
    omega
  have hNodup := (nodup_upTo 0 ((n : Int) - 1)).product
    (nodup_upTo 0 ((n : Int) - 1))
  have hLength := (hNodup.subperm hSub).length_le
  rw [List.length_product, length_upTo] at hLength
  simpa using hLength

/-- The ends of the part of a side. -/
theorem mem_head?_side {is : List Int} {f : Int → Cell}
    (h : p ∈ (is.map f).head?) : ∃ i ∈ is.head?, f i = p := by
  rw [List.head?_map] at h
  exact Option.map_eq_some_iff.mp h

theorem mem_getLast?_side {is : List Int} {f : Int → Cell}
    (h : p ∈ (is.map f).getLast?) : ∃ i ∈ is.getLast?, f i = p := by
  rw [List.getLast?_map] at h
  exact Option.map_eq_some_iff.mp h

theorem upSide_isChain (f : Int → Cell)
    (hf : ∀ i, Adjacent (f i) (f (i + 1))) (a b : Int) :
    ((upTo a b).map f).IsChain Adjacent := by
  refine List.isChain_map_of_isChain f ?_ (upTo_isChain a b)
  rintro i j rfl
  exact hf i

theorem downSide_isChain (f : Int → Cell)
    (hf : ∀ i, Adjacent (f (i + 1)) (f i)) (a b : Int) :
    ((downTo a b).map f).IsChain Adjacent := by
  refine List.isChain_map_of_isChain f ?_ (downTo_isChain a b)
  rintro i j rfl
  exact hf j

/-- The first cell of a ring is its corner, and the last one is below it. -/
theorem mem_head?_ring (hLe : lo ≤ hi) (h : p ∈ (ring lo hi).head?) :
    p = (lo, lo) := by
  rw [ring, upTo_cons hLe, List.map_cons, List.cons_append, List.head?_cons]
    at h
  exact (Option.some.inj h).symm

theorem mem_getLast?_ring (hLess : lo < hi) (h : p ∈ (ring lo hi).getLast?) :
    p = (lo + 1, lo) := by
  have hBottom : (downTo (hi - 1) lo).map (fun i => (hi, i)) ≠ [] := by
    rw [downTo, upTo_cons (by omega)]
    simp
  rw [ring, List.getLast?_append_of_ne_nil _ (by simp [hBottom]),
    List.getLast?_append_of_ne_nil _ (by simp [hBottom])] at h
  by_cases hFlat : hi = lo + 1
  · -- two rows: the left column has no cell of its own
    have hLeft : downTo (hi - 1) (lo + 1) = [] :=
      congrArg List.reverse (upTo_of_lt (by omega))
    rw [hLeft, List.map_nil, List.append_nil] at h
    rcases mem_getLast?_side h with ⟨i, hi', rfl⟩
    rw [mem_getLast?_downTo hi', hFlat]
  · have hLeft : (downTo (hi - 1) (lo + 1)).map (fun i => (i, lo)) ≠ [] := by
      rw [downTo, upTo_cons (by omega)]
      simp
    rw [List.getLast?_append_of_ne_nil _ hLeft] at h
    rcases mem_getLast?_side h with ⟨i, hi', rfl⟩
    rw [mem_getLast?_downTo hi']

/-- A ring is walked along, each side and from side to side. -/
theorem ring_isChain : (ring lo hi).IsChain Adjacent := by
  have hTop := upSide_isChain (fun i => (lo, i))
    (fun i => Or.inl ⟨rfl, Or.inl rfl⟩) lo hi
  have hRight := upSide_isChain (fun i => (i, hi))
    (fun i => Or.inr ⟨rfl, Or.inl rfl⟩) (lo + 1) hi
  have hBottom := downSide_isChain (fun i => (hi, i))
    (fun i => Or.inl ⟨rfl, Or.inr rfl⟩) (hi - 1) lo
  have hLeft := downSide_isChain (fun i => (i, lo))
    (fun i => Or.inr ⟨rfl, Or.inr rfl⟩) (hi - 1) (lo + 1)
  by_cases hLess : lo < hi
  · have hRightCells : (upTo (lo + 1) hi).map (fun i => (i, hi)) ≠ [] := by
      rw [upTo_cons (by omega)]
      exact List.cons_ne_nil _ _
    have hBottomCells : (downTo (hi - 1) lo).map (fun i => (hi, i)) ≠ [] := by
      rw [downTo, upTo_cons (by omega)]
      simp
    refine hTop.append (hRight.append (hBottom.append hLeft ?_) ?_) ?_
    · intro p hp q hq
      rcases mem_getLast?_side hp with ⟨i, hi', rfl⟩
      rcases mem_head?_side hq with ⟨j, hj, rfl⟩
      rw [mem_getLast?_downTo hi', mem_head?_downTo hj]
      exact Or.inr ⟨rfl, Or.inr (by show hi = hi - 1 + 1; omega)⟩
    · intro p hp q hq
      rw [List.head?_append_of_ne_nil _ hBottomCells] at hq
      rcases mem_getLast?_side hp with ⟨i, hi', rfl⟩
      rcases mem_head?_side hq with ⟨j, hj, rfl⟩
      rw [mem_getLast?_upTo hi', mem_head?_downTo hj]
      exact Or.inl ⟨rfl, Or.inr (by show hi = hi - 1 + 1; omega)⟩
    · intro p hp q hq
      rw [List.head?_append_of_ne_nil _ hRightCells] at hq
      rcases mem_getLast?_side hp with ⟨i, hi', rfl⟩
      rcases mem_head?_side hq with ⟨j, hj, rfl⟩
      rw [mem_getLast?_upTo hi', mem_head?_upTo hj]
      exact Or.inr ⟨rfl, Or.inl rfl⟩
  · -- a single cell, or none
    have hNone : ∀ {a b : Int}, b < a → downTo b a = [] :=
      fun h => congrArg List.reverse (upTo_of_lt h)
    rw [ring, upTo_of_lt (by omega : hi < lo + 1), hNone (by omega),
      hNone (by omega)]
    exact hTop.append .nil fun p _ q hq => absurd hq (by simp)

/-- **The rings are one walk**, because a ring ends below its corner and the
next one begins beside that cell. -/
theorem rings_isChain : (rings n k).IsChain Adjacent := by
  induction k with
  | zero => exact .nil
  | succ k ih =>
      rw [rings_succ]
      refine ih.append ring_isChain fun p hp q hq => ?_
      have hLe : (k : Int) ≤ n - 1 - k := by
        have hMem := (mem_ring_iff.mp (List.mem_of_mem_head? hq))
        rcases hMem with ⟨hInside, hDepth⟩
        simp only [Inside, depth] at hInside hDepth
        omega
      cases k with
      | zero => contradiction
      | succ k =>
          have hOuter : ring k (n - 1 - k) ≠ [] := by
            rw [ring, upTo_cons (by omega)]
            simp
          rw [rings_succ, List.getLast?_append_of_ne_nil _ hOuter] at hp
          rw [mem_getLast?_ring (by omega) hp, mem_head?_ring hLe hq]
          exact Or.inl ⟨rfl, Or.inl rfl⟩

end Walk

/-! ## The loop -/

/-- Before each turn so many rings have been written, and the bounds are
those of the next one; or all have been.  This is the invariant of the
`while` loop. -/
structure Progress (n : Nat) (s : State) : Prop where
  numbered : Numbered s.fill
  written : ∃ k, s.fill.written = rings n k ∧
    (s.IsFrame k (n - 1 - k) ∨ (fourthTask n).cond s = false ∧ n ≤ 2 * k)

section Turns

variable {n : Nat} {s : State}

theorem start_progress (n : Nat) : Progress n (start n) where
  numbered :=
    { nodup := List.nodup_nil
      matrix := rfl
      value := rfl
      inInt := (by decide : 1 ≤ intMax) }
  written := by
    refine ⟨0, rfl, Or.inl ⟨rfl, ?_, rfl, ?_⟩⟩
    · exact (Int.sub_zero _).symm
    · exact (Int.sub_zero _).symm

/-- The bounds after a turn are those of the next ring, or it was the last. -/
theorem bounds_frame {k : Nat} (hLe : (k : Int) ≤ n - 1 - k) (m : Filling) :
    (bounds k (n - 1 - k) m).IsFrame (k + 1 : Nat) (n - 1 - (k + 1 : Nat)) ∨
      (fourthTask n).cond (bounds k (n - 1 - k) m) = false ∧
        n ≤ 2 * (k + 1) := by
  by_cases hLess : (k : Int) < n - 1 - k
  · rw [bounds, if_pos hLess]
    left
    constructor
    · exact (Int.natCast_succ k).symm
    · show (n : Int) - 1 - k - 1 = _
      omega
    · exact (Int.natCast_succ k).symm
    · show (n : Int) - 1 - k - 1 = _
      omega
  · rw [bounds, if_neg hLess]
    right
    constructor
    · show (decide ((k : Int) + 1 ≤ n - 1 - k) && _) = false
      rw [decide_eq_false (by omega), Bool.false_and]
    · omega

/-- **One turn** writes the next ring, or `value++` is undefined, which is so
in a matrix with too many cells only.  The bounds come closer, so there are
only so many turns. -/
theorem Progress.turn_spec (h : Progress n s)
    (hCond : (fourthTask n).cond s = true) :
    (∃ next, turn n s = some next ∧ Progress n next ∧
      s.rowStart < next.rowStart ∧ next.rowEnd ≤ s.rowEnd ∧
        s.rowStart ≤ s.rowEnd) ∨
    (turn n s = none ∧ intMax ≤ n * n) := by
  rcases h.written with ⟨k, hWritten, hFrame | ⟨hDone, -⟩⟩
  · have hLe : (k : Int) ≤ n - 1 - k := by
      have hBoth := Bool.and_eq_true_iff.mp hCond
      rw [hFrame.rowStart, hFrame.rowEnd] at hBoth
      exact of_decide_eq_true hBoth.1
    have hNew : (s.fill.written ++ ring k (n - 1 - k)).Nodup := by
      rw [hWritten, ← rings_succ]
      exact nodup_rings
    have hSpec := h.numbered.assignAll_eq (n := n)
      (fun p hp => (mem_ring_iff.mp hp).1) hNew
    rw [turn_eq hFrame hLe]
    by_cases hMax : s.fill.value + (ring k (n - 1 - k)).length ≤ intMax
    · left
      rcases hSpec.1 hMax with ⟨m, hAll, hNumbered, hAfter⟩
      rw [hWritten, ← rings_succ] at hAfter
      have hFill : (bounds k (n - 1 - k) m).fill = m := by
        unfold bounds
        split <;> rfl
      refine ⟨_, by rw [hAll]; rfl, ⟨?_, k + 1, ?_, bounds_frame hLe m⟩, ?_⟩
      · rw [hFill]
        exact hNumbered
      · rw [hFill]
        exact hAfter
      · rw [hFrame.rowStart, hFrame.rowEnd, bounds]
        split
        · exact ⟨Int.lt_succ k, by show (n : Int) - 1 - k - 1 ≤ _; omega, hLe⟩
        · exact ⟨Int.lt_succ k, Int.le_refl _, hLe⟩
    · right
      have hOver := Nat.lt_of_not_le hMax
      refine ⟨by rw [hSpec.2 hOver]; rfl, ?_⟩
      have hLength := length_rings_le (n := n) (k := k + 1)
      rw [rings_succ, List.length_append, ← hWritten] at hLength
      rw [h.numbered.value] at hOver
      omega
  · rw [hDone] at hCond
    contradiction

/-- Behind the loop all rings have been written. -/
theorem Progress.written_all (h : Progress n s)
    (hCond : (fourthTask n).cond s = false) :
    ∃ k, s.fill.written = rings n k ∧ n ≤ 2 * k := by
  rcases h.written with ⟨k, hWritten, hFrame | ⟨-, hLe⟩⟩
  · refine ⟨k, hWritten, ?_⟩
    have hNot : ¬(k : Int) ≤ n - 1 - k := by
      intro hLe
      have hTrue : (fourthTask n).cond s = true := by
        show (decide (s.rowStart ≤ s.rowEnd) &&
          decide (s.colStart ≤ s.colEnd)) = true
        rw [hFrame.rowStart, hFrame.rowEnd, hFrame.colStart, hFrame.colEnd,
          decide_eq_true hLe, Bool.and_self]
      rw [hTrue] at hCond
      contradiction
    omega
  · exact ⟨k, hWritten, hLe⟩

/-- The matrix behind the loop.  All that is asked of it follows from the order
in which the cells were written. -/
theorem Progress.filled (hPos : 1 ≤ n) (h : Progress n s)
    (hCond : (fourthTask n).cond s = false) : Filled n s.fill := by
  rcases h.written_all hCond with ⟨k, hWritten, hLe⟩
  have hNodup := h.numbered.nodup
  have hMem : ∀ p, p ∈ s.fill.written ↔ Inside n p := by
    intro p
    rw [hWritten]
    exact mem_rings_of_le hLe
  have hCells : ∀ p v, s.fill.matrix p = some v → Inside n p := by
    intro p v hp
    rw [h.numbered.matrix] at hp
    rw [← hMem, ← number_isSome_iff, hp]
    rfl
  constructor
  · exact fun p hp => (hMem p).mp hp
  · intro p hp
    exact List.count_eq_one_of_mem hNodup ((hMem p).mpr hp)
  · intro v
    have hLength := length_rings hLe
    rw [← hWritten] at hLength
    rw [← hLength, ← exists_number_iff hNodup, ← h.numbered.matrix]
    constructor
    · rintro ⟨p, -, hp⟩
      exact ⟨p, hp⟩
    · rintro ⟨p, hp⟩
      exact ⟨p, hCells p v hp, hp⟩
  · intro p hp
    rw [h.numbered.matrix]
    exact Option.isSome_iff_exists.mp (number_isSome_iff.mpr ((hMem p).mpr hp))
  · rw [h.numbered.matrix, number_eq_some_iff hNodup, hWritten]
    refine ⟨Nat.one_pos, ?_⟩
    rcases k with _ | k
    · omega
    · rw [rings, List.range_succ_eq_map, List.flatMap_cons, ring,
        upTo_cons (by omega)]
      rfl
  · intro p q v hp hq
    rw [h.numbered.matrix] at hp hq
    exact number_succ_rel hNodup (hWritten ▸ rings_isChain) hp hq
  · intro p q v w hp hq hDepth
    rw [h.numbered.matrix] at hp hq
    exact number_lt hNodup (hWritten ▸ sorted_rings) hDepth hp hq

/-- The values of a larger matrix are not of type `int`. -/
theorem Progress.small (h : Progress n s)
    (hCond : (fourthTask n).cond s = false) : n * n < intMax := by
  rcases h.written_all hCond with ⟨k, hWritten, hLe⟩
  have hMax := h.numbered.inInt
  rw [h.numbered.value, hWritten, length_rings hLe] at hMax
  exact hMax

/-- What is known where the loop ends. -/
theorem endsIn_progress (h : (fourthTask n).EndsIn (start n) s) :
    Progress n s ∧ (fourthTask n).cond s = false := by
  refine Loop.EndsIn.invariant ?_ h (start_progress n)
  intro s next hProgress hCond hNext
  rcases hProgress.turn_spec hCond with ⟨next', hTurn, hNew, -⟩ | ⟨hNone, -⟩
  · have hSame : next' = next := Option.some.inj (hTurn.symm.trans hNext)
    exact hSame ▸ hNew
  · have hNever : none = some next := hNone.symm.trans hNext
    contradiction

/-- A loop whose values are of type `int` ends. -/
theorem ends_of_small (hSmall : n * n < intMax) :
    ∃ s, (fourthTask n).EndsIn (start n) s ∧ Progress n s ∧
      (fourthTask n).cond s = false := by
  refine Loop.endsIn_of_measure
    (m := fun s => (s.rowEnd + 1 - s.rowStart).toNat) ?_ (start_progress n)
  intro s hProgress hCond
  rcases hProgress.turn_spec hCond with
    ⟨next, hTurn, hNew, hRow, hEnd, hLe⟩ | ⟨-, hLarge⟩
  · exact ⟨next, hTurn, hNew, by omega⟩
  · exact absurd hSmall (Nat.not_lt.mpr hLarge)

end Turns

theorem mul_self_lt_intMax_iff (n : Nat) : n * n < intMax ↔ n ≤ 46340 := by
  constructor
  · intro hLess
    by_contra hNot
    have hMul := Nat.mul_le_mul (Nat.lt_of_not_le hNot) (Nat.lt_of_not_le hNot)
    exact absurd (Nat.lt_of_le_of_lt hMul hLess) (by decide)
  · intro hLe
    exact Nat.lt_of_le_of_lt (Nat.mul_le_mul hLe hLe) (by decide)

/-- **The spiral.**  Exactly for up to 46340 rows and columns the matrix is
filled from its corner inwards. -/
theorem spiral_filled_iff (n : Nat) :
    FillsSpirally n ↔ 1 ≤ n ∧ n ≤ 46340 := by
  constructor
  · rintro ⟨s, hEnds, hFilled⟩
    rcases endsIn_progress hEnds with ⟨hProgress, hCond⟩
    refine ⟨?_, (mul_self_lt_intMax_iff n).mp (hProgress.small hCond)⟩
    have hCorner : (0, 0) ∈ s.fill.written := by
      rw [← number_isSome_iff, ← hProgress.numbered.matrix, hFilled.corner]
      rfl
    have hInside := hFilled.inside _ hCorner
    simp only [Inside] at hInside
    omega
  · rintro ⟨hPos, hLe⟩
    rcases ends_of_small ((mul_self_lt_intMax_iff n).mpr hLe) with
      ⟨s, hEnds, hProgress, hCond⟩
    exact ⟨s, hEnds, hProgress.filled hPos hCond⟩

/-- The values of 46341 rows are too large. -/
theorem large_matrix_not_filled :
    ¬FillsSpirally 46341 ∧ ¬∀ n, 1 ≤ n → FillsSpirally n := by
  have hNot : ¬FillsSpirally 46341 := by
    rintro ⟨s, hEnds, -⟩
    rcases endsIn_progress hEnds with ⟨hProgress, hCond⟩
    exact absurd (hProgress.small hCond) (by decide)
  exact ⟨hNot, fun hAll => hNot (hAll 46341 (by decide))⟩

end UnixHomework.Ports.Spiral
