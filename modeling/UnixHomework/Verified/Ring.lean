import Mathlib.Data.List.DropRight

/-!
# Circular arrays

A circular array of `cap` slots keeps `count` elements from slot `start` on,
wrapping at `cap`.  Two disciplines use it in this package: a bounded FIFO,
which refuses or blocks when full, and a bounded log, which overwrites its
oldest element.  Both are the same four facts about the list view
`contents`: writing the slot after the last element appends, advancing the
start pops, writing over the oldest element of a full array rotates, and
nothing else is visible.

The backing array is a function from slot numbers to elements, updated by
`put`; the lemmas only ever look at slots below `cap`.
-/

namespace UnixHomework.Verified.Ring

variable {α : Type*}

/-- Slot of the `i`-th element. -/
def slot (cap start i : Nat) : Nat := (start + i) % cap

/-- Functional update of one slot. -/
def put (data : Nat → α) (pos : Nat) (v : α) : Nat → α :=
  fun j => if j = pos then v else data j

/-- The list view: `count` elements from `start` on. -/
def contents (data : Nat → α) (cap start count : Nat) : List α :=
  (List.range count).map fun i => data (slot cap start i)

@[simp] theorem put_self (data : Nat → α) (pos : Nat) (v : α) :
    put data pos v pos = v := by
  simp [put]

theorem put_ne (data : Nat → α) {pos j : Nat} (v : α) (h : j ≠ pos) :
    put data pos v j = data j := by
  simp [put, h]

theorem slot_zero {cap start : Nat} (h : start < cap) :
    slot cap start 0 = start :=
  Nat.mod_eq_of_lt h

/-- Advancing the start shifts every later slot by one. -/
theorem slot_succ_start (cap start i : Nat) :
    slot cap ((start + 1) % cap) i = slot cap start (i + 1) := by
  rw [slot, slot, Nat.mod_add_mod]
  congr 1
  omega

/-- Less than one revolution apart, offsets have different slots. -/
theorem slot_ne (start : Nat) {cap i j : Nat} (hij : i < j)
    (hj : j < i + cap) : slot cap start i ≠ slot cap start j := by
  intro heq
  have hmod : (start + j - (start + i)) % cap = 0 :=
    Nat.sub_mod_eq_zero_of_mod_eq heq.symm
  have hsub : start + j - (start + i) = j - i := by omega
  rw [hsub, Nat.mod_eq_of_lt (by omega)] at hmod
  omega

@[simp] theorem length_contents (data : Nat → α) (cap start count : Nat) :
    (contents data cap start count).length = count := by
  simp [contents]

@[simp] theorem contents_zero (data : Nat → α) (cap start : Nat) :
    contents data cap start 0 = [] := rfl

/-- The last element of the view. -/
theorem contents_succ_last (data : Nat → α) (cap start count : Nat) :
    contents data cap start (count + 1) =
      contents data cap start count ++ [data (slot cap start count)] := by
  simp [contents, List.range_succ]

/-- The first element of the view: what a pop removes. -/
theorem contents_succ_head (data : Nat → α) {cap start : Nat}
    (hstart : start < cap) (count : Nat) :
    contents data cap start (count + 1) =
      data start :: contents data cap ((start + 1) % cap) count := by
  simp only [contents, List.range_succ_eq_map, List.map_cons, List.map_map,
    slot_zero hstart]
  congr 1
  apply List.map_congr_left
  intro i _
  simp only [Function.comp_apply, slot_succ_start]

/-- A write outside the occupied slots is not visible. -/
theorem contents_put_of_ne (data : Nat → α) (cap start count pos : Nat)
    (v : α) (h : ∀ i < count, slot cap start i ≠ pos) :
    contents (put data pos v) cap start count =
      contents data cap start count := by
  apply List.map_congr_left
  intro i hi
  exact put_ne data v (h i (List.mem_range.mp hi))

/-- **Push.**  Writing the first free slot appends. -/
theorem contents_push (data : Nat → α) {cap start count : Nat}
    (hroom : count < cap) (v : α) :
    contents (put data (slot cap start count) v) cap start (count + 1) =
      contents data cap start count ++ [v] := by
  rw [contents_succ_last, put_self, contents_put_of_ne]
  intro i hi
  exact slot_ne start hi (by omega)

/-- **Rotate.**  Writing over the oldest element of a full array and moving
the start drops that element and appends the new one. -/
theorem contents_rotate (data : Nat → α) {cap start : Nat}
    (hstart : start < cap) (v : α) :
    contents (put data (slot cap start cap) v) cap ((start + 1) % cap) cap =
      (contents data cap start cap).tail ++ [v] := by
  obtain ⟨n, rfl⟩ : ∃ n, cap = n + 1 := ⟨cap - 1, by omega⟩
  have hslot : slot (n + 1) start (n + 1) = start := by
    rw [slot, Nat.add_mod_right, Nat.mod_eq_of_lt hstart]
  have hlast : slot (n + 1) ((start + 1) % (n + 1)) n = start := by
    rw [slot_succ_start, hslot]
  have hother : ∀ i < n,
      slot (n + 1) ((start + 1) % (n + 1)) i ≠ start := by
    intro i hi
    have hne := slot_ne ((start + 1) % (n + 1)) hi
      (show n < i + (n + 1) by omega)
    rwa [hlast] at hne
  rw [hslot, contents_succ_last, hlast, put_self,
    contents_put_of_ne _ _ _ _ _ _ hother, contents_succ_head _ hstart,
    List.tail_cons]

/-! ## Counting slots -/

/-- A write changes the number of slots with a property by what it overwrites
and what it writes. -/
theorem countP_put (data : Nat → α) (p : α → Bool) {n pos : Nat}
    (h : pos < n) (v : α) :
    (List.range n).countP (fun i => p (put data pos v i)) +
        (if p (data pos) then 1 else 0) =
      (List.range n).countP (fun i => p (data i)) + (if p v then 1 else 0) := by
  induction n with
  | zero => omega
  | succ n ih =>
      rw [List.range_succ, List.countP_append, List.countP_append,
        List.countP_singleton, List.countP_singleton]
      by_cases hLast : pos = n
      · subst hLast
        have hOthers : (List.range pos).countP
              (fun i => p (put data pos v i)) =
            (List.range pos).countP fun i => p (data i) := by
          apply List.countP_congr
          intro i hi
          rw [put_ne data v (Nat.ne_of_lt (List.mem_range.mp hi))]
        rw [put_self, hOthers]
        omega
      · have hRest := ih (by omega)
        rw [put_ne data v (Ne.symm hLast)]
        omega

/-! ## The bounded log -/

/-- A log that has room keeps everything. -/
theorem rtake_concat_of_lt {log : List α} {cap : Nat}
    (h : log.length < cap) (v : α) :
    (log ++ [v]).rtake cap = log.rtake cap ++ [v] := by
  have hlog : log.rtake cap = log := by
    rw [List.rtake, show log.length - cap = 0 by omega, List.drop_zero]
  rw [hlog, List.rtake, List.length_append, List.length_singleton,
    show log.length + 1 - cap = 0 by omega, List.drop_zero]

/-- A full log drops its oldest element. -/
theorem rtake_concat_of_le {log : List α} {cap : Nat} (hcap : 0 < cap)
    (h : cap ≤ log.length) (v : α) :
    (log ++ [v]).rtake cap = (log.rtake cap).tail ++ [v] := by
  obtain ⟨n, rfl⟩ : ∃ n, cap = n + 1 := ⟨cap - 1, by omega⟩
  rw [List.rtake_concat_succ, List.rtake, List.rtake, List.tail_drop]
  congr 2
  omega

end UnixHomework.Verified.Ring
