import UnixHomework.Ports.FileManager

/-!
# Pages of the file manager

What the user sees.  A panel with entries always shows a full page: scrolling
stops when the last entry is in the last row, so that `draw_filelist` draws
`height - 2` entries, or all of them when there are fewer, in the order of the
list and the selected one among them (`page_drawn`).  Both directories have
been opened at the start; a later one need not be, and its panel then has no
entries.
-/

namespace UnixHomework.Ports.FileManager

open UnixHomework.Verified

variable {height : Int} {p : Panel} {s next : Screen}

/-! ## The page -/

/-- The panel is at its top or shows no row behind its last entry. -/
def Panel.PageFull (p : Panel) (height : Int) : Prop :=
  p.startLine = 0 ∨ p.startLine + (height - 2) ≤ p.count

/-- Scrolling by `move_selection` keeps the page full. -/
theorem Panel.PageFull.moved (h : p.PageFull height)
    (hView : p.InView height) (delta : Int) :
    (moveSelection p delta height).PageFull height := by
  have hCount : (moveSelection p delta height).count = p.count := rfl
  have hStart := hView.start
  have hScrolled := hView.scrolled
  have hExists := hView.exists_
  rw [Panel.PageFull, hCount]
  simp only [moveSelection]
  rcases h with hTop | hFull
  · split
    · omega
    · split <;> omega
  · split
    · omega
    · split <;> omega

theorem drawRows_eq (rows : Nat) {idx : Int} (hIdx : 0 ≤ idx) :
    drawRows p rows idx = some ((p.files.drop idx.toNat).take rows) := by
  induction rows generalizing idx with
  | zero => rw [drawRows, List.take_zero]
  | succ rows ih =>
      rw [drawRows]
      split
      · rename_i hEnd
        rw [List.drop_eq_nil_of_le, List.take_nil]
        rw [Panel.count] at hEnd
        omega
      · rename_i hEnd
        have hLt : idx.toNat < p.files.length := by
          rw [Panel.count] at hEnd
          omega
        have hEntry : p.entry? idx = some p.files[idx.toNat] := by
          rw [Panel.entry?, if_pos hIdx, List.getElem?_eq_getElem hLt]
        have hNext : (idx + 1).toNat = idx.toNat + 1 := by omega
        rw [hEntry, ih (by omega), hNext, List.drop_eq_getElem_cons hLt,
          List.take_succ_cons]
        rfl

/-- What `draw_filelist` shows: so many entries from `start_line` on. -/
def Panel.page (p : Panel) (height : Int) : List FileEntry :=
  (p.files.drop p.startLine.toNat).take (height - 2).toNat

theorem length_page (hView : p.InView height) (hFull : p.PageFull height) :
    (p.page height).length = min p.count (height - 2).toNat := by
  have hStart := hView.start
  have hScrolled := hView.scrolled
  have hExists := hView.exists_
  have hVisible := hView.visible
  rw [Panel.page, List.length_take, List.length_drop]
  rw [Panel.count] at hExists ⊢
  rcases hFull with hTop | hFull
  · rw [hTop]
    omega
  · rw [Panel.count] at hFull
    omega

/-- The row of the selected entry shows it. -/
theorem getElem?_page (hView : p.InView height) :
    (p.page height)[(p.selected - p.startLine).toNat]? =
      p.entry? p.selected := by
  have hStart := hView.start
  have hScrolled := hView.scrolled
  have hVisible := hView.visible
  have hRow : p.startLine.toNat + (p.selected - p.startLine).toNat =
      p.selected.toNat := by omega
  rw [Panel.page, List.getElem?_take, if_pos (by omega), List.getElem?_drop,
    hRow, Panel.entry?, if_pos (by omega)]

/-- What holds of every panel in every run. -/
def PagesFull (height : Int) (s : Screen) : Prop :=
  ∀ side, 0 < (s.panels side).count →
    (s.panels side).InView height ∧ (s.panels side).PageFull height

theorem pagesFull_init (hHeight : 3 ≤ height)
    (hInit : (fileManager height).init s) : PagesFull height s := by
  intro side hCount
  obtain ⟨p, entries, hPanel⟩ := hInit.2 side
  rw [hPanel] at hCount ⊢
  exact ⟨inView_loaded entries hHeight hCount, .inl rfl⟩

theorem PagesFull.inView (h : PagesFull height s) : EntriesInView height s :=
  fun side hCount => (h side hCount).1

/-- **One key** leaves a full page in every panel that has entries. -/
theorem PagesFull.step (hHeight : 3 ≤ height) (h : PagesFull height s)
    {key : Key} (hStep : keyStep height s key = some next) :
    PagesFull height next := by
  have hMoved : ∀ delta, PagesFull height
      (s.setActive (moveSelection (s.panels s.active) delta height)) := by
    intro delta
    apply forall_setActive
      (C := fun p => 0 < p.count → p.InView height ∧ p.PageFull height) h
    intro hCount
    obtain ⟨hView, hFull⟩ := h s.active hCount
    exact ⟨hView.moved delta hHeight, hFull.moved hView delta⟩
  cases key with
  | tab =>
      obtain rfl := Option.some.inj hStep
      exact h
  | up =>
      obtain rfl := Option.some.inj hStep
      exact hMoved (-1)
  | down =>
      obtain rfl := Option.some.inj hStep
      exact hMoved 1
  | enter resolved dir =>
      rcases enter_cases h.inView resolved dir with hSame | ⟨subdir, hLoad⟩
      · obtain rfl := Option.some.inj (hSame.symm.trans hStep)
        exact h
      · obtain rfl := Option.some.inj (hLoad.symm.trans hStep)
        apply forall_setActive
          (C := fun p => 0 < p.count → p.InView height ∧ p.PageFull height) h
        intro hCount
        cases dir with
        | none => exact absurd hCount (Nat.lt_irrefl 0)
        | some entries =>
            exact ⟨inView_loaded entries hHeight hCount, .inl rfl⟩
  | other =>
      obtain rfl := Option.some.inj hStep
      exact h

/-- **A full page.**  Whatever has been typed and whatever the system has
answered, a panel with entries draws as many of them as fit, consecutive ones
in the order of its list, and the selected one in the row that is
highlighted. -/
theorem page_drawn (hHeight : 3 ≤ height)
    (h : (fileManager height).Reachable s) (side : Side)
    (hCount : 0 < (s.panels side).count) :
    ∃ rows, drawFilelist (s.panels side) height = some rows ∧
      rows <:+: (s.panels side).files ∧
      rows.length = min (s.panels side).count (height - 2).toNat ∧
      ∃ entry,
        Panel.entry? (s.panels side) (s.panels side).selected = some entry ∧
        rows[((s.panels side).selected - (s.panels side).startLine).toNat]? =
          some entry := by
  have hPages : PagesFull height s :=
    h.invariant (I := PagesFull height)
      (fun _ h0 => pagesFull_init hHeight h0)
      (fun _ _ _ hI _ hs => hI.step hHeight hs)
  obtain ⟨hView, hFull⟩ := hPages side hCount
  obtain ⟨entry, hEntry⟩ := entry?_isSome
    (Int.le_trans hView.start hView.scrolled) hView.exists_
  refine ⟨(s.panels side).page height, drawRows_eq _ hView.start, ?_,
    length_page hView hFull, entry, hEntry, ?_⟩
  · exact (List.take_prefix _ _).isInfix.trans
      (List.drop_suffix _ _).isInfix
  · rw [getElem?_page hView, hEntry]

/-- Three entries in both panels. -/
def startThree : Screen where
  panels _ := loadDirectory ⟨root, [], 0, 0, Nat.zero_le _⟩
    (some [⟨dotDot, true⟩, ⟨ascii ['a'], true⟩, ⟨ascii ['b'], false⟩])
  active := .left

/-- In a window of four rows, with room for two of them, the list has been
scrolled when the last one is selected. -/
theorem page_drawn_last :
    ∃ last rows, (fileManager 4).run startThree [.down, .down] = some last ∧
      (last.panels .left).startLine = 1 ∧
      drawFilelist (last.panels .left) 4 = some rows ∧ rows.length = 2 := by
  have hInit : (fileManager 4).init startThree := ⟨rfl, fun _ => ⟨_, _, rfl⟩⟩
  have hReachable := Machine.reachable_of_run hInit
    (show (fileManager 4).run startThree [.down, .down] = some _ from rfl)
  obtain ⟨rows, hDrawn, -, hLength, -⟩ :=
    page_drawn (by decide) hReachable .left (by decide +kernel)
  refine ⟨_, rows, rfl, by decide +kernel, hDrawn, hLength.trans ?_⟩
  decide +kernel

end UnixHomework.Ports.FileManager
