import UnixHomework.Ports.FileManager

/-!
# A directory that cannot be opened

Enter first changes the path of the panel and then loads its list.  If
`opendir` fails the old list is gone: the panel shows the new path and no
entries.  Since a directory is entered from the list only, also the one above,
no key ever changes this panel's path again (`failed_opendir_not_kept`).
-/

namespace UnixHomework.Ports.FileManager

open UnixHomework.Verified

/-- The panel that had the key is as it was, path, list and selection. -/
def PanelKept (s next : Screen) : Prop :=
  next.panels s.active = s.panels s.active

/-- Some keys change the path of this panel. -/
def CanNavigate (height : Int) (s : Screen) (side : Side) : Prop :=
  ∃ keys last, (fileManager height).run s keys = some last ∧
    (last.panels side).path ≠ (s.panels side).path

/-- The panel has no entries.  Its path is the one that could not be opened. -/
def Stuck (path : List UInt8) (side : Side) (s : Screen) : Prop :=
  (s.panels side).files = [] ∧ (s.panels side).path = path

section Stuck

variable {height : Int} {path : List UInt8} {side : Side} {s next : Screen}

/-- The panels after a change of the active one. -/
theorem stuck_setActive (h : Stuck path side s) {p : Panel}
    (hActive : side = s.active → p.files = [] ∧ p.path = path) :
    Stuck path side (s.setActive p) := by
  by_cases hSide : side = s.active
  · subst hSide
    rw [Stuck, setActive_active]
    exact hActive rfl
  · show (Function.update s.panels s.active p side).files = [] ∧
      (Function.update s.panels s.active p side).path = path
    rw [Function.update_of_ne hSide]
    exact h

/-- **One key** leaves a panel without entries as it is, but for its
selection.  Enter looks for the selected entry, and there is none. -/
theorem Stuck.step (h : Stuck path side s) {key : Key}
    (hStep : keyStep height s key = some next) : Stuck path side next := by
  cases key with
  | tab | other =>
      obtain rfl := Option.some.inj hStep
      exact h
  | up | down =>
      obtain rfl := Option.some.inj hStep
      apply stuck_setActive h
      rintro rfl
      exact h
  | enter resolved dir =>
      by_cases hCount : 0 < (s.panels s.active).count
      · have hOther : side ≠ s.active := by
          rintro rfl
          rw [Panel.count, h.1] at hCount
          exact absurd hCount (Nat.lt_irrefl 0)
        simp only [keyStep, if_pos hCount] at hStep
        rcases Option.bind_eq_some_iff.mp hStep with ⟨entry, -, hLoad⟩
        by_cases hDir : entry.isDir = true
        · rw [if_pos hDir] at hLoad
          obtain rfl := Option.some.inj hLoad
          exact stuck_setActive h fun hSame => absurd hSame hOther
        · rw [if_neg hDir] at hLoad
          obtain rfl := Option.some.inj hLoad
          exact h
      · simp only [keyStep, if_neg hCount] at hStep
        obtain rfl := Option.some.inj hStep
        exact h

theorem Stuck.run (h : Stuck path side s) {keys : List Key} {last : Screen}
    (hRun : (fileManager height).run s keys = some last) :
    Stuck path side last := by
  induction keys generalizing s with
  | nil =>
      obtain rfl := Option.some.inj hRun
      exact h
  | cons key keys ih =>
      rcases Machine.run_cons_eq_some hRun with ⟨next, hStep, hRest⟩
      exact ih (h.step hStep) hRest

/-- **A failed `opendir`** never leaves the panel as it was, and the user
cannot navigate in it any more.  This is so for every panel with an entry that
is a directory, and whatever `realpath` has answered. -/
theorem failed_opendir_not_kept (height : Int) {entry : FileEntry}
    (hCount : 0 < (s.panels s.active).count)
    (hEntry : Panel.entry? (s.panels s.active) (s.panels s.active).selected =
      some entry)
    (hDir : entry.isDir = true) (resolved : Option (List UInt8)) :
    ∃ next, keyStep height s (.enter resolved none) = some next ∧
      ¬PanelKept s next ∧ ¬CanNavigate height next s.active := by
  have hStep : keyStep height s (.enter resolved none) =
      some (s.setActive (loadDirectory
        (updatePath (s.panels s.active) entry.name resolved) none)) := by
    simp only [keyStep, if_pos hCount, hEntry, Option.bind_eq_bind,
      Option.bind_some, if_pos hDir]
  refine ⟨_, hStep, ?_, ?_⟩
  · intro hKept
    rw [PanelKept, setActive_active] at hKept
    have hFiles : [] = (s.panels s.active).files :=
      congrArg Panel.files hKept
    rw [Panel.count, ← hFiles] at hCount
    exact Nat.lt_irrefl 0 hCount
  · rintro ⟨keys, last, hRun, hChanged⟩
    apply hChanged
    have hStuck : Stuck (updatePath (s.panels s.active) entry.name
        resolved).path s.active (s.setActive (loadDirectory
          (updatePath (s.panels s.active) entry.name resolved) none)) := by
      rw [Stuck, setActive_active]
      exact ⟨rfl, rfl⟩
    rw [(hStuck.run hRun).2, hStuck.2]

end Stuck

/-- The root has the directories `..` and `d`, and `d` is selected. -/
def onDirectory : Screen :=
  start.setActive (moveSelection (start.panels start.active) 1 24)

theorem onDirectory_selected :
    0 < (onDirectory.panels onDirectory.active).count ∧
      Panel.entry? (onDirectory.panels onDirectory.active)
          (onDirectory.panels onDirectory.active).selected =
        some ⟨ascii ['d'], true⟩ := by
  decide +kernel

/-- It is entered and cannot be opened. -/
theorem failed_opendir_empties_panel :
    ¬∀ (height : Int) (s next : Screen) (entry : FileEntry) resolved,
      Panel.entry? (s.panels s.active) (s.panels s.active).selected =
          some entry →
        entry.isDir = true →
          keyStep height s (.enter resolved none) = some next →
            PanelKept s next := by
  intro hAll
  rcases onDirectory_selected with ⟨hCount, hEntry⟩
  have hStep : keyStep 24 onDirectory (.enter (some (ascii ['/', 'd'])) none) =
      some (onDirectory.setActive (loadDirectory
        (updatePath (onDirectory.panels onDirectory.active) (ascii ['d'])
          (some (ascii ['/', 'd']))) none)) := by
    simp only [keyStep, if_pos hCount, hEntry, Option.bind_eq_bind,
      Option.bind_some, if_true]
  have hKept := hAll 24 onDirectory _ _ _ hEntry rfl hStep
  rw [PanelKept, setActive_active] at hKept
  rw [Panel.count, ← hKept] at hCount
  exact Nat.lt_irrefl 0 hCount

theorem failed_opendir_not_kept_directory :
    ∃ next, keyStep 24 onDirectory (.enter (some (ascii ['/', 'd'])) none) =
        some next ∧
      ¬PanelKept onDirectory next ∧
        ¬CanNavigate 24 next onDirectory.active :=
  failed_opendir_not_kept 24 onDirectory_selected.1 onDirectory_selected.2 rfl
    (some (ascii ['/', 'd']))

end UnixHomework.Ports.FileManager
