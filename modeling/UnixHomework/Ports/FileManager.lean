import UnixHomework.Verified.CharArray
import UnixHomework.Verified.Traces
import Mathlib.Data.List.Sort
import Mathlib.Logic.Function.Basic

/-!
# The file manager

Two panels list a directory each.  `move_selection` moves the selected entry
and scrolls, `load_directory` replaces the list, and `draw_filelist` shows the
entries from `start_line` on.  A label is a key, with the answers of the
system when the key is Enter.

As long as a panel has entries, the selected one exists and is on screen,
whatever has been done (`Panel.InView`).  A panel without entries, which a
failed `opendir` or an empty directory leaves behind, is drawn safely until
the selection is moved in it: `new_sel` is then set to `count - 1`, that is to
`-1`, the panel scrolls after it, and `draw_filelist` reads `files[-1]`.
-/

namespace UnixHomework.Ports.FileManager

open UnixHomework.Verified

def maxFiles : Nat := 1024

def pathMax : Nat := 4096

/-- `FileEntry`. -/
structure FileEntry where
  name : List UInt8
  isDir : Bool
  deriving DecidableEq

/-- `FileList`, with the files up to `count`. -/
structure Panel where
  /-- The directory shown. -/
  path : List UInt8
  /-- Its entries, in the order of the list. -/
  files : List FileEntry
  /-- The entry that the user is at. -/
  selected : Int
  /-- The entry in the first row. -/
  startLine : Int
  bounded : files.length ≤ maxFiles

def Panel.count (p : Panel) : Nat := p.files.length

/-- A read of `files[idx]`; there are no files outside `[0, count)`. -/
def Panel.entry? (p : Panel) (idx : Int) : Option FileEntry :=
  if 0 ≤ idx then p.files[idx.toNat]? else none

/-! ## Loading -/

/-- `tolower`. -/
def toLower (b : UInt8) : UInt8 :=
  if 65 ≤ b ∧ b ≤ 90 then b + 32 else b

def strcasecmp : List UInt8 → List UInt8 → Int
  | [], [] => 0
  | [], b :: _ => -((toLower b).toNat : Int)
  | a :: _, [] => (toLower a).toNat
  | a :: as, b :: bs =>
      if toLower a = toLower b then strcasecmp as bs
      else (toLower a).toNat - (toLower b).toNat

/-- `compare_entries`. -/
def compareEntries (fa fb : FileEntry) : Int :=
  if fa.isDir ≠ fb.isDir then fb.isDir.toNat - fa.isDir.toNat
  else strcasecmp fa.name fb.name

/-- `qsort`. -/
def qsort (files : List FileEntry) : List FileEntry :=
  files.insertionSort fun a b => compareEntries a b ≤ 0

/-- An entry that `readdir` returns, and whether `stat` says that it is a
directory. -/
structure Dirent where
  name : List UInt8
  isDir : Bool

/-- `"."`, `".."` and `"/"`. -/
def dot : List UInt8 := ascii ['.']

def dotDot : List UInt8 := ascii ['.', '.']

def root : List UInt8 := ascii ['/']

/-- The loop of `load_directory`. -/
def readEntries (path : List UInt8) : List Dirent → List FileEntry →
    List FileEntry
  | [], files => files
  | entry :: rest, files =>
      if files.length < maxFiles then
        if entry.name = dot then readEntries path rest files
        else if pathMax ≤ path.length + 1 + entry.name.length then
          readEntries path rest files
        else readEntries path rest (files ++ [⟨entry.name, entry.isDir⟩])
      else files

theorem length_readEntries_le (path : List UInt8) (entries : List Dirent)
    {files : List FileEntry} (h : files.length ≤ maxFiles) :
    (readEntries path entries files).length ≤ maxFiles := by
  induction entries generalizing files with
  | nil => exact h
  | cons entry rest ih =>
      unfold readEntries
      split
      · split
        · exact ih h
        · split
          · exact ih h
          · apply ih
            rw [List.length_append, List.length_singleton]
            omega
      · exact h

/-- `load_directory`, with the entries that can be read, or `none` when
`opendir` fails. -/
def loadDirectory (p : Panel) (dir : Option (List Dirent)) : Panel :=
  match dir with
  | none => { p with files := [], bounded := Nat.zero_le _ }
  | some entries =>
      { path := p.path
        files := qsort (readEntries p.path entries [])
        selected := 0
        startLine := 0
        bounded := by
          rw [qsort, List.length_insertionSort]
          exact length_readEntries_le p.path entries (Nat.zero_le _) }

/-- `update_path`.  What it passes to `realpath` does not matter, since any
answer is possible; but from a directory right below the root, `..` cuts the
path itself. -/
def updatePath (p : Panel) (subdir : List UInt8)
    (resolved : Option (List UInt8)) : Panel :=
  let path :=
    if subdir = dotDot ∧ p.path ≠ root ∧ p.path.take 1 = root ∧
        (p.path.drop 1).all (· ≠ 47) then root
    else p.path
  match resolved with
  | none => { p with path := path }
  | some resolved => { p with path := resolved.take (pathMax - 1) }

/-! ## Moving and drawing -/

/-- `move_selection`. -/
def moveSelection (p : Panel) (delta height : Int) : Panel :=
  let maxVisible := height - 2
  let newSel := p.selected + delta
  let newSel := if newSel < 0 then 0 else newSel
  let newSel := if (p.count : Int) ≤ newSel then (p.count : Int) - 1
    else newSel
  { p with
    selected := newSel
    startLine :=
      if newSel < p.startLine then newSel
      else if p.startLine + maxVisible ≤ newSel then newSel - maxVisible + 1
      else p.startLine }

/-- The loop of `draw_filelist`: the entries read for so many rows. -/
def drawRows (p : Panel) : Nat → Int → Option (List FileEntry)
  | 0, _ => some []
  | rows + 1, idx =>
      if p.count ≤ idx then some []
      else do
        let entry ← p.entry? idx
        let rest ← drawRows p rows (idx + 1)
        some (entry :: rest)

/-- `draw_filelist`. -/
def drawFilelist (p : Panel) (height : Int) : Option (List FileEntry) :=
  drawRows p (height - 2).toNat p.startLine

/-! ## The key loop -/

inductive Side where
  | left
  | right
  deriving DecidableEq

/-- `1 - active`. -/
def Side.other : Side → Side
  | .left => .right
  | .right => .left

/-- The panels and `active`. -/
structure Screen where
  panels : Side → Panel
  active : Side

/-- A key; for Enter the answers of `realpath` and of the functions that read
a directory. -/
inductive Key where
  | tab
  | up
  | down
  | enter (resolved : Option (List UInt8)) (dir : Option (List Dirent))
  | other

/-- Replace the active panel. -/
def Screen.setActive (s : Screen) (p : Panel) : Screen :=
  { s with panels := Function.update s.panels s.active p }

/-- The body of the loop, without the drawing. -/
def keyStep (height : Int) (s : Screen) : Key → Option Screen
  | .tab => some { s with active := s.active.other }
  | .up => some (s.setActive (moveSelection (s.panels s.active) (-1) height))
  | .down => some (s.setActive (moveSelection (s.panels s.active) 1 height))
  | .enter resolved dir => do
      let p := s.panels s.active
      if 0 < p.count then do
        let entry ← p.entry? p.selected
        if entry.isDir then
          some (s.setActive (loadDirectory (updatePath p entry.name resolved)
            dir))
        else some s
      else some s
  | .other => some s

/-- The screen after two directories have been loaded into panels that had
any contents. -/
def fileManager (height : Int) : Machine Screen Key where
  init s := s.active = .left ∧ ∀ side, ∃ p entries,
    s.panels side = loadDirectory p (some entries)
  step := keyStep height

/-! ## The panels -/

/-- The selected entry exists and is on screen. -/
structure Panel.InView (p : Panel) (height : Int) : Prop where
  /-- The first row has an entry, -/
  start : 0 ≤ p.startLine
  /-- the selection is not above it, -/
  scrolled : p.startLine ≤ p.selected
  /-- there is such an entry, -/
  exists_ : p.selected < p.count
  /-- and it is not below the last row. -/
  visible : p.selected < p.startLine + (height - 2)

/-- The panel is drawn without reading outside its list, and if it has entries
the selected one is in view. -/
structure Panel.Sound (p : Panel) (height : Int) : Prop where
  drawn : (drawFilelist p height).isSome = true
  inView : 0 < p.count → p.InView height

section Panels

variable {p : Panel} {height : Int}

theorem entry?_isSome {idx : Int} (hLow : 0 ≤ idx) (hHigh : idx < p.count) :
    ∃ entry, p.entry? idx = some entry := by
  have hIdx : idx.toNat < p.files.length := by
    rw [Panel.count] at hHigh
    omega
  rw [Panel.entry?, if_pos hLow, List.getElem?_eq_getElem hIdx]
  exact ⟨_, rfl⟩

theorem drawRows_isSome (rows : Nat) {idx : Int} (hIdx : 0 ≤ idx) :
    (drawRows p rows idx).isSome = true := by
  induction rows generalizing idx with
  | zero => rfl
  | succ rows ih =>
      rw [drawRows]
      split
      · rfl
      · obtain ⟨entry, hEntry⟩ := entry?_isSome hIdx (Int.lt_of_not_ge ‹_›)
        obtain ⟨rest, hRest⟩ :=
          Option.isSome_iff_exists.mp (@ih (idx + 1) (by omega))
        simp only [hEntry, hRest, Option.bind_eq_bind, Option.bind_some]
        rfl

/-- Drawing starts in the list, or behind its end. -/
theorem drawFilelist_isSome_iff (hHeight : 3 ≤ height) :
    (drawFilelist p height).isSome = true ↔ 0 ≤ p.startLine := by
  constructor
  · intro hDrawn
    by_contra hNegative
    obtain ⟨rows, hRows⟩ : ∃ rows, (height - 2).toNat = rows + 1 :=
      ⟨(height - 2).toNat - 1, by omega⟩
    rw [drawFilelist, hRows, drawRows, if_neg (by omega), Panel.entry?,
      if_neg hNegative] at hDrawn
    contradiction
  · exact drawRows_isSome _

/-- **Moving** in a list that has entries. -/
theorem Panel.InView.moved (h : p.InView height) (delta : Int)
    (hHeight : 3 ≤ height) :
    (moveSelection p delta height).InView height := by
  obtain ⟨hStart, hScrolled, hExists, hVisible⟩ := h
  have hCount : (moveSelection p delta height).count = p.count := rfl
  constructor
  · simp only [moveSelection]
    split <;> omega
  · simp only [moveSelection]
    split <;> omega
  · rw [hCount]
    simp only [moveSelection]
    omega
  · simp only [moveSelection]
    split <;> omega

/-- Moving in a list without entries. -/
theorem startLine_moved_empty (hEmpty : p.count = 0) (hStart : 0 ≤ p.startLine)
    (delta : Int) : (moveSelection p delta height).startLine = -1 := by
  simp only [moveSelection, hEmpty]
  split <;> omega

theorem inView_loaded (entries : List Dirent) (hHeight : 3 ≤ height)
    (hCount : 0 < (loadDirectory p (some entries)).count) :
    (loadDirectory p (some entries)).InView height where
  start := Int.le_refl 0
  scrolled := Int.le_refl 0
  exists_ := Int.ofNat_lt.mpr hCount
  visible := by
    show 0 < 0 + (height - 2)
    omega

theorem startLine_updatePath (subdir : List UInt8)
    (resolved : Option (List UInt8)) :
    (updatePath p subdir resolved).startLine = p.startLine := by
  cases resolved <;> rfl

/-- Loading starts at the top, or leaves the position in an empty list. -/
theorem startLine_loaded (dir : Option (List Dirent)) :
    (loadDirectory p dir).startLine = 0 ∨
      (loadDirectory p dir).startLine = p.startLine := by
  cases dir with
  | none => exact Or.inr rfl
  | some entries => exact Or.inl rfl

end Panels

/-! ## Whole runs -/

/-- Both panels are sound. -/
def Sound (height : Int) (s : Screen) : Prop :=
  ∀ side, (s.panels side).Sound height

/-- The selection is moved in a list that has entries. -/
def MovesInList (s : Screen) : Key → Prop
  | .up => 0 < (s.panels s.active).count
  | .down => 0 < (s.panels s.active).count
  | _ => True

/-- What holds in any case: a panel with entries has the selected one in
view. -/
def EntriesInView (height : Int) (s : Screen) : Prop :=
  ∀ side, 0 < (s.panels side).count → (s.panels side).InView height

section Runs

variable {height : Int} {s next : Screen}

theorem sound_iff (hHeight : 3 ≤ height) :
    Sound height s ↔
      EntriesInView height s ∧ ∀ side, 0 ≤ (s.panels side).startLine := by
  constructor
  · intro h
    exact ⟨fun side => (h side).inView,
      fun side => (drawFilelist_isSome_iff hHeight).mp (h side).drawn⟩
  · rintro ⟨hInView, hStart⟩ side
    exact ⟨(drawFilelist_isSome_iff hHeight).mpr (hStart side), hInView side⟩

/-- Only the active panel changes. -/
theorem forall_setActive {C : Panel → Prop} {p : Panel}
    (hAll : ∀ side, C (s.panels side)) (hNew : C p) :
    ∀ side, C ((s.setActive p).panels side) := by
  show ∀ side, C (Function.update s.panels s.active p side)
  rw [Function.forall_update_iff s.panels fun _ p => C p]
  exact ⟨hNew, fun side _ => hAll side⟩

theorem setActive_active (p : Panel) :
    (s.setActive p).panels s.active = p :=
  Function.update_self ..

/-- Enter in a list with entries reads the selected one. -/
theorem enter_cases (h : EntriesInView height s)
    (resolved : Option (List UInt8)) (dir : Option (List Dirent)) :
    keyStep height s (.enter resolved dir) = some s ∨
      ∃ subdir, keyStep height s (.enter resolved dir) =
        some (s.setActive (loadDirectory
          (updatePath (s.panels s.active) subdir resolved) dir)) := by
  by_cases hCount : 0 < (s.panels s.active).count
  · have hView := h s.active hCount
    obtain ⟨entry, hEntry⟩ := entry?_isSome
      (Int.le_trans hView.start hView.scrolled) hView.exists_
    simp only [keyStep, if_pos hCount, hEntry, Option.bind_eq_bind,
      Option.bind_some]
    by_cases hDir : entry.isDir = true
    · rw [if_pos hDir]
      exact Or.inr ⟨entry.name, rfl⟩
    · rw [if_neg hDir]
      exact Or.inl rfl
  · exact Or.inl (if_neg hCount)

/-- No key is undefined, and none takes the selected entry of a list out of
view. -/
theorem EntriesInView.step (hHeight : 3 ≤ height)
    (h : EntriesInView height s) (key : Key) :
    ∃ next, keyStep height s key = some next ∧ EntriesInView height next := by
  have hMoved : ∀ delta, EntriesInView height
      (s.setActive (moveSelection (s.panels s.active) delta height)) := by
    intro delta
    apply forall_setActive (C := fun p => 0 < p.count → p.InView height) h
    intro hCount
    exact (h s.active hCount).moved delta hHeight
  cases key with
  | tab => exact ⟨_, rfl, h⟩
  | up => exact ⟨_, rfl, hMoved (-1)⟩
  | down => exact ⟨_, rfl, hMoved 1⟩
  | enter resolved dir =>
      rcases enter_cases h resolved dir with hSame | ⟨subdir, hLoad⟩
      · exact ⟨s, hSame, h⟩
      · refine ⟨_, hLoad, ?_⟩
        apply forall_setActive (C := fun p => 0 < p.count → p.InView height) h
        cases dir with
        | none => exact fun hCount => absurd hCount (Nat.lt_irrefl 0)
        | some entries => exact inView_loaded entries hHeight
  | other => exact ⟨s, rfl, h⟩

/-- **One key.**  From a sound screen it leads to a sound one, unless it moves
the selection in an empty list. -/
theorem Sound.step_iff (hHeight : 3 ≤ height) (h : Sound height s) {key : Key}
    (hStep : keyStep height s key = some next) :
    Sound height next ↔ MovesInList s key := by
  obtain ⟨hInView, hStart⟩ := (sound_iff hHeight).mp h
  obtain ⟨next', hStep', hInView'⟩ := hInView.step hHeight key
  obtain rfl : next' = next := Option.some.inj (hStep'.symm.trans hStep)
  rw [sound_iff hHeight]
  have hMoves : ∀ delta, (∀ side, 0 ≤ ((s.setActive (moveSelection
      (s.panels s.active) delta height)).panels side).startLine) ↔
        0 < (s.panels s.active).count := by
    intro delta
    constructor
    · intro hAll
      by_contra hEmpty
      have hActive := hAll s.active
      rw [setActive_active, startLine_moved_empty (by omega)
        (hStart s.active)] at hActive
      omega
    · intro hCount
      apply forall_setActive (C := fun p => 0 ≤ p.startLine) hStart
      exact ((hInView s.active hCount).moved delta hHeight).start
  cases key with
  | tab =>
      obtain rfl := Option.some.inj hStep
      exact iff_of_true ⟨hInView', hStart⟩ trivial
  | up =>
      obtain rfl := Option.some.inj hStep
      exact (and_iff_right hInView').trans (hMoves (-1))
  | down =>
      obtain rfl := Option.some.inj hStep
      exact (and_iff_right hInView').trans (hMoves 1)
  | enter resolved dir =>
      rcases enter_cases hInView resolved dir with hSame | ⟨subdir, hLoad⟩
      · obtain rfl := Option.some.inj (hSame.symm.trans hStep)
        exact iff_of_true ⟨hInView, hStart⟩ trivial
      · obtain rfl := Option.some.inj (hLoad.symm.trans hStep)
        refine iff_of_true ⟨hInView', ?_⟩ trivial
        apply forall_setActive (C := fun p => 0 ≤ p.startLine) hStart
        rcases startLine_loaded (p := updatePath (s.panels s.active) subdir
          resolved) dir with hZero | hKept
        · rw [hZero]
        · rw [hKept, startLine_updatePath]
          exact hStart s.active
  | other =>
      obtain rfl := Option.some.inj hStep
      exact iff_of_true ⟨hInView, hStart⟩ trivial

theorem sound_of_init (hHeight : 3 ≤ height)
    (hInit : (fileManager height).init s) : Sound height s := by
  rw [sound_iff hHeight]
  constructor
  · intro side hCount
    obtain ⟨p, entries, hPanel⟩ := hInit.2 side
    rw [hPanel] at hCount ⊢
    exact inView_loaded entries hHeight hCount
  · intro side
    obtain ⟨p, entries, hPanel⟩ := hInit.2 side
    rw [hPanel]
    exact Int.le_refl 0

/-- **The panels.**  Every sequence of keys is defined.  In all its states
both panels are drawn inside their lists, with the selected entry in view if
there is one, exactly if the selection is never moved in an empty list. -/
theorem fileManager_sound_iff (hHeight : 3 ≤ height) {keys : List Key}
    (hInit : (fileManager height).init s) :
    (∃ last, (fileManager height).run s keys = some last) ∧
      ((fileManager height).EachState (Sound height) s keys ↔
        (fileManager height).EachStep MovesInList s keys) := by
  have hSound := sound_of_init hHeight hInit
  have hInView := ((sound_iff hHeight).mp hSound).1
  obtain ⟨⟨last, hLast⟩, -⟩ := Machine.exists_run_of_eachStep
    (m := fileManager height) (P := EntriesInView height)
    (fun s key h _ => h.step hHeight key) (fun _ h => h) hInView
    (Machine.eachStep_of_forall (P := fun _ _ => True) (fun _ _ => trivial) s
      keys)
  refine ⟨⟨last, hLast⟩, ?_⟩
  exact Machine.eachState_iff_eachStep (I := fun _ => True)
    (fun _ _ _ _ _ => trivial)
    (fun s key next _ hSound hStep => hSound.step_iff hHeight hStep)
    trivial hSound hLast

end Runs

instance (s : Screen) (key : Key) : Decidable (MovesInList s key) := by
  cases key <;> unfold MovesInList <;> infer_instance

/-- A directory with one directory in it, in both panels. -/
def start : Screen where
  panels _ := loadDirectory ⟨root, [], 0, 0, Nat.zero_le _⟩
    (some [⟨dot, true⟩, ⟨dotDot, true⟩, ⟨ascii ['d'], true⟩])
  active := .left

theorem init_start (height : Int) : (fileManager height).init start :=
  ⟨rfl, fun _ => ⟨_, _, rfl⟩⟩

/-- The directory is opened, which fails, and the selection is then moved in
the other panel. -/
theorem fileManager_sound_other_panel :
    (fileManager 24).EachState (Sound 24) start
      [.down, .enter none none, .tab, .down, .up, .enter none (some [])] :=
  ((fileManager_sound_iff (by decide) (init_start 24)).2).mpr
    (by decide +kernel)

/-- The directory is opened, which fails, and the selection is moved there.
The panel is drawn from `files[-1]` on. -/
theorem fileManager_reads_before_list :
    (fileManager 24).init start ∧
      ¬(fileManager 24).EachState (Sound 24) start [.enter none none, .up] ∧
      ((fileManager 24).run start [.enter none none, .up]).map
        (fun s => ((s.panels .left).selected, (s.panels .left).startLine,
          (drawFilelist (s.panels .left) 24).isNone)) =
        some (-1, -1, true) := by
  refine ⟨init_start 24, fun hAll => ?_, by decide +kernel⟩
  have hDrawn := (hAll.last rfl .left).drawn
  exact absurd hDrawn (by decide +kernel)

end UnixHomework.Ports.FileManager
