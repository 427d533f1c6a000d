import UnixHomework.Ports.FileManagerPaths
import UnixHomework.Verified.Traces

/-!
# Two panels

`update_path` works for both panels, and its local array `newpath` lies on the
stack where earlier calls have had theirs.  For `..` right below the root the
array is not written before `realpath` reads it, so where this panel goes may
depend on what has been typed in the other one (`stale_path_crosses`).

Such keys apart, the panels do not disturb each other: a run of the manager is
a run of each panel on the keys typed while it was active, whatever the array
holds in each call (`panels_independent`).  For this the tree of files does not
change: what the system answers depends on the path alone.
-/

namespace UnixHomework.Ports.FileManager

open UnixHomework.Verified

/-! ## The program -/

/-- The answers of the system, which depend on the path alone. -/
structure System where
  /-- `realpath`, where it does not fail. -/
  realpath : List UInt8 → Option (List UInt8)
  /-- The entries of a directory that can be opened. -/
  readdir : List UInt8 → Option (List Dirent)

/-- A panel with the array of its path. -/
structure Pane where
  /-- `path[PATH_MAX]`, with whatever is behind the NUL, -/
  path : PathArray
  /-- the panel, -/
  list : Panel
  /-- and that its path is the one in the array. -/
  same : list.path = path.str

inductive Press where
  | tab
  | up
  | down
  | enter
  | other
  deriving DecidableEq

/-- A key, and what `newpath` holds if `update_path` is called for it. -/
structure Turn where
  press : Press
  newpath : PathArray

theorem path_loadDirectory (p : Panel) (dir : Option (List Dirent)) :
    (loadDirectory p dir).path = p.path := by
  cases dir <;> rfl

namespace Pane

def move (p : Pane) (delta height : Int) : Pane :=
  { p with list := moveSelection p.list delta height }

/-- `load_directory` behind `update_path`. -/
def load (sys : System) (p : Pane) (path : PathArray) : Pane where
  path := path
  list := loadDirectory { p.list with path := path.str } (sys.readdir path.str)
  same := path_loadDirectory _ _

/-- Enter. -/
def enter (sys : System) (newpath : PathArray) (p : Pane) : Option Pane :=
  if 0 < p.list.count then do
    let entry ← p.list.entry? p.list.selected
    if entry.isDir then do
      let path ← updatePathFrom sys.realpath newpath p.path entry.name
      some (p.load sys path)
    else some p
  else some p

/-- Enter is `..` right below the root: `newpath` is read as it is. -/
def readsStale (p : Pane) : Bool :=
  (p.list.entry? p.list.selected).any fun entry =>
    entry.name == dotDot && p.path.str != root &&
      lastIndexOf slash p.path.str == some 0

end Pane

/-- The panes and `active`. -/
structure Session where
  panes : Side → Pane
  active : Side

def Session.setActive (s : Session) (p : Pane) : Session :=
  { s with panes := Function.update s.panes s.active p }

/-- The body of the loop. -/
def turnStep (sys : System) (height : Int) (s : Session) (t : Turn) :
    Option Session :=
  match t.press with
  | .tab => some { s with active := s.active.other }
  | .up => some (s.setActive ((s.panes s.active).move (-1) height))
  | .down => some (s.setActive ((s.panes s.active).move 1 height))
  | .enter => ((s.panes s.active).enter sys t.newpath).map s.setActive
  | .other => some s

/-- A panel after the first `load_directory`, if the directory could be
opened. -/
def Pane.Loaded (sys : System) (q : Pane) : Prop :=
  ∃ (p : Pane) (entries : List Dirent),
    sys.readdir p.path.str = some entries ∧ q = p.load sys p.path

/-- The manager with both panels. -/
def twoPanes (sys : System) (height : Int) : Machine Session Turn where
  init s := s.active = .left ∧ ∀ side, (s.panes side).Loaded sys
  step := turnStep sys height

/-! ## One panel -/

/-- A manager with one panel; Tab does nothing. -/
def paneStep (sys : System) (height : Int) (p : Pane) (t : Turn) :
    Option Pane :=
  match t.press with
  | .tab | .other => some p
  | .up => some (p.move (-1) height)
  | .down => some (p.move 1 height)
  | .enter => p.enter sys t.newpath

def onePane (sys : System) (height : Int) : Machine Pane Turn where
  init q := q.Loaded sys
  step := paneStep sys height

/-- The keys typed while a panel is active. -/
def keysFor (side : Side) : Side → List Press → List Press
  | _, [] => []
  | active, .tab :: keys => keysFor side active.other keys
  | active, key :: keys =>
      if side = active then key :: keysFor side active keys
      else keysFor side active keys

/-- The panel that is active after some keys. -/
def activeAfter : Side → List Press → Side
  | active, [] => active
  | active, .tab :: keys => activeAfter active.other keys
  | active, _ :: keys => activeAfter active keys

/-- The key does not make `realpath` read what `newpath` happens to hold. -/
def Fresh (s : Session) (t : Turn) : Prop :=
  t.press = .enter → (s.panes s.active).readsStale = false

instance (s : Session) (t : Turn) : Decidable (Fresh s t) :=
  inferInstanceAs (Decidable (_ → _))

/-! ## What a key does -/

section Turns

variable {sys : System} {height : Int} {s last : Session} {t t' : Turn}
  {p : Pane}

/-- A string is written and read, and something done with it. -/
theorem written_bind (a : PathArray) (s : List UInt8)
    (k : List UInt8 → Option PathArray) :
    ((a.writeString? 0 s).bind fun b => (b.readString? 0).bind k) =
      (if s.length < pathMax then some (cstr s) else none).bind k := by
  rw [← Option.bind_assoc, a.readString?_written]

theorem written_twice_bind (a : PathArray) {s : List UInt8} {len : Nat}
    (hLen : s.length = len) (k : List UInt8 → Option PathArray) :
    ((a.write? 0 s).bind fun b => (b.write? len [0]).bind fun c =>
        (c.readString? 0).bind k) =
      (if s.length < pathMax then some (cstr s) else none).bind k := by
  subst hLen
  rw [← a.readString?_written_twice, Option.bind_assoc]
  simp only [Option.bind_assoc]

/-- **A call that writes the array first** does not depend on it. -/
theorem updatePathFrom_congr {realpath : List UInt8 → Option (List UInt8)}
    {path : PathArray} {subdir : List UInt8}
    (h : subdir = dotDot → path.str ≠ root →
      lastIndexOf slash path.str ≠ some 0) (a b : PathArray) :
    updatePathFrom realpath a path subdir =
      updatePathFrom realpath b path subdir := by
  rw [updatePathFrom, updatePathFrom, joinPath, joinPath]
  by_cases hUp : subdir = dotDot
  · by_cases hRoot : path.str = root
    · simp only [if_pos hUp, if_pos hRoot, Option.bind_eq_bind,
        Option.bind_assoc, Option.bind_some, written_bind]
    · cases hLast : lastIndexOf slash path.str with
      | none =>
          simp only [if_pos hUp, if_neg hRoot, Option.bind_eq_bind,
            Option.bind_assoc, Option.bind_some, written_bind]
      | some len =>
          cases len with
          | zero => exact absurd hLast (h hUp hRoot)
          | succ len =>
              have hLen : (path.str.take (len + 1)).length = len + 1 :=
                List.length_take_of_le
                  (Nat.le_of_lt (lastIndexOf_lt hLast))
              simp only [if_pos hUp, if_neg hRoot, Option.bind_eq_bind,
                Option.bind_assoc, Option.bind_some, written_twice_bind _ hLen]
  · by_cases hLong : pathMax ≤ (path.str ++ slash :: subdir).length
    · have hWritten : ∀ c : PathArray, ∃ d, c.writeString? 0
          ((path.str ++ slash :: subdir).take (pathMax - 1)) = some d := by
        intro c
        refine ⟨_, c.write?_of_fits ?_⟩
        rw [List.length_append, List.length_take]
        have hSize : 0 < pathMax := by decide
        simp only [List.length_singleton]
        omega
      obtain ⟨_, hLeft⟩ := hWritten a
      obtain ⟨_, hRight⟩ := hWritten b
      simp only [if_neg hUp, if_pos hLong, Option.bind_eq_bind,
        Option.bind_assoc, Option.bind_some, hLeft, hRight, written_bind]
    · simp only [if_neg hUp, if_neg hLong, Option.bind_eq_bind,
        Option.bind_assoc, Option.bind_some, written_bind]

/-- **Enter**, where `newpath` is written first. -/
theorem Pane.enter_congr (h : p.readsStale = false) (a b : PathArray) :
    p.enter sys a = p.enter sys b := by
  rw [Pane.enter, Pane.enter]
  cases hEntry : p.list.entry? p.list.selected with
  | none => rfl
  | some entry =>
      have hWritten : entry.name = dotDot → p.path.str ≠ root →
          lastIndexOf slash p.path.str ≠ some 0 := by
        rw [Pane.readsStale, hEntry] at h
        intro hUp hRoot hLast
        simp [hUp, hRoot, hLast] at h
      simp only [Option.bind_eq_bind, Option.bind_some,
        updatePathFrom_congr hWritten a b]

theorem keysFor_cons {key : Press} (hKey : key ≠ .tab) (side active : Side)
    (keys : List Press) : keysFor side active (key :: keys) =
      if side = active then key :: keysFor side active keys
      else keysFor side active keys := by
  cases key <;> first | contradiction | rfl

theorem activeAfter_cons {key : Press} (hKey : key ≠ .tab) (active : Side)
    (keys : List Press) :
    activeAfter active (key :: keys) = activeAfter active keys := by
  cases key <;> first | contradiction | rfl

theorem Session.setActive_self (s : Session) :
    s.setActive (s.panes s.active) = s := by
  rw [Session.setActive, Function.update_eq_self]

/-- A key other than Tab changes the active panel as if it were the only one,
whatever the array holds there. -/
theorem turnStep_eq (hTab : t.press ≠ .tab) (hFresh : Fresh s t)
    (hSame : t'.press = t.press) :
    turnStep sys height s t =
      (paneStep sys height (s.panes s.active) t').map s.setActive := by
  rw [turnStep, paneStep, hSame]
  cases hPress : t.press with
  | tab => exact absurd hPress hTab
  | up | down => rfl
  | enter =>
      simp only
      rw [Pane.enter_congr (hFresh hPress) t.newpath t'.newpath]
  | other => exact congrArg some s.setActive_self.symm

theorem Session.setActive_active (s : Session) (p : Pane) :
    (s.setActive p).panes s.active = p :=
  Function.update_self ..

theorem Session.setActive_other (s : Session) (p : Pane) {side : Side}
    (h : side ≠ s.active) : (s.setActive p).panes side = s.panes side :=
  Function.update_of_ne h ..

/-- A session is its two panes and the active side. -/
theorem Session.eq_iff : some s = some last ↔
    (∀ side, some (s.panes side) = some (last.panes side)) ∧
      last.active = s.active := by
  constructor
  · intro h
    obtain rfl := Option.some.inj h
    exact ⟨fun _ => rfl, rfl⟩
  · rintro ⟨hPanes, hActive⟩
    have hSame : s.panes = last.panes :=
      funext fun side => Option.some.inj (hPanes side)
    cases s
    cases last
    rw [Option.some.injEq, Session.mk.injEq]
    exact ⟨hSame, hActive.symm⟩

/-- The panel that has the key has it on its own, too. -/
theorem alone_eq_cons {alone : Side → List Turn} {keys : List Press}
    (hTab : t.press ≠ .tab)
    (hTyped : ∀ side, (alone side).map Turn.press =
      keysFor side s.active (t.press :: keys)) :
    ∃ t' rest, alone s.active = t' :: rest ∧ t'.press = t.press := by
  have hKeys := hTyped s.active
  rw [keysFor_cons hTab, if_pos rfl] at hKeys
  obtain ⟨t', rest, hAlone, hSame, -⟩ := List.map_eq_cons_iff.mp hKeys
  exact ⟨t', rest, hAlone, hSame⟩

/-- What is left to type for each panel on its own, after one key. -/
theorem typed_next {alone : Side → List Turn} {keys : List Press}
    {rest : List Turn} (hTab : t.press ≠ .tab)
    (hTyped : ∀ side, (alone side).map Turn.press =
      keysFor side s.active (t.press :: keys))
    (hAlone : alone s.active = t' :: rest) (side : Side) :
    (Function.update alone s.active rest side).map Turn.press =
      keysFor side s.active keys := by
  have hKeys := hTyped side
  rw [keysFor_cons hTab] at hKeys
  by_cases hSide : side = s.active
  · subst hSide
    rw [if_pos rfl, hAlone, List.map_cons] at hKeys
    rw [Function.update_self]
    exact (List.cons.inj hKeys).2
  · rw [if_neg hSide] at hKeys
    rw [Function.update_of_ne hSide]
    exact hKeys

/-- The runs of the panels on their own, from one key to the next. -/
theorem runs_next {alone : Side → List Turn} {rest : List Turn}
    (hStep : paneStep sys height (s.panes s.active) t' = some p)
    (hAlone : alone s.active = t' :: rest) (side : Side) :
    (onePane sys height).run ((s.setActive p).panes side)
        (Function.update alone s.active rest side) =
      (onePane sys height).run (s.panes side) (alone side) := by
  by_cases hSide : side = s.active
  · subst hSide
    rw [s.setActive_active, Function.update_self, hAlone, Machine.run_cons]
    show _ = (paneStep sys height _ t').bind _
    rw [hStep, Option.bind_some]
  · rw [s.setActive_other p hSide, Function.update_of_ne hSide]

/-- Where the key is undefined, so is the run of its panel. -/
theorem run_eq_none {turns rest : List Turn}
    (hStep : paneStep sys height p t' = none) (hAlone : turns = t' :: rest) :
    (onePane sys height).run p turns = none := by
  rw [hAlone, Machine.run_cons]
  show (paneStep sys height p t').bind _ = _
  rw [hStep, Option.bind_none]

end Turns

/-! ## Whole runs -/

/-- **Independent panels.**  Where no key makes `realpath` read the array as it
is, a run of the file manager is, on each side, a run of a manager with that
panel alone on the keys typed while it was active: whatever the arrays hold in
the one and in the others. -/
theorem panels_independent (sys : System) (height : Int) {s : Session}
    {turns : List Turn} {alone : Side → List Turn}
    (hTyped : ∀ side, (alone side).map Turn.press =
      keysFor side s.active (turns.map Turn.press))
    (hFresh : (twoPanes sys height).EachStep Fresh s turns) (last : Session) :
    (twoPanes sys height).run s turns = some last ↔
      (∀ side, (onePane sys height).run (s.panes side) (alone side) =
        some (last.panes side)) ∧
      last.active = activeAfter s.active (turns.map Turn.press) := by
  induction turns generalizing s alone with
  | nil =>
      have hNone : ∀ side, alone side = [] :=
        fun side => List.map_eq_nil_iff.mp (hTyped side)
      simp only [hNone]
      exact Session.eq_iff
  | cons t turns ih =>
      obtain ⟨hHere, hNext⟩ := hFresh
      rw [List.map_cons] at hTyped ⊢
      rw [Machine.run_cons]
      show (turnStep sys height s t).bind _ = _ ↔ _
      by_cases hTab : t.press = .tab
      · have hStep : turnStep sys height s t =
            some { s with active := s.active.other } := by
          rw [turnStep, hTab]
        rw [hTab] at hTyped ⊢
        rw [hStep, Option.bind_some]
        exact ih hTyped (hNext _ hStep)
      · rw [activeAfter_cons hTab]
        obtain ⟨t', rest, hAlone, hSame⟩ := alone_eq_cons hTab hTyped
        have hTurn : turnStep sys height s t =
            (paneStep sys height (s.panes s.active) t').map s.setActive :=
          turnStep_eq hTab hHere hSame
        cases hPane : paneStep sys height (s.panes s.active) t' with
        | none =>
            rw [hTurn, hPane]
            refine iff_of_false (by simp) ?_
            rintro ⟨hRuns, -⟩
            have hActive := hRuns s.active
            rw [run_eq_none hPane hAlone] at hActive
            contradiction
        | some p =>
            rw [hPane, Option.map_some] at hTurn
            rw [hTurn, Option.bind_some]
            have hRest := @ih (s.setActive p)
              (Function.update alone s.active rest)
              (typed_next hTab hTyped hAlone) (hNext _ hTurn)
            rw [hRest]
            simp only [runs_next hPane hAlone]
            exact Iff.rfl

/-! ## The keys with their answers -/

section Screens

variable {sys : System} {height : Int} {s next : Session} {t : Turn}

/-- What is drawn of a session. -/
def Session.screen (s : Session) : Screen where
  panels side := (s.panes side).list
  active := s.active

theorem Session.screen_setActive (s : Session) (p : Pane) :
    (s.setActive p).screen = s.screen.setActive p.list := by
  have hPanels : (fun side => ((s.setActive p).panes side).list) =
      Function.update (fun side => (s.panes side).list) s.active p.list := by
    funext side
    by_cases hSide : side = s.active
    · subst hSide
      rw [s.setActive_active, Function.update_self]
    · rw [s.setActive_other p hSide, Function.update_of_ne hSide]
  exact congrArg (Screen.mk · s.active) hPanels

/-- `updatePath` changes nothing but the path. -/
theorem updatePath_eq (p : Panel) (subdir : List UInt8)
    (resolved : Option (List UInt8)) :
    updatePath p subdir resolved =
      { p with path := (updatePath p subdir resolved).path } := by
  cases resolved <;> rfl

theorem Pane.load_list {p : Pane} {path : PathArray} {subdir : List UInt8}
    {resolved : Option (List UInt8)}
    (h : path.str = (updatePath p.list subdir resolved).path) :
    (p.load sys path).list =
      loadDirectory (updatePath p.list subdir resolved)
        (sys.readdir path.str) := by
  have hSame : updatePath p.list subdir resolved =
      { p.list with path := path.str } := by
    rw [h]
    exact updatePath_eq p.list subdir resolved
  rw [hSame]
  rfl

/-- **One key** is a key of the file manager with some answers of the
system. -/
theorem turn_refines (h : turnStep sys height s t = some next) :
    ∃ key, keyStep height s.screen key = some next.screen := by
  rw [turnStep] at h
  cases hPress : t.press with
  | tab =>
      rw [hPress] at h
      obtain rfl := Option.some.inj h
      exact ⟨.tab, rfl⟩
  | up =>
      rw [hPress] at h
      obtain rfl := Option.some.inj h
      rw [s.screen_setActive]
      exact ⟨.up, rfl⟩
  | down =>
      rw [hPress] at h
      obtain rfl := Option.some.inj h
      rw [s.screen_setActive]
      exact ⟨.down, rfl⟩
  | other =>
      rw [hPress] at h
      obtain rfl := Option.some.inj h
      exact ⟨.other, rfl⟩
  | enter =>
      rw [hPress] at h
      obtain ⟨p, hEnter, rfl⟩ := Option.map_eq_some_iff.mp h
      rw [Pane.enter] at hEnter
      by_cases hCount : 0 < (s.panes s.active).list.count
      · rw [if_pos hCount] at hEnter
        obtain ⟨entry, hEntry, hEnter⟩ := Option.bind_eq_some_iff.mp hEnter
        by_cases hDir : entry.isDir = true
        · rw [if_pos hDir] at hEnter
          obtain ⟨path, hPath, hLoad⟩ := Option.bind_eq_some_iff.mp hEnter
          obtain rfl := Option.some.inj hLoad
          obtain ⟨resolved, hResolved⟩ := updatePathFrom_str
            (s.panes s.active).same.symm hPath
          refine ⟨.enter resolved (sys.readdir path.str), ?_⟩
          rw [s.screen_setActive, Pane.load_list hResolved]
          simp only [keyStep, Session.screen, if_pos hCount, hEntry,
            Option.bind_eq_bind, Option.bind_some, if_pos hDir]
        · rw [if_neg hDir] at hEnter
          obtain rfl := Option.some.inj hEnter
          rw [s.setActive_self]
          exact ⟨.other, rfl⟩
      · rw [if_neg hCount] at hEnter
        obtain rfl := Option.some.inj hEnter
        rw [s.setActive_self]
        exact ⟨.other, rfl⟩

/-- **The screens of all sessions** are those that the file manager reaches, so
that what holds of these holds here. -/
theorem screen_reachable (h : (twoPanes sys height).Reachable s) :
    (fileManager height).Reachable s.screen := by
  apply h.invariant (I := fun s => (fileManager height).Reachable s.screen)
  · rintro s ⟨hActive, hLoaded⟩
    refine .init ⟨hActive, fun side => ?_⟩
    obtain ⟨p, entries, hDir, hPane⟩ := hLoaded side
    refine ⟨{ p.list with path := p.path.str }, entries, ?_⟩
    show (s.panes side).list = _
    rw [hPane]
    exact congrArg (loadDirectory _) hDir
  · intro s t next hReached _ hStep
    obtain ⟨key, hKey⟩ := turn_refines hStep
    exact .step hReached trivial hKey

end Screens

/-! ## Two panels in `/usr` -/

/-- The directories `/`, `/usr` and `/usr/lib`. -/
def treeSystem : System where
  realpath := treeRealpath
  readdir path :=
    if path = pathOf slash [usr] then some [⟨dotDot, true⟩, ⟨lib, true⟩]
    else some [⟨dotDot, true⟩]

theorem holding_usr : (holding (pathOf slash [usr])).str = pathOf slash [usr] :=
  (storePath_str _ _ (by decide) (by decide)).1

def usrPane : Pane :=
  Pane.load treeSystem ⟨holding (pathOf slash [usr]),
    ⟨pathOf slash [usr], [], 0, 0, Nat.zero_le _⟩, holding_usr.symm⟩
    (holding (pathOf slash [usr]))

def inUsr : Session where
  panes _ := usrPane
  active := .left

/-- A key, where `newpath` is empty. -/
def Press.turn (press : Press) : Turn :=
  ⟨press, holding []⟩

/-- What `newpath` holds when `lib` has been entered. -/
def afterLib : PathArray :=
  (joinPath (holding []) usrPane.path lib).elim (holding []) Prod.fst

/-- **Why these keys are excepted.**  The left panel enters `/usr/lib`, for
which `update_path` makes this path in `newpath`.  If the array still holds it
when `..` is entered in the right panel, this one goes from `/usr` to
`/usr/lib` as well, and not to the root. -/
theorem stale_path_crosses :
    ((twoPanes treeSystem 24).run inUsr [Press.turn .down, Press.turn .enter,
        Press.turn .tab, ⟨.enter, afterLib⟩]).map
      (fun s => (s.panes .right).path.str) = some (pathOf slash [usr, lib]) ∧
    ((twoPanes treeSystem 24).run inUsr
        [Press.turn .tab, Press.turn .enter]).map
      (fun s => (s.panes .right).path.str) = some root := by
  decide +kernel

/-- Both panels enter `lib`, and the left one comes back. -/
def usrTurns : List Turn :=
  [Press.turn .down, Press.turn .enter, Press.turn .tab, Press.turn .down,
    ⟨.enter, afterLib⟩, Press.turn .tab, Press.turn .enter]

/-- The same keys for each panel, with other arrays. -/
def usrAlone : Side → List Turn
  | .left => [⟨.down, afterLib⟩, ⟨.enter, afterLib⟩, ⟨.enter, afterLib⟩]
  | .right => [⟨.down, afterLib⟩, Press.turn .enter]

theorem panels_independent_usr :
    ∃ last, (twoPanes treeSystem 24).run inUsr usrTurns = some last ∧
      (onePane treeSystem 24).run usrPane (usrAlone .left) =
        some (last.panes .left) ∧
      (onePane treeSystem 24).run usrPane (usrAlone .right) =
        some (last.panes .right) ∧ last.active = .left := by
  have hTyped : ∀ side, (usrAlone side).map Turn.press =
      keysFor side inUsr.active (usrTurns.map Turn.press) := by
    intro side
    cases side <;> rfl
  have hRun : ((twoPanes treeSystem 24).run inUsr usrTurns).isSome = true := by
    decide +kernel
  obtain ⟨last, hLast⟩ := Option.isSome_iff_exists.mp hRun
  obtain ⟨hAlone, hActive⟩ :=
    (panels_independent treeSystem 24 hTyped (by decide +kernel) last).mp hLast
  exact ⟨last, hLast, hAlone .left, hAlone .right, hActive⟩

end UnixHomework.Ports.FileManager
