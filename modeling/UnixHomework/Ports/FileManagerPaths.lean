import UnixHomework.Ports.FileManager
import UnixHomework.Verified.Fields
import UnixHomework.Verified.Paths

/-!
# Where `update_path` leads

`update_path` once more, with the local array `newpath` and with the strings
that it makes.  For `..` in a directory right below the root it cuts the path
of the panel instead of a copy of it, and leaves `newpath` as it is on the
stack; `realpath` is then called with whatever that holds.  In all other cases
`newpath` is written first (`update_path_navigates`).

`realpath` and the tree of files are the system's; what they are relied on for
is `RealPath`.  It says which paths are resolved and what the answers look
like, so that nothing is assumed of paths through symbolic links.
-/

namespace UnixHomework.Ports.FileManager

open UnixHomework.Verified

def slash : UInt8 := 47

/-- `char[PATH_MAX]`. -/
abbrev PathArray := CharArray pathMax

/-! ## The function -/

/-- `update_path` up to the call of `realpath`: `newpath` and the path of the
panel.  For `..` right below the root the source puts a NUL behind the slash,
in the panel's path and not in `newpath`. -/
def joinPath (newpath path : PathArray) (subdir : List UInt8) :
    Option (PathArray × PathArray) :=
  if subdir = dotDot then
    if path.str = root then do
      let newpath ← newpath.writeString? 0 root
      some (newpath, path)
    else
      match lastIndexOf slash path.str with
      | some 0 => some (newpath, path.set 1 0)
      | some len => do
          let newpath ← newpath.write? 0 (path.str.take len)
          let newpath ← newpath.write? len [0]
          some (newpath, path)
      | none => do
          let newpath ← newpath.writeString? 0 root
          some (newpath, path)
  else do
    let text := path.str ++ slash :: subdir
    let newpath ← newpath.writeString? 0 (text.take (pathMax - 1))
    if pathMax ≤ text.length then do
      let newpath ← newpath.writeString? 0 path.str
      some (newpath, path)
    else some (newpath, path)

/-- `strncpy(flist->path, resolved, PATH_MAX - 1)` and the NUL behind it. -/
def storePath (path : PathArray) (resolved : List UInt8) : PathArray :=
  (path.strncpy resolved (pathMax - 1) (Nat.sub_le pathMax 1)).set
    (pathMax - 1) 0

/-- `update_path`: the path of the panel afterwards.  It is undefined if
`newpath` has no NUL. -/
def updatePathFrom (realpath : List UInt8 → Option (List UInt8))
    (newpath path : PathArray) (subdir : List UInt8) : Option PathArray := do
  let (newpath, path) ← joinPath newpath path subdir
  let text ← newpath.readString? 0
  match realpath text with
  | some resolved => some (storePath path resolved)
  | none => some path

/-! ## Directories -/

/-- A name of a directory entry, other than `.` and `..`. -/
structure Plain (c : List UInt8) : Prop where
  /-- It is not empty and has no slash, -/
  component : Component slash c
  /-- and it is a C string. -/
  noNul : (0 : UInt8) ∉ c
  not_dot : c ≠ dot
  not_dotDot : c ≠ dotDot

/-- What is relied on.  `present` says which lists of names lead from the root
to a file or a directory without passing through a symbolic link.  `realpath`
resolves their paths, also when slashes are added in front of a name, and it
returns nothing but their normalised paths.  What it does with a path through
a symbolic link is left open: it may fail there, or return the path of what
the link stands for, which is then present. -/
structure RealPath (present : List (List UInt8) → Prop)
    (realpath : List UInt8 → Option (List UInt8)) : Prop where
  /-- The root is there. -/
  root : present []
  /-- What is in a directory is there only with the directory. -/
  parent : ∀ cs c, present (cs ++ [c]) → present cs
  /-- Names are names of entries. -/
  plain : ∀ cs, present cs → ∀ c ∈ cs, Plain c
  /-- A path of what is there is resolved to itself, without superfluous
  slashes. -/
  resolves : ∀ cs text, present cs → text.head? = some slash →
    (cs = [] ∨ text.getLast? ≠ some slash) → words slash text = cs →
      text.length < pathMax → realpath text = some (pathOf slash cs)
  /-- An answer is the path of something that is there. -/
  normal : ∀ text resolved, realpath text = some resolved →
    resolved.length < pathMax ∧
      ∃ cs, present cs ∧ resolved = pathOf slash cs

/-- The panel has the path with these components afterwards. -/
def LeadsTo (realpath : List UInt8 → Option (List UInt8))
    (newpath path : PathArray) (subdir : List UInt8)
    (cs : List (List UInt8)) : Prop :=
  (updatePathFrom realpath newpath path subdir).map CharArray.str =
    some (pathOf slash cs)

/-- What `newpath` holds is a string, and `realpath` fails on it or finds the
root. -/
def Harmless (realpath : List UInt8 → Option (List UInt8))
    (newpath : PathArray) : Prop :=
  ∃ text, newpath.readString? 0 = some text ∧
    ∀ resolved, realpath text = some resolved → resolved = root

/-- When `..` leads to the parent: always at the root; right below it, if the
old contents of `newpath` do no harm; further down, if the parent is still
there and is not a symbolic link.  It is asked of the directories, of the array
and of `realpath` before the call. -/
def GoesUp (present : List (List UInt8) → Prop)
    (realpath : List UInt8 → Option (List UInt8)) (newpath : PathArray) :
    List (List UInt8) → Prop
  | [] => True
  | [_] => Harmless realpath newpath
  | cs => present cs.dropLast

/-! ## Strings -/

section Strings

variable {cs : List (List UInt8)}

theorem components (h : ∀ c ∈ cs, Plain c) : ∀ c ∈ cs, Component slash c :=
  fun c hc => (h c hc).component

theorem noNul_pathOf (h : ∀ c ∈ cs, Plain c) :
    (0 : UInt8) ∉ pathOf slash cs := by
  intro hMem
  rw [pathOf] at hMem
  split at hMem
  · exact absurd hMem (by decide)
  · rcases List.mem_flatMap.mp hMem with ⟨c, hc, hZero⟩
    rcases List.mem_cons.mp hZero with hSlash | hName
    · exact absurd hSlash (by decide)
    · exact (h c hc).noNul hName

theorem head?_pathOf (cs : List (List UInt8)) :
    (pathOf slash cs).head? = some slash := by
  rcases pathOf_head slash cs with ⟨rest, hRest⟩
  rw [hRest]
  rfl

/-- No path but that of the root ends in a slash. -/
theorem getLast?_pathOf (h : ∀ c ∈ cs, Component slash c) :
    cs = [] ∨ (pathOf slash cs).getLast? ≠ some slash := by
  rcases List.eq_nil_or_concat' cs with hNil | ⟨front, c, rfl⟩
  · exact Or.inl hNil
  · right
    rw [pathOf_concat, List.getLast?_append_cons]
    exact (h c (by simp)).getLast?_cons_ne

/-- A path that is stored. -/
theorem storePath_str (path : PathArray) (resolved : List UInt8)
    (hNoNul : (0 : UInt8) ∉ resolved) (hShort : resolved.length < pathMax) :
    (storePath path resolved).str = resolved ∧
      (storePath path resolved).Terminated := by
  constructor
  · have hStored := path.str_strncpy_set resolved
      (Nat.sub_lt (by decide) (by decide) : pathMax - 1 < pathMax)
    rw [cstr_of_noNul hNoNul, List.take_of_length_le (by omega)] at hStored
    exact hStored
  · exact CharArray.terminated_set_zero _ (by decide)

/-- The string is written and its NUL behind it. -/
theorem writeString?_read (newpath : PathArray) {s : List UInt8}
    (hNoNul : (0 : UInt8) ∉ s) (hShort : s.length < pathMax) :
    ∃ written, newpath.writeString? 0 s = some written ∧
      written.readString? 0 = some s := by
  rcases newpath.writeString?_stored hShort (Nat.le_of_eq (Nat.zero_add _))
    hNoNul with ⟨written, hWrite, hStored, -⟩
  exact ⟨written, hWrite, hStored.readString?_eq⟩

/-- The two statements that copy the front of a string. -/
theorem write?_read (newpath : PathArray) {s : List UInt8}
    (hNoNul : (0 : UInt8) ∉ s) (hShort : s.length < pathMax) :
    ∃ copied written, newpath.write? 0 s = some copied ∧
      copied.write? s.length [0] = some written ∧
      written.readString? 0 = some s := by
  rcases newpath.exists_write? 0 s s.length rfl (by omega) with
    ⟨copied, hCopy, hText, -⟩
  rcases copied.exists_write? s.length [0] 1 rfl hShort with
    ⟨written, hWrite, hNul, hFrame⟩
  refine ⟨copied, written, hCopy, hWrite, ?_⟩
  apply written.readString?_of_slice _ _ hNoNul
  · rw [hFrame 0 s.length (Or.inl (Nat.le_of_eq (Nat.zero_add _))), hText]
  · rw [Nat.zero_add, hNul]

end Strings

/-! ## One call -/

section Calls

variable {present : List (List UInt8) → Prop}
  {realpath : List UInt8 → Option (List UInt8)}
  {newpath path : PathArray} {cs : List (List UInt8)}

theorem RealPath.realpath_pathOf (h : RealPath present realpath)
    (hDir : present cs) (hShort : (pathOf slash cs).length < pathMax) :
    realpath (pathOf slash cs) = some (pathOf slash cs) :=
  h.resolves cs _ hDir (head?_pathOf cs)
    (getLast?_pathOf (components (h.plain cs hDir)))
    (words_pathOf (components (h.plain cs hDir))) hShort

/-- A path that `realpath` returns is stored as it is. -/
theorem RealPath.stored (h : RealPath present realpath) (path : PathArray)
    {text resolved : List UInt8} (hFound : realpath text = some resolved) :
    (storePath path resolved).str = resolved ∧
      (storePath path resolved).Terminated := by
  rcases h.normal text resolved hFound with ⟨hShort, cs, hDir, rfl⟩
  exact storePath_str path _ (noNul_pathOf (h.plain cs hDir)) hShort

/-- The call, once it is known what `realpath` is called with. -/
theorem updatePathFrom_eq {subdir text : List UInt8} {joined cut : PathArray}
    (hJoin : joinPath newpath path subdir = some (joined, cut))
    (hText : joined.readString? 0 = some text) :
    updatePathFrom realpath newpath path subdir =
      match realpath text with
      | some resolved => some (storePath cut resolved)
      | none => some cut := by
  rw [updatePathFrom, hJoin, Option.bind_eq_bind, Option.bind_some]
  simp only [hText, Option.bind_eq_bind, Option.bind_some]

/-- **At the root** `..` stays there, since `newpath` is set to the root. -/
theorem leadsTo_root (h : RealPath present realpath)
    (hPath : path.str = root) :
    LeadsTo realpath newpath path dotDot [] := by
  rcases writeString?_read newpath (s := root) (by decide) (by decide) with
    ⟨joined, hWrite, hText⟩
  have hJoin : joinPath newpath path dotDot = some (joined, path) := by
    rw [joinPath, if_pos rfl, if_pos hPath, hWrite]
    rfl
  have hFound : realpath root = some root :=
    h.realpath_pathOf h.root (by decide)
  rw [LeadsTo, updatePathFrom_eq hJoin hText, hFound]
  exact congrArg some (h.stored path hFound).1

/-- **Right below the root** the path is cut, and `newpath` is not written.  If
`realpath` fails on what it holds, the path that was cut stays, and that is the
root's. -/
theorem leadsTo_cut_iff (h : RealPath present realpath) {c : List UInt8}
    (hPlain : Plain c) (hPath : path.str = pathOf slash [c]) :
    LeadsTo realpath newpath path dotDot [] ↔ Harmless realpath newpath := by
  have hText : path.str = slash :: c := by
    rw [hPath, pathOf_cons, behind_cons, behind_nil, List.append_nil]
  have hNotRoot : path.str ≠ root := by
    rw [hText]
    intro hRoot
    exact hPlain.component.nonempty (List.cons.inj hRoot).2
  have hSlash : lastIndexOf slash path.str = some 0 := by
    rw [hPath]
    exact lastIndexOf_concat [] hPlain.component
  have hJoin : joinPath newpath path dotDot =
      some (newpath, path.set 1 0) := by
    rw [joinPath, if_pos rfl, if_neg hNotRoot, hSlash]
    rfl
  have hCut : (path.set 1 0).str = root := by
    rw [path.str_set_zero (by rw [hText]; simp) (by decide), hText]
    rfl
  rw [LeadsTo, Harmless]
  cases hStale : newpath.readString? 0 with
  | none =>
      have hUndefined : updatePathFrom realpath newpath path dotDot = none := by
        simp only [updatePathFrom, hJoin, hStale, Option.bind_eq_bind,
          Option.bind_some, Option.bind_none]
      rw [hUndefined]
      exact iff_of_false (by simp) (by simp)
  | some text =>
      rw [updatePathFrom_eq hJoin hStale]
      cases hFound : realpath text with
      | none =>
          apply iff_of_true
          · exact congrArg some hCut
          · exact ⟨text, rfl, by simp [hFound]⟩
      | some resolved =>
          have hStored := (h.stored (path.set 1 0) hFound).1
          have hSame : Option.map CharArray.str
              (some (storePath (path.set 1 0) resolved)) = some resolved :=
            congrArg some hStored
          rw [hSame, Option.some.injEq]
          constructor
          · intro hRoot
            refine ⟨text, rfl, fun r hr => ?_⟩
            exact (Option.some.inj (hr.symm.trans hFound)).trans hRoot
          · rintro ⟨text', hSome, hAll⟩
            cases hSome
            exact hAll resolved hFound

/-- **Further down** the front of the path is copied, up to the last slash. -/
theorem leadsTo_front_iff (h : RealPath present realpath) (hNil : cs ≠ [])
    {c : List UInt8} (hPlain : ∀ d ∈ cs ++ [c], Plain d)
    (hEnd : path.Terminated) (hPath : path.str = pathOf slash (cs ++ [c])) :
    LeadsTo realpath newpath path dotDot cs ↔ present cs := by
  have hFront : ∀ d ∈ cs, Plain d :=
    fun d hd => hPlain d (List.mem_append_left _ hd)
  have hLast : Component slash c := (hPlain c (by simp)).component
  have hText : path.str = pathOf slash cs ++ slash :: c := by
    rw [hPath, pathOf_concat, pathOf, if_neg hNil]
  have hShort : (pathOf slash cs).length < pathMax := by
    have hLength := hEnd.length_str_lt
    rw [hText, List.length_append] at hLength
    omega
  have hNotRoot : path.str ≠ root := by
    rw [hPath]
    intro hRoot
    have hWords := words_pathOf (components hPlain)
    rw [hRoot] at hWords
    exact List.concat_ne_nil c cs hWords.symm
  have hSlash : lastIndexOf slash path.str =
      some (pathOf slash cs).length := by
    rw [hPath, lastIndexOf_concat cs hLast, pathOf, if_neg hNil]
  rcases write?_read newpath (noNul_pathOf hFront) hShort with
    ⟨copied, joined, hCopy, hWrite, hRead⟩
  have hJoin : joinPath newpath path dotDot = some (joined, path) := by
    have hTake : path.str.take (pathOf slash cs).length = pathOf slash cs := by
      rw [hText, List.take_left']
      rfl
    rcases pathOf_head slash cs with ⟨rest, hRest⟩
    have hLength : (pathOf slash cs).length = rest.length + 1 := by
      rw [hRest, List.length_cons]
    rw [hLength] at hSlash hTake hWrite
    simp only [joinPath, if_neg hNotRoot, hSlash, hTake, hCopy, hWrite,
      Option.bind_eq_bind, Option.bind_some, if_true]
  rw [LeadsTo, updatePathFrom_eq hJoin hRead]
  by_cases hDir : present cs
  · have hFound := h.realpath_pathOf hDir hShort
    rw [hFound]
    exact iff_of_true (congrArg some (h.stored path hFound).1) hDir
  · apply iff_of_false _ hDir
    cases hFound : realpath (pathOf slash cs) with
    | none =>
        intro hSame
        have hLonger := congrArg List.length (Option.some.inj hSame)
        rw [hText, List.length_append, List.length_cons] at hLonger
        omega
    | some resolved =>
        -- what is found is present, and only the parent has its path
        intro hSame
        have hStored : resolved = pathOf slash cs :=
          (h.stored path hFound).1.symm.trans (Option.some.inj hSame)
        rcases h.normal _ _ hFound with ⟨-, found, hPresent, hNormal⟩
        have hWords := congrArg (words slash) (hStored.symm.trans hNormal)
        rw [words_pathOf (components hFront),
          words_pathOf (components (h.plain found hPresent))] at hWords
        exact hDir (hWords ▸ hPresent)

/-- The last slash is the first byte. -/
theorem lastSlash_eq_zero_iff {text : List UInt8} :
    lastIndexOf slash text = some 0 ↔
      text.take 1 = root ∧ (text.drop 1).all (· ≠ slash) := by
  rw [lastIndexOf_eq_zero_iff, List.all_eq_true]
  simp only [ne_eq, decide_eq_true_eq]
  constructor
  · rintro ⟨t, rfl, hNone⟩
    refine ⟨rfl, fun b hb => ?_⟩
    rintro rfl
    exact hNone hb
  · rintro ⟨hTake, hDrop⟩
    refine ⟨text.drop 1, ?_, fun hMem => hDrop slash hMem rfl⟩
    conv_lhs => rw [← List.take_append_drop 1 text, hTake]
    rfl

/-- The path of the panel is cut if its last slash is its first byte. -/
theorem joinPath_dotDot (hRoot : path.str ≠ root) {joined cut : PathArray}
    (hJoin : joinPath newpath path dotDot = some (joined, cut)) :
    cut = if lastIndexOf slash path.str = some 0 then path.set 1 0
      else path := by
  rw [joinPath, if_pos rfl, if_neg hRoot] at hJoin
  cases hSlash : lastIndexOf slash path.str with
  | none =>
      rw [hSlash] at hJoin
      rcases Option.bind_eq_some_iff.mp hJoin with ⟨_, -, hEnd⟩
      rw [if_neg nofun]
      exact (Prod.mk.inj (Option.some.inj hEnd)).2.symm
  | some len =>
      rw [hSlash] at hJoin
      cases len with
      | zero =>
          rw [if_pos rfl]
          exact (Prod.mk.inj (Option.some.inj hJoin)).2.symm
      | succ len =>
          rcases Option.bind_eq_some_iff.mp hJoin with ⟨_, -, hJoin⟩
          rcases Option.bind_eq_some_iff.mp hJoin with ⟨_, -, hEnd⟩
          rw [if_neg (by simp)]
          exact (Prod.mk.inj (Option.some.inj hEnd)).2.symm

/-- The path of the panel when `realpath` is called: the root if it has been
cut, and otherwise what it was. -/
theorem joinPath_path {subdir : List UInt8} {joined cut : PathArray}
    (hJoin : joinPath newpath path subdir = some (joined, cut)) :
    cut.str =
      if subdir = dotDot ∧ path.str ≠ root ∧ path.str.take 1 = root ∧
          (path.str.drop 1).all (· ≠ slash) then root
      else path.str := by
  by_cases hUp : subdir = dotDot
  · subst hUp
    by_cases hRoot : path.str = root
    · rw [joinPath, if_pos rfl, if_pos hRoot] at hJoin
      rcases Option.bind_eq_some_iff.mp hJoin with ⟨_, -, hEnd⟩
      rcases Prod.mk.inj (Option.some.inj hEnd) with ⟨-, rfl⟩
      rw [if_neg fun h => h.2.1 hRoot]
    · rw [joinPath_dotDot hRoot hJoin]
      by_cases hZero : lastIndexOf slash path.str = some 0
      · rcases lastIndexOf_eq_zero_iff.mp hZero with ⟨t, hText, -⟩
        rw [if_pos hZero,
          if_pos ⟨rfl, hRoot, lastSlash_eq_zero_iff.mp hZero⟩,
          path.str_set_zero (by rw [hText]; simp) (by decide), hText]
        rfl
      · rw [if_neg hZero,
          if_neg fun h => hZero (lastSlash_eq_zero_iff.mpr h.2.2)]
  · rw [if_neg fun h => hUp h.1]
    rw [joinPath, if_neg hUp] at hJoin
    rcases Option.bind_eq_some_iff.mp hJoin with ⟨_, -, hJoin⟩
    split at hJoin
    · rcases Option.bind_eq_some_iff.mp hJoin with ⟨_, -, hEnd⟩
      rw [(Prod.mk.inj (Option.some.inj hEnd)).2]
    · rw [(Prod.mk.inj (Option.some.inj hJoin)).2]

/-- **The panel's path** is what `updatePath` makes it, with the answer of
`realpath` to the string in `newpath`. -/
theorem updatePathFrom_str {p : Panel} (hPath : path.str = p.path)
    {subdir : List UInt8} {next : PathArray}
    (h : updatePathFrom realpath newpath path subdir = some next) :
    ∃ resolved, next.str = (updatePath p subdir resolved).path := by
  rcases Option.bind_eq_some_iff.mp h with ⟨⟨joined, cut⟩, hJoin, h⟩
  rcases Option.bind_eq_some_iff.mp h with ⟨text, -, h⟩
  have hCut := joinPath_path hJoin
  rw [hPath] at hCut
  cases hFound : realpath text with
  | none =>
      simp only [hFound] at h
      obtain rfl := Option.some.inj h
      exact ⟨none, hCut⟩
  | some resolved =>
      simp only [hFound] at h
      obtain rfl := Option.some.inj h
      have hStored := cut.str_strncpy_set resolved
        (Nat.sub_lt (by decide) (by decide) : pathMax - 1 < pathMax)
      exact ⟨some (cstr resolved), hStored⟩

/-- **Up.**  The three cases are the three branches for `..`. -/
theorem leadsTo_parent_iff (h : RealPath present realpath)
    (hPlain : ∀ c ∈ cs, Plain c) (hEnd : path.Terminated)
    (hPath : path.str = pathOf slash cs) (newpath : PathArray) :
    LeadsTo realpath newpath path dotDot cs.dropLast ↔
      GoesUp present realpath newpath cs := by
  match cs, hPlain, hPath with
  | [], _, hPath => exact iff_of_true (leadsTo_root h hPath) trivial
  | [c], hPlain, hPath =>
      exact leadsTo_cut_iff h (hPlain c List.mem_cons_self) hPath
  | c :: d :: rest, hPlain, hPath =>
      have hSplit := List.dropLast_append_getLast
        (List.cons_ne_nil c (d :: rest))
      rw [← hSplit] at hPlain hPath
      exact leadsTo_front_iff h (List.cons_ne_nil _ _) hPlain hEnd hPath

/-- **Down.**  The path and the name are joined with a slash, two of them at
the root, and `realpath` takes one away. -/
theorem leadsTo_subdir (h : RealPath present realpath)
    (hPath : path.str = pathOf slash cs) (newpath : PathArray)
    {d : List UInt8} (hDir : present (cs ++ [d]))
    (hShort : (pathOf slash cs).length + 1 + d.length < pathMax) :
    ∃ entered, updatePathFrom realpath newpath path d = some entered ∧
      entered.Terminated ∧ entered.str = pathOf slash (cs ++ [d]) := by
  have hAll := h.plain _ hDir
  have hPlain : Plain d := hAll d (by simp)
  have hFront : ∀ c ∈ cs, Plain c :=
    fun c hc => hAll c (List.mem_append_left _ hc)
  have hLength : (pathOf slash cs ++ slash :: d).length < pathMax := by
    rw [List.length_append, List.length_cons]
    omega
  have hNoNul : (0 : UInt8) ∉ pathOf slash cs ++ slash :: d := by
    intro hMem
    rcases List.mem_append.mp hMem with hOld | hNew
    · exact noNul_pathOf hFront hOld
    · rcases List.mem_cons.mp hNew with hSlash | hName
      · exact absurd hSlash (by decide)
      · exact hPlain.noNul hName
  rcases writeString?_read newpath hNoNul hLength with
    ⟨joined, hWrite, hRead⟩
  have hJoin : joinPath newpath path d = some (joined, path) := by
    have hTake : (pathOf slash cs ++ slash :: d).take (pathMax - 1) =
        pathOf slash cs ++ slash :: d :=
      List.take_of_length_le (by omega)
    simp only [joinPath, if_neg hPlain.not_dotDot, hPath, hTake, hWrite,
      Option.bind_eq_bind, Option.bind_some, if_neg (Nat.not_le.mpr hLength)]
  have hHead : (pathOf slash cs ++ slash :: d).head? = some slash := by
    rw [List.head?_append, head?_pathOf]
    rfl
  have hLast : (pathOf slash cs ++ slash :: d).getLast? ≠ some slash := by
    rw [List.getLast?_append_cons]
    exact hPlain.component.getLast?_cons_ne
  have hFound : realpath (pathOf slash cs ++ slash :: d) =
      some (pathOf slash (cs ++ [d])) :=
    h.resolves _ _ hDir hHead (Or.inr hLast)
      (words_join hPlain.component (components hFront)) hLength
  rcases h.stored path hFound with ⟨hStored, hTerminated⟩
  refine ⟨_, ?_, hTerminated, hStored⟩
  rw [updatePathFrom_eq hJoin hRead, hFound]

/-- **Navigation.**  Exactly when `..` leads to the parent; a subdirectory is
always entered, and the way back is as from any other path. -/
theorem update_path_navigates (h : RealPath present realpath)
    (hPlain : ∀ c ∈ cs, Plain c) (hEnd : path.Terminated)
    (hPath : path.str = pathOf slash cs) (newpath : PathArray) :
    (LeadsTo realpath newpath path dotDot cs.dropLast ↔
      GoesUp present realpath newpath cs) ∧
    ∀ d, present (cs ++ [d]) →
      (pathOf slash cs).length + 1 + d.length < pathMax →
        ∃ entered, updatePathFrom realpath newpath path d = some entered ∧
          entered.str = pathOf slash (cs ++ [d]) ∧
          ∀ stale, LeadsTo realpath stale entered dotDot cs ↔
            GoesUp present realpath stale (cs ++ [d]) := by
  refine ⟨leadsTo_parent_iff h hPlain hEnd hPath newpath, ?_⟩
  intro d hDir hShort
  rcases leadsTo_subdir h hPath newpath hDir hShort with
    ⟨entered, hEnter, hEnd', hPath'⟩
  refine ⟨entered, hEnter, hPath', fun stale => ?_⟩
  have hBack := leadsTo_parent_iff h (h.plain _ hDir) hEnd' hPath' stale
  rw [List.dropLast_concat] at hBack
  exact hBack

end Calls

/-! ## An example -/

/-- The directories `/`, `/usr` and `/usr/lib`. -/
def usr : List UInt8 := ascii ['u', 's', 'r']

def lib : List UInt8 := ascii ['l', 'i', 'b']

def IsTree (cs : List (List UInt8)) : Prop :=
  cs = [] ∨ cs = [usr] ∨ cs = [usr, lib]

instance (cs : List (List UInt8)) : Decidable (IsTree cs) := by
  unfold IsTree
  infer_instance

/-- `realpath` in them; no text has `.` or `..` in it here. -/
def treeRealpath (text : List UInt8) : Option (List UInt8) :=
  if text.head? = some slash ∧ IsTree (words slash text) then
    some (pathOf slash (words slash text))
  else none

theorem plain_usr : Plain usr := ⟨⟨by decide, by decide⟩, by decide, by decide,
  by decide⟩

theorem plain_lib : Plain lib := ⟨⟨by decide, by decide⟩, by decide, by decide,
  by decide⟩

theorem treeRealpath_spec : RealPath IsTree treeRealpath where
  root := Or.inl rfl
  parent cs c h := by
    rcases h with hNil | hUsr | hLib
    · exact absurd hNil (List.concat_ne_nil c cs)
    · have hFront := congrArg List.dropLast hUsr
      rw [List.dropLast_concat] at hFront
      exact Or.inl hFront
    · have hFront := congrArg List.dropLast hLib
      rw [List.dropLast_concat] at hFront
      exact Or.inr (Or.inl hFront)
  plain cs h c hc := by
    rcases h with rfl | rfl | rfl
    · contradiction
    · rw [List.mem_singleton.mp hc]
      exact plain_usr
    · rcases List.mem_pair.mp hc with rfl | rfl
      · exact plain_usr
      · exact plain_lib
  resolves cs text hDir hHead _ hWords _ := by
    rw [treeRealpath, hWords, if_pos ⟨hHead, hDir⟩]
  normal text resolved hFound := by
    rcases Option.ite_none_right_eq_some.mp hFound with ⟨⟨-, hDir⟩, hSome⟩
    obtain rfl := Option.some.inj hSome
    refine ⟨?_, _, hDir, rfl⟩
    rcases hDir with hNil | hUsr | hLib
    · rw [hNil]
      decide
    · rw [hUsr]
      decide
    · rw [hLib]
      decide

/-- An array with a text in it. -/
def holding (text : List UInt8) : PathArray :=
  storePath (CharArray.zeros pathMax) text

/-- `/usr`, entered from the root, is not left again while `newpath` holds the
path that was made for that, and is left for `/usr/lib` if it holds this
one. -/
theorem parent_not_reached :
    (updatePathFrom treeRealpath (holding (root ++ slash :: usr))
        (holding (pathOf slash [usr])) dotDot).map CharArray.str =
      some (pathOf slash [usr]) ∧
    (updatePathFrom treeRealpath (holding (pathOf slash [usr, lib]))
        (holding (pathOf slash [usr])) dotDot).map CharArray.str =
      some (pathOf slash [usr, lib]) ∧
    ¬∀ (newpath path : PathArray) (cs : List (List UInt8)), IsTree cs →
      path.Terminated → path.str = pathOf slash cs →
        LeadsTo treeRealpath newpath path dotDot cs.dropLast := by
  have hStays : (updatePathFrom treeRealpath (holding (root ++ slash :: usr))
      (holding (pathOf slash [usr])) dotDot).map CharArray.str =
        some (pathOf slash [usr]) := by
    decide +kernel
  refine ⟨hStays, by decide +kernel, fun hAll => ?_⟩
  have hPath := storePath_str (CharArray.zeros pathMax)
    (pathOf slash [usr]) (by decide) (by decide)
  have hUp := hAll (holding (root ++ slash :: usr))
    (holding (pathOf slash [usr])) [usr] (Or.inr (Or.inl rfl)) hPath.2 hPath.1
  rw [LeadsTo, hStays] at hUp
  exact absurd hUp (by decide)

/-- From `/usr` to `/usr/lib` and back. -/
theorem update_path_navigates_lib :
    (LeadsTo treeRealpath (holding []) (holding (pathOf slash [usr])) dotDot
        [usr].dropLast ↔
      GoesUp IsTree treeRealpath (holding []) [usr]) ∧
    ∀ d, IsTree ([usr] ++ [d]) →
      (pathOf slash [usr]).length + 1 + d.length < pathMax →
        ∃ entered, updatePathFrom treeRealpath (holding [])
            (holding (pathOf slash [usr])) d = some entered ∧
          entered.str = pathOf slash ([usr] ++ [d]) ∧
          ∀ stale, LeadsTo treeRealpath stale entered dotDot [usr] ↔
            GoesUp IsTree treeRealpath stale ([usr] ++ [d]) := by
  have hPath := storePath_str (CharArray.zeros pathMax)
    (pathOf slash [usr]) (by decide) (by decide)
  exact update_path_navigates treeRealpath_spec
    (treeRealpath_spec.plain [usr] (Or.inr (Or.inl rfl))) hPath.2 hPath.1
    (holding [])

end UnixHomework.Ports.FileManager
