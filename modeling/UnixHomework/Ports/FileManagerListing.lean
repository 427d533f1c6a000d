import UnixHomework.Ports.FileManager
import UnixHomework.Verified.Comparators
import Mathlib.Data.List.Lex

/-!
# Listing a directory

`load_directory` writes the names that `readdir` returns into the array of the
list, one behind the other.  A name whose path is too long is written as well,
and the next one is written over it, since `count` has not moved.  Then the
part of the array below `count` is sorted.

The model of the panels has only that part (`readEntries`).  Here the loop
works in the array and is shown to be the same (`listed_readLoop`).  `qsort` is
any function that sorts what can be compared: `compare_entries` follows a key,
the kind of the entry and then its name in lower case.
-/

namespace UnixHomework.Ports.FileManager

open UnixHomework.Verified

/-! ## The loop -/

/-- There is no NUL before the one at the end. -/
def CString (s : List UInt8) : Prop := 0 ∉ s

instance (s : List UInt8) : Decidable (CString s) :=
  inferInstanceAs (Decidable (0 ∉ s))

/-- `S_ISDIR`. -/
def sIsDir (mode : UInt32) : Bool :=
  mode &&& 0o170000 = 0o040000

/-- An entry that `readdir` returns, and the `st_mode` that `stat` finds, if it
succeeds. -/
structure DirEntry where
  name : List UInt8
  noNul : CString name
  stat : Option UInt32

/-- The two tests of `stat`. -/
def DirEntry.isDir (entry : DirEntry) : Bool :=
  match entry.stat with
  | some mode => sIsDir mode
  | none => false

/-- What `snprintf` makes of `"%s/%s"`, if the array is long enough. -/
def fullpath (path name : List UInt8) : List UInt8 :=
  path ++ 47 :: name

/-- `files` and `count` of `FileList`. -/
structure FileArray where
  files : Vector FileEntry maxFiles
  count : Nat

/-- The part of the array that is in use. -/
def FileArray.listed (l : FileArray) : List FileEntry :=
  l.files.toList.take l.count

/-- The body of the loop. -/
def readEntry (path : List UInt8) (entry : DirEntry) (l : FileArray)
    (h : l.count < maxFiles) : FileArray :=
  if entry.name = dot then l
  else
    let named := l.files.set l.count ⟨entry.name, l.files[l.count].isDir⟩ h
    -- the path is too long: the name stays where the next one is written
    if pathMax ≤ (fullpath path entry.name).length then
      { l with files := named }
    else
      { files := named.set l.count ⟨named[l.count].name, entry.isDir⟩ h
        count := l.count + 1 }

def readLoop (path : List UInt8) : List DirEntry → FileArray → FileArray
  | [], l => l
  | entry :: rest, l =>
      if h : l.count < maxFiles then
        readLoop path rest (readEntry path entry l h)
      else l

/-- `load_directory`, when `opendir` succeeds: what is listed after `qsort`. -/
def listDirectory (qsort : Comparator FileEntry → List FileEntry →
    List FileEntry) (path : List UInt8) (l : FileArray)
    (entries : List DirEntry) : List FileEntry :=
  qsort compareEntries (readLoop path entries { l with count := 0 }).listed

/-! ## What is asked for -/

/-- The entry is listed. -/
def Listable (path : List UInt8) (entry : DirEntry) : Prop :=
  entry.name ≠ dot ∧ (fullpath path entry.name).length < pathMax

instance (path : List UInt8) : DecidablePred (Listable path) :=
  fun _ => inferInstanceAs (Decidable (_ ∧ _))

/-- The entry of the list that belongs to it. -/
def DirEntry.file (entry : DirEntry) : FileEntry :=
  ⟨entry.name, entry.isDir⟩

/-- The name is a string. -/
def Named (file : FileEntry) : Prop := CString file.name

/-- The name without a difference between capital and small letters. -/
def folded (name : List UInt8) : List Nat :=
  name.map fun b => (toLower b).toNat

/-- Directories come before files, and otherwise the names are in order. -/
def InOrder (a b : FileEntry) : Prop :=
  if a.isDir = b.isDir then folded a.name ≤ folded b.name
  else a.isDir = true

/-! ## The array -/

section Loop

variable {path : List UInt8} {l : FileArray}

theorem listed_set (h : l.count < maxFiles) (file : FileEntry) :
    (FileArray.mk (l.files.set l.count file h) l.count).listed =
      l.listed := by
  rw [FileArray.listed, Vector.toList_set, List.take_set_of_le (Nat.le_refl _)]
  rfl

theorem listed_set_succ (h : l.count < maxFiles) (file : FileEntry) :
    (FileArray.mk (l.files.set l.count file h) (l.count + 1)).listed =
      l.listed ++ [file] := by
  have hLength : l.count < (l.files.toList.set l.count file).length := by
    rw [List.length_set, Vector.length_toList]
    exact h
  rw [FileArray.listed, Vector.toList_set,
    List.take_succ_eq_append_getElem hLength,
    List.take_set_of_le (Nat.le_refl _), List.getElem_set_self]
  rfl

/-- **One pass** of the loop, seen in the list. -/
theorem listed_readEntry (path : List UInt8) (entry : DirEntry)
    (h : l.count < maxFiles) :
    (readEntry path entry l h).listed =
      if Listable path entry then l.listed ++ [entry.file] else l.listed := by
  rw [readEntry]
  by_cases hDot : entry.name = dot
  · rw [if_pos hDot, if_neg fun hListable => hListable.1 hDot]
  · rw [if_neg hDot]
    by_cases hLong : pathMax ≤ (fullpath path entry.name).length
    · rw [if_pos hLong, if_neg fun hListable =>
        absurd hListable.2 (Nat.not_lt.mpr hLong)]
      exact listed_set h _
    · rw [if_neg hLong, if_pos ⟨hDot, Nat.lt_of_not_le hLong⟩,
        Vector.set_set, Vector.getElem_set_self]
      exact listed_set_succ h _

theorem count_readEntry_le (path : List UInt8) (entry : DirEntry)
    (h : l.count < maxFiles) : (readEntry path entry l h).count ≤ maxFiles := by
  rw [readEntry]
  split
  · exact Nat.le_of_lt h
  · dsimp only
    split
    · exact Nat.le_of_lt h
    · exact h

theorem length_listed (h : l.count ≤ maxFiles) :
    l.listed.length = l.count := by
  rw [FileArray.listed, List.length_take, Vector.length_toList,
    Nat.min_eq_left h]

/-- The entry in the model of the panels. -/
def DirEntry.dirent (entry : DirEntry) : Dirent :=
  ⟨entry.name, entry.isDir⟩

theorem length_fullpath (path name : List UInt8) :
    (fullpath path name).length = path.length + 1 + name.length := by
  rw [fullpath, List.length_append, List.length_cons]
  omega

/-- One step of the loop in the list. -/
theorem readEntries_cons (path : List UInt8) (entry : DirEntry)
    (rest : List Dirent) {files : List FileEntry}
    (h : files.length < maxFiles) :
    readEntries path (entry.dirent :: rest) files =
      readEntries path rest
        (if Listable path entry then files ++ [entry.file] else files) := by
  have hName : entry.dirent.name = entry.name := rfl
  rw [readEntries, if_pos h, hName]
  by_cases hDot : entry.name = dot
  · rw [if_pos hDot, if_neg fun hListable => hListable.1 hDot]
  · rw [if_neg hDot]
    by_cases hLong : pathMax ≤ path.length + 1 + entry.name.length
    · rw [if_pos hLong, if_neg fun hListable => absurd hListable.2
        (by rw [length_fullpath]; exact Nat.not_lt.mpr hLong)]
    · rw [if_neg hLong, if_pos ⟨hDot, by
        rw [length_fullpath]; exact Nat.lt_of_not_le hLong⟩]
      rfl

theorem readEntries_full (path : List UInt8) (entries : List Dirent)
    {files : List FileEntry} (h : maxFiles ≤ files.length) :
    readEntries path entries files = files := by
  cases entries with
  | nil => rfl
  | cons entry rest => exact if_neg (Nat.not_lt.mpr h)

/-- **The loop in the array** is the loop in the list. -/
theorem listed_readLoop (path : List UInt8) (entries : List DirEntry)
    {l : FileArray} (h : l.count ≤ maxFiles) :
    (readLoop path entries l).listed =
      readEntries path (entries.map DirEntry.dirent) l.listed := by
  induction entries generalizing l with
  | nil => rfl
  | cons entry rest ih =>
      rw [readLoop, List.map_cons]
      by_cases hCount : l.count < maxFiles
      · rw [dif_pos hCount, ih (count_readEntry_le path entry hCount),
          listed_readEntry, readEntries_cons _ _ _ (length_listed h ▸ hCount)]
      · rw [dif_neg hCount]
        exact (if_neg (length_listed h ▸ hCount)).symm

/-- **The list**, if there is room for all entries. -/
theorem readEntries_eq (path : List UInt8) (entries : List DirEntry)
    {files : List FileEntry}
    (hRoom : files.length +
      (entries.filter fun entry => entry.name ≠ dot).length ≤ maxFiles) :
    readEntries path (entries.map DirEntry.dirent) files =
      files ++ (entries.filter (Listable path)).map DirEntry.file := by
  induction entries generalizing files with
  | nil => exact (List.append_nil files).symm
  | cons entry rest ih =>
      rw [List.map_cons]
      by_cases hDot : entry.name = dot
      · have hSkip : ¬Listable path entry := fun hListable => hListable.1 hDot
        rw [List.filter_cons_of_neg (by simpa using hDot)] at hRoom
        rw [List.filter_cons_of_neg (by simpa using hSkip), ← ih hRoom]
        by_cases hCount : files.length < maxFiles
        · rw [readEntries_cons _ _ _ hCount, if_neg hSkip]
        · have hFull := Nat.le_of_not_lt hCount
          rw [readEntries_full _ _ hFull, readEntries_full _ _ hFull]
      · rw [List.filter_cons_of_pos (by simpa using hDot),
          List.length_cons] at hRoom
        rw [readEntries_cons _ _ _ (by omega)]
        by_cases hListable : Listable path entry
        · rw [if_pos hListable, List.filter_cons_of_pos (by simpa), ih,
            List.map_cons, List.append_assoc, List.singleton_append]
          rw [List.length_append, List.length_singleton]
          omega
        · rw [if_neg hListable, List.filter_cons_of_neg (by simpa)]
          exact ih (by omega)

end Loop

/-! ## The comparison -/

section Comparison

theorem toLower_ne_zero {b : UInt8} (h : b ≠ 0) : toLower b ≠ 0 := by
  rw [toLower]
  split
  · rename_i hCapital
    intro hZero
    have hNat := congrArg UInt8.toNat hZero
    have hLow := UInt8.le_iff_toNat_le.mp hCapital.1
    have hHigh := UInt8.le_iff_toNat_le.mp hCapital.2
    rw [UInt8.toNat_add] at hNat
    simp at hNat hLow hHigh
    omega
  · exact h

theorem toNat_toLower_pos {b : UInt8} {bs : List UInt8} (h : 0 ∉ b :: bs) :
    0 < (toLower b).toNat := by
  have hNe : b ≠ 0 := fun hZero => h (hZero ▸ List.mem_cons_self)
  exact Nat.pos_of_ne_zero fun hZero =>
    toLower_ne_zero hNe (UInt8.toNat_inj.mp hZero)

/-- **`strcasecmp`** compares C strings in lower case. -/
theorem strcasecmp_ordersBy :
    Comparator.OrdersBy strcasecmp folded CString := by
  intro a b ha hb
  induction a generalizing b with
  | nil =>
      cases b with
      | nil => simp [strcasecmp]
      | cons y ys =>
          have hPos := toNat_toLower_pos hb
          rw [strcasecmp]
          constructor
          · exact iff_of_true (by omega) (List.nil_lt_cons _ _)
          · exact iff_of_false (by omega) (List.not_lt_nil _)
  | cons x xs ih =>
      cases b with
      | nil =>
          have hPos := toNat_toLower_pos ha
          rw [strcasecmp]
          constructor
          · exact iff_of_false (by omega) (List.not_lt_nil _)
          · exact iff_of_true (by omega) (List.nil_lt_cons _ _)
      | cons y ys =>
          have hRest := ih ys (fun h => ha (List.mem_cons_of_mem x h))
            (fun h => hb (List.mem_cons_of_mem y h))
          rw [strcasecmp]
          simp only [folded, List.map_cons, List.cons_lt_cons_iff] at hRest ⊢
          by_cases hSame : toLower x = toLower y
          · rw [if_pos hSame, hSame]
            simpa using hRest
          · have hNat : (toLower x).toNat ≠ (toLower y).toNat :=
              mt UInt8.toNat_inj.mp hSame
            rw [if_neg hSame]
            constructor
            · simp only [hNat, false_and, or_false]
              omega
            · simp only [hNat.symm, false_and, or_false]
              omega

/-- The key of an entry: its kind, directories first, and its name. -/
def sortKey (file : FileEntry) : Nat ×ₗ List Nat :=
  toLex (1 - file.isDir.toNat, folded file.name)

/-- **`compare_entries`** follows this key. -/
theorem compareEntries_ordersBy :
    Comparator.OrdersBy compareEntries sortKey Named := by
  let kinds : Comparator FileEntry :=
    fun a b => b.isDir.toNat - a.isDir.toNat
  have hKinds :
      kinds.OrdersBy (fun file => 1 - file.isDir.toNat) Named := by
    intro a b _ _
    have ha := Bool.toNat_le a.isDir
    have hb := Bool.toNat_le b.isDir
    simp only [kinds]
    omega
  have hBoth : compareEntries =
      kinds.andThen fun a b => strcasecmp a.name b.name := by
    funext a b
    rw [compareEntries, Comparator.andThen]
    have hKind : a.isDir ≠ b.isDir ↔ kinds a b ≠ 0 := by
      show _ ↔ (b.isDir.toNat : Int) - a.isDir.toNat ≠ 0
      cases a.isDir <;> cases b.isDir <;> decide
    simp only [hKind]
    rfl
  rw [hBoth]
  exact hKinds.andThen
    (strcasecmp_ordersBy.comap (f := FileEntry.name) fun _ h => h)

theorem compareEntries_nonpos_iff {a b : FileEntry} (ha : Named a)
    (hb : Named b) : compareEntries a b ≤ 0 ↔ InOrder a b := by
  rw [compareEntries_ordersBy.nonpos_iff ha hb, sortKey, sortKey,
    Prod.Lex.toLex_le_toLex, InOrder]
  cases a.isDir <;> cases b.isDir <;> simp

end Comparison

/-! ## The directory -/

section Directory

variable {path : List UInt8} {entries : List DirEntry}

theorem named_of_mem {file : FileEntry}
    (h : file ∈ (entries.filter (Listable path)).map DirEntry.file) :
    Named file := by
  rcases List.mem_map.mp h with ⟨entry, -, rfl⟩
  exact entry.noNul

theorem listed_entries (path : List UInt8) (l : FileArray)
    (hCount : (entries.filter fun entry => entry.name ≠ dot).length ≤
      maxFiles) :
    (readLoop path entries { l with count := 0 }).listed =
      (entries.filter (Listable path)).map DirEntry.file := by
  have hEmpty : (FileArray.mk l.files 0).listed = [] := List.take_zero
  rw [listed_readLoop path entries (Nat.zero_le _), hEmpty,
    readEntries_eq path entries (by rwa [List.length_nil, Nat.zero_add])]
  rfl

/-- **The listing.**  `compare_entries` is a comparison that a sort may rely
on.  With any such sort, what `load_directory` lists are the entries of the
directory other than `"."` whose path is not too long, each as often as
`readdir` returned it, with directories first and the names in order. -/
theorem directory_listed {qsort : Comparator FileEntry → List FileEntry →
      List FileEntry} (hSorts : Comparator.Sorts qsort) (path : List UInt8)
    (l : FileArray) {entries : List DirEntry}
    (hCount : (entries.filter fun entry => entry.name ≠ dot).length ≤
      maxFiles) :
    Comparator.TotalPreorderOn compareEntries Named ∧
      (listDirectory qsort path l entries).Perm
        ((entries.filter (Listable path)).map DirEntry.file) ∧
      (listDirectory qsort path l entries).Pairwise InOrder := by
  have hOrder := compareEntries_ordersBy.totalPreorderOn
  have hListed := listed_entries path l hCount
  have hNames : Comparator.TotalPreorderOn compareEntries
      (· ∈ (entries.filter (Listable path)).map DirEntry.file) :=
    hOrder.mono fun file => named_of_mem
  rcases hSorts compareEntries _ hNames with ⟨hPerm, hPairwise⟩
  rw [listDirectory, hListed]
  refine ⟨hOrder, hPerm, hPairwise.imp_of_mem fun ha hb hNonpos => ?_⟩
  exact (compareEntries_nonpos_iff (named_of_mem (hPerm.subset ha))
    (named_of_mem (hPerm.subset hb))).mp hNonpos

/-- The model of the panels lists the same, with insertion sort. -/
theorem loadDirectory_files (p : Panel) (l : FileArray)
    (entries : List DirEntry) :
    (loadDirectory p (some (entries.map DirEntry.dirent))).files =
      listDirectory Comparator.insertionSort p.path l entries := by
  rw [listDirectory, listed_readLoop p.path entries (Nat.zero_le _)]
  rfl

end Directory

/-- An array that is not in use. -/
def unusedArray : FileArray :=
  ⟨Vector.replicate maxFiles ⟨[], false⟩, 0⟩

theorem mixed_names :
    CString (ascii ['b']) ∧ CString dot ∧ CString (ascii ['C']) ∧
      CString (ascii ['A']) := by
  decide

/-- A file, the directory itself, a directory and something that `stat` does
not find. -/
def mixed : List DirEntry :=
  [⟨ascii ['b'], mixed_names.1, some 0o100644⟩,
    ⟨dot, mixed_names.2.1, some 0o040755⟩,
    ⟨ascii ['C'], mixed_names.2.2.1, some 0o040755⟩,
    ⟨ascii ['A'], mixed_names.2.2.2, none⟩]

theorem directory_listed_mixed :
    Comparator.TotalPreorderOn compareEntries Named ∧
      (listDirectory Comparator.insertionSort root unusedArray mixed).Perm
        [⟨ascii ['b'], false⟩, ⟨ascii ['C'], true⟩, ⟨ascii ['A'], false⟩] ∧
      (listDirectory Comparator.insertionSort root unusedArray mixed).Pairwise
        InOrder :=
  directory_listed Comparator.insertionSort_sorts root unusedArray
    (by decide +kernel)

end UnixHomework.Ports.FileManager
