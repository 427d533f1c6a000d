import UnixHomework.Verified.Agreement
import UnixHomework.Verified.Fields
import UnixHomework.Verified.Tokens

/-!
# Tokens in place

`strtok` cuts a string in the array in which it is: it puts a NUL behind the
token that it returns a pointer to, and remembers where it goes on.  A pointer
is an offset here.

One call finds the next token of the string at which it starts
(`strtokFrom_spec`).  The token and the rest of the string are both strings in
the array then, and as later calls change bytes of the rest only, the token
stays as it is (`TokenAt.kept`).  So calls one after the other find the words
of a line, and each stays where it is in the line (`Stopped.nextCall`).

This module names no program.
-/

namespace UnixHomework.Verified.CharArray

variable {n : Nat} {a b c : CharArray n} {off lo hi : Nat} {s : List UInt8}

/-! ## What stays the same -/

/-- No byte outside the range differs.  `strtok` writes only inside the string
that it is given. -/
def SameOutside (lo hi : Nat) (a b : CharArray n) : Prop :=
  ∀ i, i < lo ∨ hi ≤ i → b.bytes[i]? = a.bytes[i]?

theorem SameOutside.refl (lo hi : Nat) (a : CharArray n) :
    SameOutside lo hi a a :=
  fun _ _ => rfl

theorem SameOutside.trans (h : SameOutside lo hi a b)
    (h' : SameOutside lo hi b c) : SameOutside lo hi a c :=
  fun i hi => (h' i hi).trans (h i hi)

theorem SameOutside.mono (h : SameOutside lo hi a b) {lo' hi' : Nat}
    (hLo : lo' ≤ lo) (hHi : hi ≤ hi') : SameOutside lo' hi' a b :=
  fun i hi => h i (by omega)

theorem SameOutside.slice_eq (h : SameOutside lo hi a b) {k : Nat}
    (hOut : ∀ i, off ≤ i → i < off + k → i < lo ∨ hi ≤ i) :
    b.slice off k = a.slice off k := by
  apply List.ext_getElem?
  intro i
  rw [slice, slice, List.getElem?_take, List.getElem?_take]
  by_cases hi : i < k
  · rw [if_pos hi, if_pos hi, List.getElem?_drop, List.getElem?_drop]
    exact h (off + i) (hOut (off + i) (by omega) (by omega))
  · rw [if_neg hi, if_neg hi]

/-! ## Strings in an array -/

/-- The string and its NUL are at this offset. -/
abbrev StringAt (a : CharArray n) (off : Nat) (s : List UInt8) : Prop :=
  a.Stored off (s.length + 1) s

theorem stringAt_of_readString? (h : a.readString? off = some s) :
    a.StringAt off s := by
  rcases Option.ite_none_right_eq_some.mp h with ⟨hMem, hText⟩
  rcases exists_cstr_terminated hMem with ⟨rest, hDrop⟩
  rw [show cstr (a.bytes.drop off) = s from Option.some.inj hText] at hDrop
  have hLength := congrArg List.length hDrop
  rw [List.length_drop, a.size_eq, List.length_append, List.length_cons]
    at hLength
  refine ⟨Nat.lt_succ_self _, by omega, ?_, ?_⟩
  · rw [← Option.some.inj hText]
    exact zero_notMem_cstr _
  · rw [slice, hDrop, List.append_cons, List.take_left' (by simp)]

/-- The byte at which a string starts. -/
theorem StringAt.getElem?_eq (h : a.StringAt off s) :
    a.bytes[off]? = (s ++ [0])[0]? := by
  have hFirst := congrArg (·[0]?) h.bytes
  rw [slice, List.getElem?_take_of_lt (Nat.succ_pos _), List.getElem?_drop]
    at hFirst
  exact hFirst

/-- The end of a string is a string, with the same NUL. -/
theorem StringAt.suffix {u v : List UInt8} (h : a.StringAt off (u ++ v)) :
    a.StringAt (off + u.length) v where
  fits := Nat.lt_succ_self _
  inside := by
    have hInside := h.inside
    rw [List.length_append] at hInside
    omega
  noNul hMem := h.noNul (List.mem_append_right u hMem)
  bytes := by
    have hDrop := congrArg (List.drop u.length) h.bytes
    rw [drop_slice, List.append_assoc, List.drop_left] at hDrop
    rw [← hDrop]
    congr 1
    rw [List.length_append]
    omega

theorem StringAt.frame (h : a.StringAt off s) (hSame : SameOutside lo hi a b)
    (hOut : ∀ i, off ≤ i → i ≤ off + s.length → i < lo ∨ hi ≤ i) :
    b.StringAt off s :=
  h.copy h.inside
    (hSame.slice_eq fun i hLow hHigh => hOut i hLow (Nat.le_of_lt_succ hHigh))

/-- The bytes of the start of a string. -/
theorem StringAt.slice_front {u v : List UInt8} (h : a.StringAt off (u ++ v)) :
    a.slice off u.length = u := by
  have hTake := congrArg (List.take u.length) h.bytes
  rw [take_slice _ (by rw [List.length_append]; omega), List.append_assoc,
    List.take_left] at hTake
  exact hTake

/-- **A NUL in a string** makes two strings of it. -/
theorem StringAt.cut {u v : List UInt8} {d : UInt8}
    (h : a.StringAt off (u ++ d :: v)) :
    ∃ b, a.write? (off + u.length) [0] = some b ∧
      b.StringAt off u ∧ b.StringAt (off + u.length + 1) v ∧
        SameOutside (off + u.length) (off + u.length + 1) a b := by
  have hInside := h.inside
  rw [List.length_append, List.length_cons] at hInside
  have fits : off + u.length + [(0 : UInt8)].length ≤ n := by
    rw [List.length_singleton]
    omega
  have hSame : SameOutside (off + u.length) (off + u.length + 1) a
      (a.splice (off + u.length) [0] fits) := by
    intro i hi
    rw [getElem?_splice, List.length_singleton]
    rcases hi with hi | hi
    · rw [if_pos hi]
    · rw [if_neg (by omega), if_neg (by omega)]
  refine ⟨_, a.write?_of_fits fits, ⟨Nat.lt_succ_self _, by omega, ?_, ?_⟩,
    ?_, hSame⟩
  · exact fun hMem => h.noNul (List.mem_append_left _ hMem)
  · have hNul : (a.splice (off + u.length) [0] fits).slice
        (off + u.length) 1 = [0] := slice_splice_self a fits
    rw [slice_add, hNul, slice_splice_before a fits (Nat.le_refl _),
      h.slice_front]
  · have hRest : a.StringAt (off + u.length + 1) v := by
      have hSuffix := StringAt.suffix (u := u ++ [d])
        (by rw [List.append_assoc]; exact h)
      rw [List.length_append, List.length_singleton] at hSuffix
      exact hSuffix
    exact hRest.frame hSame fun i hLow _ => Or.inr hLow

/-! ## The function -/

/-- What a call of `strtok` leaves and returns. -/
structure StrtokResult (n : Nat) where
  /-- The array, with a NUL behind the token. -/
  buf : CharArray n
  /-- The offset of the token; `none` is `NULL`. -/
  token : Option Nat
  /-- Where the next call goes on. -/
  saved : Nat

/-- `strtok` from an offset on.  It skips separators, and cuts the token off at
the next one.  A token that ends with the string has its NUL already. -/
def strtokFrom (a : CharArray n) (sep : UInt8) (off : Nat) :
    Option (StrtokResult n) := do
  let text ← a.readString? off
  let token := off + (text.takeWhile (· = sep)).length
  match text.dropWhile (· = sep) with
  | [] => some ⟨a, none, token⟩
  | b :: rest =>
      let stop := token + ((b :: rest).takeWhile (· ≠ sep)).length
      match (b :: rest).dropWhile (· ≠ sep) with
      | [] => some ⟨a, some token, stop⟩
      | _ :: _ => do
          let a ← a.write? stop [0]
          some ⟨a, some token, stop + 1⟩

/-- `strtok(s, sep)`, where the argument may be `NULL`, and the static pointer
says where the last call has stopped. -/
def strtok (a : CharArray n) (saved s : Option Nat) (sep : UInt8) :
    Option (StrtokResult n) :=
  (s.or saved).bind fun off => a.strtokFrom sep off

/-- What a call leaves that has found a word. -/
structure TokenCut (a : CharArray n) (off : Nat)
    (blanks word tail : List UInt8) (r : StrtokResult n) : Prop where
  /-- The word begins behind the blanks, -/
  token_eq : r.token = some (off + blanks.length)
  /-- and the next call goes on behind it and its separator. -/
  saved_eq : r.saved =
    off + blanks.length + word.length + (tail.take 1).length
  /-- The word is a string now, -/
  atToken : r.buf.StringAt (off + blanks.length) word
  /-- and so is the rest. -/
  atSaved : r.buf.StringAt r.saved (tail.drop 1)
  /-- Only bytes of this string have changed. -/
  same : SameOutside off r.saved a r.buf

/-- The word is cut off, unless the string ends with it. -/
theorem exists_tokenCut {blanks word tail : List UInt8} {sep : UInt8}
    (h : a.StringAt (off + blanks.length) (word ++ tail))
    (hEnded : tail = [] ∨ tail = sep :: tail.drop 1) :
    ∃ r, (match tail with
      | [] => some ⟨a, some (off + blanks.length),
          off + blanks.length + word.length⟩
      | _ :: _ => do
          let a ← a.write? (off + blanks.length + word.length) [0]
          some ⟨a, some (off + blanks.length),
            off + blanks.length + word.length + 1⟩) = some r ∧
      TokenCut a off blanks word tail r := by
  cases tail with
  | nil =>
      refine ⟨_, rfl, ⟨rfl, rfl, ?_, h.suffix, SameOutside.refl _ _ a⟩⟩
      rw [List.append_nil] at h
      exact h
  | cons d rest =>
      rcases h.cut with ⟨b, hWrite, hWord, hRest, hSame⟩
      rw [hWrite]
      exact ⟨_, rfl, ⟨rfl, rfl, hWord, hRest,
        hSame.mono (by omega) (Nat.le_refl _)⟩⟩

/-- **One call**: there is no word left, or the next one is found and cut
off. -/
theorem strtokFrom_spec (h : a.StringAt off s) (sep : UInt8) :
    (words sep s = [] ∧
      a.strtokFrom sep off = some ⟨a, none, off + s.length⟩) ∨
    ∃ blanks word tail r, NextToken sep s blanks word tail ∧
      a.strtokFrom sep off = some r ∧ TokenCut a off blanks word tail r := by
  rw [strtokFrom, h.readString?_eq, Option.bind_eq_bind, Option.bind_some]
  cases hStart : s.dropWhile (· = sep) with
  | nil =>
      have hBlanks := List.takeWhile_append_dropWhile
        (p := fun d => decide (d = sep)) (l := s)
      rw [hStart, List.append_nil] at hBlanks
      rw [hBlanks, ← words_dropWhile, hStart, words_nil]
      exact Or.inl ⟨rfl, rfl⟩
  | cons d behind =>
      have hNext := nextToken_of_dropWhile hStart
      rw [hNext.split] at h
      rcases exists_tokenCut h.suffix hNext.ended with ⟨r, hCall, hCut⟩
      exact Or.inr ⟨_, _, _, r, hNext, hCall, hCut⟩

/-! ## One call after the other -/

section Calls

variable {sep : UInt8} {line front rest word : List UInt8} {k j p saved : Nat}

/-- The word with this number begins here in the line. -/
structure WordAt (sep : UInt8) (line : List UInt8) (j pos : Nat)
    (word : List UInt8) : Prop where
  isWord : (words sep line)[j]? = some word
  /-- What is before the word has the words before it, and no others. -/
  place : ∃ front back, line = front ++ (word ++ back) ∧
    front.length = pos ∧ words sep front = (words sep line).take j

theorem WordAt.inside {pos : Nat} (h : WordAt sep line j pos word) :
    pos + word.length ≤ line.length := by
  rcases h.place with ⟨front, back, hSplit, hPos, -⟩
  have hLength := congrArg List.length hSplit
  rw [List.length_append, List.length_append] at hLength
  omega

/-- The same word with separators before the line. -/
theorem WordAt.blanks {pos : Nat} {blanks : List UInt8}
    (h : WordAt sep line j pos word) (hBlanks : ∀ b ∈ blanks, b = sep) :
    WordAt sep (blanks ++ line) j (blanks.length + pos) word := by
  rcases h.place with ⟨front, back, hSplit, hPos, hFront⟩
  refine ⟨?_, blanks ++ front, back, ?_, ?_, ?_⟩
  · rw [words_blanks hBlanks]
    exact h.isWord
  · rw [List.append_assoc, ← hSplit]
  · rw [List.length_append, hPos]
  · rw [words_blanks hBlanks, words_blanks hBlanks]
    exact hFront

/-- The calls have found the first `k` words of the line at `lo`, and stopped
between `front` and `rest`. -/
structure Stopped (a : CharArray n) (sep : UInt8) (lo : Nat)
    (line front rest : List UInt8) (k saved : Nat) : Prop where
  /-- `front` is what the calls have passed, -/
  split : line = front ++ rest
  /-- and `rest` is where the next one goes on. -/
  saved_eq : saved = lo + front.length
  /-- The rest is a string, as the calls have left it. -/
  atSaved : a.StringAt saved rest
  /-- There are so many words. -/
  found : k ≤ (words sep line).length
  /-- Its words are those that have not been found. -/
  left : words sep rest = (words sep line).drop k
  /-- The last word found has ended, so nothing that follows would be part of
  it. -/
  closed : rest = [] ∨
    ∀ t, words sep (front ++ t) = (words sep line).take k ++ words sep t

/-- A token that has been returned, and that later calls do not change. -/
def TokenAt (a : CharArray n) (sep : UInt8) (lo : Nat) (line : List UInt8)
    (saved j p : Nat) : Prop :=
  ∃ pos word, p = lo + pos ∧ WordAt sep line j pos word ∧ a.StringAt p word ∧
    (p + word.length < saved ∨ saved = lo + line.length)

/-- What the last call has returned: the next word, or `NULL` if there is
none. -/
def Returned (a : CharArray n) (sep : UInt8) (lo : Nat) (line : List UInt8)
    (k saved : Nat) : Option Nat → Prop
  | none => (words sep line).length = k
  | some p => a.TokenAt sep lo line saved k p ∧
      ∃ front rest, a.Stopped sep lo line front rest (k + 1) saved

theorem stopped_start (h : a.StringAt lo line) :
    a.Stopped sep lo line [] line 0 lo where
  split := rfl
  saved_eq := rfl
  atSaved := h
  found := Nat.zero_le _
  left := rfl
  closed := Or.inr fun _ => rfl

/-- A word that is the next one: it has number `k`, and the words after it are
left. -/
theorem Stopped.next {blanks tail : List UInt8}
    (h : a.Stopped sep lo line front rest k saved)
    (hNext : NextToken sep rest blanks word tail) :
    (words sep line)[k]? = some word ∧
      words sep (tail.drop 1) = (words sep line).drop (k + 1) := by
  have hLeft := h.left
  rw [hNext.words_eq] at hLeft
  constructor
  · have hFirst := congrArg (·[0]?) hLeft
    rw [List.getElem?_cons_zero, List.getElem?_drop] at hFirst
    exact hFirst.symm
  · rw [← List.drop_drop, ← hLeft]
    rfl

theorem Stopped.wordAt {blanks tail : List UInt8}
    (h : a.Stopped sep lo line front rest k saved)
    (hNext : NextToken sep rest blanks word tail) :
    WordAt sep line k (front.length + blanks.length) word where
  isWord := (h.next hNext).1
  place := by
    refine ⟨front ++ blanks, tail, ?_, List.length_append, ?_⟩
    · rw [List.append_assoc, ← hNext.split]
      exact h.split
    · have hBlanks := words_blanks hNext.blanks_eq []
      rw [List.append_nil, words_nil] at hBlanks
      rw [h.closed.resolve_left hNext.ne_nil, hBlanks, List.append_nil]

/-- Where the next call stops: it has found one word more, and moved over it
and its separator. -/
theorem Stopped.step {blanks tail : List UInt8} {r : StrtokResult n}
    (h : a.Stopped sep lo line front rest k saved)
    (hNext : NextToken sep rest blanks word tail)
    (hCut : TokenCut a saved blanks word tail r) :
    r.buf.Stopped sep lo line
      (front ++ (blanks ++ (word ++ tail.take 1))) (tail.drop 1) (k + 1)
      r.saved where
  split := by
    rw [h.split, hNext.split]
    simp only [List.append_assoc, List.take_append_drop]
  saved_eq := by
    rw [hCut.saved_eq, h.saved_eq]
    simp only [List.length_append]
    omega
  atSaved := hCut.atSaved
  found := (List.getElem?_eq_some_iff.mp (h.next hNext).1).1
  left := (h.next hNext).2
  closed := by
    rcases hNext.ended with hNil | hSep
    · rw [hNil]
      exact Or.inl rfl
    · refine Or.inr fun t => ?_
      have hTake : tail.take 1 = [sep] := by
        rw [hSep]
        rfl
      rw [hTake, List.append_assoc, h.closed.resolve_left hNext.ne_nil,
        List.append_assoc, words_blanks hNext.blanks_eq, List.append_assoc,
        List.singleton_append, words_append_sep hNext.nonempty hNext.free,
        List.take_add_one, (h.next hNext).1, List.append_assoc]
      rfl

theorem TokenAt.kept {saved' : Nat} (h : a.TokenAt sep lo line saved j p)
    (hSame : SameOutside saved saved' a b) (hLe : saved ≤ saved')
    (hMore : saved ≠ lo + line.length) :
    b.TokenAt sep lo line saved' j p := by
  rcases h with ⟨pos, word, hPlace, hWord, hString, hBehind⟩
  have hLess := hBehind.resolve_right hMore
  refine ⟨pos, word, hPlace, hWord, ?_,
    Or.inl (Nat.lt_of_lt_of_le hLess hLe)⟩
  exact hString.frame hSame fun i _ hHigh =>
    Or.inl (Nat.lt_of_le_of_lt hHigh hLess)

theorem TokenAt.last (h : a.TokenAt sep lo line saved j p) :
    a.TokenAt sep lo line (lo + line.length) j p := by
  rcases h with ⟨pos, word, hPlace, hWord, hString, -⟩
  exact ⟨pos, word, hPlace, hWord, hString, Or.inr rfl⟩

/-- The token that has just been cut off. -/
theorem Stopped.tokenAt {blanks tail : List UInt8} {r : StrtokResult n}
    (h : a.Stopped sep lo line front rest k saved)
    (hNext : NextToken sep rest blanks word tail)
    (hCut : TokenCut a saved blanks word tail r) :
    r.buf.TokenAt sep lo line r.saved k (saved + blanks.length) := by
  have hPlace := h.saved_eq
  have hSaved := hCut.saved_eq
  refine ⟨front.length + blanks.length, word, by omega, h.wordAt hNext,
    hCut.atToken, ?_⟩
  rcases hNext.ended with hNil | hSep
  · have hLength := congrArg List.length (h.step hNext hCut).split
    have hStep := (h.step hNext hCut).saved_eq
    rw [hNil, List.drop_nil, List.append_nil, ← hNil] at hLength
    exact Or.inr (hStep.trans (congrArg (lo + ·) hLength.symm))
  · rw [hSep, List.take_succ_cons, List.length_cons] at hSaved
    exact Or.inl (by omega)

/-- **The next call.**  Tokens that have been found before stay. -/
theorem Stopped.nextCall (h : a.Stopped sep lo line front rest k saved) :
    ∃ r, a.strtokFrom sep saved = some r ∧
      r.buf.Returned sep lo line k r.saved r.token ∧
      SameOutside lo (lo + line.length) a r.buf ∧
      ∀ j p, a.TokenAt sep lo line saved j p →
        r.buf.TokenAt sep lo line r.saved j p := by
  have hPlace := h.saved_eq
  have hLength := congrArg List.length h.split
  rw [List.length_append] at hLength
  rcases strtokFrom_spec h.atSaved sep with
    ⟨hNone, hCall⟩ | ⟨blanks, word, tail, r, hNext, hCall, hCut⟩
  · have hEnd : saved + rest.length = lo + line.length := by omega
    rw [hEnd] at hCall
    refine ⟨_, hCall, ?_, SameOutside.refl _ _ a, fun j p hToken =>
      hToken.last⟩
    rw [h.left, List.drop_eq_nil_iff] at hNone
    exact Nat.le_antisymm hNone h.found
  · have hStep := h.step hNext hCut
    have hStop := hStep.saved_eq
    have hSplit := congrArg List.length hStep.split
    rw [List.length_append] at hSplit
    have hRest := List.length_pos_iff.mpr hNext.ne_nil
    have hSaved := hCut.saved_eq
    refine ⟨r, hCall, ?_, hCut.same.mono (by omega) (by omega),
      fun j p hToken => hToken.kept hCut.same (by omega) (by omega)⟩
    rw [hCut.token_eq]
    exact ⟨h.tokenAt hNext hCut, _, _, hStep⟩

end Calls

end UnixHomework.Verified.CharArray
