import UnixHomework.Ports.ShellInput
import UnixHomework.Verified.Loops
import UnixHomework.Verified.Strtok

/-!
# How the shells split a line

Both shells have the same `parser`.  It works in the buffer of the line: the
arguments are pointers into it, and `strtok` puts the NULs behind them.  The
loop is one token ahead of the argument that it stores, so a twentieth word is
still cut off but not stored.

The shell with pipes cuts the line at its first `|` before it calls `parser`
for each of the two parts.  The first call may leave tokens unread; the second
one starts afresh, in another part of the buffer.

A pointer into the buffer is an offset.
-/

namespace UnixHomework.Ports.ShellParser

open UnixHomework.Verified
open PipeShell (maxArgs bar Args Program)

variable {n : Nat}

/-- `' '`. -/
def blank : UInt8 := 32

/-- `char *args[MAX_ARGS]`, which is not initialised.  The pointers are offsets
into the buffer of the line, and `none` is `NULL`. -/
abbrev ArgArray := Vector (Option Nat) maxArgs

/-- `args[i] = p`, undefined outside the array. -/
def ArgArray.assign (args : ArgArray) (i : Nat) (p : Option Nat) :
    Option ArgArray :=
  if h : i < maxArgs then some (args.set i p h) else none

/-! ## `parser` -/

/-- The buffer, the pointer that `strtok` keeps, and the variables of `parser`
at the head of its loop. -/
structure Parsing (n : Nat) where
  /-- The line, with a NUL behind every token so far. -/
  buf : CharArray n
  /-- Where the next call of `strtok` goes on. -/
  saved : Nat
  args : ArgArray
  i : Nat
  /-- The token that has been cut off and is not stored yet. -/
  token : Option Nat

/-- The loop of `parser`: it stores the token it has and asks for the next one,
as long as there is one and a slot is left before the last. -/
def parserLoop (n : Nat) : Loop (Parsing n) where
  cond s := s.token.isSome && s.i < maxArgs - 1
  body s := do
    let args ← s.args.assign s.i s.token
    let r ← s.buf.strtok (some s.saved) none blank
    some ⟨r.buf, r.saved, args, s.i + 1, r.token⟩

/-- What `parser` leaves. -/
structure Parsed (n : Nat) where
  buf : CharArray n
  saved : Nat
  args : ArgArray

/-- `parser`, with the `NULL` that it puts behind the arguments.  As the loop
leaves the last slot free, there is room for it. -/
def parser (buf : CharArray n) (saved : Option Nat) (input : Nat)
    (args : ArgArray) : Option (Parsed n) := do
  let r ← buf.strtok saved (some input) blank
  let s ← (parserLoop n).run maxArgs ⟨r.buf, r.saved, args, 0, r.token⟩
  let args ← s.args.assign s.i none
  some ⟨s.buf, s.saved, args⟩

/-! ## The split at `|` -/

/-- `strchr(s, c)` for a `c` that is not NUL: where it is first found, or
`NULL`. -/
def strchr (buf : CharArray n) (s : Nat) (c : UInt8) : Option (Option Nat) := do
  let text ← buf.readString? s
  some (if c ∈ text then some (s + (text.takeWhile (· ≠ c)).length) else none)

/-- `while (*cmd2 == ' ') cmd2++`.  The NUL of the line stops it, if nothing
else does. -/
def skipBlanks (buf : CharArray n) : Loop Nat where
  cond cmd2 := buf.bytes[cmd2]? = some blank
  body cmd2 := some (cmd2 + 1)

/-- What `main` has when it comes to its first `fork`. -/
structure Commands (n : Nat) where
  buf : CharArray n
  saved : Nat
  args1 : ArgArray
  args2 : ArgArray

/-- The part of `main` between `strcmp` and the first `fork`, for the line in
`input`.  Without a `|` the second array is left as it is, since nobody reads
it then. -/
def commands (input : CharArray n) (saved : Option Nat)
    (args1 args2 : ArgArray) : Option (Commands n) := do
  let pipePos ← strchr input 0 bar
  match pipePos with
  | some pipePos => do
      let input ← input.write? pipePos [0]
      let cmd2 ← (skipBlanks input).run n (pipePos + 1)
      let first ← parser input saved 0 args1
      let second ← parser first.buf (some first.saved) cmd2 args2
      some ⟨second.buf, second.saved, first.args, second.args⟩
  | none => do
      let first ← parser input saved 0 args1
      some ⟨first.buf, first.saved, first.args, args2⟩

/-! ## What is asked for -/

/-- The arguments for a line at this offset: pointers to its first words, each
where the word is in the line, then `NULL`; no other slot has changed. -/
structure Fills (buf : CharArray n) (input : Nat) (line : List UInt8)
    (old args : ArgArray) : Prop where
  /-- A word that has a slot is pointed to, and its pointer reads as the
  word. -/
  pointers : ∀ j word, j < maxArgs - 1 →
    (words blank line)[j]? = some word →
      ∃ pos, args.toList[j]? = some (some (input + pos)) ∧
        CharArray.WordAt blank line j pos word ∧
        buf.readString? (input + pos) = some word
  /-- Behind the last argument stored there is `NULL`. -/
  terminated :
    args.toList[min (words blank line).length (maxArgs - 1)]? = some none
  /-- The slots behind are as they were. -/
  others : ∀ j, min (words blank line).length (maxArgs - 1) < j →
    args.toList[j]? = old.toList[j]?

/-! ## The loop -/

theorem ArgArray.exists_assign (args : ArgArray) {i : Nat} (p : Option Nat)
    (h : i < maxArgs) :
    ∃ next, args.assign i p = some next ∧
      ∀ j, next.toList[j]? = if i = j then some p else args.toList[j]? := by
  refine ⟨args.set i p h, dif_pos h, fun j => ?_⟩
  rw [Vector.toList_set, List.getElem?_set, Vector.length_toList, if_pos h]

/-- The loop goes on with a token and room for it. -/
theorem parserLoop_cond_iff {s : Parsing n} :
    (parserLoop n).cond s = true ↔
      (∃ p, s.token = some p) ∧ s.i < maxArgs - 1 := by
  show (s.token.isSome && decide (s.i < maxArgs - 1)) = true ↔ _
  rw [Bool.and_eq_true_iff, Option.isSome_iff_exists, decide_eq_true_iff]

section Parser

variable {a : CharArray n} {input : Nat} {line : List UInt8}
  {old : ArgArray}

/-- The invariant of the loop: the words before `i` are stored, and `token` is
the next one.  `strtok` has changed nothing outside of the line. -/
structure Keeps (a : CharArray n) (input : Nat) (line : List UInt8)
    (old : ArgArray) (s : Parsing n) : Prop where
  room : s.i ≤ maxArgs - 1
  /-- The pointers are to tokens, which later calls do not change. -/
  stored : ∀ j, j < s.i → ∃ p, s.args.toList[j]? = some (some p) ∧
    s.buf.TokenAt blank input line s.saved j p
  others : ∀ j, s.i ≤ j → s.args.toList[j]? = old.toList[j]?
  /-- What the last call has returned is word number `i`, if there is one. -/
  pending : s.buf.Returned blank input line s.i s.saved s.token
  same : CharArray.SameOutside input (input + line.length) a s.buf

theorem Keeps.body {s : Parsing n} (h : Keeps a input line old s)
    (hCond : (parserLoop n).cond s = true) :
    ∃ next, (parserLoop n).body s = some next ∧
      Keeps a input line old next ∧ maxArgs - next.i < maxArgs - s.i := by
  rcases parserLoop_cond_iff.mp hCond with ⟨⟨p, hToken⟩, hRoom⟩
  have hPending := h.pending
  rw [hToken] at hPending
  rcases hPending with ⟨hAt, front, rest, hStopped⟩
  rcases hStopped.nextCall with ⟨r, hCall, hNext, hSame, hKept⟩
  rcases s.args.exists_assign (i := s.i) s.token (by omega) with
    ⟨args, hAssign, hArgs⟩
  refine ⟨⟨r.buf, r.saved, args, s.i + 1, r.token⟩, ?_, ?_, ?_⟩
  · show (s.args.assign s.i s.token).bind _ = _
    rw [hAssign]
    exact congrArg (Option.bind · _) hCall
  · refine ⟨hRoom, fun j hj => ?_, fun j hj => ?_, hNext, h.same.trans hSame⟩
    · rcases Nat.lt_succ_iff_lt_or_eq.mp hj with hBefore | hLast
      · rcases h.stored j hBefore with ⟨q, hSlot, hWord⟩
        refine ⟨q, ?_, hKept j q hWord⟩
        rw [hArgs, if_neg (Nat.ne_of_gt hBefore)]
        exact hSlot
      · refine ⟨p, ?_, hKept j p (hLast ▸ hAt)⟩
        rw [hArgs, if_pos hLast.symm, hToken]
    · rw [hArgs, if_neg (Nat.ne_of_lt hj)]
      exact h.others j (Nat.le_of_succ_le hj)
  · show maxArgs - (s.i + 1) < maxArgs - s.i
    omega

/-- Behind the loop, `i` is the number of arguments: all words, or as many as
there are slots before the last. -/
theorem Keeps.count {s : Parsing n} (h : Keeps a input line old s)
    (hCond : (parserLoop n).cond s = false) :
    s.i = min (words blank line).length (maxArgs - 1) := by
  have hRoom := h.room
  have hPending := h.pending
  cases hToken : s.token with
  | none =>
      rw [hToken] at hPending
      have hAll : (words blank line).length = s.i := hPending
      omega
  | some p =>
      rw [hToken] at hPending
      rcases hPending.1 with ⟨pos, word, -, hWord, -, -⟩
      have hMore := (List.getElem?_eq_some_iff.mp hWord.isWord).1
      have hFull : ¬s.i < maxArgs - 1 := by
        intro hLess
        rw [parserLoop_cond_iff.mpr ⟨⟨p, hToken⟩, hLess⟩] at hCond
        contradiction
      omega

/-- The words stored, with `NULL` behind them. -/
theorem Keeps.fills {s : Parsing n} (h : Keeps a input line old s)
    (hCount : s.i = min (words blank line).length (maxArgs - 1))
    {args : ArgArray}
    (hArgs : ∀ j, args.toList[j]? =
      if s.i = j then some none else s.args.toList[j]?) :
    Fills s.buf input line old args where
  pointers j word hj hWord := by
    have hMore := (List.getElem?_eq_some_iff.mp hWord).1
    rcases h.stored j (by omega) with ⟨p, hSlot, pos, found, hPlace, hAt,
      hString, -⟩
    have hFound : found = word := Option.some.inj (hAt.isWord.symm.trans hWord)
    rw [hFound] at hAt hString
    rw [hPlace] at hSlot hString
    refine ⟨pos, ?_, hAt, hString.readString?_eq⟩
    rw [hArgs, if_neg (by omega)]
    exact hSlot
  terminated := by rw [hArgs, if_pos hCount]
  others j hj := by
    rw [hArgs, if_neg (by omega)]
    exact h.others j (by omega)

/-- **`parser`** fills the array, whatever earlier calls have left. -/
theorem parser_spec (h : a.StringAt input line) (saved : Option Nat)
    (old : ArgArray) :
    ∃ r, parser a saved input old = some r ∧
      Fills r.buf input line old r.args ∧
      CharArray.SameOutside input (input + line.length) a r.buf := by
  have hStart : a.Stopped blank input line [] line 0 input :=
    CharArray.stopped_start h
  rcases hStart.nextCall with ⟨r, hCall, hFirst, hSame, -⟩
  have hKeeps : Keeps a input line old ⟨r.buf, r.saved, old, 0, r.token⟩ :=
    { room := Nat.zero_le _
      stored := fun j hj => absurd hj (Nat.not_lt_zero j)
      others := fun _ _ => rfl
      pending := hFirst
      same := hSame }
  rcases Loop.run_of_measure (n := maxArgs) (m := fun s => maxArgs - s.i)
    (fun s hs hCond => hs.body hCond) hKeeps (Nat.sub_le _ _) with
    ⟨s, hRun, hEnd, hCond⟩
  rcases s.args.exists_assign (i := s.i) none
    (Nat.lt_succ_of_le hEnd.room) with ⟨args, hAssign, hArgs⟩
  refine ⟨⟨s.buf, s.saved, args⟩, ?_, hEnd.fills (hEnd.count hCond) hArgs,
    hEnd.same⟩
  rw [parser, CharArray.strtok, Option.some_or, Option.bind_some, hCall,
    Option.bind_eq_bind, Option.bind_some, hRun, Option.bind_eq_bind,
    Option.bind_some, hAssign]
  rfl

end Parser

/-! ## Two commands in one line -/

section Pipeline

variable {buf after : CharArray n} {input lo hi : Nat} {line : List UInt8}
  {old args : ArgArray}

/-- Arguments stay what they are when other bytes change.  The first command
keeps its arguments while the second part of the buffer is cut. -/
theorem Fills.frame (h : Fills buf input line old args)
    (hSame : CharArray.SameOutside lo hi buf after)
    (hOut : input + line.length < lo) : Fills after input line old args where
  pointers j word hj hWord := by
    rcases h.pointers j word hj hWord with ⟨pos, hSlot, hAt, hText⟩
    have hInside := hAt.inside
    have hString := (CharArray.stringAt_of_readString? hText).frame hSame
      fun i _ hHigh => Or.inl (by omega)
    exact ⟨pos, hSlot, hAt, hString.readString?_eq⟩
  terminated := h.terminated
  others := h.others

/-- Blanks before the first word do not matter. -/
theorem Fills.blanks {blanks : List UInt8}
    (h : Fills buf (input + blanks.length) line old args)
    (hBlanks : ∀ b ∈ blanks, b = blank) :
    Fills buf input (blanks ++ line) old args where
  pointers j word hj hWord := by
    rw [words_blanks hBlanks] at hWord
    rcases h.pointers j word hj hWord with ⟨pos, hSlot, hAt, hText⟩
    rw [Nat.add_assoc] at hSlot hText
    exact ⟨_, hSlot, hAt.blanks hBlanks, hText⟩
  terminated := by
    rw [words_blanks hBlanks]
    exact h.terminated
  others := by
    rw [words_blanks hBlanks]
    exact h.others

/-- The loop stops behind the blanks, at the first word or at the NUL. -/
theorem skipBlanks_run {text : List UInt8} {off k : Nat}
    (h : buf.StringAt off text) (hk : text.length ≤ k) :
    (skipBlanks buf).run k off =
      some (off + (text.takeWhile (· = blank)).length) := by
  have hByte := h.getElem?_eq
  induction text generalizing off k with
  | nil =>
      apply Loop.run_of_not
      show decide (buf.bytes[off]? = some blank) = false
      rw [hByte]
      rfl
  | cons b text ih =>
      by_cases hBlank : b = blank
      · have hCond : (skipBlanks buf).cond off = true := by
          show decide (buf.bytes[off]? = some blank) = true
          rw [hByte, hBlank]
          rfl
        have hRest : buf.StringAt (off + 1) text :=
          CharArray.StringAt.suffix (u := [b]) h
        cases k with
        | zero => exact absurd hk (Nat.not_succ_le_zero _)
        | succ k =>
            rw [Loop.run_turn hCond, List.takeWhile_cons_of_pos
              (by simpa using hBlank), List.length_cons, Nat.add_comm _ 1,
              ← Nat.add_assoc]
            exact ih hRest (Nat.le_of_succ_le_succ hk) hRest.getElem?_eq
      · rw [List.takeWhile_cons_of_neg (by simpa using hBlank)]
        apply Loop.run_of_not
        show decide (buf.bytes[off]? = some blank) = false
        rw [hByte]
        simpa using hBlank

end Pipeline

/-- The line before its first `|`, -/
def before (line : List UInt8) : List UInt8 :=
  line.takeWhile (· ≠ bar)

/-- and behind it. -/
def behind (line : List UInt8) : List UInt8 :=
  (line.dropWhile (· ≠ bar)).drop 1

theorem commands_spec {a : CharArray n} {line : List UInt8}
    (h : a.StringAt 0 line) (hBar : bar ∈ line) (saved : Option Nat)
    (args1 args2 : ArgArray) :
    ∃ r, commands a saved args1 args2 = some r ∧
      Fills r.buf 0 (before line) args1 r.args1 ∧
      Fills r.buf ((before line).length + 1) (behind line) args2 r.args2 := by
  have hSplit : line = before line ++ bar :: behind line :=
    eq_takeWhile_append hBar
  have hWhole := h
  rw [hSplit] at hWhole
  rcases hWhole.cut with ⟨b, hWrite, hFirst, hBehind, -⟩
  rw [Nat.zero_add] at hWrite hBehind
  have hSkip : (skipBlanks b).run n ((before line).length + 1) = _ :=
    skipBlanks_run hBehind (by have := hBehind.inside; omega)
  have hBlanks := List.takeWhile_append_dropWhile
    (p := fun d => decide (d = blank)) (l := behind line)
  have hSecond : b.StringAt _ ((behind line).dropWhile (· = blank)) :=
    CharArray.StringAt.suffix (u := (behind line).takeWhile (· = blank))
      (by rw [hBlanks]; exact hBehind)
  rcases parser_spec hFirst saved args1 with
    ⟨first, hCall1, hFills1, hSame1⟩
  have hThere := hSecond.frame hSame1 fun i hLow _ => Or.inr (by omega)
  rcases parser_spec hThere (some first.saved) args2 with
    ⟨second, hCall2, hFills2, hSame2⟩
  refine ⟨⟨second.buf, second.saved, first.args, second.args⟩, ?_,
    hFills1.frame hSame2 (by omega), ?_⟩
  · have hFind : strchr a 0 bar = some (some (before line).length) := by
      rw [strchr, h.readString?_eq, Option.bind_eq_bind, Option.bind_some,
        if_pos hBar, Nat.zero_add]
      rfl
    rw [commands, hFind, Option.bind_eq_bind, Option.bind_some]
    show (a.write? (before line).length [0]).bind _ = _
    rw [hWrite, Option.bind_some, hSkip, Option.bind_eq_bind,
      Option.bind_some, hCall1, Option.bind_eq_bind, Option.bind_some, hCall2]
    rfl
  · have hAll := hFills2.blanks fun d hd => by
      simpa using List.mem_takeWhile_imp hd
    rw [hBlanks] at hAll
    exact hAll

/-- **How a line is split.**  `parser` fills its array with the words of any
line in any buffer, and the two calls for a line with `|` fill theirs with the
words before and behind it. -/
theorem line_split :
    (∀ (n : Nat) (buf : CharArray n) (saved : Option Nat) (input : Nat)
      (args : ArgArray) (line : List UInt8),
      buf.readString? input = some line →
        ∃ r, parser buf saved input args = some r ∧
          Fills r.buf input line args r.args) ∧
    (∀ (n : Nat) (buf : CharArray n) (saved : Option Nat)
      (args1 args2 : ArgArray) (line : List UInt8),
      buf.readString? 0 = some line → bar ∈ line →
        ∃ r, commands buf saved args1 args2 = some r ∧
          Fills r.buf 0 (before line) args1 r.args1 ∧
          Fills r.buf ((before line).length + 1) (behind line) args2
            r.args2) := by
  constructor
  · intro n buf saved input args line h
    rcases parser_spec (CharArray.stringAt_of_readString? h) saved args with
      ⟨r, hCall, hFills, -⟩
    exact ⟨r, hCall, hFills⟩
  · intro n buf saved args1 args2 line h hBar
    exact commands_spec (CharArray.stringAt_of_readString? h) hBar saved
      args1 args2

/-- `ls -l | wc` in its buffer. -/
def typed : CharArray 12 where
  bytes := ascii
    ['l', 's', ' ', '-', 'l', ' ', '|', ' ', 'w', 'c', '\x00', 'x']
  size_eq := rfl

theorem line_split_typed :
    (∃ r, parser typed none 8 (Vector.replicate maxArgs none) = some r ∧
      Fills r.buf 8 [119, 99] (Vector.replicate maxArgs none) r.args) ∧
    (∃ r, commands typed (some 0) (Vector.replicate maxArgs none)
        (Vector.replicate maxArgs none) = some r ∧
      Fills r.buf 0 [108, 115, 32, 45, 108, 32]
        (Vector.replicate maxArgs none) r.args1 ∧
      Fills r.buf 7 [32, 119, 99] (Vector.replicate maxArgs none) r.args2) :=
  ⟨line_split.1 12 typed none 8 _ [119, 99] (by decide),
    line_split.2 12 typed (some 0) _ _
      [108, 115, 32, 45, 108, 32, 124, 32, 119, 99] (by decide) (by decide)⟩

/-! ## What is executed -/

/-- The arguments as `execvp` reads them: the strings up to `NULL`. -/
def execArgs (buf : CharArray n) (args : ArgArray) : Args :=
  (args.toList.takeWhile Option.isSome).filterMap fun p =>
    p.bind buf.readString?

section Executed

variable {buf : CharArray n} {input : Nat} {line : List UInt8}
  {old args : ArgArray}

/-- A slot in front of `NULL`. -/
theorem Fills.slot (h : Fills buf input line old args) {j : Nat}
    (hj : j < min (words blank line).length (maxArgs - 1)) :
    ∃ p word, args.toList[j]? = some (some p) ∧
      buf.readString? p = some word ∧ (words blank line)[j]? = some word := by
  have hMore : j < (words blank line).length := by omega
  have hWord := List.getElem?_eq_getElem hMore
  rcases h.pointers j _ (by omega) hWord with ⟨pos, hSlot, -, hText⟩
  exact ⟨_, _, hSlot, hText, hWord⟩

theorem Fills.map_readString? (h : Fills buf input line old args) :
    (args.toList.take (min (words blank line).length (maxArgs - 1))).map
        (fun p => p.bind buf.readString?) =
      (PipeShell.parser line).map some := by
  apply List.ext_getElem?
  intro j
  have hParser : PipeShell.parser line =
      (words blank line).take (maxArgs - 1) := rfl
  rw [hParser, List.getElem?_map, List.getElem?_map, List.getElem?_take,
    List.getElem?_take]
  by_cases hj : j < min (words blank line).length (maxArgs - 1)
  · rcases h.slot hj with ⟨p, word, hSlot, hText, hWord⟩
    rw [if_pos hj, if_pos (by omega), hSlot, hWord]
    exact congrArg some hText
  · rw [if_neg hj]
    by_cases hRoom : j < maxArgs - 1
    · rw [if_pos hRoom, List.getElem?_eq_none (by omega)]
      rfl
    · rw [if_neg hRoom]
      rfl

/-- These are the arguments in the shell's model. -/
theorem Fills.execArgs_eq (h : Fills buf input line old args) :
    execArgs buf args = PipeShell.parser line := by
  rcases List.getElem?_eq_some_iff.mp h.terminated with ⟨hInside, hNull⟩
  have hSome : ∀ p ∈ args.toList.take
      (min (words blank line).length (maxArgs - 1)), p.isSome = true := by
    intro p hp
    rcases List.mem_iff_getElem?.mp hp with ⟨j, hj⟩
    rw [List.getElem?_take] at hj
    rcases Option.ite_none_right_eq_some.mp hj with ⟨hLess, hGet⟩
    rcases h.slot hLess with ⟨q, -, hSlot, -, -⟩
    rw [Option.some.inj (hGet.symm.trans hSlot)]
    rfl
  have hFront : args.toList.takeWhile Option.isSome =
      args.toList.take (min (words blank line).length (maxArgs - 1)) := by
    conv_lhs => rw [← List.take_append_drop
      (min (words blank line).length (maxArgs - 1)) args.toList,
      List.drop_eq_getElem_cons hInside, hNull]
    rw [List.takeWhile_append_of_pos hSome,
      List.takeWhile_cons_of_neg (by simp), List.append_nil]
  have hMap := congrArg (List.filterMap id) h.map_readString?
  rw [List.filterMap_map, List.filterMap_map] at hMap
  rw [execArgs, hFront]
  exact hMap.trans List.filterMap_some

end Executed

/-- **The children** of the shell with pipes get these arguments. -/
theorem commands_children {a : CharArray n} {saved : Option Nat}
    {args1 args2 : ArgArray} {line : List UInt8} {r : Commands n}
    (hLine : a.readString? 0 = some line)
    (h : commands a saved args1 args2 = some r) :
    Program.pipeShell.children line =
      if bar ∈ line then [execArgs r.buf r.args1, execArgs r.buf r.args2]
      else [execArgs r.buf r.args1] := by
  have hString := CharArray.stringAt_of_readString? hLine
  rw [PipeShell.children_eq, Program.command]
  by_cases hBar : bar ∈ line
  · rcases commands_spec hString hBar saved args1 args2 with
      ⟨r', hCall, hFills1, hFills2⟩
    have hSame : r' = r := Option.some.inj (hCall.symm.trans h)
    rw [hSame] at hFills1 hFills2
    rw [if_pos hBar, if_pos hBar, hFills1.execArgs_eq, hFills2.execArgs_eq]
    rfl
  · rcases parser_spec hString saved args1 with ⟨first, hCall, hFills, -⟩
    have hFind : strchr a 0 bar = some none := by
      rw [strchr, hLine, Option.bind_eq_bind, Option.bind_some, if_neg hBar]
    rw [commands, hFind, Option.bind_eq_bind, Option.bind_some] at h
    have hResult : (parser a saved 0 args1).bind _ = some r := h
    rw [hCall, Option.bind_some] at hResult
    rw [if_neg hBar, if_neg hBar, ← Option.some.inj hResult,
      hFills.execArgs_eq]
    rfl

end UnixHomework.Ports.ShellParser
