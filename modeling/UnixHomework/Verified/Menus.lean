import UnixHomework.Verified.Loops
import UnixHomework.Verified.Stdin

/-!
# Menus

A menu asks for a number, does what the number stands for, and asks again
unless it was the number that ends it.  Where the input has no number, the
choice before is made again; if that reads nothing either, everything is as it
was before the turn, and the menu goes on for ever (`Stuck`).

So a menu ends exactly if it is left (`Leaves`) before it comes to such a turn
(`ends_iff`).  Which turns these are is for the program to say (`Idles`).  Where
all others read something, the length of the input says how many turns there
are (`Leaves.turns`).

This module names no program.
-/

namespace UnixHomework.Verified

universe u

/-- `do { scanf("%d", &choice); .. } while (choice != last)`. -/
structure Menu (σ : Type u) where
  /-- What `%d` stores for a number. -/
  convert : Int → Int
  last : Int
  /-- What a choice does, with the input behind it; `none` is `exit`. -/
  act : Int → σ → List UInt8 → Option (σ × List UInt8)

namespace Menu

variable {σ : Type u}

/-- The variables between two turns. -/
structure State (σ : Type u) where
  /-- What the choices work on. -/
  data : σ
  /-- The variable, with the choice before. -/
  choice : Int
  /-- The input that has not been read. -/
  stdin : List UInt8
  /-- No choice has ended the program. -/
  running : Bool

variable (m : Menu σ)

/-- `scanf("%d", &choice)`. -/
def read (choice : Int) (stdin : List UInt8) : Int × List UInt8 :=
  scanfVar m.convert choice stdin

def loop : Loop (State σ) where
  cond s := s.running && s.choice ≠ m.last
  body s :=
    let (choice, rest) := m.read s.choice s.stdin
    match m.act choice s.data rest with
    | none => some ⟨s.data, choice, rest, false⟩
    | some (data, rest) => some ⟨data, choice, rest, true⟩

/-- The menu ends on this input; `choice` has some value before. -/
def Ends (data : σ) (choice : Int) (stdin : List UInt8) : Prop :=
  m.loop.DoEnds ⟨data, choice, stdin, true⟩

variable (Idle : σ → Int → List UInt8 → Prop)

/-- The input makes the menu end, in turns none of which is idle. -/
inductive Leaves : σ → Int → List UInt8 → Prop where
  /-- The choice that ends the menu, -/
  | last {data choice stdin} : (m.read choice stdin).1 = m.last →
      Leaves data choice stdin
  /-- or one that ends the program. -/
  | exit {data choice stdin} :
      m.act (m.read choice stdin).1 data (m.read choice stdin).2 = none →
        Leaves data choice stdin
  /-- A number, and the rest of the input. -/
  | command {data choice stdin v rest next behind} :
      scanfInt stdin = (some v, rest) →
        m.act (m.convert v) data rest = some (next, behind) →
          Leaves next (m.convert v) behind → Leaves data choice stdin
  /-- No number: the choice before is made again, and reads something. -/
  | again {data choice stdin rest next behind} :
      scanfInt stdin = (none, rest) → ¬Idle data choice rest →
        m.act choice data rest = some (next, behind) →
          Leaves next choice behind → Leaves data choice stdin

/-- In an idle turn there is no number, and the choice before reads nothing;
then the next turn is idle, too. -/
structure Idles : Prop where
  act_eq : ∀ data choice rest, choice ≠ m.last →
    scanfInt rest = (none, rest) → Idle data choice rest →
      ∃ next, m.act choice data rest = some (next, rest) ∧
        Idle next choice rest

/-- Only idle turns read nothing. -/
structure Reads : Prop where
  /-- Choices read from the front of the input, -/
  suffix : ∀ data choice rest next behind,
    m.act choice data rest = some (next, behind) → behind <:+ rest
  /-- and something, unless the turn is idle. -/
  lt : ∀ data choice rest next behind, ¬Idle data choice rest →
    scanfInt rest = (none, rest) →
      m.act choice data rest = some (next, behind) →
        behind.length < rest.length

variable {m Idle} {data : σ} {choice : Int} {stdin : List UInt8}

/-! ## One turn -/

/-- A turn that does not end the program. -/
theorem body_of_some {s : State σ} {c : Int} {rest behind : List UInt8}
    {next : σ} (hRead : m.read s.choice s.stdin = (c, rest))
    (hAct : m.act c s.data rest = some (next, behind)) :
    m.loop.body s = some ⟨next, c, behind, true⟩ := by
  simp only [loop, hRead, hAct]

theorem body_of_none {s : State σ} {c : Int} {rest : List UInt8}
    (hRead : m.read s.choice s.stdin = (c, rest))
    (hAct : m.act c s.data rest = none) :
    m.loop.body s = some ⟨s.data, c, rest, false⟩ := by
  simp only [loop, hRead, hAct]

theorem cond_of_last {s : State σ} (h : s.choice = m.last) :
    m.loop.cond s = false := by
  show (s.running && decide (s.choice ≠ m.last)) = false
  rw [h, decide_eq_false fun hNe => hNe rfl, Bool.and_false]

theorem cond_of_ne {s : State σ} (hRunning : s.running = true)
    (h : s.choice ≠ m.last) : m.loop.cond s = true := by
  show (s.running && decide (s.choice ≠ m.last)) = true
  rw [hRunning, decide_eq_true h, Bool.true_and]

/-- The menu behind a turn, which may have been the last. -/
theorem ends_next_iff {next : σ} {c : Int} {rest : List UInt8} :
    m.loop.Ends ⟨next, c, rest, true⟩ ↔ c = m.last ∨ m.Ends next c rest := by
  by_cases hLast : c = m.last
  · exact iff_of_true (Loop.ends_of_not (cond_of_last hLast)) (Or.inl hLast)
  · rw [Loop.ends_turn_iff (cond_of_ne rfl hLast)]
    exact (or_iff_right hLast).symm

/-! ## Menus that do not end -/

/-- The next turn is idle. -/
structure Stuck (m : Menu σ) (Idle : σ → Int → List UInt8 → Prop)
    (s : State σ) : Prop where
  running : s.running = true
  goesOn : s.choice ≠ m.last
  idle : ∃ rest, scanfInt s.stdin = (none, rest) ∧ Idle s.data s.choice rest

theorem Stuck.cond {s : State σ} (h : Stuck m Idle s) :
    m.loop.cond s = true :=
  cond_of_ne h.running h.goesOn

theorem Stuck.body (hIdle : m.Idles Idle) {s next : State σ}
    (h : Stuck m Idle s) (hBody : m.loop.body s = some next) :
    Stuck m Idle next := by
  rcases h.idle with ⟨rest, hScan, hNothing⟩
  have hAgain := scanfInt_again hScan
  rcases hIdle.act_eq s.data s.choice rest h.goesOn hAgain hNothing with
    ⟨data, hAct, hStill⟩
  rw [body_of_some (scanfVar_of_none hScan) hAct] at hBody
  rw [← Option.some.inj hBody]
  exact ⟨rfl, h.goesOn, rest, hAgain, hStill⟩

/-- **An idle turn** is followed by idle turns only. -/
theorem Stuck.not_ends (hIdle : m.Idles Idle) {s : State σ}
    (h : Stuck m Idle s) : ¬m.loop.Ends s :=
  Loop.not_ends_of_invariant (fun _ hs => hs.cond)
    (fun _ _ hs hBody => hs.body hIdle hBody) h

/-- The input has no number that ends the menu, and no choice ends the
program. -/
theorem not_ends_of_noLast
    (hAct : ∀ c d rest, c ≠ m.last → ∃ next behind,
      m.act c d rest = some (next, behind) ∧ behind <:+ rest)
    (hNumber : ∀ text v rest, text <:+ stdin →
      scanfInt text = (some v, rest) → m.convert v ≠ m.last)
    (hChoice : choice ≠ m.last) : ¬m.Ends data choice stdin := by
  have hBody : ∀ s next : State σ,
      s.running = true ∧ s.choice ≠ m.last ∧ s.stdin <:+ stdin →
        m.loop.body s = some next →
          next.running = true ∧ next.choice ≠ m.last ∧
            next.stdin <:+ stdin := by
    rintro s next ⟨-, hOld, hSuffix⟩ hNext
    have hRead : (m.read s.choice s.stdin).1 ≠ m.last := by
      cases hScan : scanfInt s.stdin with
      | mk number rest =>
          cases number with
          | none =>
              rw [read, scanfVar_of_none hScan]
              exact hOld
          | some v =>
              rw [read, scanfVar_of_some hScan]
              exact hNumber _ v rest hSuffix hScan
    rcases hAct _ s.data (m.read s.choice s.stdin).2 hRead with
      ⟨d, behind, hTurn, hBehind⟩
    rw [body_of_some rfl hTurn] at hNext
    rw [← Option.some.inj hNext]
    exact ⟨rfl, hRead,
      hBehind.trans ((scanfVar_suffix _ _ _).trans hSuffix)⟩
  rintro ⟨next, hFirst, hEnds⟩
  exact Loop.not_ends_of_invariant
    (fun s hs => cond_of_ne hs.1 hs.2.1) hBody
    (hBody _ next ⟨rfl, hChoice, List.suffix_refl _⟩ hFirst) hEnds

/-! ## Menus that end -/

theorem ends_of_leaves (h : m.Leaves Idle data choice stdin) :
    m.Ends data choice stdin := by
  induction h with
  | @last data choice stdin hLast =>
      cases hAct : m.act (m.read choice stdin).1 data
          (m.read choice stdin).2 with
      | none => exact ⟨_, body_of_none rfl hAct, Loop.ends_of_not rfl⟩
      | some result =>
          exact ⟨_, body_of_some rfl hAct,
            Loop.ends_of_not (cond_of_last hLast)⟩
  | exit hAct => exact ⟨_, body_of_none rfl hAct, Loop.ends_of_not rfl⟩
  | command hScan hAct _ ih =>
      exact ⟨_, body_of_some (scanfVar_of_some hScan) hAct,
        ends_next_iff.mpr (Or.inr ih)⟩
  | again hScan _ hAct _ ih =>
      exact ⟨_, body_of_some (scanfVar_of_none hScan) hAct,
        ends_next_iff.mpr (Or.inr ih)⟩

/-- A turn before others. -/
theorem ends_of_turn {c : Int} {rest behind : List UInt8} {next : σ}
    (hRead : m.read choice stdin = (c, rest))
    (hAct : m.act c data rest = some (next, behind))
    (h : m.Ends next c behind) : m.Ends data choice stdin :=
  ⟨_, body_of_some hRead hAct, ends_next_iff.mpr (Or.inr h)⟩

/-- The last turn, in which the choice ends the menu or the program. -/
theorem ends_of_last (h : (m.read choice stdin).1 = m.last) :
    m.Ends data choice stdin :=
  ends_of_leaves (.last h : m.Leaves (fun _ _ _ => False) data choice stdin)

theorem ends_of_exit
    (h : m.act (m.read choice stdin).1 data (m.read choice stdin).2 = none) :
    m.Ends data choice stdin :=
  ends_of_leaves (.exit h : m.Leaves (fun _ _ _ => False) data choice stdin)

/-- After a turn the menu has been left, or it goes on. -/
theorem body_cases (Idle : σ → Int → List UInt8 → Prop) {next : State σ}
    (h : m.loop.body ⟨data, choice, stdin, true⟩ = some next) :
    m.Leaves Idle data choice stdin ∨
      ∃ c rest d behind, m.read choice stdin = (c, rest) ∧ c ≠ m.last ∧
        m.act c data rest = some (d, behind) ∧ next = ⟨d, c, behind, true⟩ := by
  cases hAct : m.act (m.read choice stdin).1 data (m.read choice stdin).2 with
  | none => exact Or.inl (.exit hAct)
  | some result =>
      by_cases hLast : (m.read choice stdin).1 = m.last
      · exact Or.inl (.last hLast)
      · rw [body_of_some rfl hAct] at h
        exact Or.inr ⟨_, _, _, _, rfl, hLast, hAct, (Option.some.inj h).symm⟩

/-- A turn before others of a menu that ends is not idle. -/
theorem leaves_turn (hIdle : m.Idles Idle) {c : Int}
    {rest behind : List UInt8} {d : σ}
    (hRead : m.read choice stdin = (c, rest)) (hLast : c ≠ m.last)
    (hAct : m.act c data rest = some (d, behind))
    (hEnds : m.loop.Ends ⟨d, c, behind, true⟩)
    (hLeaves : m.Leaves Idle d c behind) : m.Leaves Idle data choice stdin := by
  cases hScan : scanfInt stdin with
  | mk number tail =>
      cases number with
      | some v =>
          rw [read, scanfVar_of_some hScan, Prod.mk.injEq] at hRead
          rcases hRead with ⟨rfl, rfl⟩
          exact .command hScan hAct hLeaves
      | none =>
          rw [read, scanfVar_of_none hScan, Prod.mk.injEq] at hRead
          rcases hRead with ⟨rfl, rfl⟩
          refine .again hScan (fun hNothing => ?_) hAct hLeaves
          have hStuck : Stuck m Idle ⟨data, choice, stdin, true⟩ :=
            ⟨rfl, hLast, tail, hScan, hNothing⟩
          exact (hStuck.body hIdle
            (body_of_some (scanfVar_of_none hScan) hAct)).not_ends hIdle hEnds

/-- The turns of a menu that ends; the induction is on their number. -/
theorem leaves_of_run (hIdle : m.Idles Idle) {turns : Nat}
    {next last : State σ}
    (hBody : m.loop.body ⟨data, choice, stdin, true⟩ = some next)
    (hRun : m.loop.run turns next = some last) :
    m.Leaves Idle data choice stdin := by
  induction turns generalizing data choice stdin next with
  | zero =>
      rcases body_cases Idle hBody with
        hLeft | ⟨c, rest, d, behind, -, hLast, -, rfl⟩
      · exact hLeft
      · rw [Loop.run_zero (cond_of_ne rfl hLast)] at hRun
        contradiction
  | succ turns ih =>
      rcases body_cases Idle hBody with
        hLeft | ⟨c, rest, d, behind, hRead, hLast, hAct, rfl⟩
      · exact hLeft
      · have hEnds : m.loop.Ends ⟨d, c, behind, true⟩ :=
          ⟨last, turns + 1, hRun⟩
        rw [Loop.run_turn (cond_of_ne rfl hLast)] at hRun
        rcases Option.bind_eq_some_iff.mp hRun with ⟨s, hNext, hRest⟩
        exact leaves_turn hIdle hRead hLast hAct hEnds (ih hNext hRest)

/-- **When a menu ends.** -/
theorem ends_iff (hIdle : m.Idles Idle) :
    m.Ends data choice stdin ↔ m.Leaves Idle data choice stdin := by
  constructor
  · rintro ⟨next, hBody, last, turns, hRun⟩
    exact leaves_of_run hIdle hBody hRun
  · exact ends_of_leaves

/-- One more turn, if there is one. -/
theorem run_next {turns : Nat} {d : σ} {c : Int} {behind : List UInt8}
    (h : ∃ next last, m.loop.body ⟨d, c, behind, true⟩ = some next ∧
      m.loop.run turns next = some last) :
    ∃ last, m.loop.run (turns + 1) ⟨d, c, behind, true⟩ = some last := by
  by_cases hLast : c = m.last
  · exact ⟨_, Loop.run_of_not (cond_of_last hLast) _⟩
  · rcases h with ⟨next, last, hBody, hRun⟩
    refine ⟨last, ?_⟩
    rw [Loop.run_turn (cond_of_ne rfl hLast), hBody]
    exact hRun

/-- **How many turns there are**: at most one more than the input has
bytes. -/
theorem Leaves.turns (hReads : m.Reads Idle)
    (h : m.Leaves Idle data choice stdin) {k : Nat} (hk : stdin.length ≤ k) :
    ∃ next last, m.loop.body ⟨data, choice, stdin, true⟩ = some next ∧
      m.loop.run k next = some last := by
  induction h generalizing k with
  | @last data choice stdin hLast =>
      cases hAct : m.act (m.read choice stdin).1 data
          (m.read choice stdin).2 with
      | none => exact ⟨_, _, body_of_none rfl hAct, Loop.run_of_not rfl k⟩
      | some result =>
          exact ⟨_, _, body_of_some rfl hAct,
            Loop.run_of_not (cond_of_last hLast) k⟩
  | exit hAct => exact ⟨_, _, body_of_none rfl hAct, Loop.run_of_not rfl k⟩
  | command hScan hAct _ ih =>
      have hRead := length_scanfInt_lt hScan
      have hLe := (hReads.suffix _ _ _ _ _ hAct).length_le
      cases k with
      | zero => omega
      | succ k =>
          rcases run_next (ih (k := k) (by omega)) with ⟨last, hRun⟩
          exact ⟨_, last, body_of_some (scanfVar_of_some hScan) hAct, hRun⟩
  | @again data choice stdin rest next behind hScan hMore hAct _ ih =>
      have hSuffix := scanfInt_suffix stdin
      rw [hScan] at hSuffix
      have hSpaces : rest.length ≤ stdin.length := hSuffix.length_le
      have hLess := hReads.lt _ _ _ _ _ hMore (scanfInt_again hScan) hAct
      cases k with
      | zero => omega
      | succ k =>
          rcases run_next (ih (k := k) (by omega)) with ⟨last, hRun⟩
          exact ⟨_, last, body_of_some (scanfVar_of_none hScan) hAct, hRun⟩

end Menu

end UnixHomework.Verified
