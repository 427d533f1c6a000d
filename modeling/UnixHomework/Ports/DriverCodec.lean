import UnixHomework.Ports.DriverManager
import UnixHomework.Verified.Chunks

/-!
# The command stream of the driver manager

The command line writes `TASK:` lines and, as its last act, an `EXIT` line; a
driver treats what one `recv` returns as one command.  A stream socket does
not keep the two in step.

The driver's loop recognises the session exactly if the socket delivers it in
one particular way (`Aligned`): a `TASK` line arrives alone, with or without
its newline; and `EXIT` arrives alone and without its newline, because
`strcmp` wants the word and nothing else.
-/

namespace UnixHomework.Ports.DriverManager

open UnixHomework.Verified

/-! ## Sessions and segmentations -/

/-- All that the command line sends to one driver: tasks, and at the end
`EXIT` if the program is left by `exit`. -/
structure Session where
  timers : List Int32
  exits : Bool

def Session.commands (se : Session) : List Command :=
  se.timers.map .task ++ if se.exits then [.exit] else []

def Session.lines (se : Session) : List (List UInt8) :=
  se.timers.map taskCommand ++ if se.exits then [exitCommand] else []

/-- The results of the driver's `recv` calls on a stream.  TCP keeps the bytes
and their order, and promises nothing about where one result ends. -/
structure Segmentation (stream : List UInt8) where
  chunks : List (List UInt8)
  /-- A `recv` that returns has at least one byte, -/
  nonempty : ∀ c ∈ chunks, c ≠ []
  /-- and no more than the driver's buffer takes. -/
  fits : ∀ c ∈ chunks, c.length ≤ bufSize - 1
  /-- Together they are the stream. -/
  joined : chunks.flatten = stream

/-- The driver recognises what was sent, each command once and in order, and
nothing else. -/
def Recognised (se : Session) (seg : Segmentation se.lines.flatten) : Prop :=
  driverLoop seg.chunks = se.commands

def newline : List UInt8 := ascii ['\n']

/-- A `TASK` line without its newline. -/
def taskBody (timer : Int32) : List UInt8 :=
  ascii ['T', 'A', 'S', 'K', ':'] ++ printInt timer.toInt

/-- The chunks that the driver's loop can cope with. -/
inductive Aligned : List Int32 → Bool → List (List UInt8) → Prop where
  /-- Nothing was sent, and nothing comes. -/
  | done : Aligned [] false []
  /-- The word and its newline come apart, because of `strcmp`. -/
  | exit : Aligned [] true [ascii ['E', 'X', 'I', 'T'], newline]
  /-- A `TASK` line comes as it was sent, for `sscanf` stops at the newline. -/
  | whole {timer timers exits chunks} :
      Aligned timers exits chunks →
        Aligned (timer :: timers) exits (taskCommand timer :: chunks)
  /-- Or the newline comes by itself, and is not recognised as anything. -/
  | cut {timer timers exits chunks} :
      Aligned timers exits chunks →
        Aligned (timer :: timers) exits (taskBody timer :: newline :: chunks)

/-! ## Command lines as bytes -/

/-- The command fits `cmd`. -/
theorem taskCommand_eq (timer : Int32) :
    taskCommand timer = taskBody timer ++ newline := by
  have hLow := timer.le_toInt
  have hHigh := timer.toInt_lt
  have hLength := length_printInt_le (z := timer.toInt) (k := 10) (by decide)
    (by omega)
  refine List.take_of_length_le ?_
  simp only [List.length_append, ascii, List.length_map, List.length_cons,
    List.length_nil]
  omega

theorem mem_printInt_range {z : Int} {b : UInt8} (h : b ∈ printInt z) :
    b.toNat = 45 ∨ (48 ≤ b.toNat ∧ b.toNat ≤ 57) := by
  rcases mem_printInt h with rfl | h
  · exact Or.inl rfl
  · exact Or.inr ((isDigit_iff b).mp h)

theorem zero_notMem_taskBody (timer : Int32) :
    (0 : UInt8) ∉ taskBody timer := by
  intro h
  rcases List.mem_append.mp h with h | h
  · revert h
    decide
  · have hRange := mem_printInt_range h
    simp at hRange

/-- A command line of the stream, as the command line program writes it. -/
inductive IsLine : List UInt8 → Prop where
  | task (timer : Int32) : IsLine (taskCommand timer)
  | exit : IsLine exitCommand

theorem Session.isLine (se : Session) : ∀ l ∈ se.lines, IsLine l := by
  intro l hl
  rcases List.mem_append.mp hl with hl | hl
  · rcases List.mem_map.mp hl with ⟨timer, -, rfl⟩
    exact .task timer
  · cases hExits : se.exits with
    | false => simp [hExits] at hl
    | true =>
        rw [hExits, if_pos rfl, List.mem_singleton] at hl
        exact hl ▸ .exit

theorem Session.length_lines (se : Session) :
    se.lines.length = se.commands.length := by
  cases hExits : se.exits <;>
    simp [Session.lines, Session.commands, hExits]

/-! ## Recognising one chunk -/

theorem dispatch_taskBody (timer : Int32) :
    dispatch (taskBody timer) = some (.task timer) := by
  have hScan : scanInt (printInt timer.toInt ++ []) = some timer.toInt :=
    scanInt_printInt timer.toInt fun _ hb => absurd hb (by simp)
  rw [List.append_nil] at hScan
  rw [dispatch, cstr_of_noNul (zero_notMem_taskBody timer)]
  exact (if_pos rfl).trans (by
    rw [show (taskBody timer).drop 5 = printInt timer.toInt from rfl, hScan,
      Option.map_some, Int32.ofInt_toInt])

theorem dispatch_taskCommand (timer : Int32) :
    dispatch (taskCommand timer) = some (.task timer) := by
  have hScan : scanInt (printInt timer.toInt ++ newline) =
      some timer.toInt := by
    refine scanInt_printInt timer.toInt fun b hb => ?_
    obtain rfl : (10 : UInt8) = b := by simpa [newline, ascii] using hb
    decide
  have hZero : (0 : UInt8) ∉ taskBody timer ++ newline := by
    intro h
    rcases List.mem_append.mp h with h | h
    · exact zero_notMem_taskBody timer h
    · revert h
      decide
  rw [taskCommand_eq, dispatch, cstr_of_noNul hZero]
  exact (if_pos rfl).trans (by
    rw [show (taskBody timer ++ newline).drop 5 =
      printInt timer.toInt ++ newline from rfl, hScan, Option.map_some,
      Int32.ofInt_toInt])

theorem dispatch_newline : dispatch newline = none := rfl

/-- The first bytes that make the dispatch recognise a chunk: those of `TASK:`,
of `STATUS`, which no line of a session has, and of `EXIT`. -/
theorem dispatch_eq_some {c : List UInt8} {cmd : Command}
    (h : dispatch c = some cmd) :
    (∃ rest, c = 84 :: 65 :: rest) ∨ (∃ rest, c = 83 :: 84 :: rest) ∨
      ∃ rest, c = 69 :: rest := by
  have hPrefix : ∃ more, c = cstr c ++ more := by
    rcases List.takeWhile_prefix (p := (· != (0 : UInt8))) (l := c) with
      ⟨more, hMore⟩
    exact ⟨more, hMore.symm⟩
  rcases hPrefix with ⟨more, hMore⟩
  rw [dispatch] at h
  split at h
  · rename_i hTask
    left
    rw [← List.take_append_drop 5 (cstr c), hTask] at hMore
    exact ⟨_, hMore⟩
  · split at h
    · rename_i hStatus
      rw [hStatus] at hMore
      exact Or.inr (Or.inl ⟨_, hMore⟩)
    · split at h
      · rename_i hExit
        rw [hExit] at hMore
        exact Or.inr (Or.inr ⟨_, hMore⟩)
      · contradiction

/-- How what is left of a begun line can start: never as a command does. -/
theorem tail_start {r : List UInt8} (h : TailOf IsLine r) (hr : r ≠ [])
    (y : List UInt8) :
    (∀ rest, r ++ y ≠ 84 :: 65 :: rest) ∧
      (∀ rest, r ++ y ≠ 83 :: 84 :: rest) ∧ ∀ rest, r ++ y ≠ 69 :: rest := by
  rcases h with ⟨front, l, hl, hFront, hEq⟩
  cases hl with
  | exit =>
      rcases front with _ | ⟨a, _ | ⟨b, _ | ⟨c, _ | ⟨d, _ | ⟨e, front⟩⟩⟩⟩⟩ <;>
        simp_all [exitCommand, ascii]
  | task timer =>
      rw [taskCommand_eq] at hEq
      -- past the colon only a sign, digits and the newline are left
      have hPast : ∀ front', front' ++ r = printInt timer.toInt ++ newline →
          (∀ rest, r ++ y ≠ 84 :: 65 :: rest) ∧
            (∀ rest, r ++ y ≠ 83 :: 84 :: rest) ∧
              ∀ rest, r ++ y ≠ 69 :: rest := by
        intro front' hFront'
        cases r with
        | nil => contradiction
        | cons b r =>
            have hb : b ∈ printInt timer.toInt ++ newline := by
              rw [← hFront']
              exact List.mem_append_right _ List.mem_cons_self
            have hNot : b.toNat ≠ 84 ∧ b.toNat ≠ 83 ∧ b.toNat ≠ 69 := by
              rcases List.mem_append.mp hb with hb | hb
              · have hRange := mem_printInt_range hb
                omega
              · obtain rfl : b = 10 := by simpa [newline, ascii] using hb
                decide
            refine ⟨?_, ?_, ?_⟩
            · rintro rest hRest
              rw [(List.cons.inj hRest).1] at hNot
              exact hNot.1 rfl
            · rintro rest hRest
              rw [(List.cons.inj hRest).1] at hNot
              exact hNot.2.1 rfl
            · rintro rest hRest
              rw [(List.cons.inj hRest).1] at hNot
              exact hNot.2.2 rfl
      rcases front with _ | ⟨a, _ | ⟨b, _ | ⟨c, _ | ⟨d, _ | ⟨e, front⟩⟩⟩⟩⟩
      · exact absurd rfl hFront
      · simp_all [taskBody, ascii]
      · simp_all [taskBody, ascii]
      · simp_all [taskBody, ascii]
      · simp_all [taskBody, ascii]
      · refine hPast front ?_
        simp only [taskBody, ascii, List.map_cons, List.map_nil,
          List.cons_append, List.nil_append, List.cons.injEq] at hEq
        exact hEq.2.2.2.2.2

/-- A chunk that begins inside a line is not recognised, whatever follows. -/
theorem dispatch_inside {r c x y : List UInt8} (h : TailOf IsLine r)
    (hr : r ≠ []) (hc : c ≠ []) (hEq : c ++ x = r ++ y) :
    dispatch c = none := by
  cases hDispatch : dispatch c with
  | none => rfl
  | some cmd =>
      have hStart := tail_start h hr y
      rw [← hEq] at hStart
      rcases dispatch_eq_some hDispatch with ⟨rest, rfl⟩ | ⟨rest, rfl⟩ |
        ⟨rest, rfl⟩
      · exact absurd rfl (hStart.1 (rest ++ x))
      · exact absurd rfl (hStart.2.1 (rest ++ x))
      · exact absurd rfl (hStart.2.2 (rest ++ x))

/-- A `TASK` line that begins a chunk is recognised with its timer only if all
of it but the newline is there. -/
theorem dispatch_cut {timer : Int32} {c r : List UInt8}
    (hEq : taskCommand timer = c ++ r)
    (h : dispatch c = some (.task timer)) : r = [] ∨ r = newline := by
  have hZero : (0 : UInt8) ∉ c := by
    intro hMem
    have hAll : (0 : UInt8) ∈ taskBody timer ++ newline := by
      rw [← taskCommand_eq, hEq]
      exact List.mem_append_left _ hMem
    rcases List.mem_append.mp hAll with hAll | hAll
    · exact zero_notMem_taskBody timer hAll
    · revert hAll
      decide
  rw [dispatch, cstr_of_noNul hZero] at h
  split at h
  · rename_i hTask
    rcases Option.map_eq_some_iff.mp h with ⟨v, hScan, hv⟩
    have hBody : printInt timer.toInt ++ newline = c.drop 5 ++ r := by
      rw [taskCommand_eq, ← List.take_append_drop 5 c, hTask, taskBody,
        List.append_assoc, List.append_assoc] at hEq
      exact List.append_cancel_left hEq
    rcases List.append_eq_append_iff.mp hBody with ⟨a, ha, hr⟩ | ⟨a, ha, hr⟩
    · -- the newline, or part of it, belongs to the chunk
      cases a with
      | nil => exact Or.inr hr.symm
      | cons b a =>
          left
          have hLength := congrArg List.length hr
          simp only [newline, ascii, List.map_cons, List.map_nil,
            List.length_cons, List.length_nil, List.length_append] at hLength
          exact List.length_eq_zero_iff.mp (by omega)
    · -- the digits are cut
      by_cases hNil : a = []
      · rw [hNil, List.nil_append] at hr
        exact Or.inr hr
      · have hLess := scanInt_cut ha hNil hScan
        have hLow := timer.le_toInt
        have hHigh := timer.toInt_lt
        have hBack := Int32.toInt_ofInt_of_le (n := v) (by omega) (by omega)
        simp only [Command.task.injEq] at hv
        rw [hv] at hBack
        omega
  · split at h
    · simp at h
    · split at h <;> simp at h

/-! ## The loop -/

theorem driverLoop_none {c : List UInt8} {chunks : List (List UInt8)}
    (h : dispatch c = none) : driverLoop (c :: chunks) = driverLoop chunks := by
  simp only [driverLoop, h]

theorem driverLoop_task {c : List UInt8} {chunks : List (List UInt8)}
    {timer : Int32} (h : dispatch c = some (.task timer)) :
    driverLoop (c :: chunks) = .task timer :: driverLoop chunks := by
  simp only [driverLoop, h]

theorem length_driverLoop_le (chunks : List (List UInt8)) :
    (driverLoop chunks).length ≤ (chunks.filterMap dispatch).length := by
  induction chunks with
  | nil => exact Nat.le_refl _
  | cons c chunks ih =>
      cases h : dispatch c with
      | none =>
          rw [driverLoop_none h, List.filterMap_cons_none h]
          exact ih
      | some cmd =>
          rw [List.filterMap_cons_some h, List.length_cons]
          cases cmd with
          | task timer =>
              rw [driverLoop_task h]
              exact Nat.succ_le_succ ih
          | status =>
              simp only [driverLoop, h, List.length_cons]
              exact Nat.succ_le_succ ih
          | exit =>
              simp only [driverLoop, h, List.length_singleton]
              exact Nat.le_add_left _ _

/-- The loop recognises at most one command for each line still to begin.  A
chunk is recognised only if a line begins with it, and the chunk takes the
beginning away. -/
theorem driverLoop_bound {r : List UInt8} {chunks lines : List (List UInt8)}
    (hChunks : ∀ c ∈ chunks, c ≠ []) (hLines : ∀ l ∈ lines, IsLine l)
    (hr : r = [] ∨ TailOf IsLine r)
    (h : chunks.flatten = r ++ lines.flatten) :
    (driverLoop chunks).length ≤ lines.length :=
  Nat.le_trans (length_driverLoop_le chunks)
    (length_filterMap_le (fun _ _ _ _ => dispatch_inside) hChunks hLines hr h)

/-- A chunk that runs on into the next line costs a command, because that line
begins inside it.  With `driverLoop_bound` the commands can be counted: if all
are recognised, no line begins inside a chunk. -/
theorem driverLoop_bound_lt {c : List UInt8}
    {chunks lines : List (List UInt8)}
    (hChunks : ∀ d ∈ chunks, d ≠ []) (hLines : ∀ l ∈ lines, IsLine l)
    (hc : c ≠ []) (h : c ++ chunks.flatten = lines.flatten) :
    (driverLoop chunks).length < lines.length := by
  rcases flatten_cut hLines hc h with ⟨r', ls, hy, hr', hlt, hL⟩
  exact Nat.lt_of_le_of_lt (driverLoop_bound hChunks hL (Or.inr hr') hy) hlt

/-! ## Exactly the aligned deliveries -/

theorem driverLoop_of_aligned {timers : List Int32} {exits : Bool}
    {chunks : List (List UInt8)} (h : Aligned timers exits chunks) :
    driverLoop chunks = (Session.mk timers exits).commands := by
  induction h with
  | done => rfl
  | exit => rfl
  | @whole timer timers exits chunks _ ih =>
      rw [driverLoop_task (dispatch_taskCommand timer), ih]
      rfl
  | @cut timer timers exits chunks _ ih =>
      rw [driverLoop_task (dispatch_taskBody timer),
        driverLoop_none dispatch_newline, ih]
      rfl

/-- `EXIT` is recognised only alone and without its newline. -/
theorem aligned_of_exit {chunks : List (List UInt8)}
    (hChunks : ∀ c ∈ chunks, c ≠ []) (hJoined : chunks.flatten = exitCommand)
    (hLoop : driverLoop chunks = [.exit]) : Aligned [] true chunks := by
  cases chunks with
  | nil => contradiction
  | cons c cs =>
      have hc := hChunks c List.mem_cons_self
      have hcs := fun c' h' => hChunks c' (List.mem_cons_of_mem _ h')
      rw [List.flatten_cons] at hJoined
      have hTail : TailOf IsLine cs.flatten := ⟨c, _, .exit, hc, hJoined⟩
      have hRest : (driverLoop cs).length ≤ ([] : List (List UInt8)).length :=
        driverLoop_bound hcs nofun (Or.inr hTail)
          (by rw [List.flatten_nil, List.append_nil])
      have hSome : dispatch c ≠ none := by
        intro hNone
        rw [driverLoop_none hNone] at hLoop
        rw [hLoop] at hRest
        exact absurd hRest (by decide)
      have hExit : c = ascii ['E', 'X', 'I', 'T'] ∧ cs.flatten = newline := by
        rcases c with _ | ⟨a, _ | ⟨b, _ | ⟨d, _ | ⟨e, _ | ⟨f, c⟩⟩⟩⟩⟩
        · contradiction
        all_goals
          simp only [exitCommand, ascii, List.map_cons, List.map_nil,
            List.cons_append, List.nil_append, List.cons.injEq] at hJoined
        · obtain ⟨rfl, -⟩ := hJoined
          exact absurd rfl hSome
        · obtain ⟨rfl, rfl, -⟩ := hJoined
          exact absurd rfl hSome
        · obtain ⟨rfl, rfl, rfl, -⟩ := hJoined
          exact absurd rfl hSome
        · obtain ⟨rfl, rfl, rfl, rfl, hNewline⟩ := hJoined
          exact ⟨rfl, hNewline⟩
        · obtain ⟨rfl, rfl, rfl, rfl, rfl, hNil⟩ := hJoined
          obtain rfl := (List.append_eq_nil_iff.mp hNil).1
          exact absurd rfl hSome
      rw [hExit.1, chunks_of_flatten_singleton hcs hExit.2]
      exact .exit

/-- A newline that is left over from a line comes in a chunk of its own. -/
theorem newline_alone {se : Session} {chunks : List (List UInt8)}
    (hChunks : ∀ c ∈ chunks, c ≠ []) (hTail : TailOf IsLine newline)
    (hJoined : chunks.flatten = newline ++ se.lines.flatten)
    (hLoop : driverLoop chunks = se.commands) :
    ∃ rest, chunks = newline :: rest ∧ rest.flatten = se.lines.flatten ∧
      driverLoop rest = se.commands := by
  cases chunks with
  | nil => contradiction
  | cons d ds =>
      have hd := hChunks d List.mem_cons_self
      have hds := fun d' h' => hChunks d' (List.mem_cons_of_mem _ h')
      rw [List.flatten_cons] at hJoined
      have hNone := dispatch_inside hTail (by decide) hd hJoined
      rw [driverLoop_none hNone] at hLoop
      rcases d with _ | ⟨b, d⟩
      · contradiction
      · simp only [newline, ascii, List.map_cons, List.map_nil,
          List.cons_append, List.nil_append, List.cons.injEq] at hJoined
        obtain ⟨rfl, hJoined⟩ := hJoined
        by_cases hNil : d = []
        · rw [hNil, List.nil_append] at hJoined
          exact ⟨ds, by rw [hNil]; rfl, hJoined, hLoop⟩
        · have hLess := driverLoop_bound_lt hds se.isLine hNil hJoined
          rw [hLoop, se.length_lines] at hLess
          exact absurd hLess (Nat.lt_irrefl _)

/-- The first line of a session with a task arrives in one of the two ways,
and the rest of the chunks are those of the rest of the session. -/
theorem aligned_head {timer : Int32} {se : Session}
    {chunks : List (List UInt8)} (hChunks : ∀ c ∈ chunks, c ≠ [])
    (hJoined : chunks.flatten = taskCommand timer ++ se.lines.flatten)
    (hLoop : driverLoop chunks = .task timer :: se.commands) :
    ∃ rest, (chunks = taskCommand timer :: rest ∨
        chunks = taskBody timer :: newline :: rest) ∧
      rest.flatten = se.lines.flatten ∧ driverLoop rest = se.commands := by
  cases chunks with
  | nil => contradiction
  | cons c cs =>
      have hc := hChunks c List.mem_cons_self
      have hcs := fun c' h' => hChunks c' (List.mem_cons_of_mem _ h')
      rw [List.flatten_cons] at hJoined
      have hCount := congrArg List.length hLoop
      rw [List.length_cons, ← se.length_lines] at hCount
      -- the first chunk is recognised, and the others give all the rest
      have hSplit : (driverLoop cs).length ≤ se.lines.length →
          dispatch c = some (.task timer) ∧ driverLoop cs = se.commands := by
        intro hLe
        cases hDispatch : dispatch c with
        | none =>
            rw [driverLoop_none hDispatch] at hCount
            omega
        | some cmd =>
            cases cmd with
            | task timer' =>
                rw [driverLoop_task hDispatch, List.cons.injEq] at hLoop
                rw [hLoop.1]
                exact ⟨rfl, hLoop.2⟩
            | status => simp [driverLoop, hDispatch] at hLoop
            | exit => simp [driverLoop, hDispatch] at hLoop
      rcases List.append_eq_append_iff.mp hJoined with
        ⟨r, hr, hRest⟩ | ⟨c', hc', hRest⟩
      · have hTail : TailOf IsLine r := ⟨c, _, .task timer, hc, hr.symm⟩
        have hLe := driverLoop_bound hcs se.isLine (Or.inr hTail) hRest
        rcases hSplit hLe with ⟨hDispatch, hLoop'⟩
        rcases dispatch_cut hr hDispatch with rfl | rfl
        · rw [List.append_nil] at hr
          exact ⟨cs, Or.inl (by rw [hr]), hRest, hLoop'⟩
        · have hBody : c = taskBody timer := by
            rw [taskCommand_eq] at hr
            exact (List.append_cancel_right hr).symm
          rcases newline_alone hcs hTail hRest hLoop' with
            ⟨ds, rfl, hRest', hLoop''⟩
          exact ⟨ds, Or.inr (by rw [hBody]), hRest', hLoop''⟩
      · by_cases hNil : c' = []
        · rw [hNil, List.append_nil] at hc'
          rw [hNil, List.nil_append] at hRest
          have hLe := driverLoop_bound hcs se.isLine (Or.inl rfl) hRest.symm
          exact ⟨cs, Or.inl (by rw [hc']), hRest.symm, (hSplit hLe).2⟩
        · have hLess := driverLoop_bound_lt hcs se.isLine hNil hRest.symm
          have hEq := (hSplit (Nat.le_of_lt hLess)).2
          rw [hEq, se.length_lines] at hLess
          exact absurd hLess (Nat.lt_irrefl _)

theorem aligned_of_driverLoop {timers : List Int32} {exits : Bool}
    {chunks : List (List UInt8)} (hChunks : ∀ c ∈ chunks, c ≠ [])
    (hJoined : chunks.flatten = (Session.mk timers exits).lines.flatten)
    (hLoop : driverLoop chunks = (Session.mk timers exits).commands) :
    Aligned timers exits chunks := by
  induction timers generalizing chunks with
  | nil =>
      cases exits with
      | false =>
          cases chunks with
          | nil => exact .done
          | cons c cs =>
              rw [List.flatten_cons] at hJoined
              exact absurd (List.append_eq_nil_iff.mp hJoined).1
                (hChunks c List.mem_cons_self)
      | true => exact aligned_of_exit hChunks hJoined hLoop
  | cons timer timers ih =>
      have hHead :
          ∃ rest, (chunks = taskCommand timer :: rest ∨
              chunks = taskBody timer :: newline :: rest) ∧
            rest.flatten = (Session.mk timers exits).lines.flatten ∧
              driverLoop rest = (Session.mk timers exits).commands :=
        aligned_head hChunks hJoined hLoop
      rcases hHead with ⟨rest, rfl | rfl, hJoined', hLoop'⟩
      · exact .whole (ih (fun c h => hChunks c (List.mem_cons_of_mem _ h))
          hJoined' hLoop')
      · exact .cut (ih (fun c h => hChunks c
          (List.mem_cons_of_mem _ (List.mem_cons_of_mem _ h))) hJoined' hLoop')

/-- **The codec works exactly on aligned deliveries.**  From right to left the
chunks are read one by one; from left to right the number of commands leaves no
room for any other cut. -/
theorem recognised_iff_aligned (se : Session)
    (seg : Segmentation se.lines.flatten) :
    Recognised se seg ↔ Aligned se.timers se.exits seg.chunks :=
  ⟨aligned_of_driverLoop seg.nonempty seg.joined, driverLoop_of_aligned⟩

/-- `EXIT` sent alone and delivered whole. -/
def exitWhole : Segmentation (Session.mk [] true).lines.flatten where
  chunks := [exitCommand]
  nonempty := by decide
  fits := by decide
  joined := rfl

theorem exit_not_recognised :
    ¬∀ (se : Session) (seg : Segmentation se.lines.flatten),
      Recognised se seg := by
  intro hAll
  have hExit : driverLoop [exitCommand] = [.exit] := hAll _ exitWhole
  revert hExit
  decide

end UnixHomework.Ports.DriverManager
