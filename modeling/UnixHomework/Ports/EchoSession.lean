import UnixHomework.Ports.EchoPair
import UnixHomework.Verified.Traces

/-!
# Sessions of the echo client

The client sends one frame for each input line and then receives one frame,
whatever that frame is: each `continue` behind `recvfrom` leads to the next
input line, not to the next `recvfrom`.  The socket is opened for `ETH_P_ALL`,
so it delivers all traffic of the machine.

The server is assumed to answer, in order, each line that it does not ignore,
with a frame that the client prints, and no frame is lost.  The replies are
then paired with the lines if and only if no other frame lies in front of an
awaited reply (`paired_iff`).
-/

namespace UnixHomework.Ports.Echo

open UnixHomework.Verified

/-! ## The session -/

/-- A frame on the client's socket, with the index of the line that it
answers; `none` for all other traffic. -/
structure Arrival where
  request : Option Nat
  frame : List UInt8

/-- A text that the client has printed, and where it came from. -/
structure Printed where
  /-- The line that was answered, if it was an answer. -/
  request : Option Nat
  text : List UInt8

/-- Where the client's loop stands: in `fgets`, in `recvfrom` after it has
sent `line` from the buffer `b`, or behind the loop. -/
inductive Phase where
  | reading
  | receiving (b : Buffer) (line : List UInt8)
  | closed

def Phase.isReading : Phase → Bool
  | .reading => true
  | _ => false

/-- A client and its server, as far as lines and answers go. -/
structure Session where
  /-- Where the client stands. -/
  phase : Phase
  /-- The lines sent that the server answers: the non-empty ones but `CLOSE`. -/
  requests : List (List UInt8)
  /-- How many of them it has answered, the first ones. -/
  answered : Nat
  /-- What has arrived at the client and has not been received. -/
  socket : List Arrival
  /-- What the client has printed. -/
  printed : List Printed

def Session.start : Session where
  phase := .reading
  requests := []
  answered := 0
  socket := []
  printed := []

/-- A frame that the client prints, whatever its buffer held before. -/
def Passes (frame : List UInt8) : Prop :=
  ∀ b, ∃ text, clientReceive b frame = some (some text)

/-- An empty line gets no reply: the server's loop ignores its frame. -/
theorem empty_line_ignored (cfg : ClientConfig) (b : Buffer)
    (serverMac : CharArray 6) (server : Server) :
    ∃ b' frame buffer, clientSend cfg b [] = some (b', frame) ∧
      serverStep serverMac server frame =
        some ({ server with buffer := buffer }, none) := by
  rcases @clientSend_carries cfg b [] (by decide) with
    ⟨b', frame, hSend, hCarries⟩
  refine ⟨b', frame, (recvfrom server.buffer frame).1, hSend, ?_⟩
  simp only [serverStep, hCarries.ignored, Option.bind_eq_bind,
    Option.bind_some]

/-- `line` is a line that `fgets` returns, `b` the contents of the buffer,
and `sent` whether `sendto` succeeds. -/
inductive SessionLabel where
  | line (b : Buffer) (line : List UInt8) (sent : Bool)
  | eof
  | reply (frame : List UInt8) (passes : Passes frame)
  | unrelated (frame : List UInt8)
  | receive

/-- `line` has been sent; the server ignores an empty one. -/
def Session.await (s : Session) (b : Buffer) (line : List UInt8) : Session :=
  { s with
    phase := .receiving b line
    requests := if line = [] then s.requests else s.requests ++ [line] }

/-- The frame at the front of the socket is taken, and its text printed if it
passes the filter. -/
def Session.take (s : Session) (a : Arrival) (rest : List Arrival)
    (text : Option (List UInt8)) : Session :=
  { s with
    phase := .reading
    socket := rest
    printed := s.printed ++ text.toList.map fun t => ⟨a.request, t⟩ }

def sessionStep (cfg : ClientConfig) (s : Session) :
    SessionLabel → Option Session
  | .line b line sent =>
      match s.phase with
      | .reading => do
          let (b, _) ← clientSend cfg b line
          if sent then
            if line = closeText then some { s with phase := .closed }
            else some (s.await b line)
          else some s
      | _ => none
  | .eof =>
      match s.phase with
      | .reading => some { s with phase := .closed }
      | _ => none
  | .reply frame _ =>
      if s.answered < s.requests.length then
        some
          { s with
            answered := s.answered + 1
            socket := s.socket ++ [⟨some s.answered, frame⟩] }
      else none
  | .unrelated frame => some { s with socket := s.socket ++ [⟨none, frame⟩] }
  | .receive =>
      match s.phase, s.socket with
      | .receiving b _, a :: rest => do
          let text ← clientReceive b a.frame
          some (s.take a rest text)
      | _, _ => none

/-- The session as a machine, from the client's start on. -/
def sessionMachine (cfg : ClientConfig) : Machine Session SessionLabel where
  init s := s = Session.start
  step := sessionStep cfg

/-! ## The property and the guard -/

/-- The lines whose replies have been printed, in the order of printing. -/
def Session.replies (s : Session) : List Nat :=
  s.printed.filterMap Printed.request

/-- Whenever the client reads its next line, it has printed one reply to each
line, in the order of the lines. -/
def Session.Paired (s : Session) : Prop :=
  s.phase.isReading → s.replies = List.range s.requests.length

/-- The frame at the front of the socket is a reply. -/
def Session.replyFirst (s : Session) : Bool :=
  s.socket.head?.any fun a => a.request.isSome

/-- When the client receives a frame after a line that is not empty, no other
frame lies in front of the reply. -/
def ReplyFirst (s : Session) : SessionLabel → Prop
  | .receive =>
      match s.phase with
      | .receiving _ line => line = [] ∨ s.replyFirst
      | _ => True
  | _ => True

instance (s : Session) : Decidable s.Paired :=
  inferInstanceAs (Decidable (_ → _))

instance (s : Session) : (a : SessionLabel) → Decidable (ReplyFirst s a)
  | .receive =>
      match h : s.phase with
      | .receiving _ line =>
          decidable_of_iff (line = [] ∨ s.replyFirst = true)
            (by simp [ReplyFirst, h])
      | .reading | .closed => .isTrue (by simp [ReplyFirst, h])
  | .line .. | .eof | .reply .. | .unrelated _ => .isTrue trivial

/-! ## Steps -/

/-- What a step does, by its label. -/
inductive SessionTransition (s : Session) : SessionLabel → Session → Prop where
  | notSent (b : Buffer) (line : List UInt8) (hPhase : s.phase = .reading) :
      SessionTransition s (.line b line false) s
  | close (b : Buffer) (hPhase : s.phase = .reading) :
      SessionTransition s (.line b closeText true) { s with phase := .closed }
  | sent (b b' : Buffer) (line : List UInt8) (hPhase : s.phase = .reading) :
      SessionTransition s (.line b line true) (s.await b' line)
  | eof (hPhase : s.phase = .reading) :
      SessionTransition s .eof { s with phase := .closed }
  | reply (frame : List UInt8) (passes : Passes frame)
      (hOpen : s.answered < s.requests.length) :
      SessionTransition s (.reply frame passes)
        { s with
          answered := s.answered + 1
          socket := s.socket ++ [⟨some s.answered, frame⟩] }
  | unrelated (frame : List UInt8) :
      SessionTransition s (.unrelated frame)
        { s with socket := s.socket ++ [⟨none, frame⟩] }
  | receive (b : Buffer) (line : List UInt8) (a : Arrival)
      (rest : List Arrival) (text : Option (List UInt8))
      (hPhase : s.phase = .receiving b line) (hSocket : s.socket = a :: rest)
      (hText : clientReceive b a.frame = some text) :
      SessionTransition s .receive (s.take a rest text)

section Steps

variable {cfg : ClientConfig} {s next : Session} {a : SessionLabel}

theorem sessionStep_transition (h : sessionStep cfg s a = some next) :
    SessionTransition s a next := by
  cases a with
  | line b line sent =>
      simp only [sessionStep] at h
      split at h
      · rename_i hPhase
        obtain ⟨⟨b', frame⟩, -, h⟩ := Option.bind_eq_some_iff.mp h
        cases sent with
        | false =>
            obtain rfl : s = next := Option.some.inj h
            exact .notSent b line hPhase
        | true =>
            by_cases hClose : line = closeText
            · simp only [if_true, if_pos hClose] at h
              obtain rfl := Option.some.inj h
              subst hClose
              exact .close b hPhase
            · simp only [if_true, if_neg hClose] at h
              obtain rfl := Option.some.inj h
              exact .sent b b' line hPhase
      · contradiction
  | eof =>
      simp only [sessionStep] at h
      split at h
      · obtain rfl := Option.some.inj h
        exact .eof ‹_›
      · contradiction
  | reply frame passes =>
      simp only [sessionStep] at h
      split at h
      · obtain rfl := Option.some.inj h
        exact .reply frame passes ‹_›
      · contradiction
  | unrelated frame =>
      obtain rfl := Option.some.inj h
      exact .unrelated frame
  | receive =>
      simp only [sessionStep] at h
      split at h
      · rename_i b line a rest hPhase hSocket
        obtain ⟨text, hText, h⟩ := Option.bind_eq_some_iff.mp h
        obtain rfl := Option.some.inj h
        exact .receive b line a rest text hPhase hSocket hText
      · contradiction

end Steps

/-! ## Replies come in order -/

/-- The replies printed and the replies in the socket are all replies, in
order, and the client prints each one that it takes. -/
structure Session.Ordered (s : Session) : Prop where
  order : s.replies ++ s.socket.filterMap Arrival.request =
    List.range s.answered
  answered : s.answered ≤ s.requests.length
  passes : ∀ a ∈ s.socket, a.request.isSome → Passes a.frame

theorem ordered_start : Session.start.Ordered where
  order := rfl
  answered := Nat.le_refl _
  passes := nofun

section Order

variable {s next : Session} {a : SessionLabel} {b : Buffer}
  {rest : List Arrival} {text : Option (List UInt8)}

/-- The printed replies are determined by their number. -/
theorem Session.Ordered.replies_eq (h : s.Ordered) :
    s.replies = List.range s.replies.length := by
  have hLength := congrArg List.length h.order
  rw [List.length_append, List.length_range] at hLength
  calc s.replies
      = (s.replies ++ s.socket.filterMap Arrival.request).take
          s.replies.length := (List.take_left).symm
    _ = List.range (min s.replies.length s.answered) := by
        rw [h.order, List.take_range]
    _ = List.range s.replies.length := by
        rw [Nat.min_eq_left (by omega)]

theorem Session.Ordered.replies_eq_range (h : s.Ordered) {n : Nat} :
    s.replies = List.range n ↔ s.replies.length = n := by
  constructor
  · intro hReplies
    rw [hReplies, List.length_range]
  · intro hLength
    rw [← hLength]
    exact h.replies_eq

/-- Other traffic is no reply, printed or not. -/
theorem Session.replies_take_other (frame : List UInt8) :
    (s.take ⟨none, frame⟩ rest text).replies = s.replies := by
  simp [Session.replies, Session.take, List.filterMap_append]

theorem Session.replies_take_reply (i : Nat) (frame t : List UInt8) :
    (s.take ⟨some i, frame⟩ rest (some t)).replies = s.replies ++ [i] := by
  simp [Session.replies, Session.take, List.filterMap_append]

/-- A reply at the front of the socket is printed when it is taken. -/
theorem Session.Ordered.take_reply (h : s.Ordered) {i : Nat}
    {frame : List UInt8} (hSocket : s.socket = ⟨some i, frame⟩ :: rest)
    (hText : clientReceive b frame = some text) :
    (s.take ⟨some i, frame⟩ rest text).replies = s.replies ++ [i] := by
  have hPasses : Passes frame := by
    refine h.passes ⟨some i, frame⟩ ?_ rfl
    rw [hSocket]
    exact List.mem_cons_self
  obtain ⟨t, hPrinted⟩ := hPasses b
  obtain rfl : some t = text := Option.some.inj (hPrinted.symm.trans hText)
  exact Session.replies_take_reply i frame t

theorem Session.Ordered.step (h : s.Ordered)
    (hT : SessionTransition s a next) : next.Ordered := by
  cases hT with
  | notSent => exact h
  | close | eof => exact ⟨h.order, h.answered, h.passes⟩
  | sent b b' line hPhase =>
      refine ⟨h.order, Nat.le_trans h.answered ?_, h.passes⟩
      simp only [Session.await]
      split
      · exact Nat.le_refl _
      · rw [List.length_append]
        exact Nat.le_add_right _ _
  | reply frame passes hOpen =>
      constructor
      · show s.replies ++ List.filterMap Arrival.request
            (s.socket ++ [⟨some s.answered, frame⟩]) =
              List.range (s.answered + 1)
        rw [List.filterMap_append, ← List.append_assoc, h.order,
          List.range_succ]
        rfl
      · exact hOpen
      · intro x hx hReply
        rcases List.mem_append.mp hx with hOld | hNew
        · exact h.passes x hOld hReply
        · obtain rfl := List.mem_singleton.mp hNew
          exact passes
  | unrelated frame =>
      constructor
      · show s.replies ++ List.filterMap Arrival.request
            (s.socket ++ [⟨none, frame⟩]) = List.range s.answered
        rw [List.filterMap_append, ← List.append_assoc, h.order]
        exact List.append_nil _
      · exact h.answered
      · intro x hx hReply
        rcases List.mem_append.mp hx with hOld | hNew
        · exact h.passes x hOld hReply
        · obtain rfl := List.mem_singleton.mp hNew
          contradiction
  | receive b line x rest text hPhase hSocket hText =>
      have hOrder := h.order
      rw [hSocket] at hOrder
      obtain ⟨request, frame⟩ := x
      constructor
      · cases request with
        | none =>
            rw [Session.replies_take_other]
            exact hOrder
        | some i =>
            rw [h.take_reply hSocket hText, List.append_assoc]
            exact hOrder
      · exact h.answered
      · intro y hy
        refine h.passes y ?_
        rw [hSocket]
        exact List.mem_cons_of_mem _ hy

end Order

/-! ## One receive for one line -/

/-- The number of replies that the client is waiting for. -/
def Session.owed (s : Session) : Nat :=
  match s.phase with
  | .receiving _ line => if line = [] then 0 else 1
  | _ => 0

/-- All replies but the one that the client waits for have been printed. -/
def Session.Settled (s : Session) : Prop :=
  s.replies.length + s.owed = s.requests.length

section Pairing

variable {cfg : ClientConfig} {s next : Session} {a : SessionLabel}

theorem Session.owed_of_reading (h : s.phase.isReading) : s.owed = 0 := by
  unfold Session.owed
  cases hPhase : s.phase with
  | reading | closed => rfl
  | receiving b line =>
      rw [hPhase] at h
      contradiction

theorem Session.Settled.paired (h : s.Settled) (hOrdered : s.Ordered) :
    s.Paired := by
  intro hReading
  rw [hOrdered.replies_eq_range]
  rw [Session.Settled, Session.owed_of_reading hReading] at h
  exact h

theorem Session.Settled.of_paired (h : s.Paired)
    (hReading : s.phase.isReading) : s.Settled := by
  rw [Session.Settled, Session.owed_of_reading hReading, h hReading,
    List.length_range, Nat.add_zero]

/-- A line that is sent is owed a reply, unless it is empty; no other step
but a receive changes what is owed. -/
theorem Session.Settled.step (h : s.Settled)
    (hT : SessionTransition s a next) (hOther : a ≠ .receive) :
    next.Settled := by
  have hOwed : s.phase = .reading → s.owed = 0 := by
    intro hPhase
    apply Session.owed_of_reading
    rw [hPhase]
    rfl
  cases hT with
  | notSent | reply | unrelated => exact h
  | close b hPhase | eof hPhase =>
      rw [Session.Settled, hOwed hPhase] at h
      exact h
  | sent b b' line hPhase =>
      rw [Session.Settled, hOwed hPhase, Nat.add_zero] at h
      by_cases hEmpty : line = []
      · simp only [Session.Settled, Session.owed, Session.await, hEmpty,
          if_true, Nat.add_zero]
        exact h
      · simp only [Session.Settled, Session.owed, Session.await,
          if_neg hEmpty, List.length_append, List.length_singleton]
        exact congrArg (· + 1) h
  | receive => contradiction

/-- The client's one receive gets what it is owed if and only if it is owed
nothing or a reply is in front. -/
theorem paired_receive {b : Buffer} {line : List UInt8} {x : Arrival}
    {rest : List Arrival} {text : Option (List UInt8)} (h : s.Settled)
    (hOrdered : s.Ordered) (hNext : (s.take x rest text).Ordered)
    (hPhase : s.phase = .receiving b line) (hSocket : s.socket = x :: rest)
    (hText : clientReceive b x.frame = some text) :
    (s.take x rest text).Paired ↔ line = [] ∨ s.replyFirst = true := by
  obtain ⟨request, frame⟩ := x
  have hPaired : (s.take ⟨request, frame⟩ rest text).Paired ↔
      (s.take ⟨request, frame⟩ rest text).replies.length =
        s.requests.length := by
    rw [← hNext.replies_eq_range]
    exact ⟨fun hAll => hAll rfl, fun hAll _ => hAll⟩
  rw [hPaired]
  simp only [Session.Settled, Session.owed, hPhase] at h
  cases request with
  | none =>
      rw [Session.replies_take_other]
      have hOther : s.replyFirst = false := by
        simp [Session.replyFirst, hSocket]
      by_cases hEmpty : line = []
      · rw [if_pos hEmpty] at h
        exact iff_of_true h (Or.inl hEmpty)
      · rw [if_neg hEmpty] at h
        refine iff_of_false (by omega) ?_
        rintro (hNil | hReply)
        · exact hEmpty hNil
        · rw [hOther] at hReply
          contradiction
  | some i =>
      have hReplies := hOrdered.take_reply hSocket hText
      have hFirst : s.replyFirst = true := by
        simp [Session.replyFirst, hSocket]
      -- the server has not answered more than it has been asked
      have hBound : s.replies.length + 1 ≤ s.requests.length := by
        have hLength := congrArg List.length hNext.order
        have hAnswered := hNext.answered
        rw [hReplies, List.length_append, List.length_append,
          List.length_singleton, List.length_range] at hLength
        simp only [Session.take] at hLength hAnswered
        omega
      rw [hReplies, List.length_append, List.length_singleton]
      refine iff_of_true ?_ (Or.inr hFirst)
      split at h <;> omega

theorem paired_step (h : s.Settled) (hOrdered : s.Ordered)
    (hT : SessionTransition s a next) :
    next.Paired ↔ ReplyFirst s a := by
  have hNext := hOrdered.step hT
  have hStep := h.step hT
  cases hT with
  | receive b line x rest text hPhase hSocket hText =>
      rw [paired_receive h hOrdered hNext hPhase hSocket hText]
      simp only [ReplyFirst, hPhase]
  | _ => exact iff_of_true ((hStep nofun).paired hNext) trivial

theorem Session.Settled.of_step (h : s.Settled)
    (hT : SessionTransition s a next) (hPaired : next.Paired) :
    next.Settled := by
  have hStep := h.step hT
  cases hT with
  | receive => exact .of_paired hPaired rfl
  | _ => exact hStep nofun

/-- **Pairing of replies.**  Whenever the client reads a line, it has printed
the replies to all lines before it, if and only if, whenever it receives a
frame after a line that is not empty, no other frame lies in front of the
reply. -/
theorem paired_iff {as : List SessionLabel} {last : Session}
    (hRun : (sessionMachine cfg).run Session.start as = some last) :
    (sessionMachine cfg).EachState Session.Paired Session.start as ↔
      (sessionMachine cfg).EachStep ReplyFirst Session.start as :=
  Machine.eachState_iff_eachStep_of_kept (I := Session.Ordered)
    (G := Session.Settled)
    (fun _ _ _ h hStep => h.step (sessionStep_transition hStep))
    (fun _ hOrdered h => h.paired hOrdered)
    (fun _ _ _ _ h hStep => h.of_step (sessionStep_transition hStep))
    (fun _ _ _ hOrdered h hStep =>
      paired_step h hOrdered (sessionStep_transition hStep))
    ordered_start rfl hRun

end Pairing

/-! ## Two sessions -/

/-- `hi 1` from the server to the client, with all addresses and ports
right. -/
def helloReply : List UInt8 :=
  [2, 0, 0, 0, 0, 1] ++ [0x94, 0xbb, 0x43, 0x0d, 0x56, 0xa3] ++ [8, 0] ++
    [0x45, 0, 0, 32, 48, 57, 0, 0, 64, 17, 0, 0] ++
    [192, 168, 1, 1] ++ [192, 168, 1, 100] ++
    [48, 57, 212, 49, 0, 12, 0, 0] ++ ascii ['h', 'i', ' ', '1']

theorem helloReply_passes : Passes helloReply := by
  have hCarries : Carries helloReply [2, 0, 0, 0, 0, 1]
      [0x94, 0xbb, 0x43, 0x0d, 0x56, 0xa3] [192, 168, 1, 1]
      [192, 168, 1, 100] serverPort clientPort
      (ascii ['h', 'i', ' ', '1']) := by
    constructor <;> rfl
  intro b
  exact ⟨_, hCarries.printed b (by decide) (by decide) (by decide)⟩

/-- An ARP request, as any machine on the network sends it to all others. -/
def arpRequest : List UInt8 :=
  List.replicate 6 255 ++ [2, 0, 0, 0, 0, 2] ++ [8, 6] ++
    [0, 1, 8, 0, 6, 4, 0, 1] ++ [2, 0, 0, 0, 0, 2] ++ [192, 168, 1, 7] ++
    List.replicate 6 0 ++ [192, 168, 1, 1] ++ List.replicate 18 0

/-- A line with its reply, then an empty line, for which the client takes the
ARP request. -/
theorem paired_iff_emptyLine :
    (sessionMachine firstExchange.cfg).EachState Session.Paired Session.start
      [.line (.zeros bufSize) (ascii ['h', 'i']) true,
        .reply helloReply helloReply_passes, .receive, .unrelated arpRequest,
        .line (.zeros bufSize) [] true, .receive] := by
  obtain ⟨last, hRun⟩ := Option.isSome_iff_exists.mp
    (show ((sessionMachine firstExchange.cfg).run Session.start
      [.line (.zeros bufSize) (ascii ['h', 'i']) true,
        .reply helloReply helloReply_passes, .receive, .unrelated arpRequest,
        .line (.zeros bufSize) [] true, .receive]).isSome = true by
      decide +kernel)
  exact (paired_iff hRun).mpr (by decide +kernel)

/-- The ARP request comes before the reply: the client reads its next line
without having printed anything. -/
theorem arp_takes_place_of_reply :
    ¬ ∀ s, (sessionMachine firstExchange.cfg).Reachable s → s.Paired := by
  intro hAll
  have hRun : (((sessionMachine firstExchange.cfg).run Session.start
      [.line (.zeros bufSize) (ascii ['h', 'i']) true,
        .unrelated arpRequest, .reply helloReply helloReply_passes,
        .receive]).any fun s => decide (¬ s.Paired)) = true := by
    decide +kernel
  obtain ⟨s, hReach, hUnpaired⟩ := Machine.exists_reachable_of_run rfl hRun
  exact of_decide_eq_true hUnpaired (hAll s hReach)

end UnixHomework.Ports.Echo
