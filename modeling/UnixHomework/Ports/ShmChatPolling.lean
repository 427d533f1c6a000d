import UnixHomework.Ports.ShmChatHistory
import UnixHomework.Verified.Traces

/-!
# What the display thread misses

`receive_thread` redraws the messages when `msg_count` differs from the value
it saw last.  The count saturates at `maxMessages`, so after the first poll
that finds a full ring no later post is noticed.  The main result says exactly
which runs are displayed correctly after every poll: those in which every
poll after that one finds the same last `maxMessages` messages.

The condition is about the posts between two polls, and not about anything the
thread computes.  As long as the ring is not full every post changes the
count, and the thread sees it at the next poll.  Afterwards the count is the
same for ever, and only a run without further posts, or with posts that leave
the same messages, is still shown as it is.
-/

namespace UnixHomework.Ports.ShmChat

open UnixHomework.Verified

/-- What happens to the room while one display thread runs: an operation of
any process, or an iteration of the thread. -/
inductive Event where
  | op (o : RoomOp)
  | poll

/-- The room and the thread that watches it. -/
structure World where
  room : ChatRoom
  thread : ReceiveThread

/-- One event; `maxY` is the height of both windows. -/
def World.apply (maxY : Nat) (w : World) : Event → World
  | .op o => { w with room := w.room.apply o }
  | .poll => { w with thread := w.thread.poll w.room maxY }

/-- A run from the server's initialisation and a fresh thread. -/
def runWorld (old : ChatRoom) (maxY : Nat) (evs : List Event) : World :=
  evs.foldl (World.apply maxY) ⟨initRoom old, .start⟩

/-- The messages posted in a run, in order. -/
def postsOf (evs : List Event) : List Line :=
  evs.filterMap fun
    | .op o => o.posted
    | .poll => none

/-- After every poll of the run, the history last passed to `print_messages`
is the history in the room. -/
def UpToDate (old : ChatRoom) (maxY : Nat) (evs : List Event) : Prop :=
  ∀ pre, pre ++ [.poll] <+: evs →
    (runWorld old maxY (pre ++ [.poll])).thread.passed =
      (runWorld old maxY (pre ++ [.poll])).room.history.map ChatMessage.line

/-- Once a poll has found a full ring, later polls find the same messages:
`pre` and `later` are the events before two polls, the first of which comes
after at least `maxMessages` posts. -/
def UnchangedOnceFull (evs : List Event) : Prop :=
  ∀ pre later, pre ++ [.poll] <+: later ++ [.poll] →
    later ++ [.poll] <+: evs → maxMessages ≤ (postsOf pre).length →
    (postsOf later).rtake maxMessages = (postsOf pre).rtake maxMessages

/-! ## Runs event by event -/

/-- A property of all polls of a run, of its last event and of the rest. -/
theorem forall_polls_concat {P : List Event → Prop} (evs : List Event)
    (e : Event) :
    (∀ pre, pre ++ [.poll] <+: evs ++ [e] → P pre) ↔
      (∀ pre, pre ++ [.poll] <+: evs → P pre) ∧ (e = .poll → P evs) := by
  have hPolls : ∀ log : List Event,
      (∀ pre, pre ++ [.poll] <+: log → P pre) ↔
        ∀ pre e, pre ++ [e] <+: log → e = .poll → P pre :=
    fun log => ⟨fun h pre e hPre hPoll => h pre (hPoll ▸ hPre),
      fun h pre hPre => h pre .poll hPre rfl⟩
  rw [hPolls, hPolls, forall_steps_concat]

variable (old : ChatRoom) (maxY : Nat)

theorem runWorld_concat (evs : List Event) (e : Event) :
    runWorld old maxY (evs ++ [e]) = (runWorld old maxY evs).apply maxY e := by
  simp [runWorld, List.foldl_append]

theorem postsOf_append (evs evs' : List Event) :
    postsOf (evs ++ evs') = postsOf evs ++ postsOf evs' := by
  simp [postsOf, List.filterMap_append]

@[simp] theorem postsOf_poll : postsOf [.poll] = [] := rfl

@[simp] theorem postsOf_op (o : RoomOp) :
    postsOf [.op o] = o.posted.toList := by
  cases h : o.posted <;> simp [postsOf, h]

theorem postsOf_concat_poll (evs : List Event) :
    postsOf (evs ++ [.poll]) = postsOf evs := by
  rw [postsOf_append, postsOf_poll, List.append_nil]

/-- The room of a run shows the messages posted in it. -/
theorem runWorld_historyOf (evs : List Event) :
    HistoryOf (runWorld old maxY evs).room (postsOf evs) := by
  induction evs using List.reverseRecOn with
  | nil => exact initRoom_historyOf old
  | append_singleton evs e ih =>
      rw [runWorld_concat, postsOf_append]
      cases e with
      | op o =>
          rw [postsOf_op]
          exact ih.apply o
      | poll =>
          rw [postsOf_poll, List.append_nil]
          exact ih

/-! ## One poll -/

@[simp] theorem pollClients_passed (t : ReceiveThread) (room : ChatRoom) :
    (t.pollClients room maxY).passed = t.passed := by
  unfold ReceiveThread.pollClients
  split <;> rfl

@[simp] theorem pollClients_lastMsgCount (t : ReceiveThread)
    (room : ChatRoom) :
    (t.pollClients room maxY).lastMsgCount = t.lastMsgCount := by
  unfold ReceiveThread.pollClients
  split <;> rfl

/-- After a poll the thread remembers the current count. -/
theorem poll_lastMsgCount (t : ReceiveThread) (room : ChatRoom) :
    (t.poll room maxY).lastMsgCount = room.msgCount := by
  rw [ReceiveThread.poll, pollClients_lastMsgCount, ReceiveThread.pollMessages]
  by_cases h : room.msgCount ≠ t.lastMsgCount
  · rw [if_pos h]
  · rw [if_neg h]
    exact (not_not.mp h).symm

/-- A changed count is displayed. -/
theorem poll_passed_of_ne {t : ReceiveThread} {room : ChatRoom}
    (h : room.msgCount ≠ t.lastMsgCount) :
    (t.poll room maxY).passed = room.history.map ChatMessage.line := by
  rw [ReceiveThread.poll, pollClients_passed, ReceiveThread.pollMessages,
    if_pos h]

/-- An unchanged count is not. -/
theorem poll_passed_of_eq {t : ReceiveThread} {room : ChatRoom}
    (h : room.msgCount = t.lastMsgCount) :
    (t.poll room maxY).passed = t.passed := by
  rw [ReceiveThread.poll, pollClients_passed, ReceiveThread.pollMessages,
    if_neg (not_not.mpr h)]

/-! ## What the thread has seen -/

/-- The messages posted before the last poll of a run. -/
def polledPosts (evs : List Event) : List Line :=
  (evs.foldl
    (fun (acc : List Line × List Line) e =>
      match e with
      | .op o => (acc.1 ++ o.posted.toList, acc.2)
      | .poll => (acc.1, acc.1))
    ([], [])).2

private theorem polledPosts_fst (evs : List Event) :
    (evs.foldl
      (fun (acc : List Line × List Line) e =>
        match e with
        | .op o => (acc.1 ++ o.posted.toList, acc.2)
        | .poll => (acc.1, acc.1))
      ([], [])).1 = postsOf evs := by
  induction evs using List.reverseRecOn with
  | nil => rfl
  | append_singleton evs e ih =>
      rw [List.foldl_append, postsOf_append]
      cases e with
      | op o => simp [ih]
      | poll => simp [ih]

@[simp] theorem polledPosts_concat_op (evs : List Event) (o : RoomOp) :
    polledPosts (evs ++ [.op o]) = polledPosts evs := by
  simp [polledPosts, List.foldl_append]

@[simp] theorem polledPosts_concat_poll (evs : List Event) :
    polledPosts (evs ++ [.poll]) = postsOf evs := by
  rw [← polledPosts_fst]
  simp [polledPosts, List.foldl_append]

/-- The posts of the last poll are the posts before some poll of the run, or
there was no poll yet. -/
theorem polledPosts_cases (evs : List Event) :
    polledPosts evs = [] ∨
      ∃ pre, pre ++ [.poll] <+: evs ∧ polledPosts evs = postsOf pre := by
  induction evs using List.reverseRecOn with
  | nil => exact .inl rfl
  | append_singleton evs e ih =>
      cases e with
      | op o =>
          rw [polledPosts_concat_op]
          rcases ih with hnil | ⟨pre, hpre, hposts⟩
          · exact .inl hnil
          · exact .inr ⟨pre, hpre.trans (List.prefix_append _ _), hposts⟩
      | poll =>
          rw [polledPosts_concat_poll]
          exact .inr ⟨evs, List.prefix_refl _, rfl⟩

theorem polledPosts_earlier (evs : List Event) :
    polledPosts evs <+: postsOf evs := by
  induction evs using List.reverseRecOn with
  | nil => exact List.prefix_refl _
  | append_singleton evs e ih =>
      cases e with
      | op o =>
          rw [polledPosts_concat_op, postsOf_append]
          exact ih.trans (List.prefix_append _ _)
      | poll =>
          have hSame : polledPosts (evs ++ [.poll]) =
              postsOf (evs ++ [.poll]) := by
            rw [polledPosts_concat_poll, postsOf_concat_poll]
          exact hSame ▸ List.prefix_refl _

/-- The remembered count is the one of the last poll. -/
theorem runWorld_lastMsgCount (evs : List Event) :
    (runWorld old maxY evs).thread.lastMsgCount =
      min (polledPosts evs).length maxMessages := by
  induction evs using List.reverseRecOn with
  | nil => rfl
  | append_singleton evs e ih =>
      rw [runWorld_concat]
      cases e with
      | op o =>
          rw [polledPosts_concat_op]
          exact ih
      | poll =>
          rw [polledPosts_concat_poll]
          show (ReceiveThread.poll _ _ maxY).lastMsgCount = _
          rw [poll_lastMsgCount]
          exact (runWorld_historyOf old maxY evs).countEq

/-! ## The display is right when nothing changes in a full ring -/

variable {old maxY}

theorem UpToDate.of_earlier {evs evs' : List Event}
    (h : UpToDate old maxY evs') (hp : evs <+: evs') :
    UpToDate old maxY evs :=
  fun pre hpre => h pre (hpre.trans hp)

theorem UnchangedOnceFull.of_earlier {evs evs' : List Event}
    (h : UnchangedOnceFull evs') (hp : evs <+: evs') :
    UnchangedOnceFull evs :=
  fun pre later hpre hlater => h pre later hpre (hlater.trans hp)

/-- If every poll so far was displayed, the thread holds the history of the
last one. -/
theorem UpToDate.passed_eq {evs : List Event} (h : UpToDate old maxY evs) :
    (runWorld old maxY evs).thread.passed =
      (polledPosts evs).rtake maxMessages := by
  induction evs using List.reverseRecOn with
  | nil => rfl
  | append_singleton evs e ih =>
      cases e with
      | op o =>
          rw [runWorld_concat, polledPosts_concat_op]
          exact ih (h.of_earlier (List.prefix_append _ _))
      | poll =>
          rw [h evs (List.prefix_refl _), polledPosts_concat_poll,
            (runWorld_historyOf old maxY _).lines, postsOf_concat_poll]

/-- A poll that finds the remembered count finds the remembered messages. -/
theorem UnchangedOnceFull.polled_rtake {evs : List Event}
    (h : UnchangedOnceFull (evs ++ [.poll]))
    (hcount : min (postsOf evs).length maxMessages =
      min (polledPosts evs).length maxMessages) :
    (polledPosts evs).rtake maxMessages =
      (postsOf evs).rtake maxMessages := by
  by_cases hfull : maxMessages ≤ (polledPosts evs).length
  · rcases polledPosts_cases evs with hnil | ⟨pre, hpre, hposts⟩
    · rw [hnil] at hfull
      exact absurd hfull (by decide)
    · rw [hposts] at hfull ⊢
      exact (h pre evs (hpre.trans (List.prefix_append _ _))
        (List.prefix_refl _) hfull).symm
  · have hEarlier := polledPosts_earlier evs
    have hlen : (polledPosts evs).length = (postsOf evs).length := by
      omega
    rw [hEarlier.eq_of_length hlen]

theorem UnchangedOnceFull.upToDate {evs : List Event}
    (h : UnchangedOnceFull evs) : UpToDate old maxY evs := by
  induction evs using List.reverseRecOn with
  | nil =>
      intro pre hpre
      simp at hpre
  | append_singleton evs e ih =>
      have hprev : UpToDate old maxY evs :=
        ih (h.of_earlier (List.prefix_append _ _))
      rw [UpToDate, forall_polls_concat]
      constructor
      · exact hprev
      · rintro rfl
        rw [runWorld_concat]
        show (ReceiveThread.poll _ _ maxY).passed = _
        by_cases hne : (runWorld old maxY evs).room.msgCount ≠
            (runWorld old maxY evs).thread.lastMsgCount
        · exact poll_passed_of_ne maxY hne
        · have heqc := not_not.mp hne
          have hhist := runWorld_historyOf old maxY evs
          rw [poll_passed_of_eq maxY heqc, hprev.passed_eq]
          rw [hhist.countEq, runWorld_lastMsgCount] at heqc
          rw [h.polled_rtake heqc]
          exact hhist.lines.symm

/-! ## A change in a full ring is missed -/

/-- A poll that found a full ring is followed only by such polls. -/
theorem polledPosts_full {pre : List Event}
    (hfull : maxMessages ≤ (postsOf pre).length) (more : List Event) :
    maxMessages ≤ (polledPosts (pre ++ [.poll] ++ more)).length := by
  induction more using List.reverseRecOn with
  | nil =>
      rw [List.append_nil, polledPosts_concat_poll]
      exact hfull
  | append_singleton more e ih =>
      rw [← List.append_assoc]
      cases e with
      | op o =>
          rw [polledPosts_concat_op]
          exact ih
      | poll =>
          rw [polledPosts_concat_poll]
          exact Nat.le_trans ih (polledPosts_earlier _).length_le

/-- A thread that has seen a full ring keeps what it shows, whatever happens
afterwards. -/
theorem passed_frozen (old : ChatRoom) (maxY : Nat) {pre : List Event}
    (hfull : maxMessages ≤ (postsOf pre).length) (more : List Event) :
    (runWorld old maxY (pre ++ [.poll] ++ more)).thread.passed =
      (runWorld old maxY (pre ++ [.poll])).thread.passed := by
  induction more using List.reverseRecOn with
  | nil => rw [List.append_nil]
  | append_singleton more e ih =>
      rw [← List.append_assoc, runWorld_concat, ← ih]
      cases e with
      | op o => rfl
      | poll =>
          have hhist := runWorld_historyOf old maxY (pre ++ [.poll] ++ more)
          have hseen := runWorld_lastMsgCount old maxY (pre ++ [.poll] ++ more)
          have hposts : (postsOf (pre ++ [.poll] ++ more)).length =
              (postsOf pre).length + (postsOf more).length := by
            rw [postsOf_append, postsOf_concat_poll, List.length_append]
          have hpolled : maxMessages ≤
              (polledPosts (pre ++ [.poll] ++ more)).length :=
            polledPosts_full hfull more
          refine poll_passed_of_eq maxY ?_
          rw [hhist.countEq, hseen]
          omega

theorem UpToDate.unchangedOnceFull {evs : List Event}
    (h : UpToDate old maxY evs) : UnchangedOnceFull evs := by
  intro pre later hpre hlater hfull
  obtain ⟨more, hmore⟩ := hpre
  have hfrozen := passed_frozen old maxY hfull more
  have hfirst := h pre ((List.prefix_append _ more).trans (hmore ▸ hlater))
  have hsecond := h later hlater
  rw [(runWorld_historyOf old maxY _).lines, postsOf_concat_poll]
    at hfirst hsecond
  rw [hmore, hfirst, hsecond] at hfrozen
  exact hfrozen

/-- **Exactly the runs displayed correctly.** -/
theorem upToDate_iff_unchangedOnceFull (old : ChatRoom) (maxY : Nat)
    (evs : List Event) :
    UpToDate old maxY evs ↔ UnchangedOnceFull evs :=
  ⟨UpToDate.unchangedOnceFull, UnchangedOnceFull.upToDate⟩

/-- Fifty messages, a poll, a fifty-first message, a poll. -/
def fullRingRun : List Event :=
  List.replicate maxMessages (.op (.clientPost [97] [104, 105])) ++
    [.poll, .op (.clientPost [98] [104, 105]), .poll]

/-- The second poll of `fullRingRun` shows a history without its last
message. -/
theorem receive_thread_misses_post :
    ¬ ∀ (old : ChatRoom) (maxY : Nat) (evs : List Event),
      UpToDate old maxY evs := by
  intro h
  let posts : List Event :=
    List.replicate maxMessages (.op (.clientPost [97] [104, 105]))
  have hsame := (h zeroSegment 24 fullRingRun).unchangedOnceFull posts
    (posts ++ [.poll, .op (.clientPost [98] [104, 105])])
    ⟨[.op (.clientPost [98] [104, 105]), .poll], rfl⟩ (List.prefix_refl _)
    (by decide)
  exact absurd hsame (by decide)

end UnixHomework.Ports.ShmChat
