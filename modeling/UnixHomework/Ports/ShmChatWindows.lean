import UnixHomework.Ports.ShmChatPolling

/-!
# What is in the windows

`print_messages` draws from the oldest message on and tests the row only after
it has drawn one.  If the messages do not all fit, it draws the oldest ones,
the last of them over the border of the window (`showsLatest_iff`).

`print_clients` draws all users if its window has room for ten, but it is
called only when `client_count` is another one than at the last poll.  Joins
and leaves that cancel out between two polls are missed
(`usersUpToDate_iff`).

A message takes one row here.  Lines that are wider than the window, which
would be wrapped into the rows of the next ones, are left out.
-/

namespace UnixHomework.Ports.ShmChat

open UnixHomework.Verified

/-! ## The messages -/

/-- The row of the `j`-th message, and the message. -/
def ChatRoom.row (room : ChatRoom) (j : Nat) : Nat × Line :=
  (j + 1, (room.messages (Ring.slot maxMessages room.msgStart j)).line)

/-- The rows are consecutive, up to the border and over it: the row is tested
after it has been drawn. -/
theorem printMessagesFrom_eq (room : ChatRoom) (maxY i n : Nat) :
    printMessagesFrom room maxY i n =
      (List.range' i (min n (max 1 (maxY - 1 - i)))).map room.row := by
  induction n generalizing i with
  | zero => rw [Nat.zero_min, List.range'_zero, List.map_nil, printMessagesFrom]
  | succ n ih =>
      have hRow : (i + 1, (room.messages
          ((room.msgStart + i) % maxMessages)).line) = room.row i := rfl
      rw [printMessagesFrom]
      simp only [hRow]
      by_cases hBorder : maxY ≤ i + 2
      · have hOne : min (n + 1) (max 1 (maxY - 1 - i)) = 1 := by omega
        rw [if_pos hBorder, hOne, List.range'_one, List.map_singleton]
      · have hMore : min (n + 1) (max 1 (maxY - 1 - i)) =
            min n (max 1 (maxY - 1 - (i + 1))) + 1 := by
          omega
        rw [if_neg hBorder, hMore, List.range'_succ, List.map_cons, ih]

theorem printMessages_eq (room : ChatRoom) (maxY : Nat) :
    printMessages room maxY =
      (List.range (min room.msgCount (max 1 (maxY - 1)))).map room.row := by
  rw [printMessages, printMessagesFrom_eq, List.range_eq_range', Nat.sub_zero]

theorem history_eq (room : ChatRoom) :
    room.history.map ChatMessage.line =
      (List.range room.msgCount).map fun j => (room.row j).2 := by
  rw [ChatRoom.history, Ring.contents, List.map_map]
  rfl

/-- What the window should have: rows inside the border, with the latest
messages in the order of posting. -/
structure ShowsLatest (room : ChatRoom) (maxY : Nat) : Prop where
  /-- Every row drawn is inside the border. -/
  rows : ∀ line ∈ printMessages room maxY, 1 ≤ line.1 ∧ line.1 ≤ maxY - 2
  /-- The rows are the last messages, as many as there is room for. -/
  latest : (printMessages room maxY).map Prod.snd =
    (room.history.map ChatMessage.line).rtake (min room.msgCount (maxY - 2))

/-- **The latest messages are shown** if all messages fit, and only then. -/
theorem showsLatest_iff (room : ChatRoom) (maxY : Nat) :
    ShowsLatest room maxY ↔ room.msgCount ≤ maxY - 2 := by
  constructor
  · intro h
    by_contra hMany
    -- the message drawn last is on the border
    have hLast : room.row (min room.msgCount (max 1 (maxY - 1)) - 1) ∈
        printMessages room maxY := by
      rw [printMessages_eq]
      apply List.mem_map_of_mem
      rw [List.mem_range]
      omega
    have hRow : min room.msgCount (max 1 (maxY - 1)) - 1 + 1 ≤ maxY - 2 :=
      (h.rows _ hLast).2
    omega
  · intro hFit
    have hAll : min room.msgCount (max 1 (maxY - 1)) = room.msgCount := by
      omega
    constructor
    · intro line hLine
      rw [printMessages_eq, hAll] at hLine
      obtain ⟨j, hj, rfl⟩ := List.mem_map.mp hLine
      have hLess := List.mem_range.mp hj
      show 1 ≤ j + 1 ∧ j + 1 ≤ maxY - 2
      omega
    · have hCount : (room.history.map ChatMessage.line).length -
          min room.msgCount (maxY - 2) = 0 := by
        rw [history_eq, List.length_map, List.length_range]
        omega
      rw [List.rtake, hCount, List.drop_zero, history_eq, printMessages_eq,
        hAll, List.map_map]
      rfl

/-- Three messages and room for one. -/
theorem latest_message_not_shown :
    ¬∀ (room : ChatRoom) (maxY : Nat), room.msgStart < maxMessages →
      room.msgCount ≤ maxMessages → 3 ≤ maxY → ShowsLatest room maxY := by
  intro h
  have hThree := h (runRoom zeroSegment
    [.clientPost [97] [49], .clientPost [97] [50], .clientPost [97] [51]]) 3
    (by decide +kernel) (by decide +kernel) (Nat.le_refl 3)
  have hDrawn : (printMessages (runRoom zeroSegment [.clientPost [97] [49],
      .clientPost [97] [50], .clientPost [97] [51]]) 3) =
      [(1, [97], [49]), (2, [97], [50])] := by
    decide +kernel
  have hBorder := hThree.rows (2, [97], [50]) (by rw [hDrawn]; decide)
  exact absurd hBorder.2 (by decide)

/-! ## The users -/

/-- The names in the active slots. -/
def ChatRoom.activeNames (room : ChatRoom) : List (List UInt8) :=
  ((List.range maxClients).filter fun i => (room.clients i).active).map
    fun i => (room.clients i).name.str

theorem printClientsFrom_names (room : ChatRoom) {maxY : Nat}
    (slots : List Nat) {row : Nat} (h : row + slots.length < maxY) :
    (printClientsFrom room maxY slots row).map Prod.snd =
      (slots.filter fun i => (room.clients i).active).map
        fun i => (room.clients i).name.str := by
  induction slots generalizing row with
  | nil => rfl
  | cons i slots ih =>
      rw [List.length_cons] at h
      rw [printClientsFrom, if_pos (by omega)]
      by_cases hActive : (room.clients i).active
      · rw [if_pos hActive, List.filter_cons, if_pos hActive, List.map_cons,
          List.map_cons, ih (by omega)]
      · rw [if_neg hActive, List.filter_cons, if_neg hActive, ih (by omega)]

/-- In a window of twelve rows there is room for all. -/
theorem printClients_names (room : ChatRoom) {maxY : Nat} (h : 12 ≤ maxY) :
    (printClients room maxY).map Prod.snd = room.activeNames := by
  apply printClientsFrom_names
  rw [List.length_range]
  show 1 + 10 < maxY
  omega

theorem activeNames_initRoom (old : ChatRoom) :
    (initRoom old).activeNames = [] := by
  have hNone : (List.range maxClients).filter
      (fun i => ((initRoom old).clients i).active) = [] := by
    rw [List.filter_eq_nil_iff]
    intro i hi
    have hSlot : ((initRoom old).clients i).active = false := by
      rw [initRoom]
      simp only [if_pos (List.mem_range.mp hi)]
    rw [hSlot]
    exact Bool.false_ne_true
  rw [ChatRoom.activeNames, hNone, List.map_nil]

def Event.isOp : Event → Bool
  | .op _ => true
  | .poll => false

/-- The events before the last poll of a run, none if there was no poll. -/
def beforeLastPoll (evs : List Event) : List Event :=
  (evs.rdropWhile Event.isOp).dropLast

@[simp] theorem beforeLastPoll_concat_op (evs : List Event) (o : RoomOp) :
    beforeLastPoll (evs ++ [.op o]) = beforeLastPoll evs := by
  rw [beforeLastPoll, List.rdropWhile_concat_pos _ _ _ rfl, beforeLastPoll]

@[simp] theorem beforeLastPoll_concat_poll (evs : List Event) :
    beforeLastPoll (evs ++ [.poll]) = evs := by
  rw [beforeLastPoll, List.rdropWhile_concat_neg _ _ _ Bool.false_ne_true,
    List.dropLast_concat]

/-- After every poll of the run, the names drawn last are those of the active
slots. -/
def UsersUpToDate (old : ChatRoom) (maxY : Nat) (evs : List Event) : Prop :=
  ∀ pre, pre ++ [.poll] <+: evs → ∀ name,
    name ∈ (runWorld old maxY (pre ++ [.poll])).thread.winUsers.map Prod.snd ↔
      name ∈ (runWorld old maxY pre).room.activeNames

/-- A poll that finds the count of the poll before also finds its names.
Before the first poll this is the room as the server leaves it, with no
names. -/
def CountTellsUsers (old : ChatRoom) (maxY : Nat) (evs : List Event) : Prop :=
  ∀ pre, pre ++ [.poll] <+: evs →
    (runWorld old maxY pre).room.clientCount =
      (runWorld old maxY (beforeLastPoll pre)).room.clientCount → ∀ name,
        name ∈ (runWorld old maxY (beforeLastPoll pre)).room.activeNames ↔
          name ∈ (runWorld old maxY pre).room.activeNames

/-! ### Runs -/

section Users

variable {old : ChatRoom} {maxY : Nat}

@[simp] theorem pollMessages_lastClientCount (t : ReceiveThread)
    (room : ChatRoom) :
    (t.pollMessages room maxY).lastClientCount = t.lastClientCount := by
  unfold ReceiveThread.pollMessages
  split <;> rfl

@[simp] theorem pollMessages_winUsers (t : ReceiveThread) (room : ChatRoom) :
    (t.pollMessages room maxY).winUsers = t.winUsers := by
  unfold ReceiveThread.pollMessages
  split <;> rfl

theorem poll_lastClientCount (t : ReceiveThread) (room : ChatRoom) :
    (t.poll room maxY).lastClientCount = room.clientCount := by
  rw [ReceiveThread.poll, ReceiveThread.pollClients,
    pollMessages_lastClientCount]
  by_cases hChanged : room.clientCount ≠ t.lastClientCount
  · rw [if_pos hChanged]
  · rw [if_neg hChanged, pollMessages_lastClientCount, not_not.mp hChanged]

theorem poll_winUsers (t : ReceiveThread) (room : ChatRoom) :
    (t.poll room maxY).winUsers =
      if room.clientCount = t.lastClientCount then t.winUsers
      else printClients room maxY := by
  rw [ReceiveThread.poll, ReceiveThread.pollClients,
    pollMessages_lastClientCount]
  by_cases hChanged : room.clientCount = t.lastClientCount
  · rw [if_pos hChanged, if_neg (not_not.mpr hChanged), pollMessages_winUsers]
  · rw [if_neg hChanged, if_pos hChanged]

/-- The thread remembers the count of the last poll, and of none that came
before. -/
theorem runWorld_lastClientCount (evs : List Event) :
    (runWorld old maxY evs).thread.lastClientCount =
      (runWorld old maxY (beforeLastPoll evs)).room.clientCount := by
  induction evs using List.reverseRecOn with
  | nil => rfl
  | append_singleton evs e ih =>
      rw [runWorld_concat]
      cases e with
      | op o =>
          rw [beforeLastPoll_concat_op]
          exact ih
      | poll =>
          rw [beforeLastPoll_concat_poll]
          exact poll_lastClientCount _ _

/-- The names in the window are those of the last poll, if all polls so far
were displayed. -/
theorem UsersUpToDate.winUsers_iff {evs : List Event}
    (h : UsersUpToDate old maxY evs) (name : List UInt8) :
    name ∈ (runWorld old maxY evs).thread.winUsers.map Prod.snd ↔
      name ∈ (runWorld old maxY (beforeLastPoll evs)).room.activeNames := by
  induction evs using List.reverseRecOn with
  | nil =>
      show name ∈ [] ↔ name ∈ (initRoom old).activeNames
      rw [activeNames_initRoom]
  | append_singleton evs e ih =>
      have hBoth := (forall_polls_concat evs e).mp h
      cases e with
      | op o =>
          rw [runWorld_concat, beforeLastPoll_concat_op]
          exact ih hBoth.1
      | poll =>
          rw [beforeLastPoll_concat_poll]
          exact hBoth.2 rfl name

/-- **One poll** of a run displayed so far.  If the count has changed the
window is drawn anew; if not, it has the names of the last poll, which must be
those of now. -/
theorem UsersUpToDate.poll_iff (hHeight : 12 ≤ maxY) {evs : List Event}
    (h : UsersUpToDate old maxY evs) :
    (∀ name, name ∈ (runWorld old maxY
        (evs ++ [.poll])).thread.winUsers.map Prod.snd ↔
          name ∈ (runWorld old maxY evs).room.activeNames) ↔
      ((runWorld old maxY evs).room.clientCount =
        (runWorld old maxY (beforeLastPoll evs)).room.clientCount → ∀ name,
          name ∈ (runWorld old maxY (beforeLastPoll evs)).room.activeNames ↔
            name ∈ (runWorld old maxY evs).room.activeNames) := by
  have hShown : (runWorld old maxY (evs ++ [.poll])).thread.winUsers =
      if (runWorld old maxY evs).room.clientCount =
          (runWorld old maxY (beforeLastPoll evs)).room.clientCount
      then (runWorld old maxY evs).thread.winUsers
      else printClients (runWorld old maxY evs).room maxY := by
    rw [runWorld_concat, ← runWorld_lastClientCount]
    exact poll_winUsers _ _
  rw [hShown]
  by_cases hCount : (runWorld old maxY evs).room.clientCount =
      (runWorld old maxY (beforeLastPoll evs)).room.clientCount
  · rw [if_pos hCount]
    simp only [h.winUsers_iff, hCount, true_implies]
  · rw [if_neg hCount, printClients_names _ hHeight]
    exact iff_of_true (fun name => Iff.rfl) fun hSame => absurd hSame hCount

/-- **Exactly the runs whose users are displayed**: induction over the
events. -/
theorem usersUpToDate_iff (old : ChatRoom) {maxY : Nat} (hHeight : 12 ≤ maxY)
    (evs : List Event) :
    UsersUpToDate old maxY evs ↔ CountTellsUsers old maxY evs := by
  induction evs using List.reverseRecOn with
  | nil =>
      constructor
      · exact fun _ pre hPre => absurd hPre (not_concat_prefix_nil pre .poll)
      · exact fun _ pre hPre => absurd hPre (not_concat_prefix_nil pre .poll)
  | append_singleton evs e ih =>
      rw [UsersUpToDate, CountTellsUsers, forall_polls_concat,
        forall_polls_concat]
      constructor
      · rintro ⟨hEarlier, hPoll⟩
        refine ⟨ih.mp hEarlier, fun hLast => ?_⟩
        exact (UsersUpToDate.poll_iff hHeight hEarlier).mp (hPoll hLast)
      · rintro ⟨hEarlier, hPoll⟩
        have hUpToDate := ih.mpr hEarlier
        refine ⟨hUpToDate, fun hLast => ?_⟩
        exact (hUpToDate.poll_iff hHeight).mpr (hPoll hLast)

end Users

/-- One user leaves and another joins between two polls. -/
def replacedRun : List Event :=
  [.op (.clientJoin [97]), .poll, .op (.clientLeave 0),
    .op (.clientJoin [98]), .poll]

/-- After the second poll of `replacedRun` the first user is still shown. -/
theorem receive_thread_misses_user :
    ¬∀ (old : ChatRoom) (maxY : Nat), 12 ≤ maxY → ∀ evs : List Event,
      UsersUpToDate old maxY evs := by
  intro h
  have hStale := h zeroSegment 12 (Nat.le_refl 12) replacedRun
    [.op (.clientJoin [97]), .poll, .op (.clientLeave 0),
      .op (.clientJoin [98])] (List.prefix_refl _) [98]
  exact absurd hStale (by decide +kernel)

/-- The same run in a window of 24 rows: neither side holds. -/
theorem replacedRun_untold :
    UsersUpToDate zeroSegment 24 replacedRun ↔
      CountTellsUsers zeroSegment 24 replacedRun :=
  usersUpToDate_iff zeroSegment (by decide) replacedRun

end UnixHomework.Ports.ShmChat
