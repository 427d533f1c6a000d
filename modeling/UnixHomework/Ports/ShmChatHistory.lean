import UnixHomework.Ports.ShmChat

/-!
# The chat history is a bounded log

The ring of `chat_room_t` shows the last `maxMessages` messages posted.  The
invariant `HistoryOf` relates a room to the list of all messages posted so
far; both implementations of posting advance that list by one, every other
operation leaves it alone.

There are two implementations, `add_message` of the server and the code that
the client repeats in its main loop, and they are shown to be the same function
of the room.  A post into a ring with room adds a message at its end; one into
a full ring writes over the oldest and moves the start.  Both are the same step
of the log, of which the ring keeps the last `maxMessages` entries.
-/

namespace UnixHomework.Ports.ShmChat

open UnixHomework.Verified
open UnixHomework.Verified.Ring

/-- A posted message as the room can keep it: the name cut to 31 bytes, the
text to 255. -/
def cutLine (name text : List UInt8) : Line :=
  ((cstr name).take (maxNameLen - 1), (cstr text).take (maxMsgLen - 1))

/-- The message an operation posts, if it posts one. -/
def RoomOp.posted : RoomOp → Option Line
  | .addMessage name text => some (cutLine name text)
  | .clientPost clientName input => some (cutLine clientName input)
  | .addClient _ | .removeClient _ | .clientJoin _ | .clientLeave _ => none

/-- Both strings of a message end inside their arrays. -/
structure ChatMessage.Terminated (m : ChatMessage) : Prop where
  name : m.name.Terminated
  text : m.text.Terminated

/-- The room shows the end of the log `posts`. -/
structure HistoryOf (room : ChatRoom) (posts : List Line) : Prop where
  /-- The oldest message has a place in the ring. -/
  startLt : room.msgStart < maxMessages
  /-- The ring has all that was posted, as far as it goes, -/
  countEq : room.msgCount = min posts.length maxMessages
  /-- namely the latest, -/
  lines : room.history.map ChatMessage.line = posts.rtake maxMessages
  /-- and every message ends with a NUL. -/
  terminated : ∀ m ∈ room.history, m.Terminated

theorem initRoom_historyOf (old : ChatRoom) : HistoryOf (initRoom old) [] where
  startLt := Nat.zero_lt_succ _
  countEq := rfl
  lines := by simp [ChatRoom.history, initRoom]
  terminated := by simp [ChatRoom.history, initRoom]

/-! ## One post -/

/-- The message that a post stores over `old`. -/
def storedMessage (old : ChatMessage) (name text : List UInt8) : ChatMessage :=
  { name := copyName old.name name, text := copyText old.text text }

theorem storedMessage_line (old : ChatMessage) (name text : List UInt8) :
    (storedMessage old name text).line = cutLine name text := by
  simp only [storedMessage, ChatMessage.line, cutLine, copyName, copyText]
  rw [CharArray.str_strncpy_set old.name name (by decide),
    CharArray.str_strncpy_set old.text text (by decide)]

theorem storedMessage_terminated (old : ChatMessage)
    (name text : List UInt8) : (storedMessage old name text).Terminated where
  name := CharArray.terminated_set_zero _ (by decide)
  text := CharArray.terminated_set_zero _ (by decide)

/-- A post into a ring that has room appends. -/
theorem addMessage_history_of_lt {room : ChatRoom} (name text : List UInt8)
    (h : room.msgCount < maxMessages) :
    ∃ m : ChatMessage, m.line = cutLine name text ∧ m.Terminated ∧
      (addMessage room name text).msgStart = room.msgStart ∧
      (addMessage room name text).msgCount = room.msgCount + 1 ∧
      (addMessage room name text).history = room.history ++ [m] := by
  let old := room.messages ((room.msgStart + room.msgCount) % maxMessages)
  refine ⟨storedMessage old name text, storedMessage_line old name text,
    storedMessage_terminated old name text, ?_, ?_, ?_⟩
  · simp [addMessage, ChatRoom.storeMessage, h]
  · simp [addMessage, ChatRoom.storeMessage, h]
  · simp only [addMessage, ChatRoom.storeMessage, ChatRoom.history, h, if_true]
    exact contents_push room.messages h _

/-- A post into a full ring drops the oldest message. -/
theorem addMessage_history_of_full {room : ChatRoom} (name text : List UInt8)
    (hstart : room.msgStart < maxMessages)
    (h : room.msgCount = maxMessages) :
    ∃ m : ChatMessage, m.line = cutLine name text ∧ m.Terminated ∧
      (addMessage room name text).msgStart < maxMessages ∧
      (addMessage room name text).msgCount = maxMessages ∧
      (addMessage room name text).history = room.history.tail ++ [m] := by
  have hnot : ¬ room.msgCount < maxMessages := by omega
  let old := room.messages ((room.msgStart + maxMessages) % maxMessages)
  refine ⟨storedMessage old name text, storedMessage_line old name text,
    storedMessage_terminated old name text, ?_, ?_, ?_⟩
  · simp only [addMessage, ChatRoom.storeMessage, hnot, if_false]
    exact Nat.mod_lt _ (by decide)
  · simp [addMessage, ChatRoom.storeMessage, h]
  · simp only [addMessage, ChatRoom.storeMessage, ChatRoom.history, h,
      Nat.lt_irrefl, if_false]
    exact contents_rotate room.messages hstart _

/-- **One post is one append to the log.** -/
theorem HistoryOf.addMessage {room : ChatRoom} {posts : List Line}
    (hI : HistoryOf room posts) (name text : List UInt8) :
    HistoryOf (addMessage room name text) (posts ++ [cutLine name text]) := by
  have hcount := hI.countEq
  by_cases hlt : room.msgCount < maxMessages
  · obtain ⟨m, hline, hterm, hstart', hcount', hhist⟩ :=
      addMessage_history_of_lt name text hlt
    have hlen : posts.length < maxMessages := by omega
    exact
      { startLt := hstart' ▸ hI.startLt
        countEq := by
          rw [hcount', hcount, List.length_append, List.length_singleton]
          omega
        lines := by
          rw [hhist, List.map_append, hI.lines, List.map_singleton, hline,
            rtake_concat_of_lt hlen]
        terminated := by
          intro x hx
          rw [hhist, List.mem_append, List.mem_singleton] at hx
          rcases hx with hx | rfl
          · exact hI.terminated x hx
          · exact hterm }
  · have hfull : room.msgCount = maxMessages := by omega
    obtain ⟨m, hline, hterm, hstart', hcount', hhist⟩ :=
      addMessage_history_of_full name text hI.startLt hfull
    have hlen : maxMessages ≤ posts.length := by omega
    exact
      { startLt := hstart'
        countEq := by
          rw [hcount', List.length_append, List.length_singleton]
          omega
        lines := by
          rw [hhist, List.map_append, List.map_tail, hI.lines,
            List.map_singleton, hline, rtake_concat_of_le (by decide) hlen]
        terminated := by
          intro x hx
          rw [hhist, List.mem_append, List.mem_singleton] at hx
          rcases hx with hx | rfl
          · exact hI.terminated x (List.mem_of_mem_tail hx)
          · exact hterm }

/-- The client's inline post is the server's `add_message`. -/
theorem clientPost_eq_addMessage (room : ChatRoom)
    (clientName input : List UInt8) :
    clientPost room clientName input = addMessage room clientName input := rfl

/-! ## The other operations -/

/-- The part of a room that holds its messages. -/
structure SameMessages (room room' : ChatRoom) : Prop where
  messages : room'.messages = room.messages
  msgStart : room'.msgStart = room.msgStart
  msgCount : room'.msgCount = room.msgCount

theorem SameMessages.refl (room : ChatRoom) : SameMessages room room :=
  ⟨rfl, rfl, rfl⟩

theorem SameMessages.history {room room' : ChatRoom}
    (h : SameMessages room room') : room'.history = room.history := by
  rw [ChatRoom.history, ChatRoom.history, h.messages, h.msgStart, h.msgCount]

theorem addClient_sameMessages (room : ChatRoom) (name : List UInt8) :
    SameMessages room (addClient room name).1 := by
  unfold addClient
  split
  · exact .refl room
  · split
    · exact ⟨rfl, rfl, rfl⟩
    · exact .refl room

theorem clientJoin_sameMessages (room : ChatRoom) (name : List UInt8) :
    SameMessages room (clientJoin room name).1 := by
  unfold clientJoin
  split
  · exact ⟨rfl, rfl, rfl⟩
  · exact .refl room

theorem removeClient_sameMessages (room : ChatRoom) (clientIndex : Int) :
    SameMessages room (removeClient room clientIndex) := by
  unfold removeClient
  split
  · exact ⟨rfl, rfl, rfl⟩
  · exact .refl room

/-- An operation that posts nothing leaves the messages alone. -/
theorem apply_sameMessages (room : ChatRoom) {op : RoomOp}
    (h : op.posted = none) : SameMessages room (room.apply op) := by
  cases op with
  | addClient name => exact addClient_sameMessages room name
  | removeClient clientIndex => exact removeClient_sameMessages room clientIndex
  | addMessage name text => simp [RoomOp.posted] at h
  | clientJoin name => exact clientJoin_sameMessages room name
  | clientPost name text => simp [RoomOp.posted] at h
  | clientLeave clientIdx => exact ⟨rfl, rfl, rfl⟩

theorem HistoryOf.of_sameMessages {room room' : ChatRoom} {posts : List Line}
    (hI : HistoryOf room posts) (h : SameMessages room room') :
    HistoryOf room' posts where
  startLt := h.msgStart ▸ hI.startLt
  countEq := h.msgCount ▸ hI.countEq
  lines := by rw [h.history, hI.lines]
  terminated := by rw [h.history]; exact hI.terminated

/-- Every operation advances the log by what it posts. -/
theorem HistoryOf.apply {room : ChatRoom} {posts : List Line}
    (hI : HistoryOf room posts) (op : RoomOp) :
    HistoryOf (room.apply op) (posts ++ op.posted.toList) := by
  cases hp : op.posted with
  | none =>
      rw [Option.toList_none, List.append_nil]
      exact hI.of_sameMessages (apply_sameMessages room hp)
  | some line =>
      cases op with
      | addMessage name text =>
          cases hp
          exact hI.addMessage name text
      | clientPost name text =>
          cases hp
          show HistoryOf (clientPost room name text) _
          rw [clientPost_eq_addMessage]
          exact hI.addMessage name text
      | addClient name => simp [RoomOp.posted] at hp
      | removeClient clientIndex => simp [RoomOp.posted] at hp
      | clientJoin name => simp [RoomOp.posted] at hp
      | clientLeave clientIdx => simp [RoomOp.posted] at hp

/-- Running operations from any room that shows a log. -/
theorem HistoryOf.foldl {room : ChatRoom} {posts : List Line}
    (hI : HistoryOf room posts) (ops : List RoomOp) :
    HistoryOf (ops.foldl ChatRoom.apply room)
      (posts ++ ops.filterMap RoomOp.posted) := by
  induction ops generalizing room posts with
  | nil => simpa using hI
  | cons op ops ih =>
      have hstep := ih (hI.apply op)
      rw [List.append_assoc] at hstep
      cases hp : op.posted with
      | none => simpa [List.filterMap_cons, hp] using hstep
      | some line => simpa [List.filterMap_cons, hp] using hstep

theorem runRoom_historyOf (old : ChatRoom) (ops : List RoomOp) :
    HistoryOf (runRoom old ops) (ops.filterMap RoomOp.posted) := by
  simpa [runRoom] using (initRoom_historyOf old).foldl ops

/-- **The history refines a bounded log.**  After any operations, whichever
program posted, the ring indices are in range, the count is the number of
posts up to the capacity, and the messages read from `msg_start` on are
exactly the last ones posted, cut to their arrays and terminated. -/
theorem chat_history_refines (old : ChatRoom) (ops : List RoomOp) :
    (runRoom old ops).msgStart < maxMessages ∧
      (runRoom old ops).msgCount =
        min (ops.filterMap RoomOp.posted).length maxMessages ∧
      (runRoom old ops).history.map ChatMessage.line =
        (ops.filterMap RoomOp.posted).rtake maxMessages ∧
      ∀ m ∈ (runRoom old ops).history,
        m.name.Terminated ∧ m.text.Terminated := by
  have hI := runRoom_historyOf old ops
  exact ⟨hI.startLt, hI.countEq, hI.lines,
    fun m hm => ⟨(hI.terminated m hm).name, (hI.terminated m hm).text⟩⟩

end UnixHomework.Ports.ShmChat
