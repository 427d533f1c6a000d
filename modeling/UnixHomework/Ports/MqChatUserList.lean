import UnixHomework.Ports.MqChat
import UnixHomework.Verified.Tokens
import UnixHomework.Verified.Traces
import Mathlib.Algebra.GroupWithZero.Nat
import Mathlib.Data.List.Induction

/-!
# The list of users in a message

`broadcast_new_clients` appends the names to `msg.text`, each with a newline.
The bound of the first `strncat` leaves two bytes of the field, so the newline
always fits.  But when the text has 255 bytes that bound is `256 - 255 - 2` in
`size_t`, and the next name is appended whole: the text leaves its field
exactly when a name comes that late (`staysInField_iff`).

A text that has all names is taken apart again by the `strtok` loop of
`receive_thread` (`userList_round_trip`).
-/

namespace UnixHomework.Ports.MqChat

open UnixHomework.Verified

/-! ## The encoder -/

/-- The text after the first `strncat` of an iteration, which appends as much
of the name as its bound says. -/
def appendName (text : List UInt8) (e : ClientInfo) : List UInt8 :=
  text ++ e.name.str.take (textBound text 2)

/-- The text is inside its field, with its NUL, after every `strncat`. -/
def StaysInField (clients : List ClientInfo) : Prop :=
  ∀ pre e, pre ++ [e] <+: clients →
    (appendName (clientListText pre) e).length ≤ 255 ∧
      (clientListText (pre ++ [e])).length ≤ 255

/-- The length of the text with all names in it, each with its newline, if the
field were long enough. -/
def listLength (clients : List ClientInfo) : Nat :=
  (clients.map fun e => e.name.str.length + 1).sum

/-- No name follows names that fill the field.  This is arithmetic on the
lengths of the names. -/
def NamesFit (clients : List ClientInfo) : Prop :=
  ∀ pre e, pre ++ [e] <+: clients → e.name.str ≠ [] → listLength pre ≤ 254

section Append

variable {text : List UInt8}

theorem appendClient_eq (text : List UInt8) (e : ClientInfo) :
    appendClient text e = appendName text e ++
      (ascii ['\n']).take (textBound (appendName text e) 1) := rfl

theorem clientListText_concat (clients : List ClientInfo) (e : ClientInfo) :
    clientListText (clients ++ [e]) =
      appendClient (clientListText clients) e := by
  rw [clientListText, clientListText, List.foldl_append, List.foldl_cons,
    List.foldl_nil]

theorem listLength_concat (clients : List ClientInfo) (e : ClientInfo) :
    listLength (clients ++ [e]) =
      listLength clients + (e.name.str.length + 1) := by
  rw [listLength, listLength, List.map_append, List.sum_append,
    List.map_singleton, List.sum_singleton]

theorem textBound_eq {k : Nat} (h : text.length + k ≤ 256) :
    textBound text k = 256 - text.length - k := by
  rw [textBound, maxMessageSize]
  omega

/-- The bound that wraps: `256 - 255 - 2` in `size_t` is as good as no
bound. -/
theorem textBound_of_full (h : text.length = 255) :
    textBound text 2 = 2 ^ 64 - 1 := by
  rw [textBound, maxMessageSize, h]
  omega

theorem length_str_name (e : ClientInfo) : e.name.str.length ≤ 32 := by
  have hPrefix := e.name.str_prefix.length_le
  rw [e.name.size_eq] at hPrefix
  exact hPrefix

/-- A name is cut so that its newline fits: the text has 254 bytes then, and
there are two more for the newline and the NUL. -/
theorem length_appendName (h : text.length ≤ 254) (e : ClientInfo) :
    (appendName text e).length = min 254 (text.length + e.name.str.length) := by
  rw [appendName, textBound_eq (by omega), List.length_append,
    List.length_take]
  omega

/-- A text of 255 bytes gets the whole name, since nothing bounds it. -/
theorem appendName_of_full (h : text.length = 255) (e : ClientInfo) :
    appendName text e = text ++ e.name.str := by
  have hName := length_str_name e
  rw [appendName, textBound_of_full h, List.take_of_length_le (by omega)]

theorem length_appendClient (h : text.length ≤ 254) (e : ClientInfo) :
    (appendClient text e).length =
      min 255 (text.length + (e.name.str.length + 1)) := by
  have hName := length_appendName h e
  rw [appendClient_eq, textBound_eq (by omega), List.length_append,
    List.length_take, hName]
  show _ + min _ 1 = _
  omega

/-- **One name** behind a text that is inside its field.  Only a text of 255
bytes leads outside, and only with a name that is not empty. -/
theorem append_inside_iff (h : text.length ≤ 255) (e : ClientInfo) :
    (appendName text e).length ≤ 255 ∧ (appendClient text e).length ≤ 255 ↔
      (e.name.str ≠ [] → text.length ≤ 254) := by
  by_cases hRoom : text.length ≤ 254
  · have hName := length_appendName hRoom e
    have hClient := length_appendClient hRoom e
    exact iff_of_true (by omega) fun _ => hRoom
  · have hFull : text.length = 255 := by omega
    by_cases hEmpty : e.name.str = []
    · have hSame : appendName text e = text := by
        rw [appendName_of_full hFull, hEmpty, List.append_nil]
      have hClient : appendClient text e = text := by
        rw [appendClient_eq, hSame, textBound_eq (by omega), hFull,
          List.take_zero, List.append_nil]
      rw [hSame, hClient]
      exact iff_of_true ⟨h, h⟩ fun hName => absurd hEmpty hName
    · have hLong : ¬(appendName text e).length ≤ 255 := by
        have hPos := List.length_pos_iff.mpr hEmpty
        rw [appendName_of_full hFull, List.length_append]
        omega
      exact iff_of_false (fun hBoth => hLong hBoth.1)
        fun hFits => hRoom (hFits hEmpty)

theorem length_appendClient_inside (h : text.length ≤ 255) {e : ClientInfo}
    (hInside : (appendClient text e).length ≤ 255) :
    (appendClient text e).length =
      min 255 (text.length + (e.name.str.length + 1)) := by
  by_cases hRoom : text.length ≤ 254
  · exact length_appendClient hRoom e
  · have hMore : text.length ≤ (appendClient text e).length := by
      rw [appendClient_eq, appendName, List.length_append, List.length_append]
      omega
    omega

end Append

/-- **The length of a text in its field**: induction over the table.  As long
as nothing goes wrong the text is cut at 255 bytes. -/
theorem StaysInField.length_eq {clients : List ClientInfo}
    (h : StaysInField clients) :
    (clientListText clients).length = min 255 (listLength clients) := by
  induction clients using List.reverseRecOn with
  | nil => rfl
  | append_singleton clients e ih =>
      have hBoth := (forall_steps_concat clients e).mp h
      have hLength := ih hBoth.1
      have hInside := hBoth.2.2
      rw [clientListText_concat] at hInside ⊢
      rw [length_appendClient_inside (by omega) hInside, listLength_concat]
      omega

/-- **Exactly the tables whose names fit the field.** -/
theorem staysInField_iff (clients : List ClientInfo) :
    StaysInField clients ↔ NamesFit clients := by
  induction clients using List.reverseRecOn with
  | nil =>
      constructor
      · exact fun _ pre e hPre => absurd hPre (not_concat_prefix_nil pre e)
      · exact fun _ pre e hPre => absurd hPre (not_concat_prefix_nil pre e)
  | append_singleton clients e ih =>
      rw [StaysInField, NamesFit, forall_steps_concat, forall_steps_concat]
      have hStep : StaysInField clients →
          (((appendName (clientListText clients) e).length ≤ 255 ∧
            (clientListText (clients ++ [e])).length ≤ 255) ↔
              (e.name.str ≠ [] → listLength clients ≤ 254)) := by
        intro hEarlier
        have hLength := hEarlier.length_eq
        have hFill : (clientListText clients).length ≤ 254 ↔
            listLength clients ≤ 254 := by
          omega
        rw [clientListText_concat, append_inside_iff (by omega), hFill]
      constructor
      · intro h
        exact ⟨ih.mp h.1, (hStep h.1).mp h.2⟩
      · intro h
        have hEarlier := ih.mpr h.1
        exact ⟨hEarlier, (hStep hEarlier).mpr h.2⟩

/-- Nine names of 31 bytes: eight of them fill the field. -/
theorem nine_long_names_overflow :
    ¬∀ clients : List ClientInfo, 1 ≤ clients.length →
      clients.length ≤ maxClients →
        (∀ e ∈ clients, e.name.str.length ≤ 31) → StaysInField clients := by
  intro h
  have hNine := h (List.replicate 9
    (clientEntry (List.replicate 31 97) [] 0 0)) (by decide) (by decide)
    (by decide +kernel)
  have hLast := hNine (List.replicate 8
    (clientEntry (List.replicate 31 97) [] 0 0))
    (clientEntry (List.replicate 31 97) [] 0 0) (List.prefix_refl _)
  exact absurd hLast.1 (by decide +kernel)

/-! ## The decoder -/

theorem room_for_text : maxMessageSize - 1 ≤ maxMessageSize :=
  Nat.sub_le _ _

/-- The branch of `receive_thread` for a list of users: the rows that it
writes, the last of them above the border of a window of `maxY` rows. -/
def userLines (tempMsg : CharArray maxMessageSize) (maxY : Nat)
    (msg : ChatMessage) : List (Nat × List UInt8) :=
  let tempMsg := (tempMsg.strncpy msg.text.bytes (maxMessageSize - 1)
    room_for_text).set (maxMessageSize - 1) 0
  (tokens 10 (maxY - 2) tempMsg.str).mapIdx fun i line => (i + 1, line)

/-- The names, each with its newline, as the receiver should see them. -/
def nameLines (clients : List ClientInfo) : List UInt8 :=
  ((clients.map fun e => e.name.str).map (· ++ [10])).flatten

theorem length_nameLines (clients : List ClientInfo) :
    (nameLines clients).length = listLength clients := by
  rw [nameLines, List.length_flatten, List.map_map, List.map_map, listLength]
  congr 1
  apply List.map_congr_left
  intro e _
  exact List.length_append

theorem zero_notMem_nameLines (clients : List ClientInfo) :
    (0 : UInt8) ∉ nameLines clients := by
  intro hMem
  obtain ⟨line, hLine, hZero⟩ := List.mem_flatten.mp hMem
  obtain ⟨name, hName, rfl⟩ := List.mem_map.mp hLine
  obtain ⟨e, -, rfl⟩ := List.mem_map.mp hName
  rcases List.mem_append.mp hZero with hIn | hNewline
  · exact zero_notMem_cstr _ hIn
  · exact absurd hNewline (by decide)

/-- **The text of names that fit**: all of them, and nothing cut. -/
theorem clientListText_eq {clients : List ClientInfo}
    (h : listLength clients ≤ 255) :
    clientListText clients = nameLines clients := by
  induction clients using List.reverseRecOn with
  | nil => rfl
  | append_singleton clients e ih =>
      rw [listLength_concat] at h
      have hText := ih (by omega)
      have hLength : (clientListText clients).length = listLength clients := by
        rw [hText, length_nameLines]
      have hName : appendName (clientListText clients) e =
          clientListText clients ++ e.name.str := by
        rw [appendName, textBound_eq (by omega),
          List.take_of_length_le (by omega)]
      have hLine : appendClient (clientListText clients) e =
          clientListText clients ++ (e.name.str ++ [10]) := by
        rw [appendClient_eq, hName, List.take_of_length_le, List.append_assoc]
        · rfl
        · rw [textBound_eq (by rw [List.length_append]; omega),
            List.length_append]
          show 1 ≤ _
          omega
      have hLast : nameLines [e] = e.name.str ++ [10] := List.append_nil _
      rw [clientListText_concat, hLine, hText, ← hLast, nameLines, nameLines,
        nameLines, List.map_append, List.map_append, List.flatten_append]

/-- **The list is read back**: the names in the order of the table, one on each
row.  The names are not empty and have no newline, all of them fit the field,
and the window has a row for each. -/
theorem userList_round_trip (tempMsg : CharArray maxMessageSize)
    {clients : List ClientInfo} {maxY : Nat}
    (hNames : ∀ e ∈ clients, e.name.str ≠ [] ∧ (10 : UInt8) ∉ e.name.str)
    (hLength : listLength clients ≤ 255)
    (hHeight : clients.length + 2 ≤ maxY) :
    userLines tempMsg maxY (newClientsMessage clients) =
      (clients.map fun e => e.name.str).mapIdx fun i name => (i + 1, name) := by
  have hText := clientListText_eq hLength
  have hSize : (clientListText clients).length ≤ 255 := by
    rw [hText, length_nameLines]
    exact hLength
  have hWritten : (clientListText clients).take maxMessageSize =
      clientListText clients :=
    List.take_of_length_le (Nat.le_succ_of_le hSize)
  have hNoNul : (0 : UInt8) ∉ (clientListText clients).take maxMessageSize := by
    rw [hWritten, hText]
    exact zero_notMem_nameLines clients
  have hFits : 0 + ((clientListText clients).take maxMessageSize).length ≤
      maxMessageSize := by
    rw [Nat.zero_add]
    exact List.length_take_le _ _
  have hSent : cstr (newClientsMessage clients).text.bytes =
      clientListText clients :=
    (CharArray.str_splice_zeros hFits hNoNul).trans hWritten
  have hCopied : ((tempMsg.strncpy (newClientsMessage clients).text.bytes 255
      (by decide)).set 255 0).str = clientListText clients := by
    rw [CharArray.str_strncpy_set _ _ (by decide), hSent,
      List.take_of_length_le hSize]
  have hWords : words 10 (clientListText clients) =
      clients.map fun e => e.name.str := by
    rw [hText, nameLines]
    apply words_flatten
    intro name hName
    obtain ⟨e, he, rfl⟩ := List.mem_map.mp hName
    exact hNames e he
  show (tokens 10 (maxY - 2) ((tempMsg.strncpy _ 255 _).set 255 0).str).mapIdx _
    = _
  rw [hCopied, tokens_eq, hWords, List.take_of_length_le]
  rw [List.length_map]
  omega

/-- Seven names of 31 bytes and one of 30: a text of 255 bytes. -/
theorem full_list_read_back :
    (∀ e ∈ (List.replicate 7 (clientEntry (List.replicate 31 97) [] 0 0) ++
        [clientEntry (List.replicate 30 98) [] 0 0]),
      e.name.str ≠ [] ∧ (10 : UInt8) ∉ e.name.str) ∧
    userLines (.zeros 256) 10 (newClientsMessage
        (List.replicate 7 (clientEntry (List.replicate 31 97) [] 0 0) ++
          [clientEntry (List.replicate 30 98) [] 0 0])) =
      ((List.replicate 7 (clientEntry (List.replicate 31 97) [] 0 0) ++
        [clientEntry (List.replicate 30 98) [] 0 0]).map
          fun e => e.name.str).mapIdx fun i name => (i + 1, name) := by
  have hNames : ∀ e ∈
      (List.replicate 7 (clientEntry (List.replicate 31 97) [] 0 0) ++
        [clientEntry (List.replicate 30 98) [] 0 0]),
      e.name.str ≠ [] ∧ (10 : UInt8) ∉ e.name.str := by
    decide +kernel
  exact ⟨hNames, userList_round_trip (.zeros 256) hNames (by decide +kernel)
    (by decide)⟩

end UnixHomework.Ports.MqChat
