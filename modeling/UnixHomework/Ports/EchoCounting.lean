import UnixHomework.Ports.EchoServer
import Mathlib.Data.List.Dedup
import Mathlib.Data.List.Induction
import Mathlib.Data.List.Perm.Subperm

/-!
# Counting at the echo server

The counter in a reply should be the number of the sender's messages since it
last said `CLOSE`.  `Counted` ties the table to the whole history of
datagrams: every sender has exactly one entry, whose counter is that number.
It survives lookups, insertions, counting and `CLOSE`, as long as there are
entries left for new senders.

When all hundred are taken, `add_client` returns without a word and the loop
goes on with the last entry, so a further sender is counted together with the
hundredth.
-/

namespace UnixHomework.Ports.Echo

open UnixHomework.Verified

/-! ## Histories -/

/-- What the program tells clients apart by: address and port. -/
abbrev ClientKey := CharArray 4 × Nat

def Client.key (c : Client) : ClientKey := (c.ip, c.port)

def Datagram.client (d : Datagram) : ClientKey := (d.ip, d.port)

/-- The number of `k`'s datagrams since its last `CLOSE`.  It speaks of the
history alone, and of no table. -/
def sinceClose (k : ClientKey) (ds : List Datagram) : Nat :=
  ((ds.filter fun d => d.client = k).reverse.takeWhile
    fun d => d.data ≠ closeText).length

/-- The number of different senders. -/
def distinctClients (ds : List Datagram) : Nat :=
  (ds.map Datagram.client).dedup.length

def ClientTable.empty : ClientTable where
  entries := []
  bounded := Nat.zero_le _

/-- The table after a history, beginning with an empty one. -/
def tableAfter (ds : List Datagram) : ClientTable :=
  ds.foldl (fun t d => (countDatagram t d).1) .empty

theorem tableAfter_concat (ds : List Datagram) (d : Datagram) :
    tableAfter (ds ++ [d]) = (countDatagram (tableAfter ds) d).1 := by
  simp [tableAfter, List.foldl_append]

theorem sinceClose_concat_of_ne {k : ClientKey} {d : Datagram}
    (h : d.client ≠ k) (ds : List Datagram) :
    sinceClose k (ds ++ [d]) = sinceClose k ds := by
  simp [sinceClose, List.filter_append, h]

theorem sinceClose_concat_close {d : Datagram} (h : d.data = closeText)
    (ds : List Datagram) : sinceClose d.client (ds ++ [d]) = 0 := by
  simp [sinceClose, List.filter_append, h]

theorem sinceClose_concat_message {d : Datagram} (h : d.data ≠ closeText)
    (ds : List Datagram) :
    sinceClose d.client (ds ++ [d]) = sinceClose d.client ds + 1 := by
  simp [sinceClose, List.filter_append, h]

theorem sinceClose_of_unknown {k : ClientKey} {ds : List Datagram}
    (h : ∀ d ∈ ds, d.client ≠ k) : sinceClose k ds = 0 := by
  have hNil : ds.filter (fun d => d.client = k) = [] := by
    rw [List.filter_eq_nil_iff]
    intro d hd
    simpa using h d hd
  rw [sinceClose, hNil]
  rfl

/-! ## The invariant -/

def ClientTable.keys (t : ClientTable) : List ClientKey :=
  t.entries.map Client.key

/-- The table after the history `ds`. -/
structure Counted (t : ClientTable) (ds : List Datagram) : Prop where
  /-- No sender has two entries. -/
  nodup : t.keys.Nodup
  /-- The senders with an entry are those that have sent something. -/
  known : ∀ k, k ∈ t.keys ↔ k ∈ ds.map Datagram.client
  /-- An entry's counter is the number of its sender's messages. -/
  counter : ∀ e ∈ t.entries, e.counter = (sinceClose e.key ds : Int)

/-- `lookup_client` has found or made the entry of the sender, and disturbed
no other. -/
structure LookedUp (t : ClientTable) (i : Nat) (d : Datagram)
    (ds : List Datagram) : Prop where
  nodup : t.keys.Nodup
  known : ∀ k, k ∈ t.keys ↔ k ∈ (ds ++ [d]).map Datagram.client
  counter : ∀ e ∈ t.entries, e.counter = (sinceClose e.key ds : Int)
  found : ∃ e, t.entries[i]? = some e ∧ e.key = d.client

theorem findClient_eq_some {t : ClientTable} {ip : CharArray 4} {port i : Nat}
    (h : findClient t ip port = some i) :
    ∃ e, t.entries[i]? = some e ∧ e.key = (ip, port) := by
  rcases List.findIdx?_eq_some_iff_getElem.mp h with ⟨hi, hKey, -⟩
  refine ⟨t.entries[i], List.getElem?_eq_getElem hi, ?_⟩
  simpa [Client.key] using hKey

theorem findClient_eq_none {t : ClientTable} {ip : CharArray 4} {port : Nat}
    (h : findClient t ip port = none) : (ip, port) ∉ t.keys := by
  intro hMem
  rcases List.mem_map.mp hMem with ⟨e, he, hKey⟩
  have hNot := List.findIdx?_eq_none_iff.mp h e he
  simp only [Client.key, Prod.mk.injEq] at hKey
  simp [hKey.1, hKey.2] at hNot

/-- With at most a hundred senders there is an entry left for a new one. -/
theorem Counted.room {t : ClientTable} {ds : List Datagram} {d : Datagram}
    (h : Counted t ds) (hNew : d.client ∉ t.keys)
    (hFew : distinctClients (ds ++ [d]) ≤ maxClients) :
    t.entries.length < maxClients := by
  have hNodup : (d.client :: t.keys).Nodup :=
    List.nodup_cons.mpr ⟨hNew, h.nodup⟩
  have hSubset : d.client :: t.keys ⊆
      ((ds ++ [d]).map Datagram.client).dedup := by
    intro k hk
    rw [List.mem_dedup, List.map_append]
    rcases List.mem_cons.mp hk with rfl | hk
    · exact List.mem_append_right _ (List.mem_singleton.mpr rfl)
    · exact List.mem_append_left _ ((h.known k).mp hk)
  have hLength := (List.subperm_of_subset hNodup hSubset).length_le
  rw [List.length_cons, ClientTable.keys, List.length_map] at hLength
  exact Nat.lt_of_lt_of_le hLength hFew

theorem Counted.lookup {t : ClientTable} {ds : List Datagram} {d : Datagram}
    (h : Counted t ds)
    (hFew : distinctClients (ds ++ [d]) ≤ maxClients) :
    LookedUp (lookupClient t d.ip d.port).1 (lookupClient t d.ip d.port).2
      d ds := by
  unfold lookupClient
  cases hFind : findClient t d.ip d.port with
  | some i =>
      rcases findClient_eq_some hFind with ⟨e, he, hKey⟩
      have hMem : d.client ∈ t.keys :=
        List.mem_map.mpr ⟨e, List.mem_of_getElem? he, hKey⟩
      exact
        { nodup := h.nodup
          known := by
            intro k
            rw [List.map_append, List.mem_append, ← h.known]
            constructor
            · exact Or.inl
            · rintro (hk | hk)
              · exact hk
              · rw [List.mem_singleton.mp hk]
                exact hMem
          counter := h.counter
          found := ⟨e, he, hKey⟩ }
  | none =>
      have hNew : d.client ∉ t.keys := findClient_eq_none hFind
      have hRoom := h.room hNew hFew
      have hEntries : (addClient t d.ip d.port).entries =
          t.entries ++ [⟨d.ip, d.port, 0⟩] := by
        rw [addClient, dif_pos hRoom]
      have hKeys : (addClient t d.ip d.port).keys = t.keys ++ [d.client] := by
        rw [ClientTable.keys, hEntries, List.map_append]
        rfl
      exact
        { nodup := by
            rw [hKeys, ← List.concat_eq_append]
            exact h.nodup.concat hNew
          known := by
            intro k
            rw [hKeys, List.map_append, List.mem_append, List.mem_append,
              h.known]
            rfl
          counter := by
            intro e he
            rw [hEntries] at he
            rcases List.mem_append.mp he with he | he
            · exact h.counter e he
            · have hUnknown : ∀ d' ∈ ds, d'.client ≠ d.client := by
                intro d' hd' hEq
                refine hNew ((h.known _).mpr ?_)
                exact List.mem_map.mpr ⟨d', hd', hEq⟩
              have hZero := sinceClose_of_unknown hUnknown
              rw [List.mem_singleton.mp he]
              exact congrArg Int.ofNat hZero.symm
          found := by
            refine ⟨⟨d.ip, d.port, 0⟩, ?_, rfl⟩
            simp [hEntries] }

theorem LookedUp.counter_eq {t : ClientTable} {i : Nat} {d : Datagram}
    {ds : List Datagram} (h : LookedUp t i d ds) :
    t.counter i = (sinceClose d.client ds : Int) := by
  rcases h.found with ⟨e, he, hKey⟩
  have hCounter := h.counter e (List.mem_of_getElem? he)
  rw [hKey] at hCounter
  rw [ClientTable.counter, he]
  exact hCounter

theorem keys_setCounter (t : ClientTable) (i : Nat) (n : Int) :
    (t.setCounter i n).keys = t.keys := by
  apply List.ext_getElem?
  intro j
  simp only [ClientTable.keys, ClientTable.setCounter, List.getElem?_map,
    List.getElem?_modify]
  by_cases hj : i = j
  · cases t.entries[j]? <;> simp [hj, Client.key]
  · cases t.entries[j]? <;> simp [hj]

/-- Writing the sender's new count, which is the old one plus one, or 0 for
`CLOSE`. -/
theorem LookedUp.setCounter {t : ClientTable} {i : Nat} {d : Datagram}
    {ds : List Datagram} (h : LookedUp t i d ds) {n : Int}
    (hn : n = (sinceClose d.client (ds ++ [d]) : Int)) :
    Counted (t.setCounter i n) (ds ++ [d]) where
  nodup := by
    rw [keys_setCounter]
    exact h.nodup
  known := by
    rw [keys_setCounter]
    exact h.known
  counter := by
    rcases h.found with ⟨e, he, hKey⟩
    intro e' he'
    rcases List.getElem?_of_mem he' with ⟨j, hj⟩
    simp only [ClientTable.setCounter, List.getElem?_modify] at hj
    by_cases hij : i = j
    · subst hij
      simp only [he, if_true, Option.map_eq_map, Option.map_some,
        Option.some.injEq] at hj
      rw [← hj, hn]
      exact congrArg (fun k => (sinceClose k (ds ++ [d]) : Int)) hKey.symm
    · have hOld : t.entries[j]? = some e' := by simpa [hij] using hj
      have hNe : d.client ≠ e'.key := by
        rw [← hKey]
        intro hEq
        have hLt : i < t.keys.length := by
          rw [ClientTable.keys, List.length_map]
          exact (List.getElem?_eq_some_iff.mp he).1
        refine hij ((List.getElem?_inj hLt h.nodup).mp ?_)
        simp only [ClientTable.keys, List.getElem?_map, he, hOld,
          Option.map_some, hEq]
      rw [sinceClose_concat_of_ne hNe]
      exact h.counter e' (List.mem_of_getElem? hOld)

/-- One datagram: the sender is looked up, or entered, and counted. -/
theorem Counted.step {t : ClientTable} {ds : List Datagram} {d : Datagram}
    (h : Counted t ds)
    (hFew : distinctClients (ds ++ [d]) ≤ maxClients) :
    Counted (countDatagram t d).1 (ds ++ [d]) := by
  have hLook := h.lookup hFew
  unfold countDatagram
  dsimp only
  by_cases hText : d.data = closeText
  · rw [if_pos hText]
    refine hLook.setCounter ?_
    rw [sinceClose_concat_close hText]
    rfl
  · rw [if_neg hText]
    refine hLook.setCounter ?_
    rw [hLook.counter_eq, sinceClose_concat_message hText]
    rfl

theorem distinctClients_le_concat (ds : List Datagram) (d : Datagram) :
    distinctClients ds ≤ distinctClients (ds ++ [d]) := by
  have hSubset : (ds.map Datagram.client).dedup ⊆
      ((ds ++ [d]).map Datagram.client).dedup := by
    intro k hk
    rw [List.mem_dedup] at hk ⊢
    rw [List.map_append]
    exact List.mem_append_left _ hk
  exact (List.subperm_of_subset (List.nodup_dedup _) hSubset).length_le

/-- Every history with at most a hundred senders, by induction on the
datagrams. -/
theorem tableAfter_counted {ds : List Datagram}
    (hFew : distinctClients ds ≤ maxClients) : Counted (tableAfter ds) ds := by
  induction ds using List.reverseRecOn with
  | nil =>
      exact
        { nodup := List.nodup_nil
          known := fun k => Iff.rfl
          counter := nofun }
  | append_singleton ds d ih =>
      rw [tableAfter_concat]
      exact (ih (Nat.le_trans (distinctClients_le_concat ds d) hFew)).step hFew

theorem Counted.reply {t : ClientTable} {ds : List Datagram} {d : Datagram}
    (h : Counted t ds)
    (hFew : distinctClients (ds ++ [d]) ≤ maxClients)
    (hText : d.data ≠ closeText) :
    (countDatagram t d).2 = some (1 + (sinceClose d.client ds : Int)) := by
  have hLook := h.lookup hFew
  unfold countDatagram
  dsimp only
  rw [if_neg hText, hLook.counter_eq, Int.add_comm]

/-- **Counting.**  Among at most a hundred senders, the counter in the reply
to a message is one more than the number of the sender's messages since its
last `CLOSE`, whatever the others have sent. -/
theorem reply_counter {ds : List Datagram} {d : Datagram}
    (hFew : distinctClients (ds ++ [d]) ≤ maxClients)
    (hText : d.data ≠ closeText) :
    (countDatagram (tableAfter ds) d).2 =
      some (1 + (sinceClose d.client ds : Int)) := by
  have hCounted := tableAfter_counted
    (Nat.le_trans (distinctClients_le_concat ds d) hFew)
  exact hCounted.reply hFew hText

/-- A message from the address `i`.0.0.1. -/
def messageFrom (i : Nat) : Datagram where
  ip := ⟨[i.toUInt8, 0, 0, 1], rfl⟩
  port := clientPort
  data := ascii ['h', 'i']

theorem reply_counter_interleaved :
    (countDatagram (tableAfter [messageFrom 1, messageFrom 2, messageFrom 1])
      (messageFrom 1)).2 = some 3 :=
  reply_counter (by decide) (by decide)

/-- The hundred-and-first sender gets the count of the hundredth. -/
theorem counter_of_full_table :
    ¬∀ ds d, d.data ≠ closeText → (countDatagram (tableAfter ds) d).2 =
      some (1 + (sinceClose d.client ds : Int)) := by
  intro hAll
  have hCounter := hAll ((List.range' 1 100).map messageFrom)
    (messageFrom 101) (by decide)
  revert hCounter
  decide +kernel

/-! ## Frames -/

/-- The loop on a list of frames: the last state, and the datagrams that
have passed the filters.  Frames that do not pass them leave no trace in
the table. -/
def serverRun (serverMac : CharArray 6) :
    Server → List (List UInt8) → Option (Server × List Datagram)
  | s, [] => some (s, [])
  | s, frame :: frames => do
      let (b, bytes) := recvfrom s.buffer frame
      let r ← accept b bytes
      let (next, _) ← serverStep serverMac s frame
      let (last, ds) ← serverRun serverMac next frames
      some (last, (r.map Request.datagram).toList ++ ds)

/-- One iteration counts the datagram that it accepts. -/
theorem serverStep_clients {serverMac : CharArray 6} {s next : Server}
    {frame : List UInt8} {sent : Option Sent} {r : Option Request}
    (hAccept : accept (recvfrom s.buffer frame).1
      (recvfrom s.buffer frame).2 = some r)
    (hStep : serverStep serverMac s frame = some (next, sent)) :
    next.clients = (r.map Request.datagram).toList.foldl
      (fun t d => (countDatagram t d).1) s.clients := by
  simp only [serverStep, hAccept, Option.bind_eq_bind, Option.bind_some]
    at hStep
  cases r with
  | none =>
      simp only [Option.some.injEq, Prod.mk.injEq] at hStep
      rw [← hStep.1]
      rfl
  | some r =>
      simp only at hStep
      split at hStep
      · simp only [Option.some.injEq, Prod.mk.injEq] at hStep
        rw [← hStep.1]
        rfl
      · rcases Option.bind_eq_some_iff.mp hStep with ⟨⟨b, out⟩, -, hNext⟩
        simp only [Option.some.injEq, Prod.mk.injEq] at hNext
        rw [← hNext.1]
        rfl

/-- **The server counts**: its table after any frames is the table after the
datagrams that it has accepted. -/
theorem serverRun_clients {serverMac : CharArray 6} {s last : Server}
    {frames : List (List UInt8)} {ds : List Datagram}
    (hRun : serverRun serverMac s frames = some (last, ds)) :
    last.clients = ds.foldl (fun t d => (countDatagram t d).1) s.clients := by
  induction frames generalizing s ds with
  | nil =>
      simp only [serverRun, Option.some.injEq, Prod.mk.injEq] at hRun
      rw [← hRun.1, ← hRun.2]
      rfl
  | cons frame frames ih =>
      simp only [serverRun, Option.bind_eq_bind] at hRun
      rcases Option.bind_eq_some_iff.mp hRun with ⟨r, hAccept, hRun⟩
      rcases Option.bind_eq_some_iff.mp hRun with ⟨⟨next, out⟩, hStep, hRun⟩
      rcases Option.bind_eq_some_iff.mp hRun with ⟨⟨last', more⟩, hRest, hRun⟩
      simp only [Option.some.injEq, Prod.mk.injEq] at hRun
      rcases hRun with ⟨rfl, rfl⟩
      rw [List.foldl_append, ← serverStep_clients hAccept hStep]
      exact ih hRest

/-- The reply in a run that began with an empty table. -/
theorem serverStep_reply {serverMac : CharArray 6} {s last : Server}
    {frames : List (List UInt8)} {ds : List Datagram} {frame : List UInt8}
    {r : Request} (hStart : s.clients = .empty)
    (hRun : serverRun serverMac s frames = some (last, ds))
    (hAccept : accept (recvfrom last.buffer frame).1
      (recvfrom last.buffer frame).2 = some (some r))
    (hFew : distinctClients (ds ++ [r.datagram]) ≤ maxClients)
    (hText : r.datagram.data ≠ closeText) :
    serverStep serverMac last frame =
      (replyCounted serverMac r
          (1 + (sinceClose r.datagram.client ds : Int))).map
        fun out => (⟨out.1, (countDatagram last.clients r.datagram).1⟩,
          some out.2) := by
  have hClients := serverRun_clients hRun
  rw [hStart] at hClients
  have hCounted : Counted last.clients ds := by
    rw [hClients]
    exact tableAfter_counted
      (Nat.le_trans (distinctClients_le_concat ds r.datagram) hFew)
  have hReply := hCounted.reply hFew hText
  simp only [serverStep, hAccept, Option.bind_eq_bind, Option.bind_some,
    hReply]
  cases replyCounted serverMac r
    (1 + (sinceClose r.datagram.client ds : Int)) <;> rfl

end UnixHomework.Ports.Echo
