import UnixHomework.Ports.ShmChatHistory
import UnixHomework.Verified.Traces
import Mathlib.Data.Fintype.Defs
import Mathlib.Logic.Function.Basic

/-!
# Slots of the chat room

A client remembers the index of the slot that it took when it joined, and
frees that slot when it leaves.  The server program initialises the segment
whenever it starts, also while clients are using it: their indices then belong
to slots that are free, or that somebody else takes.  `slotsOk_iff` says when
this goes wrong, and `slotsOk_of_quietStarts` that nothing goes wrong if the
server starts only while nobody has joined.

The operations exist twice.  `add_client` tests the count and `remove_client`
tests the slot, and their copies in the client do not.  In every room that one
initialisation leads to these tests make no difference (`copies_agree`).
-/

namespace UnixHomework.Ports.ShmChat

open UnixHomework.Verified
open UnixHomework.Verified.Ring

/-! ## Clients and their slots -/

/-- The two copies of the operations: the functions of the server program, and
what the client does under the semaphore. -/
inductive Copy where
  | server
  | client

/-- Joining, in either copy: the new room and the index, or -1. -/
def Copy.join : Copy → ChatRoom → List UInt8 → ChatRoom × Int
  | .server => addClient
  | .client => clientJoin

/-- Posting, in either copy. -/
def Copy.post : Copy → ChatRoom → List UInt8 → List UInt8 → ChatRoom
  | .server => addMessage
  | .client => clientPost

/-- Leaving, in either copy. -/
def Copy.leave : Copy → ChatRoom → Nat → ChatRoom
  | .server, room, i => removeClient room i
  | .client, room, i => clientLeave room i

/-- The segment, and `client_idx` of each running client that has joined. -/
structure Members (Pid : Type*) where
  room : ChatRoom
  clientIdx : Pid → Option Nat

/-- After the server's start on whatever the segment held. -/
def Members.start (Pid : Type*) (old : ChatRoom) : Members Pid where
  room := initRoom old
  clientIdx _ := none

/-- One operation under the semaphore, or a start of the server. -/
inductive MemberOp (Pid : Type*) where
  | start
  | join (c : Copy) (p : Pid) (name : List UInt8)
  | post (c : Copy) (name text : List UInt8)
  | leave (c : Copy) (p : Pid)

variable {Pid : Type*}

/-- What the two programs do; `main` of the server calls none of its three
operations. -/
def MemberOp.inPrograms : MemberOp Pid → Bool
  | .start | .join .client _ _ | .post .client _ _ | .leave .client _ => true
  | .join .server _ _ | .post .server _ _ | .leave .server _ => false

def MemberOp.isStart : MemberOp Pid → Bool
  | .start => true
  | _ => false

/-- One operation.  A client joins once at a time and leaves what it has
joined; one that finds no slot exits. -/
def memberStep [DecidableEq Pid] (s : Members Pid) :
    MemberOp Pid → Option (Members Pid)
  | .start => some { s with room := initRoom s.room }
  | .join c p name =>
      match s.clientIdx p with
      | some _ => none
      | none =>
          let (room, idx) := c.join s.room name
          if idx = -1 then some { s with room := room }
          else some ⟨room, Function.update s.clientIdx p (some idx.toNat)⟩
  | .post c name text => some { s with room := c.post s.room name text }
  | .leave c p =>
      (s.clientIdx p).map fun i =>
        ⟨c.leave s.room i, Function.update s.clientIdx p none⟩

/-- The room after a start of the server on any old segment, and the operations
on it. -/
def memberMachine (Pid : Type*) [DecidableEq Pid] :
    Machine (Members Pid) (MemberOp Pid) where
  init s := ∃ old, s = Members.start Pid old
  step := memberStep

/-! ## The property and the guard -/

/-- The number of active slots, which `client_count` should be. -/
def ChatRoom.activeCount (room : ChatRoom) : Nat :=
  (List.range maxClients).countP fun i => (room.clients i).active

/-- No two clients hold the same slot. -/
def HeldOnce (clientIdx : Pid → Option Nat) : Prop :=
  ∀ p q, (clientIdx p).isSome → clientIdx p = clientIdx q → p = q

/-- The count is right and in range, no slot is held twice, and no client's
exit changes the slot of another one. -/
structure Members.SlotsOk (s : Members Pid) : Prop where
  /-- `client_count` is the number of active slots, -/
  count : s.room.clientCount = s.room.activeCount
  /-- and there are no more of them than slots. -/
  range : 0 ≤ s.room.clientCount ∧ s.room.clientCount ≤ maxClients
  /-- No slot has two holders. -/
  distinct : HeldOnce s.clientIdx
  /-- Leaving frees the client's own slot only. -/
  others : ∀ p, ∀ i ∈ s.clientIdx p, ∀ q, ∀ j ∈ s.clientIdx q, p ≠ q →
    ((clientLeave s.room i).clients j).active = (s.room.clients j).active

/-- A client that joins finds a slot that nobody holds, and a client that
leaves finds its own slot active.  Both are asked of the room before the
operation. -/
def KeepsSlots (s : Members Pid) : MemberOp Pid → Prop
  | .join _ _ _ => ∀ i ∈ s.room.freeSlot, ∀ q, s.clientIdx q ≠ some i
  | .leave .client p =>
      ∀ i ∈ s.clientIdx p, (s.room.clients i).active = true
  | _ => True

instance [Fintype Pid] [DecidableEq Pid] (clientIdx : Pid → Option Nat) :
    Decidable (HeldOnce clientIdx) :=
  inferInstanceAs (Decidable (∀ p q, _ → _ → p = q))

instance [Fintype Pid] (s : Members Pid) :
    (a : MemberOp Pid) → Decidable (KeepsSlots s a)
  | .join _ _ _ =>
      inferInstanceAs
        (Decidable (∀ i ∈ s.room.freeSlot, ∀ q, s.clientIdx q ≠ some i))
  | .leave .client p =>
      inferInstanceAs
        (Decidable (∀ i ∈ s.clientIdx p, (s.room.clients i).active = true))
  | .start | .post _ _ _ | .leave .server _ => .isTrue trivial

/-! ## The operations on one slot -/

section Room

variable {room : ChatRoom} {i : Nat}

theorem freeSlot_eq_some (h : room.freeSlot = some i) :
    i < maxClients ∧ (room.clients i).active = false := by
  have hMem := List.mem_range.mp (List.mem_of_find?_eq_some h)
  have hFree := List.find?_some h
  rw [Bool.not_eq_true'] at hFree
  exact ⟨hMem, hFree⟩

theorem activeCount_le (room : ChatRoom) : room.activeCount ≤ maxClients := by
  have hLength := List.countP_le_length (l := List.range maxClients)
    (p := fun i => (room.clients i).active)
  rwa [List.length_range] at hLength

theorem activeCount_initRoom (old : ChatRoom) :
    (initRoom old).activeCount = 0 := by
  apply List.countP_eq_zero.mpr
  intro i hi
  have hInactive : ((initRoom old).clients i).active = false := by
    simp only [initRoom, if_pos (List.mem_range.mp hi)]
  rw [hInactive]
  exact Bool.false_ne_true

theorem activeCount_occupy (h : room.freeSlot = some i)
    (name : List UInt8) :
    (room.occupy i name).activeCount = room.activeCount + 1 := by
  obtain ⟨hRange, hFree⟩ := freeSlot_eq_some h
  have hTaken := countP_put room.clients Client.active hRange
    { name := copyName (room.clients i).name name, active := true }
  simp only [hFree, Bool.false_eq_true, if_false, if_true] at hTaken
  exact hTaken

/-- A room with a free slot is not full. -/
theorem activeCount_lt (h : room.freeSlot = some i) :
    room.activeCount < maxClients := by
  have hTaken := activeCount_le (room.occupy i [])
  rw [activeCount_occupy h] at hTaken
  exact hTaken

/-- Leaving frees one slot, if the slot was active, and none otherwise, while
the client takes one off the count in either case. -/
theorem activeCount_clientLeave (hRange : i < maxClients) :
    (clientLeave room i).activeCount +
        (if (room.clients i).active then 1 else 0) = room.activeCount := by
  have hFreed := countP_put room.clients Client.active hRange
    { room.clients i with active := false }
  simp only [Bool.false_eq_true, if_false] at hFreed
  exact hFreed

/-- The test of `add_client` decides nothing if the count is right: a full room
has no free slot. -/
theorem clientJoin_eq_addClient (name : List UInt8)
    (hCount : room.clientCount = room.activeCount) :
    clientJoin room name = addClient room name := by
  unfold clientJoin addClient
  cases hSlot : room.freeSlot with
  | none => exact (ite_self _).symm
  | some i =>
      have hLt := activeCount_lt hSlot
      have hRoom : ¬ (maxClients : Int) ≤ room.clientCount := by omega
      exact (if_neg hRoom).symm

/-- The test of `remove_client` decides nothing if the slot is active. -/
theorem clientLeave_eq_removeClient (hRange : i < maxClients)
    (hActive : (room.clients i).active = true) :
    clientLeave room i = removeClient room i := by
  have hTest : 0 ≤ (i : Int) ∧ (i : Int) < maxClients ∧
      (room.clients (i : Int).toNat).active := by
    rw [Int.toNat_natCast]
    exact ⟨by omega, by omega, hActive⟩
  rw [removeClient, if_pos hTest, Int.toNat_natCast]
  rfl

theorem removeClient_of_inactive
    (hInactive : (room.clients i).active = false) :
    removeClient room i = room := by
  refine if_neg ?_
  rintro ⟨-, -, hActive⟩
  rw [Int.toNat_natCast, hInactive] at hActive
  contradiction

end Room

/-! ## Steps -/

/-- All slots held are slots of the array. -/
def Members.InRange (s : Members Pid) : Prop :=
  ∀ p i, s.clientIdx p = some i → i < maxClients

/-- What a step does.  Both copies of an operation take the same branch but
for a client that leaves an inactive slot. -/
inductive MemberTransition [DecidableEq Pid] (s : Members Pid) :
    MemberOp Pid → Members Pid → Prop where
  | start : MemberTransition s .start { s with room := initRoom s.room }
  | joined (c : Copy) (p : Pid) (name : List UInt8) (i : Nat)
      (hNew : s.clientIdx p = none) (hSlot : s.room.freeSlot = some i) :
      MemberTransition s (.join c p name)
        ⟨s.room.occupy i name, Function.update s.clientIdx p (some i)⟩
  | full (c : Copy) (p : Pid) (name : List UInt8)
      (hFull : s.room.freeSlot = none ∨
        (maxClients : Int) ≤ s.room.clientCount) :
      MemberTransition s (.join c p name) s
  | post (c : Copy) (name text : List UInt8) (room : ChatRoom)
      (hClients : room.clients = s.room.clients)
      (hCount : room.clientCount = s.room.clientCount) :
      MemberTransition s (.post c name text) { s with room := room }
  | leaves (c : Copy) (p : Pid) (i : Nat) (hIdx : s.clientIdx p = some i)
      (hActive : (s.room.clients i).active = true) :
      MemberTransition s (.leave c p)
        ⟨clientLeave s.room i, Function.update s.clientIdx p none⟩
  | leavesInactive (p : Pid) (i : Nat) (hIdx : s.clientIdx p = some i)
      (hInactive : (s.room.clients i).active = false) :
      MemberTransition s (.leave .client p)
        ⟨clientLeave s.room i, Function.update s.clientIdx p none⟩
  | ignored (p : Pid) (i : Nat) (hIdx : s.clientIdx p = some i)
      (hInactive : (s.room.clients i).active = false) :
      MemberTransition s (.leave .server p)
        ⟨s.room, Function.update s.clientIdx p none⟩

/-- The result of either join. -/
theorem Copy.join_cases (c : Copy) (room : ChatRoom) (name : List UInt8) :
    (∃ i, room.freeSlot = some i ∧
        c.join room name = (room.occupy i name, (i : Int))) ∨
      ((room.freeSlot = none ∨ (maxClients : Int) ≤ room.clientCount) ∧
        c.join room name = (room, -1)) := by
  cases c with
  | server =>
      simp only [Copy.join, ShmChat.addClient]
      split
      · exact Or.inr ⟨Or.inr ‹_›, rfl⟩
      · cases hSlot : room.freeSlot with
        | some i => exact Or.inl ⟨i, rfl, rfl⟩
        | none => exact Or.inr ⟨Or.inl rfl, rfl⟩
  | client =>
      simp only [Copy.join, ShmChat.clientJoin]
      cases hSlot : room.freeSlot with
      | some i => exact Or.inl ⟨i, rfl, rfl⟩
      | none => exact Or.inr ⟨Or.inl rfl, rfl⟩

/-- Posting touches the messages only. -/
theorem Copy.post_clients (c : Copy) (room : ChatRoom)
    (name text : List UInt8) :
    (c.post room name text).clients = room.clients ∧
      (c.post room name text).clientCount = room.clientCount := by
  have hPost : c.post room name text = addMessage room name text := by
    cases c with
    | server => rfl
    | client => exact clientPost_eq_addMessage room name text
  rw [hPost, addMessage]
  split <;> exact ⟨rfl, rfl⟩

section Steps

variable [DecidableEq Pid] {s next : Members Pid} {a : MemberOp Pid}

theorem memberStep_transition (hRange : s.InRange)
    (h : memberStep s a = some next) : MemberTransition s a next := by
  cases a with
  | start =>
      obtain rfl := Option.some.inj h
      exact .start
  | join c p name =>
      simp only [memberStep] at h
      split at h
      · contradiction
      · rename_i hNew
        rcases c.join_cases s.room name with
          ⟨i, hSlot, hJoin⟩ | ⟨hFull, hJoin⟩
        · have hIdx : (i : Int) ≠ -1 := by omega
          rw [hJoin] at h
          simp only [if_neg hIdx, Int.toNat_natCast] at h
          obtain rfl := Option.some.inj h
          exact .joined c p name i hNew hSlot
        · rw [hJoin] at h
          simp only [if_true] at h
          obtain rfl := Option.some.inj h
          exact .full c p name hFull
  | post c name text =>
      obtain rfl := Option.some.inj h
      obtain ⟨hClients, hCount⟩ := c.post_clients s.room name text
      exact .post c name text _ hClients hCount
  | leave c p =>
      obtain ⟨i, hIdx, rfl⟩ := Option.map_eq_some_iff.mp h
      cases hActive : (s.room.clients i).active with
      | true =>
          have hLeave : c.leave s.room i = clientLeave s.room i := by
            cases c with
            | server =>
                exact (clientLeave_eq_removeClient (hRange p i hIdx)
                  hActive).symm
            | client => rfl
          rw [hLeave]
          exact .leaves c p i hIdx hActive
      | false =>
          cases c with
          | server =>
              rw [show Copy.server.leave s.room i = s.room from
                removeClient_of_inactive hActive]
              exact .ignored p i hIdx hActive
          | client => exact .leavesInactive p i hIdx hActive

theorem Members.InRange.step (h : s.InRange)
    (hT : MemberTransition s a next) : next.InRange := by
  intro q j hq
  cases hT with
  | joined c p name i hNew hSlot =>
      by_cases hp : q = p
      · subst hp
        simp only [Function.update_self, Option.some.injEq] at hq
        subst hq
        exact (freeSlot_eq_some hSlot).1
      · simp only [Function.update_of_ne hp] at hq
        exact h q j hq
  | leaves c p i | leavesInactive p i | ignored p i =>
      by_cases hp : q = p
      · subst hp
        simp only [Function.update_self] at hq
        contradiction
      · simp only [Function.update_of_ne hp] at hq
        exact h q j hq
  | start | full | post => exact h q j hq

end Steps

/-! ## One step -/

theorem HeldOnce.release [DecidableEq Pid] {clientIdx : Pid → Option Nat}
    (h : HeldOnce clientIdx) (p : Pid) :
    HeldOnce (Function.update clientIdx p none) := by
  intro q r hq hqr
  have hNot : ∀ x, (Function.update clientIdx p none x).isSome → x ≠ p := by
    rintro x hx rfl
    rw [Function.update_self] at hx
    contradiction
  have hqp := hNot q hq
  have hrp := hNot r (hqr ▸ hq)
  rw [Function.update_of_ne hqp] at hq hqr
  rw [Function.update_of_ne hrp] at hqr
  exact h q r hq hqr

/-- A slot may be taken if nobody holds it, and only then. -/
theorem HeldOnce.take_iff [DecidableEq Pid] {clientIdx : Pid → Option Nat}
    (h : HeldOnce clientIdx) {p : Pid} (hNew : clientIdx p = none) (i : Nat) :
    HeldOnce (Function.update clientIdx p (some i)) ↔
      ∀ q, clientIdx q ≠ some i := by
  constructor
  · intro hTaken q hq
    have hqp : q ≠ p := by
      rintro rfl
      rw [hNew] at hq
      contradiction
    apply hqp
    apply hTaken
    · rw [Function.update_of_ne hqp, hq]
      rfl
    · rw [Function.update_of_ne hqp, Function.update_self, hq]
  · intro hFree q r hq hqr
    by_cases hqp : q = p <;> by_cases hrp : r = p
    · rw [hqp, hrp]
    · rw [hqp, Function.update_self, Function.update_of_ne hrp] at hqr
      exact absurd hqr.symm (hFree r)
    · rw [hrp, Function.update_self, Function.update_of_ne hqp] at hqr
      exact absurd hqr (hFree q)
    · rw [Function.update_of_ne hqp] at hq hqr
      rw [Function.update_of_ne hrp] at hqr
      exact h q r hq hqr

/-- Range and exits follow from the count and the owners, so these two are what
a step has to keep. -/
theorem Members.slotsOk_iff_count {s : Members Pid} :
    s.SlotsOk ↔
      s.room.clientCount = s.room.activeCount ∧ HeldOnce s.clientIdx := by
  constructor
  · intro h
    exact ⟨h.count, h.distinct⟩
  · rintro ⟨hCount, hOnce⟩
    have hLe := activeCount_le s.room
    refine ⟨hCount, ⟨by omega, by omega⟩, hOnce, ?_⟩
    intro p i hp q j hq hpq
    have hij : j ≠ i := by
      rintro rfl
      exact hpq (hOnce p q (Option.isSome_of_mem hp) (hp.trans hq.symm))
    show (put s.room.clients i _ j).active = _
    rw [put_ne _ _ hij]

section Steps

variable [DecidableEq Pid] {s next : Members Pid} {a : MemberOp Pid}

/-- **One step** keeps the slots right exactly if it meets the guard.  A start
of the server sets count and slots to nothing together; what it breaks shows
when a client leaves or joins. -/
theorem Members.SlotsOk.step_iff (h : s.SlotsOk) (hRange : s.InRange)
    (hT : MemberTransition s a next) :
    next.SlotsOk ↔ KeepsSlots s a := by
  have hCount := h.count
  rw [Members.slotsOk_iff_count]
  cases hT with
  | start =>
      refine iff_of_true ⟨?_, h.distinct⟩ trivial
      rw [activeCount_initRoom]
      rfl
  | joined c p name i hNew hSlot =>
      have hJoined : (s.room.occupy i name).clientCount =
          (s.room.occupy i name).activeCount := by
        rw [activeCount_occupy hSlot]
        show s.room.clientCount + 1 = _
        omega
      have hGuard : KeepsSlots s (.join c p name) ↔
          ∀ q, s.clientIdx q ≠ some i := by
        simp only [KeepsSlots, hSlot, Option.mem_some_iff, forall_eq']
      rw [hGuard, ← h.distinct.take_iff hNew i]
      exact and_iff_right hJoined
  | full c p name hFull =>
      refine iff_of_true ⟨hCount, h.distinct⟩ ?_
      -- with the right count, `add_client` refuses only if no slot is free
      intro i hSlot
      have hLt := activeCount_lt hSlot
      rcases hFull with hNone | hMax
      · rw [hNone] at hSlot
        contradiction
      · omega
  | post c name text room hClients hRoomCount =>
      refine iff_of_true ⟨?_, h.distinct⟩ trivial
      simp only [ChatRoom.activeCount, hClients]
      exact hRoomCount.trans hCount
  | leaves c p i hIdx hActive =>
      have hLeft := @activeCount_clientLeave s.room i (hRange p i hIdx)
      rw [if_pos hActive] at hLeft
      refine iff_of_true ⟨?_, h.distinct.release p⟩ ?_
      · show s.room.clientCount - 1 = ((clientLeave s.room i).activeCount : Int)
        omega
      · cases c with
        | server => trivial
        | client =>
            intro j hj
            obtain rfl := Option.some.inj (hIdx.symm.trans hj)
            exact hActive
  | leavesInactive p i hIdx hInactive =>
      have hLeft := @activeCount_clientLeave s.room i (hRange p i hIdx)
      rw [hInactive, if_neg Bool.false_ne_true, Nat.add_zero] at hLeft
      -- the count goes down, and no active slot becomes free
      refine iff_of_false ?_ ?_
      · rintro ⟨hWrong, -⟩
        have hMinus : s.room.clientCount - 1 =
            (clientLeave s.room i).activeCount := hWrong
        omega
      · intro hOwn
        rw [hOwn i hIdx] at hInactive
        contradiction
  | ignored p i hIdx hInactive =>
      exact iff_of_true ⟨hCount, h.distinct.release p⟩ trivial

end Steps

/-! ## Runs -/

instance [Fintype Pid] [DecidableEq Pid] (s : Members Pid) :
    Decidable s.SlotsOk :=
  decidable_of_iff _ Members.slotsOk_iff_count.symm

section Runs

variable [DecidableEq Pid] {s next : Members Pid} {a : MemberOp Pid}

theorem slotsOk_start (Pid : Type*) (old : ChatRoom) :
    (Members.start Pid old).SlotsOk := by
  rw [Members.slotsOk_iff_count]
  refine ⟨?_, nofun⟩
  show (initRoom old).clientCount = ((initRoom old).activeCount : Int)
  rw [activeCount_initRoom]
  rfl

/-- **Slot ownership.**  In a run of starts of the server and of clients that
join, post and leave, the count is always the number of active slots and no
slot is held twice, if and only if each client that joins finds a slot that
nobody holds and each client that leaves finds its slot active. -/
theorem slotsOk_iff (old : ChatRoom) {as : List (MemberOp Pid)}
    {last : Members Pid}
    (hRun : ((memberMachine Pid).only MemberOp.inPrograms).run
      (Members.start Pid old) as = some last) :
    ((memberMachine Pid).only MemberOp.inPrograms).EachState Members.SlotsOk
        (Members.start Pid old) as ↔
      ((memberMachine Pid).only MemberOp.inPrograms).EachStep KeepsSlots
        (Members.start Pid old) as := by
  have hMember : ∀ s a next, s.InRange →
      ((memberMachine Pid).only MemberOp.inPrograms).step s a = some next →
        MemberTransition s a next := by
    intro s a next hRange hStep
    have hOnly := (memberMachine Pid).only_step_eq_some hStep
    exact memberStep_transition hRange hOnly.2
  refine Machine.eachState_iff_eachStep (I := Members.InRange) ?_ ?_ nofun
    (slotsOk_start Pid old) hRun
  · intro s a next hRange hStep
    exact hRange.step (hMember s a next hRange hStep)
  · intro s a next hRange hOk hStep
    exact hOk.step_iff hRange (hMember s a next hRange hStep)

/-! ## Starts while nobody has joined -/

/-- The server starts only while no client has joined. -/
def QuietStart (s : Members Pid) : MemberOp Pid → Prop
  | .start => ∀ p, s.clientIdx p = none
  | _ => True

/-- Each client's slot is active, and all that follows from this.  It holds as
long as the server does not start over the clients' heads. -/
structure Members.Consistent (s : Members Pid) : Prop where
  /-- The indices are those of slots. -/
  inRange : s.InRange
  /-- The count of the clients is right, and no slot has two of them. -/
  slots : s.SlotsOk
  /-- The slot of a client is active. -/
  seated : ∀ p i, s.clientIdx p = some i → (s.room.clients i).active = true

theorem consistent_start (Pid : Type*) [DecidableEq Pid] (old : ChatRoom) :
    (Members.start Pid old).Consistent :=
  ⟨nofun, slotsOk_start Pid old, nofun⟩

omit [DecidableEq Pid] in
theorem Members.Consistent.keepsSlots (h : s.Consistent) (a : MemberOp Pid) :
    KeepsSlots s a := by
  cases a with
  | join c p name =>
      intro i hSlot q hq
      have hFree := (freeSlot_eq_some hSlot).2
      rw [h.seated q i hq] at hFree
      contradiction
  | leave c p =>
      cases c with
      | server => trivial
      | client => exact h.seated p
  | start | post c name text => trivial

theorem Members.Consistent.seated_step (h : s.Consistent)
    (hQuiet : QuietStart s a) (hT : MemberTransition s a next) :
    ∀ p i, next.clientIdx p = some i →
      (next.room.clients i).active = true := by
  intro q j hq
  cases hT with
  | start =>
      rw [hQuiet q] at hq
      contradiction
  | joined c p name i hNew hSlot =>
      show (put s.room.clients i _ j).active = true
      by_cases hji : j = i
      · rw [hji, put_self]
      · rw [put_ne _ _ hji]
        have hqp : q ≠ p := by
          rintro rfl
          simp only [Function.update_self, Option.some.injEq] at hq
          exact hji hq.symm
        simp only [Function.update_of_ne hqp] at hq
        exact h.seated q j hq
  | full => exact h.seated q j hq
  | post c name text room hClients hCount =>
      simp only [hClients]
      exact h.seated q j hq
  | leaves c p i hIdx hActive =>
      have hqp : q ≠ p := by
        rintro rfl
        simp only [Function.update_self] at hq
        contradiction
      simp only [Function.update_of_ne hqp] at hq
      have hOther := h.slots.others p i hIdx q j hq (Ne.symm hqp)
      exact hOther.trans (h.seated q j hq)
  | leavesInactive p i hIdx hInactive | ignored p i hIdx hInactive =>
      rw [h.seated p i hIdx] at hInactive
      contradiction

theorem Members.Consistent.step (h : s.Consistent) (hQuiet : QuietStart s a)
    (hStep : (memberMachine Pid).step s a = some next) : next.Consistent := by
  have hT := memberStep_transition h.inRange hStep
  exact
    { inRange := h.inRange.step hT
      slots := (h.slots.step_iff h.inRange hT).mpr (h.keepsSlots a)
      seated := h.seated_step hQuiet hT }

/-- If the server starts only while nobody has joined, the slots are always
right, whichever copies of the operations are used. -/
theorem slotsOk_of_quietStarts (old : ChatRoom) {as : List (MemberOp Pid)}
    (hQuiet : (memberMachine Pid).EachStep QuietStart
      (Members.start Pid old) as) :
    (memberMachine Pid).EachState Members.SlotsOk
      (Members.start Pid old) as :=
  Machine.eachState_of_eachStep (I := Members.Consistent)
    (fun _ _ _ h hOk hStep => h.step hOk hStep) (fun _ h => h.slots)
    (consistent_start Pid old) hQuiet

/-! ## The two copies -/

/-- **The two copies agree.**  In every room that joins, posts and leaves lead
to from one start of the server, by whichever copies, the client's join has
the same result as `add_client`, its post the same as `add_message`, and its
leave of its own slot the same as `remove_client`. -/
theorem copies_agree
    (h : (memberMachine Pid).ReachableBy (fun _ a => a.isStart = false) s)
    (name text : List UInt8) :
    clientJoin s.room name = addClient s.room name ∧
      clientPost s.room name text = addMessage s.room name text ∧
      ∀ p i, s.clientIdx p = some i →
        clientLeave s.room i = removeClient s.room i := by
  have hConsistent : s.Consistent := by
    refine h.invariant (I := Members.Consistent) ?_ ?_
    · rintro s ⟨old, rfl⟩
      exact consistent_start Pid old
    · intro s a next hI hOp hStep
      refine hI.step ?_ hStep
      cases a with
      | start => contradiction
      | join | post | leave => trivial
  refine ⟨clientJoin_eq_addClient name hConsistent.slots.count,
    clientPost_eq_addMessage s.room name text, ?_⟩
  intro p i hIdx
  exact clientLeave_eq_removeClient (hConsistent.inRange p i hIdx)
    (hConsistent.seated p i hIdx)

end Runs

/-- Clients join, and one posts and leaves, without another start. -/
theorem slotsOk_iff_oneStart :
    ((memberMachine Bool).only MemberOp.inPrograms).EachState Members.SlotsOk
      (Members.start Bool zeroSegment)
      [.join .client true [97], .join .client false [98],
        .post .client [97] [104, 105], .leave .client true,
        .join .client true [97]] := by
  obtain ⟨last, hRun⟩ := Option.isSome_iff_exists.mp
    (show (((memberMachine Bool).only MemberOp.inPrograms).run
      (Members.start Bool zeroSegment)
      [.join .client true [97], .join .client false [98],
        .post .client [97] [104, 105], .leave .client true,
        .join .client true [97]]).isSome = true by decide)
  exact (slotsOk_iff zeroSegment hRun).mpr (by decide)

/-- The server starts again while a client has joined; when the client leaves,
the count becomes -1. -/
theorem restart_miscounts :
    ¬ ∀ s : Members Bool,
      ((memberMachine Bool).only MemberOp.inPrograms).Reachable s →
        s.SlotsOk := by
  intro hAll
  have hRun : ((((memberMachine Bool).only MemberOp.inPrograms).run
      (Members.start Bool zeroSegment)
      [.join .client true [97], .start, .leave .client true]).any fun s =>
        decide (s.room.clientCount = -1)) = true := by
    decide
  obtain ⟨s, hReach, hCount⟩ := Machine.exists_reachable_of_run
    (show ((memberMachine Bool).only MemberOp.inPrograms).init _ from
      ⟨zeroSegment, rfl⟩) hRun
  have hRange := (hAll s hReach).range.1
  rw [of_decide_eq_true hCount] at hRange
  contradiction

/-- Two clients in the room. -/
theorem copies_agree_twoClients :
    ∃ s : Members Bool, s.clientIdx true = some 0 ∧
      clientJoin s.room [99] = addClient s.room [99] ∧
        clientPost s.room [97] [104, 105] = addMessage s.room [97] [104, 105] ∧
          clientLeave s.room 0 = removeClient s.room 0 := by
  have hRun : (((memberMachine Bool).runIf (fun _ a => a.isStart = false)
      (Members.start Bool zeroSegment)
      [.join .client true [97], .join .server false [98]]).any fun s =>
        decide (s.clientIdx true = some 0)) = true := by
    decide
  obtain ⟨s, hReach, hIdx⟩ := Machine.exists_reachableBy_of_runIf
    (show (memberMachine Bool).init _ from ⟨zeroSegment, rfl⟩) hRun
  have hOwn := of_decide_eq_true hIdx
  have hJoin := (copies_agree hReach [99] []).1
  obtain ⟨-, hPost, hLeave⟩ := copies_agree hReach [97] [104, 105]
  exact ⟨s, hOwn, hJoin, hPost, hLeave true 0 hOwn⟩

end UnixHomework.Ports.ShmChat
