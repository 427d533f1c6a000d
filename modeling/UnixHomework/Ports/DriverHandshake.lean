import UnixHomework.Ports.DriverManager
import UnixHomework.Verified.Table
import UnixHomework.Verified.Traces

/-!
# The handshake of a driver with the connection handler

A driver connects and then sends its pid, in two steps.  The handler accepts
the connection and receives the pid at once, without waiting for it
(`MSG_DONTWAIT`), and closes the connection if there is nothing to receive.

Here the handler runs with a table in which the driver is active, any drivers
go through their handshakes, and nothing else happens.  A driver is registered
for its connection, and keeps it, exactly if its pid has been sent when the
handler receives it (`keepsDriver_iff`).
-/

namespace UnixHomework.Ports.DriverManager

open UnixHomework.Verified

/-! ## The pid as four bytes -/

theorem shiftLeft_or_toUInt8 (w : UInt32) :
    (w >>> 8) <<< 8 ||| w.toUInt8.toUInt32 = w := by
  apply UInt32.toBitVec_inj.mp
  ext i hi
  simp only [UInt32.toBitVec_or, UInt32.toBitVec_shiftLeft,
    UInt32.toBitVec_shiftRight, UInt8.toBitVec_toUInt32,
    UInt32.toBitVec_toUInt8]
  by_cases hByte : i < 8
  · simp [hByte, BitVec.getLsbD_eq_getElem hi]
  · have hShift : 8 + (i - 8) = i := by omega
    simp [hByte, hShift, BitVec.getLsbD_eq_getElem hi]

theorem shiftRight_shiftRight (w : UInt32) :
    w >>> 16 = (w >>> 8) >>> 8 ∧ w >>> 24 = (w >>> 16) >>> 8 ∧
      (w >>> 24) >>> 8 = 0 := by
  refine ⟨?_, ?_, ?_⟩
  · apply UInt32.toBitVec_inj.mp
    ext i hi
    simp
  · apply UInt32.toBitVec_inj.mp
    ext i hi
    simp
  · apply UInt32.toBitVec_inj.mp
    ext i hi
    simp

/-- The handler receives the pid that the driver has sent: `recv` takes the
four bytes of a `pid_t` as `send` has put them there. -/
theorem pidOf_pidBytes (pid : Int32) : pidOf (pidBytes pid) = pid := by
  rcases shiftRight_shiftRight pid.toUInt32 with ⟨h16, h24, h32⟩
  have hTop := shiftLeft_or_toUInt8 (pid.toUInt32 >>> 24)
  have hThird := shiftLeft_or_toUInt8 (pid.toUInt32 >>> 16)
  have hSecond := shiftLeft_or_toUInt8 (pid.toUInt32 >>> 8)
  rw [h32] at hTop
  rw [← h24] at hThird
  rw [← h16] at hSecond
  simp only [pidOf, pidBytes, List.foldr_cons, List.foldr_nil]
  rw [hTop, hThird, hSecond, shiftLeft_or_toUInt8]
  rfl

theorem take_pidBytes (pid : Int32) : (pidBytes pid).take 4 = pidBytes pid :=
  rfl

/-! ## Looking up a driver -/

theorem findDriver_modify (drivers : List Driver) (i : Nat) (fd : Int)
    (pid : Int32) :
    findDriver (drivers.modify i fun d => { d with sockFd := fd }) pid =
      findDriver drivers pid := by
  unfold findDriver
  induction drivers generalizing i with
  | nil => simp
  | cons d ds ih =>
      cases i with
      | zero => simp [List.findIdx?_cons]
      | succ i => simp [List.findIdx?_cons, ih]

theorem findDriver_eq_some {drivers : List Driver} {pid : Int32} {i : Nat}
    (h : findDriver drivers pid = some i) :
    ∃ d, drivers[i]? = some d ∧ d.pid = pid := by
  rcases List.findIdx?_eq_some_iff_getElem.mp h with ⟨hi, hFound, -⟩
  simp only [Bool.and_eq_true, decide_eq_true_eq] at hFound
  exact ⟨drivers[i], List.getElem?_eq_getElem hi, hFound.1⟩

/-- Different pids have different entries.  `find_driver` returns the first
entry with the pid, so one entry cannot be found for two. -/
theorem findDriver_ne {drivers : List Driver} {p q : Int32} {i j : Nat}
    (hp : findDriver drivers p = some i) (hq : findDriver drivers q = some j)
    (hpq : q ≠ p) : j ≠ i := by
  rintro rfl
  rcases findDriver_eq_some hp with ⟨d, hd, rfl⟩
  rcases findDriver_eq_some hq with ⟨d', hd', rfl⟩
  rw [hd, Option.some.injEq] at hd'
  exact hpq (congrArg Driver.pid hd'.symm)

/-! ## Handshakes -/

/-- The steps of the handshakes: `connect` and `send` of a driver, `accept` and
`recv` of the handler. -/
def Label.handshake : Label → Bool
  | .connect _ | .sendPid _ | .accept _ | .recvPid => true
  | _ => false

/-- The connection on which the handler is about to receive a pid, between its
`accept` and its `recv`. -/
def State.receiving (s : State) : Option Nat :=
  match s.handlerAt with
  | .accepted fd => s.handler.fds fd
  | .waiting => none

/-- `accept` and `recv` have not both run for the connection.  Whether the
driver has sent its pid in the meantime is what decides about it. -/
def State.Pending (s : State) (c : Nat) : Prop :=
  c ∈ s.acceptQueue ∨ s.receiving = some c

/-- The driver is active in the handler's table, and no handshake has begun;
other drivers may be connected. -/
structure BeforeHandshakes (p : Int32) (s : State) : Prop where
  /-- `find_driver` finds the driver. -/
  active : ∃ i, findDriver s.handler.drivers p = some i
  /-- The handler waits for events. -/
  waiting : s.handlerAt = .waiting
  /-- Nobody waits to be accepted. -/
  queue : s.acceptQueue = []
  /-- The handler's descriptors are for connections that there are. -/
  fds : ∀ fd c, s.handler.fds fd = some c → c < s.conns.length
  /-- No driver stands between its `connect` and its `send`. -/
  connected : ∀ pid c, s.procs pid ≠ .connected c
  /-- No connection is the driver's, and nobody who is still to connect has
  one. -/
  drivers : ∀ (c : Nat) (k : Connection), s.conns[c]? = some k →
    k.driver ≠ p ∧ s.procs k.driver ≠ .connecting

/-- The handler with a table in which `p` is active, and the drivers.  The
steps are those of the whole system, as far as they belong to handshakes. -/
def handshakes (p : Int32) : Machine State Label where
  init := BeforeHandshakes p
  step := (driverManager.only Label.handshake).step

/-- The handler has closed no connection of the driver, and has the driver
registered for each whose pid it has tried to receive. -/
structure KeepsDriver (p : Int32) (s : State) : Prop where
  /-- No connection of the driver has been closed. -/
  serverOpen : ∀ (c : Nat) (k : Connection), s.conns[c]? = some k →
    k.driver = p → k.serverOpen = true
  /-- The table has the descriptor of each connection that has been through
  `recv`. -/
  registered : ∀ (c : Nat) (k : Connection), s.conns[c]? = some k →
    k.driver = p → ¬ s.Pending c →
      ∃ i d, findDriver s.handler.drivers p = some i ∧
        s.handler.drivers[i]? = some d ∧ s.handler.fds d.sockFd = some c

/-- When the handler receives the pid of driver `p`, the pid is there.  It is
asked of the state before the `recv`: the bytes that the connection holds for
the handler then. -/
def PidArrived (p : Int32) (s : State) : Label → Prop
  | .recvPid => ∀ c ∈ s.receiving, ∀ k ∈ s.conns[c]?,
      k.driver = p → k.toServer ≠ []
  | _ => True

instance (p : Int32) (s : State) : (a : Label) → Decidable (PidArrived p s a)
  | .recvPid => inferInstanceAs (Decidable (∀ c ∈ s.receiving, _))
  | .createDriver _ | .sendTask .. | .exit | .endOfInput | .connect _
  | .sendPid _ | .recvCommand .. | .finishTask _ | .recvEnd _ | .accept _
  | .driverData .. => .isTrue trivial

/-- The steps of the handshakes with their effects.  The handler closes the
connection if it receives nothing or does not know the pid; each outcome is a
constructor, with what the handler finds as its hypotheses. -/
inductive Handshaken (s : State) : Label → State → Prop where
  | connect (pid : Int32) (hPhase : s.procs pid = .connecting) :
      Handshaken s (.connect pid)
        ({ s with
          conns := s.conns ++ [Connection.new pid]
          acceptQueue := s.acceptQueue ++ [s.conns.length] }.setPhase pid
            (.connected s.conns.length))
  | sendPid (pid : Int32) (c : Nat) (hPhase : s.procs pid = .connected c) :
      Handshaken s (.sendPid pid)
        ((s.answer c (pidBytes pid)).setPhase pid (.running c))
  | accept (fd : Int) (c : Nat) (rest : List Nat)
      (hWaiting : s.handlerAt = .waiting) (hQueue : s.acceptQueue = c :: rest)
      (hFree : s.handler.fds fd = none) :
      Handshaken s (.accept fd)
        { s with
          handler := { s.handler with
            fds := Function.update s.handler.fds fd (some c) }
          handlerAt := .accepted fd
          acceptQueue := rest }
  | registers (fd : Int) (c i : Nat) (k : Connection)
      (hAt : s.handlerAt = .accepted fd) (hFd : s.handler.fds fd = some c)
      (hConn : s.conns[c]? = some k) (hSent : k.toServer ≠ [])
      (hFound : findDriver s.handler.drivers (pidOf (k.toServer.take 4)) =
        some i) :
      Handshaken s .recvPid
        { s with
          conns := s.conns.modify c fun k =>
            { k with toServer := k.toServer.drop 4 }
          handler := { s.handler with
            drivers := s.handler.drivers.modify i fun d =>
              { d with sockFd := fd } }
          handlerAt := .waiting }
  | closes (fd : Int) (c : Nat) (k : Connection)
      (f : Connection → Connection)
      (hAt : s.handlerAt = .accepted fd) (hFd : s.handler.fds fd = some c)
      (hConn : s.conns[c]? = some k)
      (hWhy : k.toServer = [] ∨
        findDriver s.handler.drivers (pidOf (k.toServer.take 4)) = none)
      (hDriver : ∀ k, (f k).driver = k.driver)
      (hClosed : ∀ k, (f k).serverOpen = false) :
      Handshaken s .recvPid
        { s with
          conns := s.conns.modify c f
          handler := { s.handler with
            fds := Function.update s.handler.fds fd none }
          handlerAt := .waiting }

theorem handlePid_handshaken {s : State} {fd : Int} {c : Nat} {k : Connection}
    (hAt : s.handlerAt = .accepted fd) (hFd : s.handler.fds fd = some c)
    (hConn : s.conns[c]? = some k) :
    Handshaken s .recvPid
      { handlePid s fd c (k.toServer.take 4) with handlerAt := .waiting } := by
  unfold handlePid
  by_cases hEmpty : k.toServer = []
  · rw [if_pos (by simp [hEmpty])]
    simp only [State.closeServer, hFd]
    exact .closes fd c k _ hAt hFd hConn (.inl hEmpty) (fun _ => rfl)
      (fun _ => rfl)
  · rw [if_neg (by simp [hEmpty])]
    cases hFound : findDriver s.handler.drivers
        (pidOf (k.toServer.take 4)) with
    | some i =>
        simp only [hFound]
        exact .registers fd c i k hAt hFd hConn hEmpty hFound
    | none =>
        simp only [hFound, State.closeServer, hFd, List.modify_modify_eq]
        refine .closes fd c k _ hAt hFd hConn (.inr hFound) ?_ ?_
        · intro k
          rfl
        · intro k
          rfl

theorem step_handshaken {p : Int32} {s next : State} {a : Label}
    (h : (handshakes p).step s a = some next) : Handshaken s a next := by
  rcases driverManager.only_step_eq_some h with ⟨hLabel, hStep⟩
  cases step_transition hStep with
  | connect pid hPhase => exact .connect pid hPhase
  | sendPid pid c hPhase => exact .sendPid pid c hPhase
  | accept fd c rest hWaiting hQueue _ hFree =>
      exact .accept fd c rest hWaiting hQueue hFree
  | recvPid fd c k hAt hFd hConn => exact handlePid_handshaken hAt hFd hConn
  | _ => contradiction

/-! ## The invariant -/

/-- Each connection that is pending carries nothing before its driver has sent
its pid, and then the pid; and a driver has one connection. -/
structure Handshake (p : Int32) (s : State) : Prop where
  /-- The driver stays in the table. -/
  active : ∃ i, findDriver s.handler.drivers p = some i
  /-- A connection waits once to be accepted. -/
  nodup : s.acceptQueue.Nodup
  /-- What waits to be accepted are connections, -/
  queue : ∀ c ∈ s.acceptQueue, c < s.conns.length
  /-- and none of them has a descriptor yet. -/
  fds : ∀ fd c, s.handler.fds fd = some c →
    c < s.conns.length ∧ c ∉ s.acceptQueue
  /-- Who has still to connect has no connection. -/
  connecting : ∀ (c : Nat) (k : Connection), s.conns[c]? = some k →
    s.procs k.driver ≠ .connecting
  /-- A driver knows its own connection. -/
  connected : ∀ pid c, s.procs pid = .connected c →
    ∃ k, s.conns[c]? = some k ∧ k.driver = pid
  /-- A pending connection carries the pid of its driver, or nothing because the
  driver has not sent it. -/
  pid : ∀ (c : Nat) (k : Connection), s.conns[c]? = some k → s.Pending c →
    (s.procs k.driver = .connected c ∧ k.toServer = []) ∨
      (s.procs k.driver = .running c ∧ k.toServer = pidBytes k.driver)
  /-- The driver `p` has no second connection. -/
  own : ∀ (c : Nat) (k : Connection), s.conns[c]? = some k → k.driver = p →
    s.procs p = .connected c ∨ s.procs p = .running c

theorem BeforeHandshakes.handshake {p : Int32} {s : State}
    (h : BeforeHandshakes p s) : Handshake p s where
  active := h.active
  nodup := by simp [h.queue]
  queue := by simp [h.queue]
  fds fd c hFd := ⟨h.fds fd c hFd, by simp [h.queue]⟩
  connecting c k hConn := (h.drivers c k hConn).2
  connected pid c hPhase := absurd hPhase (h.connected pid c)
  pid c k _ hPending := by
    simp [State.Pending, h.queue, State.receiving, h.waiting] at hPending
  own c k hConn hDriver := absurd hDriver (h.drivers c k hConn).1

/-- A connection afterwards is one from before, of the same driver, if `f`
leaves the driver alone. -/
theorem driver_of_modify {conns : List Connection} {c c' : Nat}
    {f : Connection → Connection} {k' : Connection}
    (hDriver : ∀ k, (f k).driver = k.driver)
    (h : (conns.modify c f)[c']? = some k') :
    ∃ k, conns[c']? = some k ∧ k'.driver = k.driver := by
  rcases getElem?_modify_eq_some h with ⟨k, hk, rfl⟩
  refine ⟨k, hk, ?_⟩
  by_cases hc : c = c'
  · rw [if_pos hc, hDriver]
  · rw [if_neg hc]

theorem exists_modify {conns : List Connection} {c c' : Nat}
    {f : Connection → Connection} {k : Connection}
    (hDriver : ∀ k, (f k).driver = k.driver) (h : conns[c']? = some k) :
    ∃ k', (conns.modify c f)[c']? = some k' ∧ k'.driver = k.driver := by
  refine ⟨_, getElem?_modify_of_some h, ?_⟩
  by_cases hc : c = c'
  · rw [if_pos hc, hDriver]
  · rw [if_neg hc]

theorem Handshake.connect {p pid : Int32} {s : State} (h : Handshake p s)
    (hPhase : s.procs pid = .connecting) :
    Handshake p
      ({ s with
        conns := s.conns ++ [Connection.new pid]
        acceptQueue := s.acceptQueue ++ [s.conns.length] }.setPhase pid
          (.connected s.conns.length)) := by
  have hOld : ∀ (c : Nat) (k : Connection), s.conns[c]? = some k →
      k.driver ≠ pid := by
    rintro c k hConn rfl
    exact h.connecting c k hConn hPhase
  constructor
  · exact h.active
  · refine List.nodup_append.mpr ⟨h.nodup, by simp, ?_⟩
    rintro c hc c' hc' rfl
    rw [List.mem_singleton] at hc'
    exact absurd (h.queue c hc) (by omega)
  · intro c hc
    simp only [State.setPhase, List.mem_append, List.mem_singleton,
      List.length_append, List.length_singleton] at hc ⊢
    rcases hc with hc | rfl
    · have := h.queue c hc
      omega
    · omega
  · intro fd c hFd
    rcases h.fds fd c hFd with ⟨hc, hNot⟩
    simp only [State.setPhase, List.mem_append, List.mem_singleton,
      List.length_append, List.length_singleton]
    exact ⟨by omega, fun hMem => hMem.elim hNot (by omega)⟩
  · intro c k hConn
    rcases getElem?_concat_cases hConn with hConn | ⟨rfl, rfl⟩
    · simp only [State.setPhase, Function.update_of_ne (hOld c k hConn)]
      exact h.connecting c k hConn
    · simp [State.setPhase, Connection.new]
  · intro q c hq
    by_cases hPid : q = pid
    · subst hPid
      simp only [State.setPhase, Function.update_self,
        DriverPhase.connected.injEq] at hq
      exact ⟨Connection.new q, by simp [State.setPhase, ← hq], rfl⟩
    · simp only [State.setPhase, Function.update_of_ne hPid] at hq
      rcases h.connected q c hq with ⟨k, hConn, hDriver⟩
      refine ⟨k, ?_, hDriver⟩
      simp only [State.setPhase]
      rw [List.getElem?_append_left (List.getElem?_eq_some_iff.mp hConn).1]
      exact hConn
  · intro c k hConn hPending
    rcases getElem?_concat_cases hConn with hConn | ⟨rfl, rfl⟩
    · simp only [State.setPhase, Function.update_of_ne (hOld c k hConn)]
      refine h.pid c k hConn ?_
      have hc := (List.getElem?_eq_some_iff.mp hConn).1
      simp only [State.Pending, State.setPhase, State.receiving,
        List.mem_append, List.mem_singleton] at hPending ⊢
      refine hPending.imp_left fun hMem => hMem.resolve_right ?_
      omega
    · exact .inl ⟨by simp [State.setPhase, Connection.new], rfl⟩
  · intro c k hConn hDriver
    rcases getElem?_concat_cases hConn with hConn | ⟨rfl, rfl⟩
    · have hp : p ≠ pid := hDriver ▸ hOld c k hConn
      simp only [State.setPhase, Function.update_of_ne hp]
      exact h.own c k hConn hDriver
    · obtain rfl : pid = p := hDriver
      exact .inl (by simp [State.setPhase])

theorem Handshake.sendPid {p pid : Int32} {c : Nat} {s : State}
    (h : Handshake p s) (hPhase : s.procs pid = .connected c) :
    Handshake p
      ((s.answer c (pidBytes pid)).setPhase pid (.running c)) := by
  rcases h.connected pid c hPhase with ⟨k₀, hConn₀, hDriver₀⟩
  have hOld : ∀ (c' : Nat) (k' : Connection),
      (s.conns.modify c fun k =>
        { k with toServer := k.toServer ++ pidBytes pid })[c']? = some k' →
        ∃ k, s.conns[c']? = some k ∧ k'.driver = k.driver :=
    fun c' k' => driver_of_modify (fun _ => rfl)
  constructor
  · exact h.active
  · exact h.nodup
  · intro c' hc'
    simpa [State.answer, State.setPhase] using h.queue c' hc'
  · intro fd c' hFd
    simpa [State.answer, State.setPhase] using h.fds fd c' hFd
  · intro c' k' hConn
    rcases hOld c' k' hConn with ⟨k, hConn, hDriver⟩
    rw [hDriver]
    by_cases hPid : k.driver = pid
    · simp [State.setPhase, hPid]
    · simp only [State.setPhase, State.answer, Function.update_of_ne hPid]
      exact h.connecting c' k hConn
  · intro q c' hq
    by_cases hPid : q = pid
    · simp [State.setPhase, hPid] at hq
    · simp only [State.setPhase, State.answer, Function.update_of_ne hPid]
        at hq
      rcases h.connected q c' hq with ⟨k, hConn, hDriver⟩
      obtain ⟨k', hAfter, hSame⟩ := exists_modify (c := c)
        (f := fun k => { k with toServer := k.toServer ++ pidBytes pid })
        (fun _ => rfl) hConn
      exact ⟨k', hAfter, hSame.trans hDriver⟩
  · intro c' k' hConn hPending
    rcases getElem?_modify_eq_some hConn with ⟨k, hBefore, rfl⟩
    have hPid := h.pid c' k hBefore hPending
    by_cases hc : c = c'
    · subst hc
      obtain rfl : k₀ = k := Option.some.inj (hConn₀.symm.trans hBefore)
      rw [hDriver₀, hPhase] at hPid
      simp only [reduceCtorEq, false_and, or_false, true_and] at hPid
      refine .inr ?_
      simp [State.setPhase, hDriver₀, hPid]
    · rw [if_neg hc]
      have hNe : k.driver ≠ pid := by
        rintro rfl
        rw [hPhase] at hPid
        simp [hc] at hPid
      simpa only [State.setPhase, State.answer, Function.update_of_ne hNe]
        using hPid
  · intro c' k' hConn hDriver'
    rcases hOld c' k' hConn with ⟨k, hConn, hDriver⟩
    have hOwn := h.own c' k hConn (hDriver ▸ hDriver')
    by_cases hPid : p = pid
    · subst hPid
      rw [hPhase] at hOwn
      simp only [DriverPhase.connected.injEq, reduceCtorEq, or_false] at hOwn
      exact .inr (by simp [State.setPhase, hOwn])
    · simpa only [State.setPhase, State.answer, Function.update_of_ne hPid]
        using hOwn

theorem Handshake.accept {p : Int32} {fd : Int} {c : Nat} {rest : List Nat}
    {s : State} (h : Handshake p s) (hQueue : s.acceptQueue = c :: rest) :
    Handshake p
      { s with
        handler := { s.handler with
          fds := Function.update s.handler.fds fd (some c) }
        handlerAt := .accepted fd
        acceptQueue := rest } := by
  have hNodup := h.nodup
  rw [hQueue, List.nodup_cons] at hNodup
  have hFront : c ∈ s.acceptQueue := hQueue ▸ List.mem_cons_self
  have hRest : ∀ c' ∈ rest, c' ∈ s.acceptQueue := fun c' hc' =>
    hQueue ▸ List.mem_cons_of_mem c hc'
  constructor
  · exact h.active
  · exact hNodup.2
  · exact fun c' hc' => h.queue c' (hRest c' hc')
  · intro fd' c' hFd
    rcases update_eq_some_cases hFd with ⟨-, hNew⟩ | ⟨-, hOld⟩
    · obtain rfl := Option.some.inj hNew
      exact ⟨h.queue c hFront, hNodup.1⟩
    · rcases h.fds fd' c' hOld with ⟨hLength, hNot⟩
      exact ⟨hLength, fun hMem => hNot (hRest c' hMem)⟩
  · exact h.connecting
  · exact h.connected
  · intro c' k hConn hPending
    refine h.pid c' k hConn (.inl ?_)
    rcases hPending with hMem | hReceiving
    · exact hRest c' hMem
    · simp only [State.receiving, Function.update_self,
        Option.some.injEq] at hReceiving
      exact hReceiving ▸ hFront
  · exact h.own

/-- After `recv`, whatever its outcome: the connection is not pending any more,
and the others are as they were. -/
theorem Handshake.recvPid {p : Int32} {fd : Int} {c : Nat}
    {f : Connection → Connection} {s next : State} (h : Handshake p s)
    (hFd : s.handler.fds fd = some c)
    (hDriver : ∀ k, (f k).driver = k.driver)
    (hConns : next.conns = s.conns.modify c f)
    (hQueue : next.acceptQueue = s.acceptQueue)
    (hAt : next.handlerAt = .waiting) (hProcs : next.procs = s.procs)
    (hFind : ∀ pid, findDriver next.handler.drivers pid =
      findDriver s.handler.drivers pid)
    (hFds : ∀ fd c, next.handler.fds fd = some c →
      s.handler.fds fd = some c) : Handshake p next := by
  have hOld : ∀ (c' : Nat) (k' : Connection), next.conns[c']? = some k' →
      ∃ k, s.conns[c']? = some k ∧ k'.driver = k.driver :=
    fun c' k' hConn => driver_of_modify hDriver (hConns ▸ hConn)
  constructor
  · rw [hFind]
    exact h.active
  · exact hQueue ▸ h.nodup
  · intro c' hc'
    rw [hConns, List.length_modify]
    exact h.queue c' (hQueue ▸ hc')
  · intro fd' c' hFd'
    rw [hConns, List.length_modify, hQueue]
    exact h.fds fd' c' (hFds fd' c' hFd')
  · intro c' k' hConn
    rcases hOld c' k' hConn with ⟨k, hBefore, hSame⟩
    rw [hSame, hProcs]
    exact h.connecting c' k hBefore
  · intro q c' hq
    rcases h.connected q c' (hProcs ▸ hq) with ⟨k, hBefore, hSame⟩
    rcases exists_modify (c := c) hDriver hBefore with ⟨k', hAfter, hSame'⟩
    exact ⟨k', hConns ▸ hAfter, hSame'.trans hSame⟩
  · intro c' k' hConn hPending
    have hMem : c' ∈ s.acceptQueue := by
      simpa [State.Pending, State.receiving, hAt, hQueue] using hPending
    have hc : c ≠ c' := by
      rintro rfl
      exact (h.fds fd c hFd).2 hMem
    rw [hConns] at hConn
    rcases getElem?_modify_eq_some hConn with ⟨k, hBefore, rfl⟩
    rw [if_neg hc, hProcs]
    exact h.pid c' k hBefore (.inl hMem)
  · intro c' k' hConn hp
    rcases hOld c' k' hConn with ⟨k, hBefore, hSame⟩
    rw [hProcs]
    exact h.own c' k hBefore (hSame ▸ hp)

/-- **The invariant is kept** by every step of the handshakes, whether the
handler closes the connection or not. -/
theorem Handshake.step {p : Int32} {s next : State} {a : Label}
    (h : Handshake p s) (hT : Handshaken s a next) : Handshake p next := by
  cases hT with
  | connect pid hPhase => exact h.connect hPhase
  | sendPid pid c hPhase => exact h.sendPid hPhase
  | accept fd c rest hWaiting hQueue hFree => exact h.accept hQueue
  | registers fd c i k hAt hFd hConn hSent hFound =>
      refine h.recvPid hFd ?_ rfl rfl rfl rfl ?_ fun _ _ hFd' => hFd'
      · intro k
        rfl
      · exact findDriver_modify s.handler.drivers i fd
  | closes fd c k f hAt hFd hConn hWhy hDriver hClosed =>
      refine h.recvPid hFd hDriver rfl rfl rfl rfl (fun _ => rfl) ?_
      intro fd' c' hFd'
      exact (update_none_eq_some hFd').2

/-! ## Registration -/

/-- Steps that neither close the driver's connections nor finish a handshake of
the driver.  A connection may be new, if it is pending then. -/
theorem KeepsDriver.frame {p : Int32} {s next : State} (h : KeepsDriver p s)
    (hConns : ∀ (c : Nat) (k' : Connection), next.conns[c]? = some k' →
      k'.driver = p →
        next.Pending c ∧ k'.serverOpen = true ∨
        ∃ k, s.conns[c]? = some k ∧ k.driver = p ∧
          k'.serverOpen = k.serverOpen ∧ (s.Pending c → next.Pending c))
    (hDrivers : next.handler.drivers = s.handler.drivers)
    (hFds : ∀ fd c, s.handler.fds fd = some c →
      next.handler.fds fd = some c) : KeepsDriver p next where
  serverOpen c k' hConn hDriver := by
    rcases hConns c k' hConn hDriver with ⟨-, hOpen⟩ |
      ⟨k, hBefore, hSame, hOpen, -⟩
    · exact hOpen
    · rw [hOpen]
      exact h.serverOpen c k hBefore hSame
  registered c k' hConn hDriver hDone := by
    rcases hConns c k' hConn hDriver with ⟨hPending, -⟩ |
      ⟨k, hBefore, hSame, -, hPending⟩
    · exact absurd hPending hDone
    · obtain ⟨i, d, hFound, hEntry, hFd⟩ :=
        h.registered c k hBefore hSame fun hBusy => hDone (hPending hBusy)
      exact ⟨i, d, hDrivers ▸ hFound, hDrivers ▸ hEntry, hFds _ _ hFd⟩

theorem KeepsDriver.connect {p pid : Int32} {s : State} (h : KeepsDriver p s) :
    KeepsDriver p
      ({ s with
        conns := s.conns ++ [Connection.new pid]
        acceptQueue := s.acceptQueue ++ [s.conns.length] }.setPhase pid
          (.connected s.conns.length)) := by
  refine h.frame (fun c k' hConn hDriver => ?_) rfl fun _ _ hFd => hFd
  rcases getElem?_concat_cases hConn with hOld | ⟨rfl, rfl⟩
  · refine .inr ⟨k', hOld, hDriver, rfl, fun hPending => ?_⟩
    exact hPending.imp_left fun hMem => List.mem_append_left _ hMem
  · exact .inl ⟨.inl (List.mem_append_right _ (List.mem_singleton_self _)),
      rfl⟩

theorem KeepsDriver.sendPid {p pid : Int32} {c : Nat} {s : State}
    (h : KeepsDriver p s) :
    KeepsDriver p
      ((s.answer c (pidBytes pid)).setPhase pid (.running c)) := by
  refine h.frame (fun c' k' hConn hDriver => ?_) rfl fun _ _ hFd => hFd
  rcases getElem?_modify_eq_some hConn with ⟨k, hBefore, rfl⟩
  by_cases hc : c = c'
  · simp only [if_pos hc] at hDriver ⊢
    exact .inr ⟨k, hBefore, hDriver, rfl, fun hPending => hPending⟩
  · simp only [if_neg hc] at hDriver ⊢
    exact .inr ⟨k, hBefore, hDriver, rfl, fun hPending => hPending⟩

theorem KeepsDriver.accept {p : Int32} {fd : Int} {c : Nat} {rest : List Nat}
    {s : State} (h : KeepsDriver p s) (hWaiting : s.handlerAt = .waiting)
    (hQueue : s.acceptQueue = c :: rest) (hFree : s.handler.fds fd = none) :
    KeepsDriver p
      { s with
        handler := { s.handler with
          fds := Function.update s.handler.fds fd (some c) }
        handlerAt := .accepted fd
        acceptQueue := rest } := by
  refine h.frame (fun c' k' hConn hDriver => ?_) rfl fun fd' c' hFd => ?_
  · refine .inr ⟨k', hConn, hDriver, rfl, fun hPending => ?_⟩
    simp only [State.Pending, State.receiving, hWaiting, hQueue,
      List.mem_cons, reduceCtorEq, or_false] at hPending
    rcases hPending with rfl | hMem
    · exact .inr (by simp [State.receiving])
    · exact .inl hMem
  · have hSame : fd' ≠ fd := by
      rintro rfl
      rw [hFree] at hFd
      contradiction
    simpa only [Function.update_of_ne hSame] using hFd

/-- What the handler receives from the driver of a connection, if it receives
anything, is that driver's pid. -/
theorem Handshake.received {p : Int32} {s : State} {c : Nat} {k : Connection}
    (h : Handshake p s) (hReceiving : s.receiving = some c)
    (hConn : s.conns[c]? = some k) (hSent : k.toServer ≠ []) :
    pidOf (k.toServer.take 4) = k.driver := by
  rcases h.pid c k hConn (.inr hReceiving) with ⟨-, hNone⟩ | ⟨-, hPid⟩
  · exact absurd hNone hSent
  · rw [hPid, take_pidBytes, pidOf_pidBytes]

/-- The connection whose pid is received is the driver's only one, so nothing
else can become registered in its place. -/
theorem Handshake.unique {p : Int32} {s : State} {c c' : Nat}
    {k k' : Connection} (h : Handshake p s) (hConn : s.conns[c]? = some k)
    (hConn' : s.conns[c']? = some k') (hDriver : k.driver = p)
    (hDriver' : k'.driver = p) : c' = c := by
  rcases h.own c k hConn hDriver with hPhase | hPhase
  · rcases h.own c' k' hConn' hDriver' with hPhase' | hPhase'
    · exact DriverPhase.connected.inj (hPhase'.symm.trans hPhase)
    · rw [hPhase] at hPhase'
      contradiction
  · rcases h.own c' k' hConn' hDriver' with hPhase' | hPhase'
    · rw [hPhase] at hPhase'
      contradiction
    · exact DriverPhase.running.inj (hPhase'.symm.trans hPhase)

theorem receiving_eq {s : State} {fd : Int} {c : Nat}
    (hAt : s.handlerAt = .accepted fd) (hFd : s.handler.fds fd = some c) :
    s.receiving = some c := by
  rw [State.receiving, hAt]
  exact hFd

/-- A connection other than the one just received was pending before, if it is
pending. -/
theorem not_pending_before {s : State} {c c' : Nat}
    (hReceiving : s.receiving = some c) (hc : c ≠ c')
    (hMem : c' ∉ s.acceptQueue) : ¬ s.Pending c' := by
  rintro (hQueue | hCurrent)
  · exact hMem hQueue
  · rw [hReceiving] at hCurrent
    exact hc (Option.some.inj hCurrent)

theorem KeepsDriver.registers {p : Int32} {s : State} {fd : Int} {c i : Nat}
    {k : Connection} (h : KeepsDriver p s) (hInv : Handshake p s)
    (hAt : s.handlerAt = .accepted fd) (hFd : s.handler.fds fd = some c)
    (hConn : s.conns[c]? = some k)
    (hFound : findDriver s.handler.drivers k.driver = some i) :
    KeepsDriver p
      { s with
        conns := s.conns.modify c fun k =>
          { k with toServer := k.toServer.drop 4 }
        handler := { s.handler with
          drivers := s.handler.drivers.modify i fun d =>
            { d with sockFd := fd } }
        handlerAt := .waiting } := by
  have hReceiving := receiving_eq hAt hFd
  constructor
  · intro c' k' hConn' hDriver
    rcases getElem?_modify_eq_some hConn' with ⟨k₀, hBefore, rfl⟩
    by_cases hc : c = c'
    · simp only [if_pos hc] at hDriver ⊢
      exact h.serverOpen c' k₀ hBefore hDriver
    · simp only [if_neg hc] at hDriver ⊢
      exact h.serverOpen c' k₀ hBefore hDriver
  · intro c' k' hConn' hDriver hDone
    obtain ⟨k₀, hBefore, hSame⟩ := driver_of_modify
      (f := fun k => { k with toServer := k.toServer.drop 4 })
      (fun _ => rfl) hConn'
    rw [hSame] at hDriver
    simp only [State.Pending, State.receiving, reduceCtorEq, or_false]
      at hDone
    simp only [findDriver_modify]
    by_cases hc : c = c'
    · subst hc
      obtain rfl : k = k₀ := Option.some.inj (hConn.symm.trans hBefore)
      rw [hDriver] at hFound
      rcases findDriver_eq_some hFound with ⟨d, hEntry, -⟩
      refine ⟨i, { d with sockFd := fd }, hFound, ?_, hFd⟩
      rw [List.getElem?_modify_eq, hEntry]
      rfl
    · obtain ⟨i', d, hFound', hEntry, hFd'⟩ := h.registered c' k₀ hBefore
        hDriver (not_pending_before hReceiving hc hDone)
      have hOther : k.driver ≠ p := fun hp =>
        hc (hInv.unique hConn hBefore hp hDriver).symm
      have hNe := findDriver_ne hFound' hFound hOther
      exact ⟨i', d, hFound', by rw [List.getElem?_modify_ne _ _ hNe, hEntry],
        hFd'⟩

theorem KeepsDriver.closes {p : Int32} {s : State} {fd : Int} {c : Nat}
    {k : Connection} {f : Connection → Connection} (h : KeepsDriver p s)
    (hAt : s.handlerAt = .accepted fd) (hFd : s.handler.fds fd = some c)
    (hConn : s.conns[c]? = some k) (hOther : k.driver ≠ p)
    (hDriver : ∀ k, (f k).driver = k.driver) :
    KeepsDriver p
      { s with
        conns := s.conns.modify c f
        handler := { s.handler with
          fds := Function.update s.handler.fds fd none }
        handlerAt := .waiting } := by
  have hReceiving := receiving_eq hAt hFd
  have hOld : ∀ (c' : Nat) (k' : Connection),
      (s.conns.modify c f)[c']? = some k' → k'.driver = p →
        c ≠ c' ∧ s.conns[c']? = some k' := by
    intro c' k' hConn' hDriver'
    rcases getElem?_modify_eq_some hConn' with ⟨k₀, hBefore, rfl⟩
    by_cases hc : c = c'
    · subst hc
      obtain rfl : k = k₀ := Option.some.inj (hConn.symm.trans hBefore)
      rw [if_pos rfl, hDriver] at hDriver'
      exact absurd hDriver' hOther
    · exact ⟨hc, by rw [if_neg hc, hBefore]⟩
  constructor
  · intro c' k' hConn' hDriver'
    rcases hOld c' k' hConn' hDriver' with ⟨-, hBefore⟩
    exact h.serverOpen c' k' hBefore hDriver'
  · intro c' k' hConn' hDriver' hDone
    rcases hOld c' k' hConn' hDriver' with ⟨hc, hBefore⟩
    simp only [State.Pending, State.receiving, reduceCtorEq, or_false]
      at hDone
    obtain ⟨i, d, hFound, hEntry, hFd'⟩ := h.registered c' k' hBefore
      hDriver' (not_pending_before hReceiving hc hDone)
    refine ⟨i, d, hFound, hEntry, ?_⟩
    have hNe : d.sockFd ≠ fd := by
      intro hSame
      rw [hSame, hFd] at hFd'
      exact hc (Option.some.inj hFd')
    simpa only [Function.update_of_ne hNe] using hFd'

theorem pidArrived_recvPid {p : Int32} {s : State} {c : Nat} {k : Connection}
    (hReceiving : s.receiving = some c) (hConn : s.conns[c]? = some k) :
    PidArrived p s .recvPid ↔ (k.driver = p → k.toServer ≠ []) := by
  constructor
  · intro h hDriver
    exact h c hReceiving k hConn hDriver
  · intro h c' hReceiving' k' hConn' hDriver
    obtain rfl : c = c' := Option.some.inj (hReceiving.symm.trans hReceiving')
    obtain rfl : k = k' := Option.some.inj (hConn.symm.trans hConn')
    exact h hDriver

/-- One step keeps the driver exactly if it meets the guard.  Only `recv` on
the driver's connection can fail to; with nothing there the handler closes the
connection, and with the pid there it finds the entry. -/
theorem Handshake.keepsDriver_step {p : Int32} {s next : State} {a : Label}
    (hInv : Handshake p s) (h : KeepsDriver p s)
    (hT : Handshaken s a next) : KeepsDriver p next ↔ PidArrived p s a := by
  cases hT with
  | connect pid hPhase => exact iff_of_true h.connect trivial
  | sendPid pid c hPhase => exact iff_of_true h.sendPid trivial
  | accept fd c rest hWaiting hQueue hFree =>
      exact iff_of_true (h.accept hWaiting hQueue hFree) trivial
  | registers fd c i k hAt hFd hConn hSent hFound =>
      have hReceiving := receiving_eq hAt hFd
      rw [hInv.received hReceiving hConn hSent] at hFound
      exact iff_of_true (h.registers hInv hAt hFd hConn hFound)
        ((pidArrived_recvPid hReceiving hConn).mpr fun _ => hSent)
  | closes fd c k f hAt hFd hConn hWhy hDriver hClosed =>
      have hReceiving := receiving_eq hAt hFd
      rw [pidArrived_recvPid hReceiving hConn]
      by_cases hOwn : k.driver = p
      · have hSilent : k.toServer = [] := by
          refine Classical.byContradiction fun hSent => ?_
          rcases hInv.active with ⟨i, hActive⟩
          rw [hInv.received hReceiving hConn hSent, hOwn, hActive] at hWhy
          simp [hSent] at hWhy
        refine iff_of_false (fun hKeeps => ?_) fun hSent =>
          hSent hOwn hSilent
        have hOpen := hKeeps.serverOpen c (f k)
          (by simp [hConn]) ((hDriver k).trans hOwn)
        rw [hClosed] at hOpen
        contradiction
      · exact iff_of_true (h.closes hAt hFd hConn hOwn hDriver)
          fun hSame => absurd hSame hOwn

theorem BeforeHandshakes.keepsDriver {p : Int32} {s : State}
    (h : BeforeHandshakes p s) : KeepsDriver p s where
  serverOpen c k hConn hDriver := absurd hDriver (h.drivers c k hConn).1
  registered c k hConn hDriver := absurd hDriver (h.drivers c k hConn).1

/-- **Handshake.**  Whatever else happens, the handler keeps the driver's
connection and registers the driver for it if and only if it never receives
before the driver has sent. -/
theorem keepsDriver_iff {p : Int32} {s last : State} {as : List Label}
    (hBefore : (handshakes p).init s)
    (hRun : (handshakes p).run s as = some last) :
    (handshakes p).EachState (KeepsDriver p) s as ↔
      (handshakes p).EachStep (PidArrived p) s as :=
  Machine.eachState_iff_eachStep (I := Handshake p)
    (fun _ _ _ h hStep => h.step (step_handshaken hStep))
    (fun _ _ _ hInv h hStep => hInv.keepsDriver_step h (step_handshaken hStep))
    hBefore.handshake hBefore.keepsDriver hRun

/-- A table with one driver, which is about to connect. -/
def State.oneDriver (pid : Int32) : State :=
  { State.start with
    handler := { State.start.handler with drivers := [createDriver pid] }
    procs := Function.update State.start.procs pid .connecting }

theorem oneDriver_beforeHandshakes :
    BeforeHandshakes 7 (State.oneDriver 7) where
  active := ⟨0, rfl⟩
  waiting := rfl
  queue := rfl
  fds fd c hFd := by simp [State.oneDriver, State.start, Process.start] at hFd
  connected pid c hPhase := by
    by_cases hPid : pid = 7
    · simp [State.oneDriver, hPid] at hPhase
    · simp [State.oneDriver, State.start, Function.update_of_ne hPid] at hPhase
  drivers c k hConn := by simp [State.oneDriver, State.start] at hConn

/-- The driver connects and sends its pid before the handler accepts. -/
theorem keepsDriver_iff_inTime :
    (handshakes 7).EachState (KeepsDriver 7) (State.oneDriver 7)
      [.connect 7, .sendPid 7, .accept 5, .recvPid] := by
  obtain ⟨last, hRun⟩ := Option.isSome_iff_exists.mp
    (show ((handshakes 7).run (State.oneDriver 7)
      [.connect 7, .sendPid 7, .accept 5, .recvPid]).isSome = true by decide)
  exact (keepsDriver_iff oneDriver_beforeHandshakes hRun).mpr (by decide)

/-- The handler accepts between the driver's `connect` and its `send`, and
closes the connection. -/
theorem early_accept_rejects_driver :
    ¬ ∀ p s, (handshakes p).Reachable s → KeepsDriver p s := by
  intro hAll
  have hRun : (((handshakes 7).run (State.oneDriver 7)
      [.connect 7, .accept 5, .recvPid]).any fun s =>
        s.conns[0]?.any fun k => k.driver = 7 && !k.serverOpen) = true := by
    decide
  obtain ⟨s, hReach, hClosed⟩ := Machine.exists_reachable_of_run
    oneDriver_beforeHandshakes hRun
  rcases (Option.any_eq_true _ _).mp hClosed with ⟨k, hConn, hk⟩
  simp only [Bool.and_eq_true, decide_eq_true_eq, Bool.not_eq_true'] at hk
  have hOpen := (hAll 7 s hReach).serverOpen 0 k hConn hk.1
  rw [hk.2] at hOpen
  contradiction

end UnixHomework.Ports.DriverManager
