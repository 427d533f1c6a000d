import UnixHomework.Ports.DriverEpoll
import UnixHomework.Verified.Table

/-!
# The handler's descriptors

`find_driver_by_fd` looks a descriptor up in the table, where `accept` has
never put it: it gets there when the pid is received, together with its place
in the epoll set, and leaves the table when it is closed.  So a descriptor in
the table is open and watched, and stands in one entry (`Wired`).

The table is written in two spots only, when a pid is received and when a
driver has disconnected; `Wired.setSock` is about both.  `Wired.close` is about
the `close` of a descriptor that no entry has, and `Wired.frame` about the
steps that leave the table, the descriptors and the epoll set alone.  A number
that has been closed may be returned by the next `accept`; as no entry has it
any more, this does no harm.
-/

namespace UnixHomework.Ports.DriverEpoll

open UnixHomework.Verified
open UnixHomework.Ports.DriverManager
  (Driver findDriver findDriverByFd pidOf pidBytes bufSize createDriver)

/-- The connection is in the epoll set: `epoll_ctl` has added the socket and
`close` has not taken it out again.  Only such a connection raises an edge. -/
def State.Watches (s : State) (c : Nat) : Prop :=
  ∃ k, s.channels[c]? = some k ∧ k.watched = true

/-- A descriptor in the table is open, is in the epoll set, and is in one
entry.  With this a report for a descriptor leads to the one driver whose
connection it is, and a driver in the table never waits for an edge that cannot
come. -/
structure Wired (s : State) : Prop where
  /-- `recv_len` is 0 between two events: every message is handled in the event
  that received it. -/
  recvLen : ∀ d ∈ s.drivers, d.recvLen = 0
  /-- The socket of an entry is open and watched. -/
  socks : ∀ d ∈ s.drivers, 0 ≤ d.sockFd →
    ∃ c, s.fds d.sockFd = some c ∧ s.Watches c
  /-- No two entries have the same socket, so `find_driver_by_fd` finds the only
  one. -/
  distinct : ∀ (i j : Nat) (d d' : Driver), s.drivers[i]? = some d →
    s.drivers[j]? = some d' → 0 ≤ d.sockFd → d.sockFd = d'.sockFd → i = j
  /-- The socket just accepted is in no entry before its pid is received. -/
  unclaimed : ∀ fd, s.phase = .accepted fd → ∀ d ∈ s.drivers, d.sockFd ≠ fd
  /-- An open descriptor is not negative, and refers to a connection that has
  been accepted. -/
  fds : ∀ fd c, s.fds fd = some c →
    0 ≤ fd ∧ c < s.channels.length ∧ c ∉ s.acceptQueue
  /-- Two descriptors never refer to one connection. -/
  injective : ∀ fd fd' c, s.fds fd = some c → s.fds fd' = some c → fd = fd'
  /-- What waits to be accepted are connections that exist. -/
  queue : ∀ c ∈ s.acceptQueue, c < s.channels.length
  /-- A connection waits to be accepted once. -/
  queueNodup : s.acceptQueue.Nodup
  /-- `epoll_wait` reports a descriptor at most once at a time. -/
  batchNodup : s.batch.Nodup

theorem Initial.wired {s : State} (h : Initial s) : Wired s where
  recvLen d hd := (h.drivers d hd).2
  socks d hd hSock := by
    rw [(h.drivers d hd).1] at hSock
    contradiction
  distinct i j d d' hEntry _ hSock := by
    rw [(h.drivers d (List.mem_of_getElem? hEntry)).1] at hSock
    contradiction
  unclaimed fd hPhase := by
    rw [h.phase] at hPhase
    contradiction
  fds fd c hFd := by
    rw [h.fds] at hFd
    contradiction
  injective fd fd' c hFd := by
    rw [h.fds] at hFd
    contradiction
  queue := by simp [h.acceptQueue]
  queueNodup := by simp [h.acceptQueue]
  batchNodup := by simp [h.batch]

/-- A step that leaves the table, the descriptors and the epoll set as they
are.  It may add edges, bytes to read and reports, as the steps of the clients
and `epoll_wait` do. -/
theorem Wired.frame {s next : State} (h : Wired s)
    (hDrivers : next.drivers = s.drivers) (hFds : next.fds = s.fds)
    (hQueue : next.acceptQueue = s.acceptQueue)
    (hPhase : next.phase = s.phase)
    (hLength : next.channels.length = s.channels.length)
    (hWatches : ∀ c, s.Watches c → next.Watches c)
    (hBatch : next.batch.Nodup) : Wired next where
  recvLen := hDrivers ▸ h.recvLen
  socks d hd hSock := by
    obtain ⟨c, hFd, hWatch⟩ := h.socks d (hDrivers ▸ hd) hSock
    exact ⟨c, hFds ▸ hFd, hWatches c hWatch⟩
  distinct := hDrivers ▸ h.distinct
  unclaimed := by
    rw [hPhase, hDrivers]
    exact h.unclaimed
  fds := by
    rw [hFds, hLength, hQueue]
    exact h.fds
  injective := hFds ▸ h.injective
  queue := by
    rw [hLength, hQueue]
    exact h.queue
  queueNodup := hQueue ▸ h.queueNodup
  batchNodup := hBatch

/-- Changing a connection inside the epoll set or outside of it.  The one
changed must stay in the set if it was there; all others are not touched. -/
theorem watches_modify {s : State} {c c' : Nat} {f : Channel → Channel}
    (hWatched : c = c' → ∀ k, k.watched = true → (f k).watched = true)
    (h : s.Watches c') : (s.modifyChannel c f).Watches c' := by
  obtain ⟨k, hChannel, hWatch⟩ := h
  refine ⟨_, getElem?_modify_of_some hChannel, ?_⟩
  by_cases hc : c = c'
  · rw [if_pos hc]
    exact hWatched hc k hWatch
  · rw [if_neg hc]
    exact hWatch

theorem findDriverByFd_eq_some {drivers : List Driver} {fd : Int} {i : Nat}
    (h : findDriverByFd drivers fd = some i) :
    ∃ d, drivers[i]? = some d ∧ d.active = true ∧ d.sockFd = fd := by
  obtain ⟨hi, hFound, -⟩ := List.findIdx?_eq_some_iff_getElem.mp h
  simp only [Bool.and_eq_true, decide_eq_true_eq] at hFound
  exact ⟨drivers[i], List.getElem?_eq_getElem hi, hFound⟩

theorem findDriverByFd_ne_none {drivers : List Driver} {fd : Int}
    (h : ∃ d ∈ drivers, d.active = true ∧ d.sockFd = fd) :
    findDriverByFd drivers fd ≠ none := by
  obtain ⟨d, hd, hActive, hSock⟩ := h
  rw [findDriverByFd, Ne, List.findIdx?_eq_none_iff]
  intro hNone
  simpa [hActive, hSock] using hNone d hd

/-- An entry gives up its descriptor, or takes one that no other entry has.
The two places of the source that write `sock_fd` are the receipt of a pid,
with a socket just added to the set, and the disconnection, with -1. -/
theorem Wired.setSock {s : State} {index : Nat} {fd : Int} (h : Wired s)
    (hSock : 0 ≤ fd → (∃ c, s.fds fd = some c ∧ s.Watches c) ∧
      ∀ d ∈ s.drivers, d.sockFd ≠ fd)
    (hPhase : s.phase = .looping) : Wired (s.setSock index fd) where
  recvLen d hd := by
    rcases mem_modify_cases hd with hOld | ⟨d₀, hOld, rfl⟩
    · exact h.recvLen d hOld
    · exact h.recvLen d₀ hOld
  socks d hd hd' := by
    rcases mem_modify_cases hd with hOld | ⟨d₀, hOld, rfl⟩
    · exact h.socks d hOld hd'
    · exact (hSock hd').1
  distinct i j d d' hd hd' hPos hSame := by
    obtain ⟨d₀, hEntry, rfl⟩ := getElem?_modify_eq_some hd
    obtain ⟨d₀', hEntry', rfl⟩ := getElem?_modify_eq_some hd'
    by_cases hi : index = i
    · by_cases hj : index = j
      · exact hi.symm.trans hj
      · simp only [if_pos hi, if_neg hj] at hPos hSame
        have hOther := (hSock hPos).2 d₀' (List.mem_of_getElem? hEntry')
        exact absurd hSame.symm hOther
    · by_cases hj : index = j
      · simp only [if_neg hi, if_pos hj] at hPos hSame
        have hOther := (hSock (hSame ▸ hPos)).2 d₀
          (List.mem_of_getElem? hEntry)
        exact absurd hSame hOther
      · simp only [if_neg hi, if_neg hj] at hPos hSame
        exact h.distinct i j d₀ d₀' hEntry hEntry' hPos hSame
  unclaimed fd' hAccepted := by
    have hNot : s.phase = .accepted fd' := hAccepted
    rw [hPhase] at hNot
    contradiction
  fds := h.fds
  injective := h.injective
  queue := h.queue
  queueNodup := h.queueNodup
  batchNodup := h.batchNodup

/-- Closing a descriptor that no entry has.  The number is free again, and the
next `accept` may return it: the entries cannot be taken in by that, because
none of them holds it. -/
theorem Wired.close {s next : State} {fd : Int} {c : Nat}
    {f : Channel → Channel} (h : Wired s) (hFd : s.fds fd = some c)
    (hUnclaimed : ∀ d ∈ s.drivers, d.sockFd ≠ fd)
    (hDrivers : next.drivers = s.drivers)
    (hFds : next.fds = Function.update s.fds fd none)
    (hChannels : next.channels = s.channels.modify c f)
    (hQueue : next.acceptQueue = s.acceptQueue)
    (hPhase : next.phase = .looping) (hBatch : next.batch = s.batch) :
    Wired next := by
  have hOld : ∀ fd' c', next.fds fd' = some c' →
      fd' ≠ fd ∧ s.fds fd' = some c' := by
    intro fd' c' hFd'
    rw [hFds] at hFd'
    exact update_none_eq_some hFd'
  have hLength : next.channels.length = s.channels.length := by
    rw [hChannels, List.length_modify]
  constructor
  · exact hDrivers ▸ h.recvLen
  · intro d hd hSock
    rw [hDrivers] at hd
    obtain ⟨c', hFd', hWatch⟩ := h.socks d hd hSock
    refine ⟨c', ?_, ?_⟩
    · rw [hFds, Function.update_of_ne (hUnclaimed d hd)]
      exact hFd'
    · have hc : c ≠ c' := by
        rintro rfl
        exact hUnclaimed d hd (h.injective _ _ c hFd' hFd)
      have hAfter := watches_modify (f := f) (fun hEq => absurd hEq hc) hWatch
      unfold State.Watches at hAfter ⊢
      rw [hChannels]
      exact hAfter
  · exact hDrivers ▸ h.distinct
  · intro fd' hAccepted
    rw [hPhase] at hAccepted
    contradiction
  · intro fd' c' hFd'
    rw [hLength, hQueue]
    exact h.fds fd' c' (hOld fd' c' hFd').2
  · intro fd' fd'' c' hFd' hFd''
    exact h.injective fd' fd'' c' (hOld fd' c' hFd').2 (hOld fd'' c' hFd'').2
  · rw [hLength, hQueue]
    exact h.queue
  · exact hQueue ▸ h.queueNodup
  · exact hBatch ▸ h.batchNodup

theorem Wired.accepts {s next : State} {fd : Int} {c : Nat}
    {queue : List Nat} (h : Wired s) (hQueue : s.acceptQueue = c :: queue)
    (hPos : 0 ≤ fd) (hFree : s.fds fd = none)
    (hDrivers : next.drivers = s.drivers)
    (hFds : next.fds = Function.update s.fds fd (some c))
    (hChannels : next.channels = s.channels)
    (hQueue' : next.acceptQueue = queue) (hPhase : next.phase = .accepted fd)
    (hBatch : next.batch.Nodup) : Wired next := by
  have hNodup := h.queueNodup
  rw [hQueue, List.nodup_cons] at hNodup
  have hFront : c ∈ s.acceptQueue := hQueue ▸ List.mem_cons_self
  have hRest : ∀ c' ∈ queue, c' ∈ s.acceptQueue := fun c' hc' =>
    hQueue ▸ List.mem_cons_of_mem c hc'
  have hUnclaimed : ∀ d ∈ s.drivers, d.sockFd ≠ fd := by
    rintro d hd rfl
    obtain ⟨c', hFd', -⟩ := h.socks d hd hPos
    rw [hFree] at hFd'
    contradiction
  have hOld : ∀ fd' c', next.fds fd' = some c' →
      fd' = fd ∧ c' = c ∨ fd' ≠ fd ∧ s.fds fd' = some c' := by
    intro fd' c' hFd'
    rw [hFds] at hFd'
    rcases update_eq_some_cases hFd' with ⟨hSame, hNew⟩ | hBefore
    · exact .inl ⟨hSame, (Option.some.inj hNew).symm⟩
    · exact .inr hBefore
  constructor
  · exact hDrivers ▸ h.recvLen
  · intro d hd hSock
    rw [hDrivers] at hd
    obtain ⟨c', hFd', hWatch⟩ := h.socks d hd hSock
    refine ⟨c', ?_, ?_⟩
    · rw [hFds, Function.update_of_ne (hUnclaimed d hd)]
      exact hFd'
    · unfold State.Watches at hWatch ⊢
      rw [hChannels]
      exact hWatch
  · exact hDrivers ▸ h.distinct
  · intro fd' hAccepted
    rw [hPhase, Phase.accepted.injEq] at hAccepted
    rw [hDrivers, ← hAccepted]
    exact hUnclaimed
  · intro fd' c' hFd'
    rw [hChannels, hQueue']
    rcases hOld fd' c' hFd' with ⟨rfl, rfl⟩ | ⟨-, hBefore⟩
    · exact ⟨hPos, h.queue c' hFront, hNodup.1⟩
    · obtain ⟨hPos', hLength, hNot⟩ := h.fds fd' c' hBefore
      exact ⟨hPos', hLength, fun hMem => hNot (hRest c' hMem)⟩
  · intro fd' fd'' c' hFd' hFd''
    rcases hOld fd' c' hFd' with ⟨rfl, rfl⟩ | ⟨-, hBefore⟩
    · rcases hOld fd'' c' hFd'' with ⟨rfl, -⟩ | ⟨-, hBefore'⟩
      · rfl
      · exact absurd hFront (h.fds fd'' c' hBefore').2.2
    · rcases hOld fd'' c' hFd'' with ⟨rfl, rfl⟩ | ⟨-, hBefore'⟩
      · exact absurd hFront (h.fds fd' c' hBefore).2.2
      · exact h.injective fd' fd'' c' hBefore hBefore'
  · rw [hChannels, hQueue']
    exact fun c' hc' => h.queue c' (hRest c' hc')
  · exact hQueue' ▸ hNodup.2
  · exact hBatch

/-- One `recv`, from a driver whose buffer is empty: it takes what there is up
to the size of the buffer, or finds the peer gone and disconnects, or finds
nothing (`EAGAIN`) and changes nothing. -/
theorem receiveData_cases {s : State} {index : Nat} {d : Driver} (fd : Int)
    (c : Nat) (k : Channel) (hEntry : s.drivers[index]? = some d)
    (hLen : d.recvLen = 0) :
    (k.unread ≠ [] ∧ s.receiveData index d fd c k =
        s.modifyChannel c fun k' =>
          { k' with
            unread := k'.unread.drop (min k.unread.length (bufSize - 1)) }) ∨
      (k.unread = [] ∧
        s.receiveData index d fd c k = s.disconnect fd index c) ∨
      (k.unread = [] ∧ s.receiveData index d fd c k = s) := by
  have hSame : s.drivers.modify index (fun d => { d with recvLen := 0 }) =
      s.drivers := by
    refine modify_eq_self hEntry ?_
    rw [← hLen]
  unfold State.receiveData
  simp only [hLen, Nat.sub_zero, hSame]
  by_cases hUnread : k.unread = []
  · have hNothing : ¬ 0 < min k.unread.length (bufSize - 1) := by
      simp [hUnread]
    rw [if_neg hNothing]
    by_cases hReadable : k.readable = true
    · rw [if_pos hReadable]
      exact .inr (.inl ⟨hUnread, rfl⟩)
    · rw [if_neg hReadable]
      exact .inr (.inr ⟨hUnread, rfl⟩)
  · have hSome : 0 < min k.unread.length (bufSize - 1) := by
      have hLength := List.length_pos_iff.mpr hUnread
      simp only [bufSize]
      omega
    rw [if_pos hSome]
    exact .inl ⟨hUnread, rfl⟩

theorem Wired.modifyChannel {s : State} {c : Nat} {f : Channel → Channel}
    (h : Wired s) (hWatched : ∀ k, k.watched = true → (f k).watched = true) :
    Wired (s.modifyChannel c f) :=
  h.frame rfl rfl rfl rfl (List.length_modify ..)
    (fun _ => watches_modify fun _ => hWatched) h.batchNodup

theorem Wired.withBatch {s : State} {rest : List Event} (h : Wired s)
    (hNodup : rest.Nodup) : Wired { s with batch := rest } :=
  h.frame rfl rfl rfl rfl rfl (fun _ hWatch => hWatch) hNodup

/-- After the entry has given up its descriptor, no entry has it, since no
other entry had it before.  This is what `close` needs next. -/
theorem Wired.sockFd_ne {s : State} {index : Nat} {fd : Int} {d : Driver}
    (h : Wired s) (hEntry : s.drivers[index]? = some d)
    (hSock : d.sockFd = fd) (hPos : 0 ≤ fd) :
    ∀ d' ∈ (s.setSock index (-1)).drivers, d'.sockFd ≠ fd := by
  intro d' hd'
  obtain ⟨j, hj⟩ := List.mem_iff_getElem?.mp hd'
  obtain ⟨d₀, hEntry', rfl⟩ := getElem?_modify_eq_some hj
  by_cases hi : index = j
  · simp only [if_pos hi]
    omega
  · simp only [if_neg hi]
    intro hSame
    exact hi (h.distinct index j d d₀ hEntry hEntry' (hSock ▸ hPos)
      (hSock.trans hSame.symm))

theorem Wired.disconnect {s : State} {index c : Nat} {fd : Int} {d : Driver}
    (h : Wired s) (hFd : s.fds fd = some c)
    (hEntry : s.drivers[index]? = some d) (hSock : d.sockFd = fd)
    (hPhase : s.phase = .looping) : Wired (s.disconnect fd index c) := by
  have hPos := (h.fds fd c hFd).1
  have hGone : Wired (s.setSock index (-1)) :=
    h.setSock (fun hNeg => absurd hNeg (by decide)) hPhase
  exact hGone.close hFd (h.sockFd_ne hEntry hSock hPos) rfl rfl rfl rfl
    hPhase rfl

theorem Wired.receiveData {s : State} {index c : Nat} {fd : Int} {d : Driver}
    {k : Channel} (h : Wired s) (hPhase : s.phase = .looping)
    (hEntry : s.drivers[index]? = some d) (hSock : d.sockFd = fd)
    (hFd : s.fds fd = some c) : Wired (s.receiveData index d fd c k) := by
  have hLen := h.recvLen d (List.mem_of_getElem? hEntry)
  rcases receiveData_cases fd c k hEntry hLen with
    ⟨-, hNext⟩ | ⟨-, hNext⟩ | ⟨-, hNext⟩
  · rw [hNext]
    exact h.modifyChannel fun _ hWatched => hWatched
  · rw [hNext]
    exact h.disconnect hFd hEntry hSock hPhase
  · rw [hNext]
    exact h

theorem Wired.registers {s : State} {fd : Int} {c index : Nat} {k : Channel}
    (h : Wired s) (hPhase : s.phase = .accepted fd) (hFd : s.fds fd = some c)
    (hChannel : s.channels[c]? = some k) :
    Wired
      { ((s.modifyChannel c fun k =>
          { k with unread := k.unread.drop 4 }).setSock index fd).addToEpoll
            c with
        phase := .looping } := by
  let f : Channel → Channel := fun k =>
    let k := { k with unread := k.unread.drop 4 }
    { k with watched := true, edge := k.readable }
  have hMarked : Wired (s.modifyChannel c f) :=
    h.modifyChannel fun _ _ => rfl
  have hWatched : Wired ({ s with phase := .looping }.modifyChannel c f) :=
    { hMarked with
      unclaimed := fun fd' hAccepted => Phase.noConfusion hAccepted }
  have hSet : Wired (({ s with phase := .looping }.modifyChannel c f).setSock
      index fd) :=
    hWatched.setSock (fun _ =>
      ⟨⟨c, hFd, f k, by simp [State.modifyChannel, hChannel], rfl⟩,
        h.unclaimed fd hPhase⟩) rfl
  have hEq : { ((s.modifyChannel c fun k =>
      { k with unread := k.unread.drop 4 }).setSock index fd).addToEpoll
        c with phase := Phase.looping } =
      ({ s with phase := .looping }.modifyChannel c f).setSock index fd := by
    simp only [State.addToEpoll, State.setSock, State.modifyChannel,
      List.modify_modify_eq]
    rfl
  rw [hEq]
  exact hSet

theorem watches_report {s : State} {events : List Event} {c : Nat}
    (h : s.Watches c) : (s.report events).Watches c := by
  obtain ⟨k, hChannel, hWatched⟩ := h
  have hAfter : (s.report events).channels[c]? = some { k with
      edge := k.edge && !events.any fun e => e.channel s.fds = some c } := by
    simp [State.report, hChannel]
  exact ⟨_, hAfter, hWatched⟩

theorem Wired.step {s next : State} {a : Label} (h : Wired s)
    (hT : Transition s a next) : Wired next := by
  cases hT with
  | connect =>
      constructor
      · exact h.recvLen
      · intro d hd hSock
        obtain ⟨c, hFd, k, hChannel, hWatched⟩ := h.socks d hd hSock
        refine ⟨c, hFd, k, ?_, hWatched⟩
        rw [List.getElem?_append_left (h.fds _ c hFd).2.1]
        exact hChannel
      · exact h.distinct
      · exact h.unclaimed
      · intro fd c hFd
        obtain ⟨hPos, hLength, hNot⟩ := h.fds fd c hFd
        simp only [List.length_append, List.length_singleton, List.mem_append,
          List.mem_singleton]
        exact ⟨hPos, by omega, fun hMem => hMem.elim hNot (by omega)⟩
      · exact h.injective
      · intro c hc
        simp only [List.length_append, List.length_singleton, List.mem_append,
          List.mem_singleton] at hc ⊢
        rcases hc with hc | rfl
        · have := h.queue c hc
          omega
        · omega
      · refine List.nodup_append.mpr ⟨h.queueNodup, by simp, ?_⟩
        rintro c hc c' hc' rfl
        rw [List.mem_singleton] at hc'
        exact absurd (h.queue c hc) (by omega)
      · exact h.batchNodup
  | send c bytes => exact h.modifyChannel fun _ hWatched => hWatched
  | close c => exact h.modifyChannel fun _ hWatched => hWatched
  | wait events hPhase hBatch hNodup =>
      exact h.frame rfl rfl rfl rfl (by simp [State.report])
        (fun _ => watches_report) hNodup
  | acceptsNone fd rest hBatch hQueue | ignores fd fd' rest hBatch =>
      have hNodup := h.batchNodup
      rw [hBatch, List.nodup_cons] at hNodup
      exact h.withBatch hNodup.2
  | accepts fd rest c queue hBatch hQueue hPos hFree =>
      have hNodup := h.batchNodup
      rw [hBatch, List.nodup_cons] at hNodup
      exact h.accepts hQueue hPos hFree rfl rfl rfl rfl rfl hNodup.2
  | handles fd fd' rest index d c k hPhase hBatch hFound hEntry hFd =>
      have hNodup := h.batchNodup
      rw [hBatch, List.nodup_cons] at hNodup
      obtain ⟨d', hEntry', -, hSock⟩ := findDriverByFd_eq_some hFound
      obtain rfl : d = d' := Option.some.inj (hEntry.symm.trans hEntry')
      exact (h.withBatch hNodup.2).receiveData hPhase hEntry hSock hFd
  | registers fd c index k hPhase hFd hChannel =>
      exact h.registers hPhase hFd hChannel
  | rejects fd c f hPhase hFd =>
      exact h.close hFd (h.unclaimed fd hPhase) rfl rfl rfl rfl rfl rfl

end UnixHomework.Ports.DriverEpoll
