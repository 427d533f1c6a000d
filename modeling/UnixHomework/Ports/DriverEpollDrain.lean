import UnixHomework.Ports.DriverEpollTable

/-!
# What the event loop leaves behind

Between two calls of `epoll_wait` an edge becomes a report and a report
becomes one `accept` or one `recv`.  `Kept` follows what waits through these
stages: it has an edge, or a report to come.  A step keeps that if and only if
the report it handles is drained, so a run keeps it if and only if all its
reports are (`kept_iff_drains`); and where the reports are used up, `Kept` is
what the handler needs before it waits again (`drained_of_drains`).

The stages differ for the two kinds of report.  One on the server's socket
leads to one `accept`, however many drivers have connected, and one on a
driver's socket to one `recv` into the free part of its buffer.  So a report
drains its socket exactly if one connection waits at most, or if what there is
to read fits; or it need not, because a new edge has come in the meantime.
-/

namespace UnixHomework.Ports.DriverEpoll

open UnixHomework.Verified
open UnixHomework.Ports.DriverManager
  (Driver findDriver findDriverByFd pidOf pidBytes bufSize createDriver)

/-- What waits on a descriptor has an edge there, or a report that the handler
has still to go through.  Unlike `Drained`, which speaks of the moment before
`epoll_wait`, this is meant to hold between any two steps. -/
structure Kept (s : State) : Prop where
  /-- While connections wait to be accepted, the server socket has an edge or
  its report is still in the batch. -/
  connections : s.acceptQueue ≠ [] →
    s.serverEdge = true ∨ .server ∈ s.batch
  /-- The same of a registered connection with bytes to read. -/
  data : ∀ fd c k, s.Registered fd c → s.channels[c]? = some k →
    k.unread ≠ [] → k.edge = true ∨ .data fd ∈ s.batch

theorem Kept.drained {s : State} (h : Kept s) (hWait : s.AboutToWait) :
    Drained s where
  connections hQueue := by
    have hKept := h.connections hQueue
    rw [hWait.2] at hKept
    exact hKept.resolve_right List.not_mem_nil
  data fd c k hRegistered hChannel hUnread := by
    have hKept := h.data fd c k hRegistered hChannel hUnread
    rw [hWait.2] at hKept
    exact hKept.resolve_right List.not_mem_nil

theorem Initial.kept {s : State} (h : Initial s) : Kept s where
  connections hQueue := absurd h.acceptQueue hQueue
  data fd c k hRegistered := by
    have hFd := hRegistered.2
    rw [h.fds] at hFd
    contradiction

theorem Wired.watches {s : State} {fd : Int} {c : Nat} (h : Wired s)
    (hRegistered : s.Registered fd c) : s.Watches c := by
  obtain ⟨⟨d, hd, -, rfl⟩, hFd⟩ := hRegistered
  obtain ⟨c', hFd', hWatch⟩ := h.socks d hd (h.fds _ c hFd).1
  obtain rfl : c = c' := Option.some.inj (hFd.symm.trans hFd')
  exact hWatch

/-- A connection that is as it was, or has less to read and no fewer edges.
Whatever waits there after the step waited there before, and what kept it then
keeps it now. -/
def Carried (s next : State) (fd : Int) (c : Nat) (k' : Channel) : Prop :=
  ∃ k, s.Registered fd c ∧ s.channels[c]? = some k ∧
    (k'.unread ≠ [] → k.unread ≠ []) ∧ (k.edge = true → k'.edge = true) ∧
    (.data fd ∈ s.batch → k'.unread ≠ [] → .data fd ∈ next.batch)

theorem Kept.frame {s next : State} (h : Kept s)
    (hConnections : next.acceptQueue ≠ [] →
      next.serverEdge = true ∨ .server ∈ next.batch)
    (hData : ∀ fd c k', next.Registered fd c → next.channels[c]? = some k' →
      k'.unread ≠ [] → k'.edge = true ∨ Carried s next fd c k') :
    Kept next where
  connections := hConnections
  data fd c k' hRegistered hChannel hUnread := by
    rcases hData fd c k' hRegistered hChannel hUnread with
      hEdge | ⟨k, hBefore, hChannel', hUnread', hEdge, hBatch⟩
    · exact .inl hEdge
    · rcases h.data fd c k hBefore hChannel' (hUnread' hUnread) with
        hOld | hOld
      · exact .inl (hEdge hOld)
      · exact .inr (hBatch hOld hUnread)

theorem Kept.connect {s : State} (h : Kept s) (hInv : Wired s) :
    Kept
      { s with
        channels := s.channels ++ [Channel.new]
        acceptQueue := s.acceptQueue ++ [s.channels.length]
        serverEdge := true } := by
  refine h.frame (fun _ => .inl rfl) fun fd c k' hRegistered hChannel _ => ?_
  rw [List.getElem?_append_left (hInv.fds fd c hRegistered.2).2.1] at hChannel
  exact .inr ⟨k', hRegistered, hChannel, id, id, fun hMem _ => hMem⟩

theorem Kept.send {s : State} {c : Nat} {bytes : List UInt8} (h : Kept s)
    (hInv : Wired s) :
    Kept (s.modifyChannel c fun k =>
      { k.notify with unread := k.unread ++ bytes }) := by
  refine h.frame h.connections fun fd c' k' hRegistered hChannel _ => ?_
  obtain ⟨k, hBefore, rfl⟩ := getElem?_modify_eq_some hChannel
  obtain ⟨k₀, hChannel₀, hWatched⟩ := hInv.watches hRegistered
  obtain rfl : k = k₀ := Option.some.inj (hBefore.symm.trans hChannel₀)
  by_cases hc : c = c'
  · simp only [if_pos hc]
    exact .inl (by simp [Channel.notify, hWatched])
  · simp only [if_neg hc]
    exact .inr ⟨k, hRegistered, hBefore, id, id, fun hMem _ => hMem⟩

theorem Kept.close {s : State} {c : Nat} (h : Kept s) :
    Kept (s.modifyChannel c fun k =>
      { k.notify with driverOpen := false }) := by
  refine h.frame h.connections fun fd c' k' hRegistered hChannel _ => ?_
  obtain ⟨k, hBefore, rfl⟩ := getElem?_modify_eq_some hChannel
  by_cases hc : c = c'
  · simp only [if_pos hc]
    exact .inr ⟨k, hRegistered, hBefore, id,
      fun hEdge => by simp [Channel.notify, hEdge], fun hMem _ => hMem⟩
  · simp only [if_neg hc]
    exact .inr ⟨k, hRegistered, hBefore, id, id, fun hMem _ => hMem⟩

/-- `epoll_wait` turns edges into reports.  It takes an edge away only with a
report in its place, so what had an edge now has a report. -/
theorem Kept.report {s : State} {events : List Event} (h : Kept s)
    (hInv : Wired s) (hBatch : s.batch = []) : Kept (s.report events) where
  connections hQueue := by
    have hEdge := h.connections hQueue
    rw [hBatch] at hEdge
    by_cases hServer : Event.server ∈ events
    · exact .inr hServer
    · refine .inl ?_
      simpa [State.report, hServer] using hEdge
  data fd c k' hRegistered hChannel hUnread := by
    simp only [State.report, List.getElem?_mapIdx,
      Option.map_eq_some_iff] at hChannel
    obtain ⟨k, hBefore, rfl⟩ := hChannel
    have hEdge := h.data fd c k hRegistered hBefore hUnread
    rw [hBatch] at hEdge
    replace hEdge := hEdge.resolve_right List.not_mem_nil
    by_cases hReported : ∃ e ∈ events, e.channel s.fds = some c
    · obtain ⟨e, he, hFd⟩ := hReported
      cases e with
      | server => contradiction
      | data fd' =>
          obtain rfl := hInv.injective fd fd' c hRegistered.2 hFd
          exact .inr he
    · refine .inl ?_
      have hNone : (events.any fun e => decide (e.channel s.fds = some c)) =
          false := by
        rw [List.any_eq_false]
        intro e he
        simpa using fun hFd => hReported ⟨e, he, hFd⟩
      simp only [hEdge, hNone]
      rfl

/-- One `accept`.  The report of the server socket is used up and one
connection is taken; the others are kept exactly if there are none, or a later
one has raised a new edge in the meantime. -/
theorem Kept.accepts_iff {s : State} {fd : Int} {rest : List Event} {c : Nat}
    {queue : List Nat} (h : Kept s) (hInv : Wired s)
    (hBatch : s.batch = .server :: rest) (hQueue : s.acceptQueue = c :: queue)
    (hPos : 0 ≤ fd) (hFree : s.fds fd = none) :
    Kept
        { s with
          batch := rest
          fds := Function.update s.fds fd (some c)
          acceptQueue := queue
          phase := .accepted fd } ↔
      s.acceptQueue.length ≤ 1 ∨ s.serverEdge = true := by
  have hNodup := hInv.batchNodup
  rw [hBatch, List.nodup_cons] at hNodup
  constructor
  · intro hKept
    by_cases hMore : queue = []
    · exact .inl (by simp [hQueue, hMore])
    · exact .inr ((hKept.connections hMore).resolve_right hNodup.1)
  · intro hOk
    refine h.frame (fun hMore => .inl ?_) ?_
    · refine hOk.resolve_left ?_
      have hLength : 0 < queue.length := List.length_pos_iff.mpr hMore
      rw [hQueue, List.length_cons]
      omega
    · intro fd' c' k' hRegistered hChannel hUnread
      have hOther : fd' ≠ fd := by
        rintro rfl
        obtain ⟨⟨d, hd, -, rfl⟩, -⟩ := hRegistered
        obtain ⟨c₀, hFd, -⟩ := hInv.socks d hd hPos
        rw [hFree] at hFd
        contradiction
      obtain ⟨hEntry, hFd⟩ := hRegistered
      simp only [Function.update_of_ne hOther] at hFd
      refine .inr ⟨k', ⟨hEntry, hFd⟩, hChannel, id, id, fun hMem _ => ?_⟩
      rw [hBatch] at hMem
      exact (List.mem_cons.mp hMem).resolve_left (by simp)

/-- A report without a driver.  The descriptor has been closed since
`epoll_wait` reported it, so nothing registered waits behind the report. -/
theorem Kept.ignores {s : State} {fd : Int} {rest : List Event} (h : Kept s)
    (hBatch : s.batch = .data fd :: rest)
    (hUnknown : findDriverByFd s.drivers fd = none) :
    Kept { s with batch := rest } := by
  refine h.frame (fun hQueue => ?_) ?_
  · have hKept := h.connections hQueue
    rw [hBatch] at hKept
    exact hKept.imp_right fun hMem =>
      (List.mem_cons.mp hMem).resolve_left (by simp)
  · intro fd' c k hRegistered hChannel hUnread
    refine .inr ⟨k, hRegistered, hChannel, id, id, fun hMem _ => ?_⟩
    rw [hBatch] at hMem
    refine (List.mem_cons.mp hMem).resolve_left ?_
    rintro ⟨⟩
    exact findDriverByFd_ne_none hRegistered.1 hUnknown

section Recv

variable {s : State} {rest : List Event} {index c : Nat} {fd : Int}
  {d : Driver} {k : Channel}

theorem mem_rest_of_ne {fd' : Int} (hBatch : s.batch = .data fd :: rest)
    (hOther : fd' ≠ fd) (hMem : .data fd' ∈ s.batch) : .data fd' ∈ rest := by
  rw [hBatch] at hMem
  refine (List.mem_cons.mp hMem).resolve_left ?_
  rintro ⟨⟩
  exact hOther rfl

theorem Kept.server_mem_rest (h : Kept s) (hBatch : s.batch = .data fd :: rest)
    (hQueue : s.acceptQueue ≠ []) :
    s.serverEdge = true ∨ .server ∈ rest := by
  have hKept := h.connections hQueue
  rw [hBatch] at hKept
  exact hKept.imp_right fun hServer =>
    (List.mem_cons.mp hServer).resolve_left (by simp)

/-- The `recv` takes what it can.  The report is used up, so what remains is
kept exactly if nothing does, because all fitted into the buffer, or a new edge
has been raised. -/
theorem Kept.reads_iff (h : Kept s) (hNodup : s.batch.Nodup)
    (hBatch : s.batch = .data fd :: rest) (hRegistered : s.Registered fd c)
    (hChannel : s.channels[c]? = some k) :
    Kept ({ s with batch := rest }.modifyChannel c fun k' =>
        { k' with
          unread := k'.unread.drop (min k.unread.length (bufSize - 1)) }) ↔
      k.unread.length ≤ bufSize - 1 ∨ k.edge = true := by
  rw [hBatch, List.nodup_cons] at hNodup
  constructor
  · intro hKept
    refine Classical.or_iff_not_imp_left.mpr fun hLong => ?_
    have hAfter := hKept.data fd c
      { k with
        unread := k.unread.drop (min k.unread.length (bufSize - 1)) }
      hRegistered (by simp [State.modifyChannel, hChannel])
      (by
        rw [Ne, List.drop_eq_nil_iff]
        omega)
    exact hAfter.resolve_right hNodup.1
  · intro hOk
    refine h.frame (h.server_mem_rest hBatch)
      fun fd' c' k' hRegistered' hChannel' hLeft => ?_
    obtain ⟨k₀, hBefore, rfl⟩ := getElem?_modify_eq_some hChannel'
    by_cases hc : c = c'
    · subst hc
      obtain rfl : k = k₀ := Option.some.inj (hChannel.symm.trans hBefore)
      rw [if_pos rfl] at hLeft ⊢
      rw [Ne, List.drop_eq_nil_iff] at hLeft
      exact .inl (hOk.resolve_left (by omega))
    · rw [if_neg hc]
      have hOther : fd' ≠ fd := by
        rintro rfl
        exact hc (Option.some.inj (hRegistered.2.symm.trans hRegistered'.2))
      exact .inr ⟨k₀, hRegistered', hBefore, id, id,
        fun hData _ => mem_rest_of_ne hBatch hOther hData⟩

theorem Kept.disconnect (h : Kept s) (hInv : Wired s)
    (hBatch : s.batch = .data fd :: rest) (hFd : s.fds fd = some c) :
    Kept ({ s with batch := rest }.disconnect fd index c) := by
  refine h.frame (fun hQueue => .inl ?_)
    fun fd' c' k' hRegistered hChannel hLeft => ?_
  · have hSome : s.acceptQueue ≠ [] := hQueue
    simp [State.disconnect, State.modifyEpoll, State.setSock, State.closeFd,
      State.modifyChannel, hSome]
  · obtain ⟨⟨d, hd, hActive, hSock⟩, hFd'⟩ := hRegistered
    have hOther : fd' ≠ fd := by
      rintro rfl
      simp [State.disconnect, State.modifyEpoll, State.setSock,
        State.closeFd, State.modifyChannel] at hFd'
    have hBefore : s.fds fd' = some c' := by
      simpa only [State.disconnect, State.modifyEpoll, State.setSock,
        State.closeFd, State.modifyChannel,
        Function.update_of_ne hOther] using hFd'
    have hc : c ≠ c' := by
      rintro rfl
      exact hOther (hInv.injective fd' fd c hBefore hFd)
    have hPos := (hInv.fds fd' c' hBefore).1
    have hOld : d ∈ s.drivers := by
      rcases mem_modify_cases hd with hOld | ⟨d₀, -, rfl⟩
      · exact hOld
      · simp only at hSock
        omega
    obtain ⟨k₀, hChannel₀, rfl⟩ := getElem?_modify_eq_some hChannel
    rw [if_neg hc] at hLeft ⊢
    exact .inr ⟨k₀, ⟨⟨d, hOld, hActive, hSock⟩, hBefore⟩, hChannel₀, id, id,
      fun hData _ => mem_rest_of_ne hBatch hOther hData⟩

/-- There is nothing to receive, so the report may go. -/
theorem Kept.receivesNone (h : Kept s) (hBatch : s.batch = .data fd :: rest)
    (hFd : s.fds fd = some c) (hChannel : s.channels[c]? = some k)
    (hUnread : k.unread = []) : Kept { s with batch := rest } := by
  refine h.frame (h.server_mem_rest hBatch)
    fun fd' c' k' hRegistered hChannel' hLeft => ?_
  have hOther : fd' ≠ fd := by
    rintro rfl
    obtain rfl : c = c' := Option.some.inj (hFd.symm.trans hRegistered.2)
    obtain rfl : k = k' := Option.some.inj (hChannel.symm.trans hChannel')
    exact hLeft hUnread
  exact .inr ⟨k', hRegistered, hChannel', id, id,
    fun hData _ => mem_rest_of_ne hBatch hOther hData⟩

/-- One `recv` from a driver: the three outcomes of `receiveData_cases` in one
condition.  A disconnection takes the connection out of the table, and an empty
connection meets the bound. -/
theorem Kept.receiveData_iff (h : Kept s) (hInv : Wired s)
    (hBatch : s.batch = .data fd :: rest)
    (hFound : findDriverByFd s.drivers fd = some index)
    (hEntry : s.drivers[index]? = some d) (hFd : s.fds fd = some c)
    (hChannel : s.channels[c]? = some k) :
    Kept ({ s with batch := rest }.receiveData index d fd c k) ↔
      k.unread.length ≤ bufSize - 1 ∨ k.edge = true := by
  obtain ⟨d', hEntry', hActive, hSock⟩ := findDriverByFd_eq_some hFound
  obtain rfl : d = d' := Option.some.inj (hEntry.symm.trans hEntry')
  have hMem := List.mem_of_getElem? hEntry
  rcases receiveData_cases (s := { s with batch := rest }) fd c k hEntry
      (hInv.recvLen d hMem) with
    ⟨-, hNext⟩ | ⟨hUnread, hNext⟩ | ⟨hUnread, hNext⟩
  · rw [hNext]
    exact h.reads_iff hInv.batchNodup hBatch
      ⟨⟨d, hMem, hActive, hSock⟩, hFd⟩ hChannel
  · rw [hNext]
    exact iff_of_true (h.disconnect hInv hBatch hFd)
      (.inl (by simp [hUnread]))
  · rw [hNext]
    exact iff_of_true (h.receivesNone hBatch hFd hChannel hUnread)
      (.inl (by simp [hUnread]))

end Recv

/-- A socket that joins the epoll set is reported if there is something to
read: `EPOLL_CTL_ADD` raises an edge for what has come before it.  A driver
that answers early is not lost here. -/
theorem Kept.registers {s : State} {fd : Int} {c index : Nat} (h : Kept s)
    (hFd : s.fds fd = some c) :
    Kept
      { ((s.modifyChannel c fun k =>
          { k with unread := k.unread.drop 4 }).setSock index fd).addToEpoll
            c with
        phase := .looping } := by
  refine h.frame h.connections
    fun fd' c' k' hRegistered hChannel hUnread => ?_
  obtain ⟨⟨d, hd, hActive, hSock⟩, hFd'⟩ := hRegistered
  obtain ⟨k₁, hMid, rfl⟩ := getElem?_modify_eq_some hChannel
  obtain ⟨k, hBefore, rfl⟩ := getElem?_modify_eq_some hMid
  by_cases hc : c = c'
  · subst hc
    simp only [if_true] at hUnread ⊢
    exact .inl (by simp [Channel.readable, hUnread])
  · simp only [if_neg hc] at hUnread ⊢
    have hOther : fd ≠ fd' := by
      rintro rfl
      exact hc (Option.some.inj (hFd.symm.trans hFd'))
    have hOld : d ∈ s.drivers := by
      rcases mem_modify_cases hd with hOld | ⟨d₀, -, rfl⟩
      · exact hOld
      · exact absurd hSock hOther
    exact .inr ⟨k, ⟨⟨d, hOld, hActive, hSock⟩, hFd'⟩, hBefore, id, id,
      fun hMem _ => hMem⟩

theorem Kept.rejects {s : State} {fd : Int} {c : Nat} {f : Channel → Channel}
    (h : Kept s) (hInv : Wired s) (hFd : s.fds fd = some c) :
    Kept
      { s with
        fds := Function.update s.fds fd none
        channels := s.channels.modify c f
        phase := .looping } := by
  refine h.frame h.connections
    fun fd' c' k' hRegistered hChannel hUnread => ?_
  obtain ⟨hEntry, hUpdated⟩ := hRegistered
  obtain ⟨hOther, hFd'⟩ := update_none_eq_some hUpdated
  have hc : c ≠ c' := by
    rintro rfl
    exact hOther (hInv.injective fd' fd c hFd' hFd)
  obtain ⟨k, hBefore, rfl⟩ := getElem?_modify_eq_some hChannel
  rw [if_neg hc]
  exact .inr ⟨k, ⟨hEntry, hFd'⟩, hBefore, id, id, fun hMem _ => hMem⟩

theorem drains_data {s : State} {fd fd' : Int} {rest : List Event}
    {index c : Nat} {k : Channel} (hBatch : s.batch = .data fd' :: rest)
    (hFound : findDriverByFd s.drivers fd' = some index)
    (hFd : s.fds fd' = some c) (hChannel : s.channels[c]? = some k) :
    Drains s (.event fd) ↔
      k.unread.length ≤ bufSize - 1 ∨ k.edge = true := by
  simp only [Drains, State.DrainsEvent, hBatch, hFound, hFd, hChannel,
    List.head?_cons, Option.mem_def, Option.some.injEq, forall_eq', ne_eq,
    reduceCtorEq, not_false_iff, true_imp_iff]

/-- One step leaves nothing behind exactly if it meets the guard.  `Drains`
asks something only of the two steps that use a report up; the others keep what
waits whatever they do. -/
theorem Kept.step_iff {s next : State} {a : Label} (h : Kept s)
    (hInv : Wired s) (hT : Transition s a next) :
    Kept next ↔ Drains s a := by
  cases hT with
  | connect => exact iff_of_true (h.connect hInv) trivial
  | send c bytes => exact iff_of_true (h.send hInv) trivial
  | close c => exact iff_of_true h.close trivial
  | wait events hPhase hBatch hNodup =>
      exact iff_of_true (h.report hInv hBatch) trivial
  | acceptsNone fd rest hBatch hQueue =>
      have hOk : Drains s (.event fd) := by
        simp [Drains, State.DrainsEvent, hBatch, hQueue]
      refine iff_of_true ?_ hOk
      refine h.frame (fun hSome => absurd hQueue hSome) ?_
      intro fd' c k hRegistered hChannel hUnread
      refine .inr ⟨k, hRegistered, hChannel, id, id, fun hMem _ => ?_⟩
      rw [hBatch] at hMem
      exact (List.mem_cons.mp hMem).resolve_left (by simp)
  | accepts fd rest c queue hBatch hQueue hPos hFree =>
      rw [h.accepts_iff hInv hBatch hQueue hPos hFree]
      simp [Drains, State.DrainsEvent, hBatch]
  | ignores fd fd' rest hBatch hUnknown =>
      exact iff_of_true (h.ignores hBatch hUnknown)
        (by simp [Drains, State.DrainsEvent, hBatch, hUnknown])
  | handles fd fd' rest index d c k hPhase hBatch hFound hEntry hFd
      hChannel =>
      rw [h.receiveData_iff hInv hBatch hFound hEntry hFd hChannel,
        drains_data hBatch hFound hFd hChannel]
  | registers fd c index k hPhase hFd hChannel =>
      exact iff_of_true (h.registers hFd) trivial
  | rejects fd c f hPhase hFd =>
      exact iff_of_true (h.rejects hInv hFd) trivial

/-- **Exactness.**  What waits always has an edge or a report to come if and
only if each report is drained.  The guard is read off the state before the
step, so the first report that is not drained is the first state that loses
something. -/
theorem kept_iff_drains {s last : State} {as : List Label} (hInit : Initial s)
    (hRun : handler.run s as = some last) :
    handler.EachState Kept s as ↔ handler.EachStep Drains s as :=
  Machine.eachState_iff_eachStep (I := Wired)
    (fun _ _ _ h hStep => h.step (step_transition hStep))
    (fun _ _ _ hInv h hStep => h.step_iff hInv (step_transition hStep))
    hInit.wired hInit.kept hRun

/-- **Draining.**  If each report is drained, the handler never waits while
something is left on a descriptor without an edge.  Before `epoll_wait` the
batch is empty, and `Kept` leaves only the edge. -/
theorem drained_of_drains {s last : State} {as : List Label}
    (hInit : Initial s) (hRun : handler.run s as = some last)
    (hDrains : handler.EachStep Drains s as) :
    handler.EachState (fun s => s.AboutToWait → Drained s) s as :=
  ((kept_iff_drains hInit hRun).mpr hDrains).mono fun _ h => h.drained

/-- The handler at its start, with one driver in the table. -/
def State.oneDriver (pid : Int32) : State where
  drivers := [createDriver pid]
  fds _ := none
  channels := []
  acceptQueue := []
  serverEdge := false
  batch := []
  phase := .looping

theorem oneDriver_initial (pid : Int32) : Initial (State.oneDriver pid) where
  drivers d hd := by
    obtain rfl := List.mem_singleton.mp hd
    exact ⟨rfl, rfl⟩
  fds _ := rfl
  channels := rfl
  acceptQueue := rfl
  batch := rfl
  phase := rfl

/-- A driver registers and answers, one event at a time. -/
theorem drained_of_drains_oneDriver :
    handler.EachState (fun s => s.AboutToWait → Drained s)
      (State.oneDriver 7)
      [.connect, .send 0 [7, 0, 0, 0], .epollWait [.server], .event 5,
        .recvPid, .send 0 [79, 75], .epollWait [.data 5], .event 0] := by
  obtain ⟨last, hRun⟩ := Option.isSome_iff_exists.mp
    (show (handler.run (State.oneDriver 7)
      [.connect, .send 0 [7, 0, 0, 0], .epollWait [.server], .event 5,
        .recvPid, .send 0 [79, 75], .epollWait [.data 5],
        .event 0]).isSome = true by decide)
  exact drained_of_drains (oneDriver_initial 7) hRun (by decide)

/-- Two drivers connect before `epoll_wait` reports the server socket; the
second is not accepted, and no edge is left that would report it. -/
theorem second_connection_left_behind :
    ¬ ∀ s, handler.Reachable s → s.AboutToWait → Drained s := by
  intro hAll
  have hRun : ((handler.run (State.oneDriver 7)
      [.connect, .send 0 [7, 0, 0, 0], .connect, .epollWait [.server],
        .event 5, .recvPid]).any fun s =>
          s.phase = .looping && s.batch = [] && s.acceptQueue ≠ [] &&
            !s.serverEdge) = true := by
    decide
  obtain ⟨s, hReach, hLeft⟩ :=
    Machine.exists_reachable_of_run (oneDriver_initial 7) hRun
  simp only [Bool.and_eq_true, decide_eq_true_eq, Bool.not_eq_true'] at hLeft
  obtain ⟨⟨⟨hPhase, hBatch⟩, hQueue⟩, hEdge⟩ := hLeft
  have hReported := (hAll s hReach ⟨hPhase, hBatch⟩).connections hQueue
  rw [hEdge] at hReported
  contradiction

end UnixHomework.Ports.DriverEpoll
