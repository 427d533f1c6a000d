import UnixHomework.Ports.ThreadPerClient

/-!
# Blocks and descriptors of the thread-per-client server

A block and a descriptor are each held in one place, `main` or a thread
(`Custody`), although both are handed over by one pointer: the descriptor that
a new thread holds is the one in its block.  So no block is used after it was
freed, freed twice or lost (`blocks_in_custody`), and each connection is told
the time by the one thread that was created for it (`clients_told_once`).
-/

namespace UnixHomework.Ports.ThreadPerClient

open UnixHomework.Verified

/-! ## Who holds what -/

/-- The block that `main` has to free or to hand over, once `malloc` has
returned one. -/
def MainAt.block : MainAt → Option Addr
  | .allocating => none
  | .accepting a | .creating a | .refusing a | .freeing a => some a

/-- The descriptor in `main`'s block, as long as it is open.  Between `malloc`
and `accept` the block holds garbage, and before the `free` in the branches of
failure the descriptor is -1 or closed. -/
def MainAt.sock (heap : Addr → Option Int) : MainAt → Option Int
  | .creating a | .refusing a => heap a
  | .allocating | .accepting _ | .freeing _ => none

/-- The block that a thread has to free, until it has freed it. -/
def HandlerAt.block : HandlerAt → Option Addr
  | .starting arg | .copied arg _ => some arg
  | .sending _ | .closing _ | .exited => none

/-- The descriptor of a thread, which finds it in its block at first.  Until it
has copied it, who holds the descriptor depends on what the block contains, so
nobody else may write there. -/
def HandlerAt.sock (heap : Addr → Option Int) : HandlerAt → Option Int
  | .starting arg => heap arg
  | .copied _ fd | .sending fd | .closing fd => some fd
  | .exited => none

/-- The thread has called `send`.  What `send` returns is not looked at, so
this does not say that the client has got anything. -/
def HandlerAt.told : HandlerAt → Bool
  | .closing _ | .exited => true
  | .starting _ | .copied _ _ | .sending _ => false

namespace Server

/-- The block of `main`, or of a thread.  `none` stands for `main`, and `some
i` for the thread created as number `i`. -/
def block (s : Server) : Option Nat → Option Addr
  | none => s.main.block
  | some i => (s.handlers i).bind fun h => h.place.block

/-- The descriptor of `main`, or of a thread: as the block, with the descriptor
in it where the place says so. -/
def sock (s : Server) : Option Nat → Option Int
  | none => s.main.sock s.heap
  | some i => (s.handlers i).bind fun h => h.place.sock s.heap

/-- The thread was created for this connection.  This is for the record and
stays true after the thread has exited. -/
def HasClient (s : Server) (i c : Nat) : Prop :=
  ∃ h, s.handlers i = some h ∧ h.client = c

/-- The thread has told its connection the time. -/
def Told (s : Server) (i c : Nat) : Prop :=
  ∃ h, s.handlers i = some h ∧ h.client = c ∧ h.place.told = true

/-- `main` has accepted the connection and done nothing with it yet: its
descriptor is the one in `main`'s block. -/
def Pending (s : Server) (c : Nat) : Prop :=
  ∃ fd, s.sock none = some fd ∧ s.descriptors.table fd = some c

end Server

/-- Blocks and descriptors.  Who holds what is read off the places of `main`
and the threads, and the two custodies say that each open thing has exactly one
holder. -/
structure Holding (s : Server) : Prop where
  /-- No block has been used or freed that was not allocated. -/
  defined : s.undefined = false
  /-- Each allocated block has one holder. -/
  blocks : Custody (fun a => s.heap a ≠ none) fun p a => s.block p = some a
  /-- Each open descriptor has one holder. -/
  socks : Custody s.descriptors.Open fun p fd => s.sock p = some fd
  /-- The threads are numbered in the order in which they were created. -/
  born : ∀ i h, s.handlers i = some h → i < s.threads
  /-- A thread's descriptor stands for the connection it was created for,
  although the kernel uses numbers again. -/
  client : ∀ i h fd, s.handlers i = some h → s.sock (some i) = some fd →
    s.descriptors.table fd = some h.client

/-- Connections: what has become of every one that was accepted, and who has
been told the time. -/
structure Accounts (s : Server) : Prop where
  /-- A connection that was accepted is with `main`, was refused, or has a
  thread, and there are no others. -/
  accepted : ∀ c, c < s.descriptors.accepted ↔
    s.Pending c ∨ c ∈ s.refused ∨ ∃ i, s.HasClient i c
  /-- No connection has two threads. -/
  distinct : ∀ i j c, s.HasClient i c → s.HasClient j c → i = j
  /-- What is still with `main` has not been refused and has no thread. -/
  pending : ∀ c, s.Pending c → c ∉ s.refused ∧ ∀ i, ¬s.HasClient i c
  /-- What was refused has been closed and has no thread. -/
  refused : ∀ c ∈ s.refused, c ∈ s.descriptors.closed ∧
    ∀ i, ¬s.HasClient i c
  /-- Nobody is told the time twice. -/
  sentOnce : s.sent.Nodup
  /-- Those told the time are those whose thread has called `send`. -/
  sent_iff : ∀ c, c ∈ s.sent ↔ ∃ i, s.Told i c

/-- What holds in every reachable state, also in the one that a killed server
was left in: blocks and descriptors have their owners, connections their
threads, and nothing has been closed that was not open. -/
structure Inv (s : Server) : Prop where
  holding : Holding s
  accounts : Accounts s
  strays : s.descriptors.strays = []

/-! ## What a change leaves alone -/

section Changes

variable {s next : Server} {i : Nat} {h h' : Handler} {a : Addr}

theorem block_eq (hh : s.handlers i = some h) :
    s.block (some i) = h.place.block := by
  rw [Server.block, hh]
  rfl

theorem sock_eq (hh : s.handlers i = some h) :
    s.sock (some i) = h.place.sock s.heap := by
  rw [Server.sock, hh]
  rfl

/-- A step of `main` changes what `main` holds, and no thread's block. -/
theorem block_main (hHandlers : next.handlers = s.handlers) :
    next.block = Function.update s.block none next.main.block := by
  funext p
  cases p with
  | none =>
      rw [Function.update_self]
      rfl
  | some i =>
      rw [Function.update_of_ne (Option.some_ne_none i), Server.block,
        Server.block, hHandlers]

/-- A step of the thread `i` changes what this thread holds, and nothing
else. -/
theorem block_handler
    (hHandlers : next.handlers = Function.update s.handlers i (some h))
    (hMain : next.main = s.main) :
    next.block = Function.update s.block (some i) h.place.block := by
  funext p
  by_cases hp : p = some i
  · subst hp
    rw [Function.update_self, Server.block, hHandlers, Function.update_self]
    rfl
  · rw [Function.update_of_ne hp]
    cases p with
    | none =>
        rw [Server.block, Server.block, hMain]
    | some j =>
        have hj : j ≠ i := fun hj => hp (congrArg some hj)
        rw [Server.block, Server.block, hHandlers, Function.update_of_ne hj]

/-- The other places find their descriptors where they were, unless their
blocks are changed.  Custody of the blocks is what excludes that. -/
theorem handlerSock_congr {place : HandlerAt} {heap heap' : Addr → Option Int}
    (hSame : ∀ a, place.block = some a → heap' a = heap a) :
    place.sock heap' = place.sock heap := by
  cases place with
  | starting arg => exact hSame arg rfl
  | copied arg fd => rfl
  | sending fd => rfl
  | closing fd => rfl
  | exited => rfl

theorem mainSock_congr {place : MainAt} {heap heap' : Addr → Option Int}
    (hSame : ∀ a, place.block = some a → heap' a = heap a) :
    place.sock heap' = place.sock heap := by
  cases place with
  | allocating => rfl
  | accepting a => rfl
  | creating a => exact hSame a rfl
  | refusing a => exact hSame a rfl
  | freeing a => rfl

theorem sock_main (hHandlers : next.handlers = s.handlers)
    (hSame : ∀ i a, s.block (some i) = some a → next.heap a = s.heap a) :
    next.sock =
      Function.update s.sock none (next.main.sock next.heap) := by
  funext p
  cases p with
  | none =>
      rw [Function.update_self]
      rfl
  | some i =>
      rw [Function.update_of_ne (Option.some_ne_none i), Server.sock,
        Server.sock, hHandlers]
      cases hh : s.handlers i with
      | none => rfl
      | some h =>
          exact handlerSock_congr fun a ha =>
            hSame i a ((block_eq hh).trans ha)

theorem sock_handler
    (hHandlers : next.handlers = Function.update s.handlers i (some h))
    (hMain : next.main = s.main)
    (hSame : ∀ p a, p ≠ some i → s.block p = some a →
      next.heap a = s.heap a) :
    next.sock =
      Function.update s.sock (some i) (h.place.sock next.heap) := by
  funext p
  by_cases hp : p = some i
  · subst hp
    rw [Function.update_self, Server.sock, hHandlers, Function.update_self]
    rfl
  · rw [Function.update_of_ne hp]
    cases p with
    | none =>
        rw [Server.sock, Server.sock, hMain]
        exact mainSock_congr fun a ha => hSame none a hp ha
    | some j =>
        have hj : j ≠ i := fun hj => hp (congrArg some hj)
        rw [Server.sock, Server.sock, hHandlers, Function.update_of_ne hj]
        cases hh : s.handlers j with
        | none => rfl
        | some h =>
            exact handlerSock_congr fun a ha =>
              hSame (some j) a hp ((block_eq hh).trans ha)

end Changes

/-! ## Blocks and descriptors, call by call -/

section Calls

variable {s next : Server} {a : Addr} {i : Nat} {h : Handler}

theorem live_update_some {heap : Addr → Option Int} {v : Int} (x : Addr) :
    Function.update heap a (some v) x ≠ none ↔ heap x ≠ none ∨ x = a := by
  by_cases hx : x = a
  · subst hx
    simp
  · simp [hx]

theorem live_update_none {heap : Addr → Option Int} (x : Addr) :
    Function.update heap a none x ≠ none ↔ x ≠ a ∧ heap x ≠ none := by
  by_cases hx : x = a
  · subst hx
    simp
  · simp [hx]

/-- A block that one place has is no other's. -/
theorem Holding.other_ne (hH : Holding s) {p q : Option Nat} {x : Addr}
    (hp : s.block p = some a) (hq : s.block q = some x) (hpq : q ≠ p) :
    x ≠ a := by
  rintro rfl
  exact hpq (hH.blocks.once q p x hq hp)

/-- The block of `main` is there, so writing to it and freeing it are
defined. -/
theorem Holding.heap_main (hH : Holding s) (hMain : s.main.block = some a) :
    s.heap a ≠ none :=
  hH.blocks.alive none a hMain

theorem Holding.malloc (hH : Holding s) (hMain : s.main = .allocating)
    (hFree : s.heap a = none) (garbage : Int) :
    Holding { s with
      heap := Function.update s.heap a (some garbage)
      main := .accepting a } := by
  generalize hNext : ({ s with
      heap := Function.update s.heap a (some garbage)
      main := .accepting a } : Server) = next
  have hHeap : next.heap = Function.update s.heap a (some garbage) :=
    hNext ▸ rfl
  have hNone : s.sock none = none := by
    rw [Server.sock, hMain]
    rfl
  have hSock : next.sock = s.sock := by
    rw [sock_main (s := s) (hNext ▸ rfl)]
    · rw [← hNext]
      show Function.update s.sock none none = s.sock
      rw [← hNone, Function.update_eq_self]
    · intro j x hx
      rw [hHeap, Function.update_of_ne]
      rintro rfl
      exact hH.blocks.alive _ _ hx hFree
  have hBlock : next.block = Function.update s.block none (some a) := by
    rw [block_main (s := s) (hNext ▸ rfl), ← hNext]
    rfl
  refine ⟨hNext ▸ hH.defined, ?_, ?_, hNext ▸ hH.born, ?_⟩
  · rw [hBlock, hHeap]
    refine hH.blocks.acquire_one ?_ (not_not_intro hFree) live_update_some
    rw [Server.block, hMain]
    rfl
  · rw [hSock, ← hNext]
    exact hH.socks
  · rw [hSock, ← hNext]
    exact hH.client

/-- `main` writes to its block, which is what `accept` does through the
pointer.  No thread has this block, so the threads keep their descriptors. -/
theorem Holding.write (hH : Holding s) (hMain : s.main = .accepting a)
    {place : MainAt} (hPlace : place.block = some a) {fd : Int}
    (hHandlers : next.handlers = s.handlers) (hTo : next.main = place)
    (hHeap : next.heap = Function.update s.heap a (some fd)) :
    next.block = s.block ∧
    Custody (fun a => next.heap a ≠ none) (fun p x => next.block p = some x) ∧
    next.sock = Function.update s.sock none (place.sock next.heap) := by
  have hOld : s.block none = some a := by
    rw [Server.block, hMain]
    rfl
  have hBlock : next.block = s.block := by
    rw [block_main hHandlers, hTo, hPlace, ← hOld, Function.update_eq_self]
  refine ⟨hBlock, ?_, ?_⟩
  · rw [hBlock, hHeap]
    refine hH.blocks.congr_live fun x => ?_
    rw [live_update_some]
    refine ⟨fun hx => hx.elim id ?_, .inl⟩
    rintro rfl
    exact hH.blocks.alive none _ hOld
  · rw [← hTo]
    refine sock_main hHandlers fun j x hx => ?_
    rw [hHeap, Function.update_of_ne (hH.other_ne hOld hx (by simp))]

theorem Holding.write_eq (hH : Holding s) (hMain : s.main = .accepting a)
    (v : Int) :
    s.write a v = { s with heap := Function.update s.heap a (some v) } := by
  refine if_neg (hH.heap_main ?_)
  rw [hMain]
  rfl

/-- The descriptors of the threads stand for the same connections, if their
entries of the descriptor table have not been changed. -/
theorem Holding.client_kept (hH : Holding s)
    (hThreads : next.handlers = s.handlers)
    (hSock : ∀ j, next.sock (some j) = s.sock (some j))
    (hTable : ∀ j x, s.sock (some j) = some x →
      next.descriptors.table x = s.descriptors.table x)
    (j : Nat) (g : Handler) (x : Int) (hg : next.handlers j = some g)
    (hx : next.sock (some j) = some x) :
    next.descriptors.table x = some g.client := by
  rw [hThreads] at hg
  rw [hSock] at hx
  rw [hTable j x hx]
  exact hH.client j g x hg hx

theorem Holding.accept (hH : Holding s) (hMain : s.main = .accepting a)
    {fd : Int} {d : Descriptors} (hAccept : s.descriptors.accept? fd = some d) :
    Holding { s.write a fd with descriptors := d, main := .creating a } := by
  rw [hH.write_eq hMain]
  generalize hNext : ({ s with
      heap := Function.update s.heap a (some fd)
      descriptors := d
      main := .creating a } : Server) = next
  have hHeap : next.heap = Function.update s.heap a (some fd) := hNext ▸ rfl
  have hDescriptors : next.descriptors = d := hNext ▸ rfl
  have hThreads : next.handlers = s.handlers := hNext ▸ rfl
  have hTo : next.main = .creating a := hNext ▸ rfl
  obtain ⟨-, hFree, -, hTable, -⟩ := Descriptors.accept?_eq_some hAccept
  obtain ⟨-, hBlocks, hSock⟩ := hH.write hMain rfl hThreads hTo hHeap
  have hFound : MainAt.sock next.heap (.creating a) = some fd := by
    rw [hHeap]
    exact Function.update_self ..
  rw [hFound] at hSock
  refine ⟨hNext ▸ hH.defined, hBlocks, ?_, hNext ▸ hH.born,
    hH.client_kept hThreads (fun j => ?_) fun j x hx => ?_⟩
  · rw [hSock, hDescriptors]
    refine hH.socks.acquire_one ?_ (Descriptors.not_open_of_free hFree)
      (Descriptors.open_accept hAccept)
    rw [Server.sock, hMain]
    rfl
  · rw [hSock, Function.update_of_ne (Option.some_ne_none j)]
  · rw [hDescriptors, hTable, Function.update_of_ne]
    rintro rfl
    exact Descriptors.not_open_of_free hFree (hH.socks.alive _ _ hx)

theorem Holding.acceptFails (hH : Holding s) (hMain : s.main = .accepting a) :
    Holding { s.write a (-1) with main := .freeing a } := by
  rw [hH.write_eq hMain]
  generalize hNext : ({ s with
      heap := Function.update s.heap a (some (-1))
      main := .freeing a } : Server) = next
  have hHeap : next.heap = Function.update s.heap a (some (-1)) := hNext ▸ rfl
  have hThreads : next.handlers = s.handlers := hNext ▸ rfl
  have hTo : next.main = .freeing a := hNext ▸ rfl
  have hDescriptors : next.descriptors = s.descriptors := hNext ▸ rfl
  obtain ⟨-, hBlocks, hSock⟩ := hH.write hMain rfl hThreads hTo hHeap
  have hNone : s.sock none = none := by
    rw [Server.sock, hMain]
    rfl
  have hSame : next.sock = s.sock := by
    rw [hSock]
    show Function.update s.sock none none = s.sock
    rw [← hNone, Function.update_eq_self]
  refine ⟨hNext ▸ hH.defined, hBlocks, ?_, hNext ▸ hH.born,
    hH.client_kept hThreads (fun j => by rw [hSame]) fun j x hx => ?_⟩
  · rw [hSame, hDescriptors]
    exact hH.socks
  · rw [hDescriptors]

/-- What `main` hands over: its block, with an open descriptor in it.  Both
`pthread_create` and the `close` after its failure rely on it. -/
theorem Holding.found (hH : Holding s)
    (hMain : s.main = .creating a ∨ s.main = .refusing a) :
    ∃ fd c, s.heap a = some fd ∧ s.sock none = some fd ∧
      s.descriptors.table fd = some c := by
  have hBlock : s.main.block = some a := by
    rcases hMain with hMain | hMain <;>
    · rw [hMain]
      rfl
  obtain ⟨fd, hfd⟩ := Option.ne_none_iff_exists'.mp (hH.heap_main hBlock)
  have hSock : s.sock none = some fd := by
    rcases hMain with hMain | hMain <;>
    · rw [Server.sock, hMain]
      exact hfd
  obtain ⟨c, hc⟩ := hH.socks.alive none fd hSock
  exact ⟨fd, c, hfd, hSock, hc⟩

/-- There is no thread yet where the next one will be. -/
theorem Holding.no_thread (hH : Holding s) : s.handlers s.threads = none := by
  rw [Option.eq_none_iff_forall_ne_some]
  intro h hh
  exact Nat.lt_irrefl _ (hH.born _ h hh)

theorem Holding.create (hH : Holding s) (hMain : s.main = .creating a) :
    Holding (s.create a) := by
  obtain ⟨fd, c, hfd, hSockOld, hc⟩ := hH.found (.inl hMain)
  have hNone := hH.no_thread
  let mid : Server := { s with main := .allocating }
  generalize hNext : s.create a = next
  have hThreads : next.handlers =
      Function.update s.handlers s.threads (some ⟨.starting a, c⟩) := by
    rw [← hNext, Server.create, hfd]
    show Function.update s.handlers s.threads
      (some ⟨.starting a, (s.descriptors.table fd).getD 0⟩) = _
    rw [hc]
    rfl
  have hHeap : next.heap = s.heap := hNext ▸ rfl
  have hDescriptors : next.descriptors = s.descriptors := hNext ▸ rfl
  have hBlock : next.block = Function.update
      (Function.update s.block none none) (some s.threads) (some a) := by
    rw [block_handler (s := mid) hThreads (hNext ▸ rfl)]
    congr 1
    exact block_main rfl
  have hSock : next.sock = Function.update
      (Function.update s.sock none none) (some s.threads) (some fd) := by
    rw [sock_handler (s := mid) hThreads (hNext ▸ rfl)
      fun _ _ _ _ => hHeap ▸ rfl]
    congr 1
    · exact sock_main rfl fun _ _ _ => rfl
    · rw [hHeap]
      exact hfd
  refine ⟨hNext ▸ hH.defined, ?_, ?_, ?_, ?_⟩
  · rw [hBlock, hHeap]
    refine hH.blocks.move_one ?_ ?_
    · rw [Server.block, hMain]
      rfl
    · rw [Server.block, hNone]
      rfl
  · rw [hSock, hDescriptors]
    refine hH.socks.move_one hSockOld ?_
    rw [Server.sock, hNone]
    rfl
  · intro j g hg
    have hCount : next.threads = s.threads + 1 := hNext ▸ rfl
    rw [hThreads] at hg
    rw [hCount]
    rcases update_some_iff.mp hg with ⟨rfl, -⟩ | ⟨-, hg⟩
    · exact Nat.lt_succ_self _
    · exact Nat.lt_succ_of_lt (hH.born j g hg)
  · intro j g x hg hx
    rw [hThreads] at hg
    rw [hSock] at hx
    rw [hDescriptors]
    rcases update_some_iff.mp hg with ⟨rfl, rfl⟩ | ⟨hj, hg⟩
    · rw [Function.update_self] at hx
      obtain rfl := Option.some.inj hx
      exact hc
    · rw [Function.update_of_ne (fun h => hj (Option.some.inj h)),
        Function.update_of_ne (Option.some_ne_none j)] at hx
      exact hH.client j g x hg hx

theorem Holding.createFails (hH : Holding s) (hMain : s.main = .creating a) :
    Holding { s with main := .refusing a } := by
  generalize hNext : ({ s with main := .refusing a } : Server) = next
  have hBlock : next.block = s.block := by
    have hOld : s.block none = some a := by
      rw [Server.block, hMain]
      rfl
    rw [block_main (s := s) (hNext ▸ rfl), ← hNext]
    show Function.update s.block none (some a) = s.block
    rw [← hOld, Function.update_eq_self]
  have hSock : next.sock = s.sock := by
    have hOld : s.sock none = s.heap a := by
      rw [Server.sock, hMain]
      rfl
    rw [sock_main (s := s) (hNext ▸ rfl) fun _ _ _ => hNext ▸ rfl, ← hNext]
    show Function.update s.sock none (s.heap a) = s.sock
    rw [← hOld, Function.update_eq_self]
  refine ⟨hNext ▸ hH.defined, ?_, ?_, hNext ▸ hH.born,
    hH.client_kept (hNext ▸ rfl) (fun j => by rw [hSock])
      fun _ _ _ => hNext ▸ rfl⟩
  · rw [hBlock, ← hNext]
    exact hH.blocks
  · rw [hSock, ← hNext]
    exact hH.socks

/-- `main` closes a descriptor that no thread has, and the block still has to
be freed. -/
theorem Holding.refuse (hH : Holding s) (hMain : s.main = .refusing a) :
    Holding (s.refuse a) := by
  obtain ⟨fd, c, hfd, hSockOld, -⟩ := hH.found (.inr hMain)
  generalize hNext : s.refuse a = next
  rw [Server.refuse, hfd] at hNext
  have hThreads : next.handlers = s.handlers := hNext ▸ rfl
  have hDescriptors : next.descriptors = s.descriptors.close fd := hNext ▸ rfl
  have hBlock : next.block = s.block := by
    have hOld : s.block none = some a := by
      rw [Server.block, hMain]
      rfl
    rw [block_main hThreads, ← hNext]
    show Function.update s.block none (some a) = s.block
    rw [← hOld, Function.update_eq_self]
  have hSock : next.sock = Function.update s.sock none none := by
    rw [sock_main hThreads fun _ _ _ => hNext ▸ rfl, ← hNext]
    rfl
  refine ⟨hNext ▸ hH.defined, ?_, ?_, hNext ▸ hH.born,
    hH.client_kept hThreads (fun j => ?_) fun j x hx => ?_⟩
  · rw [hBlock, ← hNext]
    exact hH.blocks
  · rw [hSock, hDescriptors]
    exact hH.socks.release_one hSockOld Descriptors.open_close
  · rw [hSock, Function.update_of_ne (Option.some_ne_none j)]
  · rw [hDescriptors]
    refine Descriptors.table_close_of_ne ?_
    rintro rfl
    exact Option.some_ne_none j (hH.socks.once _ _ _ hx hSockOld)

theorem Holding.free_eq (hH : Holding s) {p : Option Nat}
    (hp : s.block p = some a) :
    s.free a = { s with heap := Function.update s.heap a none } :=
  if_neg (hH.blocks.alive p a hp)

theorem Holding.free (hH : Holding s) (hMain : s.main = .freeing a) :
    Holding { s.free a with main := .allocating } := by
  have hOld : s.block none = some a := by
    rw [Server.block, hMain]
    rfl
  have hNone : s.sock none = none := by
    rw [Server.sock, hMain]
    rfl
  rw [hH.free_eq hOld]
  generalize hNext : ({ s with
      heap := Function.update s.heap a none
      main := .allocating } : Server) = next
  have hHeap : next.heap = Function.update s.heap a none := hNext ▸ rfl
  have hThreads : next.handlers = s.handlers := hNext ▸ rfl
  have hDescriptors : next.descriptors = s.descriptors := hNext ▸ rfl
  have hBlock : next.block = Function.update s.block none none := by
    rw [block_main hThreads, ← hNext]
    rfl
  have hSock : next.sock = s.sock := by
    rw [sock_main hThreads, ← hNext]
    · show Function.update s.sock none none = s.sock
      rw [← hNone, Function.update_eq_self]
    · intro j x hx
      rw [hHeap, Function.update_of_ne (hH.other_ne hOld hx (by simp))]
  refine ⟨hNext ▸ hH.defined, ?_, ?_, hNext ▸ hH.born,
    hH.client_kept hThreads (fun j => by rw [hSock])
      fun _ _ _ => by rw [hDescriptors]⟩
  · rw [hBlock, hHeap]
    exact hH.blocks.release_one hOld live_update_none
  · rw [hSock, hDescriptors]
    exact hH.socks

/-! ### Threads -/

/-- The thread that goes on is one of those that were created. -/
theorem Holding.born_update (hH : Holding s) (hh : s.handlers i = some h)
    {g : Handler} (j : Nat) (e : Handler)
    (he : Function.update s.handlers i (some g) j = some e) :
    j < s.threads := by
  rcases update_some_iff.mp he with ⟨rfl, -⟩ | ⟨-, he⟩
  · exact hH.born _ h hh
  · exact hH.born j e he

/-- It keeps its connection. -/
theorem Holding.client_update (hH : Holding s) (hh : s.handlers i = some h)
    {g : Handler} (hClient : g.client = h.client) (j : Nat) (e : Handler)
    (x : Int) (he : Function.update s.handlers i (some g) j = some e)
    (hx : s.sock (some j) = some x) :
    s.descriptors.table x = some e.client := by
  rcases update_some_iff.mp he with ⟨rfl, rfl⟩ | ⟨-, he⟩
  · rw [hClient]
    exact hH.client _ h x hh hx
  · exact hH.client j e x he hx

/-- A thread goes on with what it has: its block and its descriptor are the
same before and after, and nobody else's are touched.  The copy of the
descriptor into a variable of the thread is of this kind, and `send`. -/
theorem Holding.keep (hH : Holding s) (hh : s.handlers i = some h)
    {g : Handler} (hClient : g.client = h.client)
    (hDefined : next.undefined = false) (hMain : next.main = s.main)
    (hThreads : next.handlers = Function.update s.handlers i (some g))
    (hCount : next.threads = s.threads) (hHeap : next.heap = s.heap)
    (hDescriptors : next.descriptors = s.descriptors)
    (hBlock : g.place.block = h.place.block)
    (hSock : g.place.sock s.heap = h.place.sock s.heap) : Holding next := by
  have hBlocks : next.block = s.block := by
    rw [block_handler hThreads hMain, hBlock, ← block_eq hh,
      Function.update_eq_self]
  have hSocks : next.sock = s.sock := by
    rw [sock_handler hThreads hMain fun _ _ _ _ => by rw [hHeap], hHeap, hSock,
      ← sock_eq hh, Function.update_eq_self]
  refine ⟨hDefined, ?_, ?_, ?_, ?_⟩
  · rw [hBlocks, hHeap]
    exact hH.blocks
  · rw [hSocks, hDescriptors]
    exact hH.socks
  · rw [hThreads, hCount]
    exact hH.born_update hh
  · rw [hThreads, hSocks, hDescriptors]
    exact hH.client_update hh hClient

theorem Holding.copied (hH : Holding s) (hh : s.handlers i = some h) {fd : Int}
    (hPlace : h.place = .copied a fd) :
    Holding ((s.free a).setHandler i { h with place := .sending fd }) := by
  have hOld : s.block (some i) = some a := by
    rw [block_eq hh, hPlace]
    rfl
  rw [hH.free_eq hOld]
  generalize hNext : ({ s with
      heap := Function.update s.heap a none } : Server).setHandler i
        { h with place := .sending fd } = next
  have hHeap : next.heap = Function.update s.heap a none := hNext ▸ rfl
  have hThreads : next.handlers =
      Function.update s.handlers i (some ⟨.sending fd, h.client⟩) := hNext ▸ rfl
  have hDescriptors : next.descriptors = s.descriptors := hNext ▸ rfl
  have hMain : next.main = s.main := hNext ▸ rfl
  have hBlock : next.block = Function.update s.block (some i) none :=
    block_handler hThreads hMain
  have hSock : next.sock = s.sock := by
    rw [sock_handler hThreads hMain fun q x hq hx => ?_]
    · have hSame : s.sock (some i) = some fd := by
        rw [sock_eq hh, hPlace]
        rfl
      show Function.update s.sock (some i) (some fd) = s.sock
      rw [← hSame, Function.update_eq_self]
    · rw [hHeap, Function.update_of_ne (hH.other_ne hOld hx hq)]
  refine ⟨hNext ▸ hH.defined, ?_, ?_, ?_, ?_⟩
  · rw [hBlock, hHeap]
    exact hH.blocks.release_one hOld live_update_none
  · rw [hSock, hDescriptors]
    exact hH.socks
  · rw [hThreads, ← hNext]
    exact hH.born_update hh
  · rw [hThreads, hSock, hDescriptors]
    exact hH.client_update hh rfl

theorem Holding.closing (hH : Holding s) (hh : s.handlers i = some h) {fd : Int}
    (hPlace : h.place = .closing fd) :
    Holding { s.setHandler i { h with place := .exited } with
      descriptors := s.descriptors.close fd } := by
  have hOld : s.sock (some i) = some fd := by
    rw [sock_eq hh, hPlace]
    rfl
  generalize hNext : ({ s.setHandler i { h with place := .exited } with
      descriptors := s.descriptors.close fd } : Server) = next
  have hHeap : next.heap = s.heap := hNext ▸ rfl
  have hThreads : next.handlers =
      Function.update s.handlers i (some ⟨.exited, h.client⟩) := hNext ▸ rfl
  have hDescriptors : next.descriptors = s.descriptors.close fd := hNext ▸ rfl
  have hMain : next.main = s.main := hNext ▸ rfl
  have hBlock : next.block = s.block := by
    have hNone : s.block (some i) = none := by
      rw [block_eq hh, hPlace]
      rfl
    rw [block_handler hThreads hMain]
    show Function.update s.block (some i) none = s.block
    rw [← hNone, Function.update_eq_self]
  have hSock : next.sock = Function.update s.sock (some i) none :=
    sock_handler hThreads hMain fun _ _ _ _ => by rw [hHeap]
  refine ⟨hNext ▸ hH.defined, ?_, ?_, ?_, ?_⟩
  · rw [hBlock, hHeap]
    exact hH.blocks
  · rw [hSock, hDescriptors]
    exact hH.socks.release_one hOld Descriptors.open_close
  · rw [hThreads, ← hNext]
    exact hH.born_update hh
  · intro j e x he hx
    rw [hThreads] at he
    rw [hSock] at hx
    obtain ⟨hj, hx⟩ := update_none_iff.mp hx
    rw [hDescriptors, Descriptors.table_close_of_ne]
    · exact hH.client_update hh (g := ⟨.exited, h.client⟩) rfl j e x he hx
    · rintro rfl
      exact hj (hH.socks.once _ _ _ hx hOld)

/-- What the next call of a thread is, if it holds what it uses.  The model's
`handle` has an undefined outcome for a block that is not there; it does not
occur, and each call finds what it needs. -/
theorem Holding.handle_cases (hH : Holding s) (hh : s.handlers i = some h)
    (hStep : s.handle i h = some next) :
    (∃ arg fd, h.place = .starting arg ∧ s.heap arg = some fd ∧
      next = s.setHandler i { h with place := .copied arg fd }) ∨
    (∃ arg fd, h.place = .copied arg fd ∧
      next = (s.free arg).setHandler i { h with place := .sending fd }) ∨
    (∃ fd, h.place = .sending fd ∧ s.descriptors.table fd = some h.client ∧
      next = { s.setHandler i { h with place := .closing fd } with
        sent := s.sent ++ [h.client] }) ∨
    ∃ fd, h.place = .closing fd ∧ s.descriptors.table fd = some h.client ∧
      next = { s.setHandler i { h with place := .exited } with
        descriptors := s.descriptors.close fd } := by
  have hTable : ∀ fd, h.place.sock s.heap = some fd →
      s.descriptors.table fd = some h.client := fun fd hfd =>
    hH.client i h fd hh ((sock_eq hh).trans hfd)
  unfold Server.handle at hStep
  cases hPlace : h.place with
  | starting arg =>
      have hBlock : s.block (some i) = some arg := by
        rw [block_eq hh, hPlace]
        rfl
      obtain ⟨fd, hfd⟩ :=
        Option.ne_none_iff_exists'.mp (hH.blocks.alive _ arg hBlock)
      simp only [hPlace, hfd, Option.some.injEq] at hStep
      exact .inl ⟨arg, fd, rfl, hfd, hStep.symm⟩
  | copied arg fd =>
      simp only [hPlace, Option.some.injEq] at hStep
      exact .inr (.inl ⟨arg, fd, rfl, hStep.symm⟩)
  | sending fd =>
      have hOpen := hTable fd (by rw [hPlace]; rfl)
      simp only [hPlace, hOpen, Option.some.injEq] at hStep
      exact .inr (.inr (.inl ⟨fd, rfl, hOpen, hStep.symm⟩))
  | closing fd =>
      have hOpen := hTable fd (by rw [hPlace]; rfl)
      simp only [hPlace, Option.some.injEq] at hStep
      exact .inr (.inr (.inr ⟨fd, rfl, hOpen, hStep.symm⟩))
  | exited =>
      simp only [hPlace, reduceCtorEq] at hStep

end Calls

/-- A call, with what `main` or the thread finds when it makes it.  One
constructor is one call of the source with one outcome, and the state after it
is written out, so that the invariants below need not unfold `step`. -/
inductive Does (s : Server) : Label → Server → Prop where
  | malloc (a : Addr) (garbage : Int) (hMain : s.main = .allocating)
      (hFree : s.heap a = none) : Does s (.malloc a garbage) { s with
        heap := Function.update s.heap a (some garbage)
        main := .accepting a }
  | mallocFails : Does s .mallocFails s
  | accept (a : Addr) (fd : Int) (d : Descriptors)
      (hMain : s.main = .accepting a)
      (hAccept : s.descriptors.accept? fd = some d) :
      Does s (.accept fd)
        { s.write a fd with descriptors := d, main := .creating a }
  | acceptFails (a : Addr) (hMain : s.main = .accepting a) :
      Does s .acceptFails { s.write a (-1) with main := .freeing a }
  | create (a : Addr) (hMain : s.main = .creating a) :
      Does s .create (s.create a)
  | createFails (a : Addr) (hMain : s.main = .creating a) :
      Does s .createFails { s with main := .refusing a }
  | refuse (a : Addr) (hMain : s.main = .refusing a) :
      Does s .refuse (s.refuse a)
  | free (a : Addr) (hMain : s.main = .freeing a) :
      Does s .free { s.free a with main := .allocating }
  | starts (i : Nat) (h : Handler) (arg : Addr) (fd : Int)
      (hh : s.handlers i = some h) (hPlace : h.place = .starting arg)
      (hfd : s.heap arg = some fd) :
      Does s (.handler i) (s.setHandler i { h with place := .copied arg fd })
  | frees (i : Nat) (h : Handler) (arg : Addr) (fd : Int)
      (hh : s.handlers i = some h) (hPlace : h.place = .copied arg fd) :
      Does s (.handler i)
        ((s.free arg).setHandler i { h with place := .sending fd })
  | sends (i : Nat) (h : Handler) (fd : Int) (hh : s.handlers i = some h)
      (hPlace : h.place = .sending fd)
      (hOpen : s.descriptors.table fd = some h.client) :
      Does s (.handler i) { s.setHandler i { h with place := .closing fd } with
        sent := s.sent ++ [h.client] }
  | closes (i : Nat) (h : Handler) (fd : Int) (hh : s.handlers i = some h)
      (hPlace : h.place = .closing fd)
      (hOpen : s.descriptors.table fd = some h.client) :
      Does s (.handler i) { s.setHandler i { h with place := .exited } with
        descriptors := s.descriptors.close fd }
  | sigpipe (i : Nat) (h : Handler) (fd : Int) (hh : s.handlers i = some h)
      (hPlace : h.place = .sending fd) :
      Does s (.sigpipe i) { s with killed := true }

section Steps

variable {s next : Server} {l : Label}

/-- Nothing undefined is done, if blocks and descriptors are held: every step
of the server is one of the calls of `Does`. -/
theorem Holding.does (hH : Holding s) (hStep : step s l = some next) :
    Does s l next := by
  replace hStep := (step_eq_some hStep).2
  cases l with
  | malloc block garbage =>
      simp only [Server.call, Option.ite_none_right_eq_some, Option.some.injEq]
        at hStep
      obtain ⟨⟨hMain, hFree⟩, rfl⟩ := hStep
      exact .malloc block garbage hMain hFree
  | mallocFails =>
      simp only [Server.call, Option.ite_none_right_eq_some, Option.some.injEq]
        at hStep
      obtain ⟨-, rfl⟩ := hStep
      exact .mallocFails
  | accept fd =>
      cases hMain : s.main <;>
        simp only [Server.call, hMain, Option.map_eq_some_iff, reduceCtorEq]
          at hStep
      obtain ⟨d, hAccept, rfl⟩ := hStep
      exact .accept _ fd d hMain hAccept
  | acceptFails =>
      cases hMain : s.main <;>
        simp only [Server.call, hMain, Option.some.injEq, reduceCtorEq] at hStep
      subst hStep
      exact .acceptFails _ hMain
  | create =>
      cases hMain : s.main <;>
        simp only [Server.call, hMain, Option.some.injEq, reduceCtorEq] at hStep
      subst hStep
      exact .create _ hMain
  | createFails =>
      cases hMain : s.main <;>
        simp only [Server.call, hMain, Option.some.injEq, reduceCtorEq] at hStep
      subst hStep
      exact .createFails _ hMain
  | refuse =>
      cases hMain : s.main <;>
        simp only [Server.call, hMain, Option.some.injEq, reduceCtorEq] at hStep
      subst hStep
      exact .refuse _ hMain
  | free =>
      cases hMain : s.main <;>
        simp only [Server.call, hMain, Option.some.injEq, reduceCtorEq] at hStep
      subst hStep
      exact .free _ hMain
  | handler i =>
      obtain ⟨h, hh, hStep⟩ := Option.bind_eq_some_iff.mp hStep
      rcases hH.handle_cases hh hStep with ⟨arg, fd, hPlace, hfd, rfl⟩ |
        ⟨arg, fd, hPlace, rfl⟩ | ⟨fd, hPlace, hOpen, rfl⟩ |
        ⟨fd, hPlace, hOpen, rfl⟩
      · exact .starts i h arg fd hh hPlace hfd
      · exact .frees i h arg fd hh hPlace
      · exact .sends i h fd hh hPlace hOpen
      · exact .closes i h fd hh hPlace hOpen
  | sigpipe i =>
      obtain ⟨h, hh, hStep⟩ := Option.bind_eq_some_iff.mp hStep
      cases hPlace : h.place <;>
        simp only [Server.brokenPipe, hPlace, Option.some.injEq, reduceCtorEq]
          at hStep
      subst hStep
      exact .sigpipe i h _ hh hPlace

theorem Holding.step (hH : Holding s) (hDoes : Does s l next) :
    Holding next := by
  cases hDoes with
  | malloc a garbage hMain hFree => exact hH.malloc hMain hFree garbage
  | mallocFails => exact hH
  | accept a fd d hMain hAccept => exact hH.accept hMain hAccept
  | acceptFails a hMain => exact hH.acceptFails hMain
  | create a hMain => exact hH.create hMain
  | createFails a hMain => exact hH.createFails hMain
  | refuse a hMain => exact hH.refuse hMain
  | free a hMain => exact hH.free hMain
  | starts i h arg fd hh hPlace hfd =>
      exact hH.keep hh (g := { h with place := .copied arg fd }) rfl hH.defined
        rfl rfl rfl rfl rfl (by rw [hPlace]; rfl)
        (by rw [hPlace]; exact hfd.symm)
  | frees i h arg fd hh hPlace => exact hH.copied hh hPlace
  | sends i h fd hh hPlace hOpen =>
      exact hH.keep hh (g := { h with place := .closing fd }) rfl hH.defined
        rfl rfl rfl rfl rfl (by rw [hPlace]; rfl) (by rw [hPlace]; rfl)
  | closes i h fd hh hPlace hOpen => exact hH.closing hh hPlace
  | sigpipe => exact ⟨hH.defined, hH.blocks, hH.socks, hH.born, hH.client⟩

end Steps

/-! ## Connections, call by call -/

section Connections

variable {s next : Server} {a : Addr} {c i : Nat} {h g : Handler}

theorem pending_iff {fd : Int}
    (hfd : s.sock none = some fd) (hc : s.descriptors.table fd = some c)
    (x : Nat) : s.Pending x ↔ x = c := by
  constructor
  · rintro ⟨fd', hfd', hx⟩
    rw [hfd] at hfd'
    obtain rfl := Option.some.inj hfd'
    rw [hc] at hx
    exact (Option.some.inj hx).symm
  · rintro rfl
    exact ⟨fd, hfd, hc⟩

theorem not_pending (hSock : s.sock none = none) (x : Nat) :
    ¬s.Pending x := by
  rintro ⟨fd, hfd, -⟩
  rw [hSock] at hfd
  contradiction

/-- A thread that goes on keeps its connection. -/
theorem hasClient_update
    (hThreads : next.handlers = Function.update s.handlers i (some g))
    (hh : s.handlers i = some h) (hClient : g.client = h.client) (j x : Nat) :
    next.HasClient j x ↔ s.HasClient j x := by
  rw [Server.HasClient, Server.HasClient, hThreads]
  by_cases hj : j = i
  · subst hj
    rw [Function.update_self, hh]
    simp [hClient]
  · rw [Function.update_of_ne hj]

theorem told_update
    (hThreads : next.handlers = Function.update s.handlers i (some g))
    (hh : s.handlers i = some h) (hClient : g.client = h.client)
    (hTold : g.place.told = h.place.told) (j x : Nat) :
    next.Told j x ↔ s.Told j x := by
  rw [Server.Told, Server.Told, hThreads]
  by_cases hj : j = i
  · subst hj
    rw [Function.update_self, hh]
    simp [hClient, hTold]
  · rw [Function.update_of_ne hj]

/-- A call that neither accepts nor closes, and tells nobody.  All six fields
speak of things that are the same before and after. -/
theorem Accounts.keep (hA : Accounts s)
    (hHas : ∀ j x, next.HasClient j x ↔ s.HasClient j x)
    (hTold : ∀ j x, next.Told j x ↔ s.Told j x)
    (hPending : ∀ x, next.Pending x ↔ s.Pending x)
    (hRefused : next.refused = s.refused) (hSent : next.sent = s.sent)
    (hDescriptors : next.descriptors = s.descriptors) : Accounts next := by
  refine ⟨?_, ?_, ?_, ?_, ?_, ?_⟩
  · simpa only [hDescriptors, hPending, hRefused, hHas] using hA.accepted
  · simpa only [hHas] using hA.distinct
  · simpa only [hPending, hRefused, hHas] using hA.pending
  · simpa only [hDescriptors, hRefused, hHas] using hA.refused
  · simpa only [hSent] using hA.sentOnce
  · simpa only [hSent, hTold] using hA.sent_iff

/-- A call of `main` of that kind: it leaves its descriptor where it is. -/
theorem Accounts.keep_main (hA : Accounts s)
    (hThreads : next.handlers = s.handlers)
    (hSock : next.sock none = s.sock none)
    (hRefused : next.refused = s.refused) (hSent : next.sent = s.sent)
    (hDescriptors : next.descriptors = s.descriptors) : Accounts next := by
  refine hA.keep (fun j x => ?_) (fun j x => ?_) (fun x => ?_) hRefused hSent
    hDescriptors
  · rw [Server.HasClient, Server.HasClient, hThreads]
  · rw [Server.Told, Server.Told, hThreads]
  · rw [Server.Pending, Server.Pending, hSock, hDescriptors]

theorem Accounts.accept (hA : Accounts s) {d : Descriptors} {fd : Int}
    (hSock : s.sock none = none) (hAccept : s.descriptors.accept? fd = some d)
    (hThreads : next.handlers = s.handlers) (hNow : next.sock none = some fd)
    (hRefused : next.refused = s.refused) (hSent : next.sent = s.sent)
    (hDescriptors : next.descriptors = d) : Accounts next := by
  obtain ⟨-, -, hCount, hTable, hClosed⟩ :=
    Descriptors.accept?_eq_some hAccept
  have hHas : ∀ j x, next.HasClient j x ↔ s.HasClient j x := fun j x => by
    rw [Server.HasClient, Server.HasClient, hThreads]
  have hTold : ∀ j x, next.Told j x ↔ s.Told j x := fun j x => by
    rw [Server.Told, Server.Told, hThreads]
  have hPending : ∀ x, next.Pending x ↔ x = s.descriptors.accepted := by
    refine pending_iff hNow ?_
    rw [hDescriptors, hTable, Function.update_self]
  have hOld : ∀ x, x < s.descriptors.accepted ↔
      x ∈ s.refused ∨ ∃ j, s.HasClient j x := fun x => by
    rw [hA.accepted x, or_iff_right (not_pending hSock x)]
  refine ⟨?_, ?_, ?_, ?_, ?_, ?_⟩
  · intro x
    simp only [hDescriptors, hCount, hPending, hRefused, hHas, ← hOld]
    omega
  · simpa only [hHas] using hA.distinct
  · intro x hx
    obtain rfl := (hPending x).mp hx
    simp only [hRefused, hHas, ← not_exists, ← not_or]
    rw [← hOld]
    exact Nat.lt_irrefl _
  · simpa only [hDescriptors, hClosed, hRefused, hHas] using hA.refused
  · simpa only [hSent] using hA.sentOnce
  · simpa only [hSent, hTold] using hA.sent_iff

/-- The pending connection is handed to a new thread.  The thread is the only
one for it, since nothing pending has a thread. -/
theorem Accounts.create (hA : Accounts s) {fd : Int}
    (hfd : s.sock none = some fd) (hc : s.descriptors.table fd = some c)
    (hNew : s.handlers s.threads = none)
    (hThreads : next.handlers =
      Function.update s.handlers s.threads (some ⟨.starting a, c⟩))
    (hNow : next.sock none = none) (hRefused : next.refused = s.refused)
    (hSent : next.sent = s.sent)
    (hDescriptors : next.descriptors = s.descriptors) : Accounts next := by
  have hPending := pending_iff hfd hc
  have hHas : ∀ j x, next.HasClient j x ↔
      s.HasClient j x ∨ j = s.threads ∧ x = c := by
    intro j x
    rw [Server.HasClient, Server.HasClient, hThreads]
    by_cases hj : j = s.threads
    · subst hj
      rw [Function.update_self, hNew]
      simp [eq_comm]
    · rw [Function.update_of_ne hj]
      simp [hj]
  have hTold : ∀ j x, next.Told j x ↔ s.Told j x := by
    intro j x
    rw [Server.Told, Server.Told, hThreads]
    by_cases hj : j = s.threads
    · subst hj
      rw [Function.update_self, hNew]
      simp [HandlerAt.told]
    · rw [Function.update_of_ne hj]
  obtain ⟨hNotRefused, hNotHas⟩ := hA.pending c ((hPending c).mpr rfl)
  refine ⟨?_, ?_, ?_, ?_, ?_, ?_⟩
  · intro x
    rw [hDescriptors, hA.accepted x, hPending, hRefused,
      iff_false_intro (not_pending hNow x), false_or]
    simp only [hHas, exists_or, exists_eq_left]
    tauto
  · intro j k x hj hk
    rcases (hHas j x).mp hj with hj | ⟨rfl, rfl⟩ <;>
      rcases (hHas k x).mp hk with hk | ⟨rfl, hx⟩
    · exact hA.distinct j k x hj hk
    · exact absurd (hx ▸ hj) (hNotHas j)
    · exact absurd hk (hNotHas k)
    · rfl
  · intro x hx
    exact absurd hx (not_pending hNow x)
  · intro x hx
    rw [hRefused] at hx
    obtain ⟨hClosed, hNone⟩ := hA.refused x hx
    refine ⟨hDescriptors ▸ hClosed, fun j hj => ?_⟩
    rcases (hHas j x).mp hj with hj | ⟨-, rfl⟩
    · exact hNone j hj
    · exact hNotRefused hx
  · simpa only [hSent] using hA.sentOnce
  · simpa only [hSent, hTold] using hA.sent_iff

/-- The pending connection is closed, without having been told anything. -/
theorem Accounts.refuse (hA : Accounts s) {fd : Int}
    (hfd : s.sock none = some fd) (hc : s.descriptors.table fd = some c)
    (hThreads : next.handlers = s.handlers) (hNow : next.sock none = none)
    (hRefused : next.refused = s.refused ++ [c]) (hSent : next.sent = s.sent)
    (hDescriptors : next.descriptors = s.descriptors.close fd) :
    Accounts next := by
  have hPending := pending_iff hfd hc
  have hHas : ∀ j x, next.HasClient j x ↔ s.HasClient j x := fun j x => by
    rw [Server.HasClient, Server.HasClient, hThreads]
  have hTold : ∀ j x, next.Told j x ↔ s.Told j x := fun j x => by
    rw [Server.Told, Server.Told, hThreads]
  have hClosed : ∀ x, x ∈ next.descriptors.closed ↔
      x ∈ s.descriptors.closed ∨ x = c := fun x => by
    rw [hDescriptors, Descriptors.closed_close hc, List.mem_append,
      List.mem_singleton]
  obtain ⟨hNotRefused, hNotHas⟩ := hA.pending c ((hPending c).mpr rfl)
  refine ⟨?_, ?_, ?_, ?_, ?_, ?_⟩
  · intro x
    rw [hDescriptors, Descriptors.accepted_close, hA.accepted x, hPending,
      iff_false_intro (not_pending hNow x), false_or, hRefused,
      List.mem_append, List.mem_singleton]
    simp only [hHas]
    tauto
  · simpa only [hHas] using hA.distinct
  · intro x hx
    exact absurd hx (not_pending hNow x)
  · intro x hx
    rw [hRefused, List.mem_append, List.mem_singleton] at hx
    simp only [hClosed, hHas]
    rcases hx with hx | rfl
    · exact ⟨.inl (hA.refused x hx).1, (hA.refused x hx).2⟩
    · exact ⟨.inr rfl, hNotHas⟩
  · simpa only [hSent] using hA.sentOnce
  · simpa only [hSent, hTold] using hA.sent_iff

/-- A thread that has not told its connection the time does so: the connection
is in the list for the first time, since no other thread has it. -/
theorem Accounts.sends (hA : Accounts s) (hh : s.handlers i = some h)
    (hBefore : h.place.told = false) (hClient : g.client = h.client)
    (hAfter : g.place.told = true)
    (hThreads : next.handlers = Function.update s.handlers i (some g))
    (hPending : ∀ x, next.Pending x ↔ s.Pending x)
    (hRefused : next.refused = s.refused)
    (hSent : next.sent = s.sent ++ [h.client])
    (hDescriptors : next.descriptors = s.descriptors) : Accounts next := by
  have hHas := hasClient_update hThreads hh hClient
  have hTold : ∀ j x, next.Told j x ↔ s.Told j x ∨ j = i ∧ x = h.client := by
    intro j x
    rw [Server.Told, Server.Told, hThreads]
    by_cases hj : j = i
    · subst hj
      rw [Function.update_self, hh]
      simp only [Option.some.injEq, exists_eq_left', hClient, hAfter, hBefore,
        and_true, Bool.false_eq_true, and_false, false_or, true_and]
      exact eq_comm
    · rw [Function.update_of_ne hj]
      simp [hj]
  have hNew : h.client ∉ s.sent := by
    rw [hA.sent_iff]
    rintro ⟨j, e, he, heClient, heTold⟩
    obtain rfl := hA.distinct j i h.client ⟨e, he, heClient⟩ ⟨h, hh, rfl⟩
    rw [hh] at he
    obtain rfl := Option.some.inj he
    rw [hBefore] at heTold
    contradiction
  refine ⟨?_, ?_, ?_, ?_, ?_, ?_⟩
  · simpa only [hDescriptors, hPending, hRefused, hHas] using hA.accepted
  · simpa only [hHas] using hA.distinct
  · simpa only [hPending, hRefused, hHas] using hA.pending
  · simpa only [hDescriptors, hRefused, hHas] using hA.refused
  · rw [hSent, List.nodup_append]
    refine ⟨hA.sentOnce, List.nodup_singleton _, ?_⟩
    rintro x hx _ hc rfl
    obtain rfl := List.mem_singleton.mp hc
    exact hNew hx
  · intro x
    rw [hSent, List.mem_append, List.mem_singleton, hA.sent_iff x]
    simp only [hTold, exists_or, exists_eq_left]

theorem Accounts.closes (hA : Accounts s) (hh : s.handlers i = some h)
    {fd : Int} (hOpen : s.descriptors.table fd = some h.client)
    (hClient : g.client = h.client) (hTold : g.place.told = h.place.told)
    (hThreads : next.handlers = Function.update s.handlers i (some g))
    (hPending : ∀ x, next.Pending x ↔ s.Pending x)
    (hRefused : next.refused = s.refused) (hSent : next.sent = s.sent)
    (hDescriptors : next.descriptors = s.descriptors.close fd) :
    Accounts next := by
  have hHas := hasClient_update hThreads hh hClient
  have hTold := told_update hThreads hh hClient hTold
  refine ⟨?_, ?_, ?_, ?_, ?_, ?_⟩
  · simpa only [hDescriptors, Descriptors.accepted_close, hPending, hRefused,
      hHas] using hA.accepted
  · simpa only [hHas] using hA.distinct
  · simpa only [hPending, hRefused, hHas] using hA.pending
  · intro x hx
    rw [hRefused] at hx
    simp only [hHas]
    refine ⟨?_, (hA.refused x hx).2⟩
    rw [hDescriptors, Descriptors.closed_close hOpen]
    exact List.mem_append_left _ (hA.refused x hx).1
  · simpa only [hSent] using hA.sentOnce
  · simpa only [hSent, hTold] using hA.sent_iff

end Connections

section Steps

variable {s next : Server} {l : Label}

/-- The descriptor that `main` has is not the one a thread closes, so what is
pending stays pending. -/
theorem Holding.pending_closes (hH : Holding s) {i : Nat} {fd : Int}
    (hfd : s.sock (some i) = some fd) (hSock : next.sock none = s.sock none)
    (hDescriptors : next.descriptors = s.descriptors.close fd) (x : Nat) :
    next.Pending x ↔ s.Pending x := by
  rw [Server.Pending, Server.Pending, hSock, hDescriptors]
  refine exists_congr fun fd' => and_congr_right fun hfd' => ?_
  rw [Descriptors.table_close_of_ne]
  rintro rfl
  exact Option.some_ne_none i (hH.socks.once _ _ _ hfd hfd')

theorem Inv.accounts_step (hI : Inv s) (hDoes : Does s l next) :
    Accounts next := by
  obtain ⟨hH, hA, -⟩ := hI
  have hNo : ∀ p : MainAt, s.main = p → p.sock s.heap = none →
      s.sock none = none := by
    rintro _ rfl hp
    exact hp
  cases hDoes with
  | malloc a garbage hMain hFree =>
      exact hA.keep_main rfl (hNo _ hMain rfl).symm rfl rfl rfl
  | mallocFails => exact hA
  | accept a fd d hMain hAccept =>
      rw [hH.write_eq hMain]
      exact hA.accept (hNo _ hMain rfl) hAccept rfl (Function.update_self ..)
        rfl rfl rfl
  | acceptFails a hMain =>
      rw [hH.write_eq hMain]
      exact hA.keep_main rfl (hNo _ hMain rfl).symm rfl rfl rfl
  | create a hMain =>
      obtain ⟨fd, c, hfd, hSock, hc⟩ := hH.found (.inl hMain)
      refine hA.create (a := a) hSock hc hH.no_thread ?_ rfl rfl rfl rfl
      show Function.update s.handlers s.threads _ = _
      rw [hfd, Option.bind_some, hc]
      rfl
  | createFails a hMain =>
      refine hA.keep_main rfl ?_ rfl rfl rfl
      rw [Server.sock, Server.sock, hMain]
      rfl
  | refuse a hMain =>
      obtain ⟨fd, c, hfd, hSock, hc⟩ := hH.found (.inr hMain)
      have hNext : s.refuse a = { s with
          descriptors := s.descriptors.close fd
          refused := s.refused ++ [c]
          main := .freeing a } := by
        rw [Server.refuse, hfd]
        simp only [hc, Option.toList_some]
      rw [hNext]
      exact hA.refuse hSock hc rfl rfl rfl rfl rfl
  | free a hMain =>
      have hBlock : s.block none = some a := by
        rw [Server.block, hMain]
        rfl
      rw [hH.free_eq hBlock]
      exact hA.keep_main rfl (hNo _ hMain rfl).symm rfl rfl rfl
  | starts i h arg fd hh hPlace hfd =>
      have hTold : (HandlerAt.copied arg fd).told = h.place.told := by
        rw [hPlace]
        rfl
      have hThreads : (s.setHandler i
            { h with place := .copied arg fd }).handlers =
          Function.update s.handlers i
            (some { h with place := .copied arg fd }) := rfl
      exact hA.keep (hasClient_update hThreads hh rfl)
        (told_update hThreads hh rfl hTold) (fun _ => Iff.rfl) rfl rfl rfl
  | frees i h arg fd hh hPlace =>
      have hBlock : s.block (some i) = some arg := by
        rw [block_eq hh, hPlace]
        rfl
      have hTold : (HandlerAt.sending fd).told = h.place.told := by
        rw [hPlace]
        rfl
      rw [hH.free_eq hBlock]
      have hThreads : (({ s with
            heap := Function.update s.heap arg none } : Server).setHandler i
              { h with place := .sending fd }).handlers =
          Function.update s.handlers i
            (some { h with place := .sending fd }) := rfl
      refine hA.keep (hasClient_update hThreads hh rfl)
        (told_update hThreads hh rfl hTold) (fun x => ?_) rfl rfl rfl
      have hSame : s.main.sock (Function.update s.heap arg none) =
          s.main.sock s.heap := by
        refine mainSock_congr fun b hb => ?_
        rw [Function.update_of_ne]
        exact hH.other_ne (q := none) hBlock hb (Option.some_ne_none i).symm
      show (∃ fd', s.main.sock (Function.update s.heap arg none) = some fd' ∧
        s.descriptors.table fd' = some x) ↔ s.Pending x
      rw [hSame]
      rfl
  | sends i h fd hh hPlace hOpen =>
      have hBefore : h.place.told = false := by
        rw [hPlace]
        rfl
      exact hA.sends hh hBefore (g := { h with place := .closing fd }) rfl rfl
        rfl (fun _ => Iff.rfl) rfl rfl rfl
  | closes i h fd hh hPlace hOpen =>
      have hTold : HandlerAt.exited.told = h.place.told := by
        rw [hPlace]
        rfl
      have hSock : s.sock (some i) = some fd := by
        rw [sock_eq hh, hPlace]
        rfl
      exact hA.closes hh hOpen (g := { h with place := .exited }) rfl hTold rfl
        (hH.pending_closes hSock rfl rfl) rfl rfl rfl
  | sigpipe => exact hA.keep_main rfl rfl rfl rfl rfl

/-- A descriptor that is closed is open until then: the one who closes it holds
it, and what is held is open. -/
theorem Inv.strays_step (hI : Inv s) (hDoes : Does s l next) :
    next.descriptors.strays = [] := by
  have hKept : next.descriptors = s.descriptors →
      next.descriptors.strays = [] :=
    fun hSame => by rw [hSame, hI.strays]
  cases hDoes with
  | accept a fd d hMain hAccept =>
      exact (Descriptors.strays_accept? hAccept).trans hI.strays
  | refuse a hMain =>
      obtain ⟨fd, c, hfd, -, hc⟩ := hI.holding.found (.inr hMain)
      rw [Server.refuse, hfd]
      exact (Descriptors.strays_close hc).trans hI.strays
  | closes i h fd hh hPlace hOpen =>
      exact (Descriptors.strays_close hOpen).trans hI.strays
  | acceptFails a hMain =>
      rw [hI.holding.write_eq hMain] at hKept ⊢
      exact hKept rfl
  | free a hMain =>
      have hBlock : s.block none = some a := by
        rw [Server.block, hMain]
        rfl
      rw [hI.holding.free_eq hBlock] at hKept ⊢
      exact hKept rfl
  | frees i h arg fd hh hPlace =>
      have hBlock : s.block (some i) = some arg := by
        rw [block_eq hh, hPlace]
        rfl
      rw [hI.holding.free_eq hBlock] at hKept ⊢
      exact hKept rfl
  | malloc | mallocFails | create | createFails | starts | sends | sigpipe =>
      exact hKept rfl

theorem inv_start : Inv start := by
  refine ⟨⟨rfl, ?_, ?_, ?_, ?_⟩, ⟨?_, ?_, ?_, ?_, List.nodup_nil, ?_⟩, rfl⟩
  · refine Custody.empty (fun _ h => h rfl) ?_
    rintro (_ | i) a h <;> contradiction
  · refine Custody.empty ?_ ?_
    · rintro fd ⟨c, hc⟩
      contradiction
    · rintro (_ | i) fd h <;> contradiction
  · intro i h hh
    contradiction
  · intro i h fd hh
    contradiction
  · intro c
    simp [start, Descriptors.empty, Server.Pending, Server.HasClient,
      Server.sock, MainAt.sock]
  · rintro i j c ⟨h, hh, -⟩
    contradiction
  · rintro c ⟨fd, hfd, -⟩
    contradiction
  · intro c hc
    contradiction
  · intro c
    simp [start, Server.Told]

theorem Inv.step (hI : Inv s)
    (hStep : serverMachine.step s l = some next) : Inv next := by
  have hDoes := hI.holding.does hStep
  exact ⟨hI.holding.step hDoes, hI.accounts_step hDoes, hI.strays_step hDoes⟩

theorem inv_reachable (hr : serverMachine.Reachable s) : Inv s := by
  refine hr.invariant ?_ ?_
  · rintro _ rfl
    exact inv_start
  · intro s l next hI _ hStep
    exact hI.step hStep

/-! ## The server -/

/-- **Blocks and descriptors are in good hands.**  In every reachable state
nothing undefined has been done: no block is used or freed after it was freed.
Each allocated block has one owner, which `main` or a thread will free it, and
each open descriptor one that will close it, so a thread that has exited
leaves nothing behind. -/
theorem blocks_in_custody (hr : serverMachine.Reachable s) :
    s.undefined = false ∧
    (∀ a, s.heap a ≠ none ↔ ∃! p, s.block p = some a) ∧
    (∀ fd, s.descriptors.Open fd ↔ ∃! p, s.sock p = some fd) ∧
    ∀ i h fd, s.handlers i = some h → s.sock (some i) = some fd →
      s.descriptors.table fd = some h.client := by
  have hH := (inv_reachable hr).holding
  exact ⟨hH.defined, hH.blocks.existsUnique_iff, hH.socks.existsUnique_iff,
    hH.client⟩

/-- The next block is the one that the first thread freed, while that thread
still has its descriptor. -/
theorem blocks_in_custody_reuse : ∃ s,
    serverMachine.Reachable s ∧ s.heap 40 = some 8 ∧ s.sock (some 0) = some 7 ∧
      s.undefined = false := by
  have hrun := Machine.reachable_of_run (m := serverMachine) (s := start) rfl
    (show _ = some _ from rfl : serverMachine.run start
      [.malloc 40 0, .accept 7, .create, .handler 0, .handler 0, .malloc 40 7,
        .accept 8] = _)
  obtain ⟨hDefined, -, -, -⟩ := blocks_in_custody hrun
  exact ⟨_, hrun, rfl, rfl, hDefined⟩

/-- What a connection has been told, and whether it is closed, depends on how
far its thread is.  A connection has one thread only, so the place of this
thread decides. -/
theorem told_and_closed (hI : Inv s) {i : Nat} {h : Handler}
    (hh : s.handlers i = some h) :
    (h.client ∈ s.sent ↔ h.place.told = true) ∧
      (h.client ∈ s.descriptors.closed ↔ h.place = .exited) := by
  obtain ⟨hH, hA, -⟩ := hI
  have hHas : s.HasClient i h.client := ⟨h, hh, rfl⟩
  have hOnly : ∀ j e, s.handlers j = some e → e.client = h.client →
      j = i ∧ e = h := by
    intro j e he hClient
    obtain rfl := hA.distinct j i h.client ⟨e, he, hClient⟩ hHas
    rw [hh] at he
    exact ⟨rfl, (Option.some.inj he).symm⟩
  constructor
  · rw [hA.sent_iff]
    constructor
    · rintro ⟨j, e, he, hClient, hTold⟩
      obtain ⟨-, rfl⟩ := hOnly j e he hClient
      exact hTold
    · intro hTold
      exact ⟨i, h, hh, rfl, hTold⟩
  · rw [s.descriptors.closed_iff]
    constructor
    · rintro ⟨-, hNone⟩
      -- Until it has exited, the thread has an open descriptor.
      cases hPlace : h.place with
      | exited => rfl
      | starting arg =>
          have hBlock : s.block (some i) = some arg := by
            rw [block_eq hh, hPlace]
            rfl
          obtain ⟨fd, hfd⟩ :=
            Option.ne_none_iff_exists'.mp (hH.blocks.alive _ arg hBlock)
          refine absurd (hH.client i h fd hh ?_) (hNone fd)
          rw [sock_eq hh, hPlace]
          exact hfd
      | copied arg fd | sending fd | closing fd =>
          refine absurd (hH.client i h fd hh ?_) (hNone fd)
          rw [sock_eq hh, hPlace]
          rfl
    · intro hPlace
      refine ⟨(hA.accepted _).mpr (.inr (.inr ⟨i, hHas⟩)), ?_⟩
      intro fd hfd
      obtain ⟨p, hp⟩ := hH.socks.held fd ⟨_, hfd⟩
      cases p with
      | none => exact (hA.pending _ ⟨fd, hp, hfd⟩).2 i hHas
      | some j =>
          cases he : s.handlers j with
          | none =>
              rw [Server.sock, he] at hp
              contradiction
          | some e =>
              have hClient := hH.client j e fd he hp
              rw [hfd] at hClient
              obtain ⟨rfl, rfl⟩ :=
                hOnly j e he (Option.some.inj hClient).symm
              rw [sock_eq he, hPlace] at hp
              contradiction

/-- **Every connection is told the time once.**  In every reachable state a
connection that was accepted is still in `main`'s hands, or was closed after a
failed `pthread_create` without being told, or has one thread; what it has been
told and whether it has been closed depends on how far this thread is.  No
`close` is called twice for a connection: every descriptor given to `close` was
open. -/
theorem clients_told_once (hr : serverMachine.Reachable s) :
    s.sent.Nodup ∧ s.descriptors.closed.Nodup ∧ s.descriptors.strays = [] ∧
    (∀ c, c < s.descriptors.accepted →
      (s.Pending c ∧ c ∉ s.sent ∧ c ∉ s.descriptors.closed) ∨
      (c ∈ s.refused ∧ c ∉ s.sent ∧ c ∈ s.descriptors.closed) ∨
      ∃! i, s.HasClient i c) ∧
    ∀ i h, s.handlers i = some h →
      (h.client ∈ s.sent ↔ h.place.told = true) ∧
      (h.client ∈ s.descriptors.closed ↔ h.place = .exited) := by
  have hI := inv_reachable hr
  have hA := hI.accounts
  have hNotSent : ∀ c, (∀ i, ¬s.HasClient i c) → c ∉ s.sent := by
    intro c hNone hc
    obtain ⟨i, h, hh, hClient, -⟩ := (hA.sent_iff c).mp hc
    exact hNone i ⟨h, hh, hClient⟩
  refine ⟨hA.sentOnce, s.descriptors.closedOnce, hI.strays, ?_,
    fun i h hh => told_and_closed hI hh⟩
  intro c hc
  rcases (hA.accepted c).mp hc with hPending | hRefused | ⟨i, hi⟩
  · refine .inl ⟨hPending, hNotSent c (hA.pending c hPending).2, ?_⟩
    obtain ⟨fd, -, hfd⟩ := hPending
    exact Descriptors.notMem_closed hfd
  · obtain ⟨hClosed, hNone⟩ := hA.refused c hRefused
    exact .inr (.inl ⟨hRefused, hNotSent c hNone, hClosed⟩)
  · exact .inr (.inr ⟨i, hi, fun j hj => hA.distinct j i c hj hi⟩)

/-- The second client is told the time first; a third one has no thread. -/
theorem clients_told_once_refused : ∃ s,
    serverMachine.Reachable s ∧ s.descriptors.closed = [1, 2] ∧
      s.refused = [2] ∧ s.sent.Nodup := by
  have hrun := Machine.reachable_of_run (m := serverMachine) (s := start) rfl
    (show _ = some _ from rfl : serverMachine.run start
      [.malloc 40 0, .accept 7, .create, .malloc 48 0, .accept 8, .create,
        .handler 1, .handler 1, .handler 1, .handler 1, .malloc 48 8,
        .accept 8, .createFails, .refuse, .free] = _)
  obtain ⟨hSent, -, -, -⟩ := clients_told_once hrun
  exact ⟨_, hrun, rfl, rfl, hSent⟩

end Steps

end UnixHomework.Ports.ThreadPerClient
