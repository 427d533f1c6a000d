import UnixHomework.Ports.MultiprotocolTalk
import UnixHomework.Verified.Progress
import UnixHomework.Verified.Tally

/-!
# Both protocols are served

If no datagram is lost and no call of the server fails, the server and its
clients come to their end in a bounded number of calls, however TCP cuts what
is sent and whoever is faster, and all clients have been served in both
protocols (`clients_answered`): each has printed the answer to its datagram,
and each whose `Hello` was read as a whole has printed the answer to that, or
its beginning.  A client whose `Hello` was cut has printed nothing instead, and
has not been kept waiting.
-/

namespace UnixHomework.Ports.Multiprotocol

open UnixHomework.Verified

variable {n : Nat} {s s' : System n} {a : Act n}

/-! ## Calls -/

/-- What a call does, one constructor for each call of a client, and one for
all calls of the server.  The reads of a client take what the server has
written, as many bytes as TCP hands over. -/
inductive Acts (s : System n) : Act n → System n → Prop where
  | main (l server) (hl : l.isMain = true) (hDoes : Does s.server l server) :
      Acts s (.main l) { s with server := server }
  | connect (i) (hPlace : (s.clients i).place = .connecting) :
      Acts s (.connect i) (s.client i (.writing s.server.connected)
        { s.server with connected := s.server.connected + 1 })
  | write (i c) (hPlace : (s.clients i).place = .writing c) :
      Acts s (.write i) (s.client i (.reading c) { s.server with
        sent := Function.update s.server.sent c (s.server.sent c ++ hello) })
  | read (i c k buffer) (hPlace : (s.clients i).place = .reading c)
      (hOne : 1 ≤ k) (hLe : k ≤ (s.server.told c).length) :
      Acts s (.read i k) (s.go i { s.clients i with
        place := .sending c
        buffer := buffer
        tcp := some (cstr ((s.server.told c).take k)) } (s.hangUp c))
  | readNothing (i c) (hPlace : (s.clients i).place = .reading c)
      (hNone : s.server.told c = [])
      (hEnd : c ∈ s.server.closed ∨ s.server.place.stopped = true) :
      Acts s (.readNothing i) (s.client i (.sending c) (s.hangUp c))
  | sendto (i c) (hPlace : (s.clients i).place = .sending c) :
      Acts s (.sendto i) (s.client i (.receiving c) { s.server with
        arrived := s.server.arrived ++ [(i, hi)] })
  | lose (i c) (hPlace : (s.clients i).place = .sending c) :
      Acts s (.lose i) (s.client i (.receiving c) s.server)
  | recvfrom (i c buffer text) (hPlace : (s.clients i).place = .receiving c)
      (hAnswer : s.server.answer i = some text) :
      Acts s (.recvfrom i) (s.go i { s.clients i with
        place := .exited c
        buffer := buffer
        udp := some (cstr (text.take 1023)) } s.server)

theorem acts_of_act (h : act s a = some s') : Acts s a s' := by
  cases a with
  | main l =>
      obtain ⟨hl, hNext⟩ := Option.ite_none_right_eq_some.mp h
      obtain ⟨server, hStep, rfl⟩ := Option.map_eq_some_iff.mp hNext
      exact .main l server hl (does_of_step hStep)
  | connect i =>
      cases hPlace : (s.clients i).place <;>
        simp only [act, hPlace, reduceCtorEq] at h
      obtain rfl := Option.some.inj h
      exact .connect i hPlace
  | write i =>
      cases hPlace : (s.clients i).place <;>
        simp only [act, hPlace, reduceCtorEq] at h
      obtain rfl := Option.some.inj h
      exact .write i _ hPlace
  | read i k =>
      cases hPlace : (s.clients i).place <;>
        simp only [act, hPlace, reduceCtorEq] at h
      rename_i c
      obtain ⟨⟨hOne, hMost⟩, hNext⟩ := Option.ite_none_right_eq_some.mp h
      obtain ⟨hLe, hRoom⟩ := Nat.le_min.mp hMost
      obtain ⟨b, hText⟩ := recvText_in_room (s.clients i).buffer
        ((s.server.told c).take k)
      rw [List.take_take, Nat.min_eq_right hRoom] at hText
      simp only [System.readTcp, hText] at hNext
      obtain rfl := Option.some.inj hNext
      exact .read i c k b hPlace hOne hLe
  | readNothing i =>
      cases hPlace : (s.clients i).place <;>
        simp only [act, hPlace, reduceCtorEq] at h
      obtain ⟨⟨hNone, hEnd⟩, hNext⟩ := Option.ite_none_right_eq_some.mp h
      obtain rfl := Option.some.inj hNext
      exact .readNothing i _ hPlace hNone hEnd
  | sendto i =>
      cases hPlace : (s.clients i).place <;>
        simp only [act, hPlace, reduceCtorEq] at h
      obtain rfl := Option.some.inj h
      exact .sendto i _ hPlace
  | lose i =>
      cases hPlace : (s.clients i).place <;>
        simp only [act, hPlace, reduceCtorEq] at h
      obtain rfl := Option.some.inj h
      exact .lose i _ hPlace
  | recvfrom i =>
      cases hPlace : (s.clients i).place <;>
        simp only [act, hPlace, reduceCtorEq] at h
      rename_i c
      obtain ⟨text, hAnswer, hNext⟩ := Option.map_eq_some_iff.mp h
      obtain ⟨b, hText⟩ := recvText_in_room (s.clients i).buffer text
      simp only [System.readUdp, hText] at hNext
      subst hNext
      exact .recvfrom i c b text hPlace hAnswer

/-! ## Invariants -/

namespace ClientAt

/-- The connection of a client, from its `connect` on. -/
def connection : ClientAt → Option Nat
  | connecting | undefined => none
  | writing c | reading c | sending c | receiving c | exited c => some c

/-- The connection, once it is closed.  What the client prints of it is settled
then. -/
def past : ClientAt → Option Nat
  | connecting | writing _ | reading _ | undefined => none
  | sending c | receiving c | exited c => some c

end ClientAt

/-- The first answer that a client has printed, in terms of what the server
has read.  The server reads once, so a `Hello` that TCP has cut is not
recognised; a client whose `Hello` was whole prints at least the beginning
of the answer. -/
def FirstAnswer (server : Server (Fin n)) (c : Nat)
    (tcp : Option (List UInt8)) : Prop :=
  ∃ bytes, Message.tcp c bytes ∈ server.handled ∧ bytes ≠ [] ∧
    bytes <+: hello ∧
    if bytes = hello then ∃ text, tcp = some text ∧ text ≠ [] ∧
      text <+: salutTcp
    else tcp = none

/-- Connections and what has been sent on them. -/
structure Sockets (s : System n) : Prop where
  /-- The connections are those of the clients, -/
  owner : ∀ c, c < s.server.connected ↔
    ∃ i, (s.clients i).place.connection = some c
  /-- and no two clients have the same. -/
  one : ∀ i j c, (s.clients i).place.connection = some c →
    (s.clients j).place.connection = some c → i = j
  /-- Nothing is sent on a connection before its client has written, -/
  unwritten : ∀ i c, (s.clients i).place = .writing c → s.server.sent c = []
  /-- and afterwards it is one `Hello`. -/
  written : ∀ i c, (s.clients i).place.connection = some c →
    (s.clients i).place ≠ .writing c → s.server.sent c = hello
  /-- Nothing is sent where nobody has connected. -/
  unsent : ∀ c, s.server.connected ≤ c → s.server.sent c = []

/-- What a client has got. -/
structure ClientOk (server : Server (Fin n)) (i : Fin n) (client : Client) :
    Prop where
  /-- No call has gone wrong. -/
  defined : client.place ≠ .undefined
  /-- Before the connection is closed nothing of it has been printed, -/
  silent : client.place.past = none → client.tcp = none
  /-- and afterwards the first answer has been, if there was one. -/
  shown : ∀ c, client.place.past = some c → FirstAnswer server c client.tcp
  /-- A client that waits for the second answer has sent its datagram, -/
  asked : ∀ c, client.place = .receiving c → (i, hi) ∈ server.arrived
  /-- and one that has come to its end has printed the answer. -/
  answered : ∀ c, client.place = .exited c → client.udp = some salutUdp

/-- What holds in every state of a calm run: the invariants of the server, the
sockets, and what each client has got. -/
structure Served (s : System n) : Prop where
  /-- What has been put out, -/
  logs : Logs s.server
  /-- and what has been taken from the network. -/
  order : Order s.server
  /-- The events that are still to be handled are there. -/
  events : Events s.server
  /-- The server goes on, and nobody hangs up on it. -/
  talk : Talk s.server
  /-- The connections are those of the clients, with what they have sent, -/
  sockets : Sockets s
  /-- and each client has got its own answers. -/
  clients : ∀ i, ClientOk s.server i (s.clients i)

/-- What has been heard and what has arrived stays so, and nothing else of the
server matters to a client. -/
theorem ClientOk.mono {server server' : Server (Fin n)} {i : Fin n}
    {client : Client} (h : ClientOk server i client)
    (hHandled : server.handled ⊆ server'.handled)
    (hArrived : server.arrived ⊆ server'.arrived) :
    ClientOk server' i client where
  defined := h.defined
  silent := h.silent
  shown c hc := by
    obtain ⟨bytes, hMem, hRest⟩ := h.shown c hc
    exact ⟨bytes, hHandled hMem, hRest⟩
  asked c hc := hArrived (h.asked c hc)
  answered := h.answered

section Go

variable (s) (client : Client) (server : Server (Fin n))

theorem clients_go_self (i : Fin n) :
    (s.go i client server).clients i = client :=
  Function.update_self ..

theorem clients_go_ne {i j : Fin n} (h : j ≠ i) :
    (s.go i client server).clients j = s.clients j :=
  Function.update_of_ne h ..

end Go

/-- A client goes on, and the others have what they had. -/
theorem clients_step {server : Server (Fin n)} {i : Fin n} {client : Client}
    (h : ∀ j, ClientOk s.server j (s.clients j))
    (hHandled : s.server.handled ⊆ server.handled)
    (hArrived : s.server.arrived ⊆ server.arrived)
    (hOk : ClientOk server i client) (j : Fin n) :
    ClientOk server j ((s.go i client server).clients j) := by
  by_cases hji : j = i
  · rw [hji, clients_go_self]
    exact hOk
  · rw [clients_go_ne s client server hji]
    exact (h j).mono hHandled hArrived

/-- A call of the server sends nothing for its clients, and forgets nothing it
has heard. -/
theorem Does.main_keeps {A : Type*} {s s' : Server A} {l : Label A}
    (h : Does s l s') (hl : l.isMain = true) :
    s'.connected = s.connected ∧ s'.sent = s.sent ∧
      s'.arrived = s.arrived ∧ s.handled ⊆ s'.handled := by
  cases h with
  | connect | send _ _ _ | finish _ | datagram _ _ => contradiction
  | epoll _ _ _ _ _ | epollFails _ | accept _ _ _ | skip _ _ _ _ _
  | readNothing _ _ _ _ | write _ _ _ | sigpipe _ _ _ _ | close _ _ _
  | sendto _ _ _ => exact ⟨rfl, rfl, rfl, List.Subset.refl _⟩
  | read _ _ _ _ _ _ _ _ | recvfrom _ _ _ _ _ _ =>
      exact ⟨rfl, rfl, rfl, List.subset_append_left _ _⟩

/-- A client goes on with its connection, on which it has written now. -/
theorem Sockets.move (h : Sockets s) {i : Fin n} {c : Nat} {client : Client}
    {server : Server (Fin n)}
    (hBefore : (s.clients i).place.connection = some c)
    (hAfter : client.place.connection = some c)
    (hPast : client.place ≠ .writing c)
    (hConnected : server.connected = s.server.connected)
    (hOwn : server.sent c = hello)
    (hOthers : ∀ c', c' ≠ c → server.sent c' = s.server.sent c') :
    Sockets (s.go i client server) := by
  generalize hNext : (s.go i client server).clients = clients
  have hAt : clients i = client := hNext ▸ clients_go_self s client server i
  have hElse : ∀ j, j ≠ i → clients j = s.clients j := fun j hj =>
    hNext ▸ clients_go_ne s client server hj
  have hConn : ∀ j, (clients j).place.connection =
      (s.clients j).place.connection := by
    intro j
    by_cases hj : j = i
    · rw [hj, hAt, hAfter, hBefore]
    · rw [hElse j hj]
  refine ⟨fun c' => ?_, fun j k c' hj hk => ?_, fun j c' hj => ?_,
    fun j c' hj hNot => ?_, fun c' hc => ?_⟩ <;>
    simp only [hNext] at *
  · show c' < server.connected ↔ _
    rw [hConnected, h.owner]
    simp only [hConn]
  · rw [hConn] at hj hk
    exact h.one j k c' hj hk
  · by_cases hji : j = i
    · rw [hji, hAt] at hj
      rw [hj] at hAfter
      obtain rfl : c' = c := Option.some.inj hAfter
      exact absurd hj hPast
    · have hc : c' ≠ c := by
        rintro rfl
        refine hji (h.one j i c' ?_ hBefore)
        rw [← hConn, hj]
        rfl
      rw [hElse j hji] at hj
      exact (hOthers c' hc).trans (h.unwritten j c' hj)
  · by_cases hji : j = i
    · rw [hji, hAt, hAfter] at hj
      obtain rfl : c = c' := Option.some.inj hj
      exact hOwn
    · have hc : c' ≠ c := by
        rintro rfl
        rw [hConn] at hj
        exact hji (h.one j i c' hj hBefore)
      rw [hElse j hji] at hj hNot
      exact (hOthers c' hc).trans (h.written j c' hj hNot)
  · have hc' : s.server.connected ≤ c' := hConnected ▸ hc
    have hNe : c' ≠ c := by
      rintro rfl
      exact absurd ((h.owner c').mpr ⟨i, hBefore⟩) (Nat.not_lt.mpr hc')
    exact (hOthers c' hNe).trans (h.unsent c' hc')

/-- The same for a client that has written, if nothing is sent. -/
theorem Sockets.keep (h : Sockets s) {i : Fin n} {c : Nat} {client : Client}
    {server : Server (Fin n)}
    (hBefore : (s.clients i).place.connection = some c)
    (hWritten : (s.clients i).place ≠ .writing c)
    (hAfter : client.place.connection = some c)
    (hPast : client.place ≠ .writing c)
    (hConnected : server.connected = s.server.connected)
    (hSent : server.sent = s.server.sent) :
    Sockets (s.go i client server) :=
  h.move hBefore hAfter hPast hConnected
    (hSent ▸ h.written i c hBefore hWritten) fun _ _ => by rw [hSent]

/-- A client connects, and gets the next number. -/
theorem Sockets.connect (h : Sockets s) {i : Fin n}
    (hPlace : (s.clients i).place = .connecting) :
    Sockets (s.client i (.writing s.server.connected)
      { s.server with connected := s.server.connected + 1 }) := by
  have hNew : ∀ j, (s.clients j).place.connection ≠
      some s.server.connected := fun j hj =>
    Nat.lt_irrefl _ ((h.owner s.server.connected).mpr ⟨j, hj⟩)
  generalize hNext : (s.client i (.writing s.server.connected)
    { s.server with connected := s.server.connected + 1 }).clients = clients
  have hAt : (clients i).place = .writing s.server.connected := by
    rw [← hNext, System.client, clients_go_self]
  have hElse : ∀ j, j ≠ i → clients j = s.clients j := fun j hj => by
    rw [← hNext, System.client, clients_go_ne s _ _ hj]
  refine ⟨fun c => ?_, fun j k c hj hk => ?_, fun j c hj => ?_,
    fun j c hj hNot => ?_, fun c hc => ?_⟩ <;>
    simp only [hNext] at *
  · show c < s.server.connected + 1 ↔ _
    rw [Nat.lt_succ_iff_lt_or_eq, h.owner]
    constructor
    · rintro (⟨j, hj⟩ | rfl)
      · have hji : j ≠ i := by
          rintro rfl
          rw [hPlace] at hj
          contradiction
        exact ⟨j, by rw [hElse j hji, hj]⟩
      · exact ⟨i, by rw [hAt]; rfl⟩
    · rintro ⟨j, hj⟩
      by_cases hji : j = i
      · rw [hji, hAt] at hj
        exact .inr (Option.some.inj hj).symm
      · exact .inl ⟨j, by rw [← hElse j hji, hj]⟩
  · have hOf : ∀ j, (clients j).place.connection = some c →
        j = i ∧ c = s.server.connected ∨
          j ≠ i ∧ (s.clients j).place.connection = some c := by
      intro j hj
      by_cases hji : j = i
      · rw [hji, hAt] at hj
        exact .inl ⟨hji, (Option.some.inj hj).symm⟩
      · exact .inr ⟨hji, by rw [← hElse j hji, hj]⟩
    rcases hOf j hj with ⟨hji, hc⟩ | ⟨-, hj'⟩
    · rcases hOf k hk with ⟨hki, -⟩ | ⟨-, hk'⟩
      · rw [hji, hki]
      · exact absurd (hc ▸ hk') (hNew k)
    · rcases hOf k hk with ⟨-, hc⟩ | ⟨-, hk'⟩
      · exact absurd (hc ▸ hj') (hNew j)
      · exact h.one j k c hj' hk'
  · by_cases hji : j = i
    · rw [hji, hAt] at hj
      rw [← ClientAt.writing.inj hj]
      exact h.unsent _ (Nat.le_refl _)
    · rw [hElse j hji] at hj
      exact h.unwritten j c hj
  · by_cases hji : j = i
    · rw [hji, hAt] at hj hNot
      rw [Option.some.inj hj] at hNot
      exact absurd rfl hNot
    · rw [hElse j hji] at hj hNot
      exact h.written j c hj hNot
  · exact h.unsent c (Nat.le_of_succ_le hc)

/-- None of the texts has a NUL, so printing as far as the terminator prints
all that was read. -/
theorem cstr_of_prefixed {bytes text : List UInt8} (hText : (0 : UInt8) ∉ text)
    (h : bytes <+: text) : cstr bytes = bytes :=
  cstr_of_noNul fun hMem => hText (h.subset hMem)

/-- What the server has read from the connection of a client is the beginning
of `Hello`, and not empty. -/
theorem Served.heard (h : Served s) {i : Fin n} {c : Nat}
    {bytes : List UInt8} (hPlace : (s.clients i).place = .reading c)
    (hMem : Message.tcp c bytes ∈ s.server.handled) :
    bytes ≠ [] ∧ bytes <+: hello := by
  have hSent : s.server.sent c = hello :=
    h.sockets.written i c (by rw [hPlace]; rfl) (by simp [hPlace])
  rw [← hSent]
  exact h.order.received c bytes hMem

/-- The client reads an answer: there is only one, and it was written because
the whole `Hello` had been read. -/
theorem Served.answered (h : Served s) {i : Fin n} {c k : Nat}
    (hPlace : (s.clients i).place = .reading c) (hOne : 1 ≤ k)
    (hLe : k ≤ (s.server.told c).length) :
    FirstAnswer s.server c (some (cstr ((s.server.told c).take k))) := by
  have hSome : s.server.told c ≠ [] := by
    rw [← List.length_pos_iff]
    omega
  obtain ⟨hTold, bytes, hMem, hText⟩ := told_eq h.logs h.order hSome
  obtain ⟨hBytes, hPrefix⟩ := h.heard hPlace hMem
  have hWhole : bytes = hello := by
    rw [← hText, cstr_of_prefixed (by decide) hPrefix]
  rw [hTold] at hLe ⊢
  refine ⟨bytes, hMem, hBytes, hPrefix, ?_⟩
  rw [if_pos hWhole, cstr_of_prefixed (by decide) (List.take_prefix k salutTcp)]
  refine ⟨_, rfl, ?_, List.take_prefix _ _⟩
  rw [← List.length_pos_iff, List.length_take]
  omega

/-- The client finds its connection closed, with nothing to read.  So the
server has read less than a `Hello`. -/
theorem Served.unanswered (h : Served s) {i : Fin n} {c : Nat}
    (hPlace : (s.clients i).place = .reading c)
    (hNone : s.server.told c = []) (hClosed : c ∈ s.server.closed) :
    FirstAnswer s.server c none := by
  obtain ⟨bytes, hMem⟩ := h.talk.heard c (List.mem_append_left _ hClosed)
  obtain ⟨hBytes, hPrefix⟩ := h.heard hPlace hMem
  refine ⟨bytes, hMem, hBytes, hPrefix, ?_⟩
  rw [if_neg]
  intro hWhole
  refine told_of_closed h.logs h.order hClosed hMem ?_ hNone
  rw [cstr_of_prefixed (by decide) hPrefix, hWhole]

/-- What a client of the system does is what the network may do to the server:
its invariants are kept as in the server's own runs. -/
theorem Served.of_does (h : Served s) {l : Label (Fin n)}
    {server : Server (Fin n)} (hDoes : Does s.server l server)
    (hCalm : l ≠ .epollFails)
    (hFinish : ∀ c, l = .finish c → s.server.Done c)
    (hServer : s'.server = server) (hSockets : Sockets s')
    (hClients : ∀ i, ClientOk s'.server i (s'.clients i)) : Served s' := by
  subst hServer
  exact ⟨h.logs.step hDoes, h.order.step hDoes, h.events.step hDoes,
    h.talk.step h.order hDoes hCalm hFinish, hSockets, hClients⟩

/-- **The invariant is kept** by every call of a calm run, of the server or of
a client. -/
theorem Served.step (h : Served s) (hActs : Acts s a s')
    (hCalm : a.calm = true) : Served s' := by
  cases hActs with
  | main l server hl hDoes =>
      obtain ⟨hConnected, hSent, hArrived, hHandled⟩ := hDoes.main_keeps hl
      refine h.of_does hDoes ?_ ?_ rfl ?_ ?_
      · rintro rfl
        contradiction
      · rintro c rfl
        contradiction
      · constructor <;> simp only [hConnected, hSent]
        · exact h.sockets.owner
        · exact h.sockets.one
        · exact h.sockets.unwritten
        · exact h.sockets.written
        · exact h.sockets.unsent
      · exact fun i => (h.clients i).mono hHandled (by
          rw [hArrived]
          exact List.Subset.refl _)
  | connect i hPlace =>
      refine h.of_does .connect (by simp) (by simp) rfl
        (h.sockets.connect hPlace) (clients_step h.clients
          (List.Subset.refl _) (List.Subset.refl _) ?_)
      exact ⟨by simp, fun _ => (h.clients i).silent (by rw [hPlace]; rfl),
        by simp [ClientAt.past], by simp, by simp⟩
  | write i c hPlace =>
      have hConn : (s.clients i).place.connection = some c := by
        rw [hPlace]
        rfl
      refine h.of_does (.send c hello ((h.sockets.owner c).mpr ⟨i, hConn⟩))
        (by simp) (by simp) rfl (h.sockets.move hConn rfl (by simp) rfl ?_ ?_)
        (clients_step h.clients (List.Subset.refl _) (List.Subset.refl _) ?_)
      · show Function.update s.server.sent c _ c = hello
        rw [Function.update_self, h.sockets.unwritten i c hPlace,
          List.nil_append]
      · exact fun c' hc => Function.update_of_ne hc ..
      · exact ⟨by simp, fun _ => (h.clients i).silent (by rw [hPlace]; rfl),
          by simp [ClientAt.past], by simp, by simp⟩
  | read i c k buffer hPlace hOne hLe =>
      have hDone : s.server.Done c := by
        have hSome : s.server.told c ≠ [] := by
          rw [← List.length_pos_iff]
          omega
        obtain ⟨bytes, hMem⟩ := exists_written hSome
        exact h.talk.told c bytes hMem
      refine h.of_does (.finish c) (by simp) ?_ rfl
        (h.sockets.keep (c := c) (by rw [hPlace]; rfl) (by simp [hPlace]) rfl
          (by simp) rfl rfl)
        (clients_step h.clients (List.Subset.refl _) (List.Subset.refl _) ?_)
      · intro c' hc
        rw [← Label.finish.inj hc]
        exact hDone
      · refine ⟨by simp, by simp [ClientAt.past], fun c' hc => ?_, by simp,
          by simp⟩
        rw [← Option.some.inj hc]
        exact h.answered hPlace hOne hLe
  | readNothing i c hPlace hNone hEnd =>
      have hClosed : c ∈ s.server.closed :=
        hEnd.resolve_right (by simp [h.talk.going])
      refine h.of_does (.finish c) (by simp) ?_ rfl
        (h.sockets.keep (c := c) (by rw [hPlace]; rfl) (by simp [hPlace]) rfl
          (by simp) rfl rfl)
        (clients_step h.clients (List.Subset.refl _) (List.Subset.refl _) ?_)
      · intro c' hc
        rw [← Label.finish.inj hc]
        exact .inl hClosed
      · refine ⟨by simp, by simp [ClientAt.past], fun c' hc => ?_, by simp,
          by simp⟩
        rw [← Option.some.inj hc, (h.clients i).silent (by rw [hPlace]; rfl)]
        exact h.unanswered hPlace hNone hClosed
  | sendto i c hPlace =>
      refine h.of_does (.datagram i hi) (by simp) (by simp) rfl
        (h.sockets.keep (c := c) (by rw [hPlace]; rfl) (by simp [hPlace]) rfl
          (by simp) rfl rfl)
        (clients_step h.clients (List.Subset.refl _)
          (List.subset_append_left _ _) ?_)
      refine ⟨by simp, by simp [ClientAt.past], fun c' hc => ?_,
        fun c' _ => ?_, by simp⟩
      · exact (h.clients i).shown c' (by rw [hPlace]; exact hc)
      · exact List.mem_append_right _ (List.mem_singleton_self _)
  | lose i c hPlace => contradiction
  | recvfrom i c buffer text hPlace hAnswer =>
      refine ⟨h.logs, h.order, h.events, h.talk,
        h.sockets.keep (c := c) (by rw [hPlace]; rfl) (by simp [hPlace]) rfl
          (by simp) rfl rfl,
        clients_step h.clients (List.Subset.refl _) (List.Subset.refl _) ?_⟩
      refine ⟨by simp, by simp [ClientAt.past], fun c' hc => ?_, by simp,
        fun c' _ => ?_⟩
      · exact (h.clients i).shown c' (by rw [hPlace]; exact hc)
      · show some (cstr (text.take 1023)) = some salutUdp
        rw [answer_eq h.logs hAnswer]
        decide

/-! ## The work that is left -/

/-- The calls of a client that are left, and what they bring the server: a
connection costs it up to six calls and a datagram up to four, so a client that
has yet to make one counts these as well. -/
def ClientAt.work : ClientAt → Nat
  | connecting => 15
  | writing _ => 8
  | reading _ => 7
  | sending _ => 6
  | receiving _ => 1
  | exited _ | undefined => 0

/-- The calls that the server makes from here until it is back in
`epoll_wait`.  An event that has been reported counts nothing by itself: what
there is to accept or to receive is counted with the network. -/
def Place.work {A : Type*} : Place A → Nat
  | reading _ _ => 4
  | replying _ _ => 3
  | closing _ _ | sending _ _ => 2
  | waiting => 1
  | event _ _ | ended | killed _ | undefined => 0

/-- The work before the server: six for each connection that it has not
accepted, four for each datagram that it has not received, and the calls of the
place where it stands.  Every call that succeeds lowers it (`Does.work_lt`). -/
def Server.work {A : Type*} (s : Server A) : Nat :=
  6 * (s.connected - s.accepted) + 4 * (s.arrived.length - s.taken) +
    s.place.work

/-- The work of all: it bounds the number of calls until the end. -/
def System.work (s : System n) : Nat :=
  s.server.work + ∑ i, (s.clients i).place.work

theorem work_next_le {A : Type*} (rest : List Socket) :
    (next rest : Place A).work ≤ 1 := by
  cases rest with
  | nil => exact Nat.le_refl _
  | cons socket rest => exact Nat.zero_le _

/-- A call of the server that succeeds lowers its work. -/
theorem Does.work_lt {A : Type*} {s s' : Server A} {l : Label A}
    (h : Does s l s') (hl : l.isMain = true)
    (hCalm : l ≠ .epollFails ∧ l ≠ .acceptFails ∧ l ≠ .recvfromFails) :
    s'.work < s.work := by
  cases h with
  | connect | send _ _ _ | finish _ | datagram _ _ => contradiction
  | epollFails _ => exact absurd rfl hCalm.1
  | skip _ _ _ _ hl =>
      rcases hl with rfl | rfl
      · exact absurd rfl hCalm.2.1
      · exact absurd rfl hCalm.2.2
  | epoll events hPlace _ _ hSome =>
      simp only [Server.work, hPlace]
      cases events with
      | nil => exact absurd rfl hSome
      | cons socket rest => exact Nat.lt_succ_self _
  | accept rest hPlace hMore =>
      simp only [Server.work, hPlace, Place.work]
      omega
  | read c rest k buffer hPlace _ _ _ =>
      simp only [Server.work, hPlace]
      split <;> simp only [Place.work] <;> omega
  | readNothing c rest hPlace _ | write c rest hPlace
  | sigpipe c rest hPlace _ =>
      simp only [Server.work, hPlace, Place.work]
      omega
  | close c rest hPlace | sendto addr rest hPlace =>
      have hNext := work_next_le (A := A) rest
      have hBefore : s.place.work = 2 := by
        rw [hPlace]
        rfl
      simp only [Server.work, hBefore]
      omega
  | recvfrom rest addr bytes buffer hPlace hArrived =>
      have hBefore : s.place.work = 0 := by
        rw [hPlace]
        rfl
      have hAfter : (if cstr (bytes.take 1023) = hi then .sending addr rest
          else next rest : Place A).work ≤ 2 := by
        split
        · exact Nat.le_refl 2
        · exact Nat.le_succ_of_le (work_next_le rest)
      obtain ⟨hLt, -⟩ := List.getElem?_eq_some_iff.mp hArrived
      simp only [Server.work, hBefore]
      omega

/-- A client goes on: what it and the server have before them decides, since
the other clients are where they were. -/
theorem work_go_lt {i : Fin n} {client : Client} {server : Server (Fin n)}
    (h : server.work + client.place.work <
      s.server.work + (s.clients i).place.work) :
    (s.go i client server).work < s.work := by
  have hSum := sum_add_of_others (S := Finset.univ)
    (f := fun j => (s.clients j).place.work)
    (g := fun j => ((s.go i client server).clients j).place.work)
    (Finset.mem_univ i) fun j hj => by rw [clients_go_ne s client server hj]
  have hOwn : ((s.go i client server).clients i).place.work =
      client.place.work := by rw [clients_go_self]
  have hServer : (s.go i client server).server.work = server.work := rfl
  simp only [System.work, hServer]
  omega

theorem Served.work_lt (h : Served s) (hActs : Acts s a s')
    (hCalm : a.calm = true) : s'.work < s.work := by
  cases hActs with
  | main l server hl hDoes =>
      refine Nat.add_lt_add_right (hDoes.work_lt hl ⟨?_, ?_, ?_⟩) _ <;>
      · rintro rfl
        contradiction
  | connect i hPlace =>
      have hLe := h.order.accepted_le
      refine work_go_lt ?_
      simp only [Server.work, hPlace, ClientAt.work]
      omega
  | write i c hPlace =>
      refine work_go_lt ?_
      simp only [Server.work, hPlace, ClientAt.work]
      omega
  | read i c k buffer hPlace _ _ =>
      refine work_go_lt ?_
      simp only [Server.work, System.hangUp, hPlace, ClientAt.work]
      omega
  | readNothing i c hPlace _ _ =>
      refine work_go_lt ?_
      simp only [Server.work, System.hangUp, hPlace, ClientAt.work]
      omega
  | sendto i c hPlace =>
      have hLe := h.order.taken_le
      refine work_go_lt ?_
      simp only [Server.work, hPlace, ClientAt.work, List.length_append,
        List.length_singleton]
      omega
  | lose i c hPlace => contradiction
  | recvfrom i c buffer text hPlace _ =>
      refine work_go_lt ?_
      simp only [hPlace, ClientAt.work]
      omega

theorem calm_descends : (calmMachine n).Descends Served System.work := by
  intro s a s' h hStep
  obtain ⟨hCalm, hAct⟩ :=
    Machine.only_step_eq_some (systemMachine n) hStep
  have hActs := acts_of_act hAct
  exact ⟨h.step hActs hCalm, h.work_lt hActs hCalm⟩

/-! ## The end -/

/-- Some call of a calm run is possible. -/
def Goes (s : System n) : Prop :=
  ∃ a s', (calmMachine n).step s a = some s'

theorem goes_of_act (hCalm : a.calm = true) (h : (act s a).isSome = true) :
    Goes s := by
  obtain ⟨s', hAct⟩ := Option.isSome_iff_exists.mp h
  exact ⟨a, s', (if_pos hCalm).trans hAct⟩

/-- A call of the server. -/
theorem goes_of_step {l : Label (Fin n)} (hl : l.isMain = true)
    (hCalm : Act.calm (.main l : Act n) = true)
    (h : (step s.server l).isSome = true) : Goes s := by
  refine goes_of_act hCalm ?_
  rw [act, if_pos hl, Option.isSome_map]
  exact h

/-- The server can go on until nothing is ready.  It reads only what has been
written, which is why all clients must have written. -/
theorem Served.server_goes (h : Served s)
    (hClients : ∀ i c, (s.clients i).place ≠ .writing c)
    (hBusy : s.server.place ≠ .waiting ∨ ∃ socket, s.server.Ready socket) :
    Goes s := by
  have hGoing := h.talk.going
  have hDefined := h.logs.defined
  cases hPlace : s.server.place with
  | waiting =>
      obtain ⟨socket, hReady⟩ := hBusy.resolve_left (not_not_intro hPlace)
      refine goes_of_step (l := .epoll [socket]) rfl rfl ?_
      simp only [Multiprotocol.step, hPlace]
      rw [if_pos]
      · rfl
      · refine ⟨by simp, by simp, fun other hMem => ?_⟩
        rw [List.mem_singleton.mp hMem]
        exact hReady
  | event socket rest =>
      have hReady := h.events.ready socket (by
        rw [hPlace]
        exact List.mem_cons_self ..)
      cases socket with
      | tcp =>
          refine goes_of_step (l := .accept) rfl rfl ?_
          simp only [Multiprotocol.step, hPlace]
          rw [if_pos (show s.server.accepted < s.server.connected from
            hReady)]
          rfl
      | udp =>
          have hElem := List.getElem?_eq_getElem hReady
          refine goes_of_step (l := .recvfrom) rfl rfl ?_
          simp only [Multiprotocol.step, hPlace, hElem, Option.map_some,
            Option.isSome_some]
  | reading c rest =>
      have hAccepted : c < s.server.accepted := by
        have hMem : c ∈ s.server.closed ++ s.server.place.conn :=
          List.mem_append_right _ (by
            rw [hPlace]
            exact List.mem_singleton_self c)
        rw [h.order.opened] at hMem
        exact List.mem_range.mp hMem
      obtain ⟨i, hOwner⟩ := (h.sockets.owner c).mp
        (Nat.lt_of_lt_of_le hAccepted h.order.accepted_le)
      have hSent := h.sockets.written i c hOwner (hClients i c)
      refine goes_of_step (l := .read 1) rfl rfl ?_
      simp only [Multiprotocol.step, hPlace]
      rw [if_pos]
      · rfl
      · refine ⟨Nat.le_refl 1, ?_⟩
        rw [hSent]
        decide
  | replying c rest =>
      refine goes_of_step (l := .write) rfl rfl ?_
      simp only [Multiprotocol.step, hPlace, Option.isSome_some]
  | closing c rest =>
      refine goes_of_step (l := .close) rfl rfl ?_
      simp only [Multiprotocol.step, hPlace, Option.isSome_some]
  | sending addr rest =>
      refine goes_of_step (l := .sendto) rfl rfl ?_
      simp only [Multiprotocol.step, hPlace, Option.isSome_some]
  | ended | killed _ =>
      rw [hPlace] at hGoing
      contradiction
  | undefined => exact absurd hPlace hDefined

/-- **Nobody waits for ever.**  As long as a client has not come to its end,
somebody can go on: a client that has still to write, the server while it has
something to handle, and then the client itself, whose answer is there or whose
connection has been closed. -/
theorem Served.goes (h : Served s) {i : Fin n}
    (hRuns : ∀ c, (s.clients i).place ≠ .exited c) : Goes s := by
  by_cases hWriter : ∃ j c, (s.clients j).place = .writing c
  · obtain ⟨j, c, hj⟩ := hWriter
    refine goes_of_act (a := .write j) rfl ?_
    simp only [act, hj, Option.isSome_some]
  · have hNone : ∀ j c, (s.clients j).place ≠ .writing c :=
      fun j c hj => hWriter ⟨j, c, hj⟩
    by_cases hBusy : s.server.place ≠ .waiting ∨
        ∃ socket, s.server.Ready socket
    · exact h.server_goes hNone hBusy
    · -- the server waits, and has heard all
      obtain ⟨hWaiting, hIdle⟩ := not_or.mp hBusy
      have hPlace : s.server.place = .waiting := not_not.mp hWaiting
      have hAccepted : s.server.connected ≤ s.server.accepted :=
        Nat.le_of_not_lt fun hReady => hIdle ⟨.tcp, hReady⟩
      have hTaken : s.server.arrived.length ≤ s.server.taken :=
        Nat.le_of_not_lt fun hReady => hIdle ⟨.udp, hReady⟩
      cases hClient : (s.clients i).place with
      | connecting =>
          refine goes_of_act (a := .connect i) rfl ?_
          simp only [act, hClient, Option.isSome_some]
      | writing c => exact absurd hClient (hNone i c)
      | reading c =>
          by_cases hTold : s.server.told c = []
          · have hc : c < s.server.accepted :=
              Nat.lt_of_lt_of_le ((h.sockets.owner c).mpr
                ⟨i, by rw [hClient]; rfl⟩) hAccepted
            have hClosed : c ∈ s.server.closed := by
              have hMem := List.mem_range.mpr hc
              rw [← h.order.opened, hPlace] at hMem
              exact (List.mem_append.mp hMem).resolve_right List.not_mem_nil
            refine goes_of_act (a := .readNothing i) rfl ?_
            simp only [act, hClient]
            rw [if_pos ⟨hTold, .inl hClosed⟩]
            rfl
          · refine goes_of_act (a := .read i 1) rfl ?_
            simp only [act, hClient]
            rw [if_pos]
            · rfl
            · exact ⟨Nat.le_refl 1, Nat.le_min.mpr
                ⟨List.length_pos_iff.mpr hTold, by decide⟩⟩
      | sending c =>
          refine goes_of_act (a := .sendto i) rfl ?_
          simp only [act, hClient, Option.isSome_some]
      | receiving c =>
          have hArrived := (h.clients i).asked c hClient
          have hHeard : Message.udp i (hi.take 1023) ∈ s.server.handled := by
            have hMem : (i, hi.take 1023) ∈
                s.server.handled.filterMap Message.datagram? := by
              rw [h.order.datagrams, List.take_of_length_le hTaken]
              exact List.mem_map.mpr ⟨_, hArrived, rfl⟩
            obtain ⟨m, hm, hDatagram⟩ := List.mem_filterMap.mp hMem
            cases m with
            | tcp c' bytes => simp [Message.datagram?] at hDatagram
            | udp addr bytes =>
                obtain ⟨rfl, rfl⟩ :=
                  Prod.mk.inj (Option.some.inj hDatagram)
                exact hm
          obtain ⟨text, hAnswer⟩ := exists_answer h.logs hHeard (by decide)
            (by rw [hPlace]; rfl)
          refine goes_of_act (a := .recvfrom i) rfl ?_
          simp only [act, hClient, hAnswer, Option.map_some,
            Option.isSome_some]
      | exited c => exact absurd hClient (hRuns c)
      | undefined => exact absurd hClient (h.clients i).defined

/-- A client at its end: the datagram has been answered, and what the server
has read of `Hello` decides on the other answer. -/
def Answered (s : System n) (i : Fin n) : Prop :=
  ∃ c, (s.clients i).place = .exited c ∧
    (s.clients i).udp = some salutUdp ∧
    FirstAnswer s.server c (s.clients i).tcp

theorem served_start (h : (systemMachine n).init s) :
    Served s ∧ s.work = 15 * n + 1 := by
  obtain ⟨buffer, buffers, rfl⟩ := h
  obtain ⟨hLogs, hOrder⟩ := inv_start (A := Fin n) buffer
  constructor
  · refine ⟨hLogs, hOrder, ⟨List.nodup_nil, nofun⟩, ⟨rfl, nofun, nofun, nofun⟩,
      ⟨fun c => ?_, nofun, nofun, nofun, fun _ _ => rfl⟩, fun i => ?_⟩
    · exact iff_of_false (Nat.not_lt_zero c) fun ⟨i, hi⟩ => by contradiction
    · exact ⟨nofun, fun _ => rfl, nofun, nofun, nofun⟩
  · show 1 + ∑ _i : Fin n, 15 = _
    rw [Finset.sum_const, Finset.card_univ, Fintype.card_fin, Nat.nsmul_eq_mul]
    omega

/-- **Both protocols are served.**  Without lost datagrams and failing calls, a
run of the server and `n` clients has `15 * n + 1` calls at most, and can be
continued until nobody can go on; and then every client has come to its end
with the answer to its datagram, and with an answer on its connection exactly
if the server read all of `Hello` at once. -/
theorem clients_answered {acts : List (Act n)}
    (h : (calmMachine n).init s)
    (hRun : (calmMachine n).run s acts = some s') :
    acts.length ≤ 15 * n + 1 ∧
      (∃ more last, (calmMachine n).run s' more = some last ∧
        (calmMachine n).Settled last) ∧
      ((calmMachine n).Settled s' → ∀ i, Answered s' i) := by
  obtain ⟨hStart, hWork⟩ := served_start h
  obtain ⟨hServed, hLength⟩ := calm_descends.run_length_le hStart hRun
  refine ⟨by omega, calm_descends.exists_settled hServed,
    fun hSettled i => ?_⟩
  have hEnd : ∃ c, (s'.clients i).place = .exited c := by
    by_contra hNone
    obtain ⟨a, next, hStep⟩ :=
      hServed.goes fun c hc => hNone ⟨c, hc⟩
    rw [hSettled a] at hStep
    contradiction
  obtain ⟨c, hc⟩ := hEnd
  have hOk := hServed.clients i
  exact ⟨c, hc, hOk.answered c hc, hOk.shown c (by rw [hc]; rfl)⟩

/-- Three clients. -/
theorem clients_answered_three : ∃ (s' : System 3) (acts : List (Act 3)),
    (calmMachine 3).run ⟨start (CharArray.zeros 1024), fun _ =>
      ⟨.connecting, CharArray.zeros 1024, none, none⟩⟩ acts = some s' ∧
      (calmMachine 3).Settled s' ∧ ∀ i, Answered s' i := by
  have hStart : (calmMachine 3).init ⟨start (CharArray.zeros 1024), fun _ =>
      ⟨.connecting, CharArray.zeros 1024, none, none⟩⟩ := ⟨_, _, rfl⟩
  obtain ⟨-, ⟨acts, s', hRun, hSettled⟩, -⟩ :=
    clients_answered hStart (Machine.run_nil (m := calmMachine 3) _)
  exact ⟨s', acts, hRun, hSettled,
    (clients_answered hStart hRun).2.2 hSettled⟩

end UnixHomework.Ports.Multiprotocol
