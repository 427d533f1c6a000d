import UnixHomework.Ports.ThreadPerClientService
import UnixHomework.Verified.FairRuns

/-!
# Every thread comes to its end

`main` may accept connections for ever, and the other threads may make any
number of calls in between.  A thread that goes on again and again still tells
its connection the time and closes it, unless a client that has reset its
connection gets the whole process killed before (`client_served`).

There is no bound on the number of steps, since others come between two turns
of the thread, and no fairness is asked for but its own.  The thread has four
calls to make (`HandlerAt.calls`), each of its turns is one of them, and no
other step changes their number; none of the calls waits for anybody.  This is
a ranking, and the rule for fair schedules does the rest.
-/

namespace UnixHomework.Ports.ThreadPerClient

open UnixHomework.Verified

/-- The calls a thread has not made yet: it copies the descriptor, frees the
block, sends and closes. -/
def HandlerAt.calls : HandlerAt → Nat
  | .starting _ => 4
  | .copied _ _ => 3
  | .sending _ => 2
  | .closing _ => 1
  | .exited => 0

/-- The calls of the thread `i`, none if it was never created. -/
def Server.calls (s : Server) (i : Nat) : Nat :=
  ((s.handlers i).map fun h => h.place.calls).getD 0

section Threads

variable {s next : Server} {i j : Nat} {h g : Handler} {l : Label}

theorem calls_eq (hh : s.handlers i = some h) : s.calls i = h.place.calls := by
  rw [Server.calls, hh]
  rfl

/-- The thread `i` goes on, or another one: in the first case it has a call
less before it, in the second nothing has changed for it. -/
theorem goes_on (hh : s.handlers i = some h) {e g : Handler}
    (he : s.handlers j = some e) (hClient : g.client = e.client)
    (hCalls : g.place.calls < e.place.calls)
    (hThreads : next.handlers = Function.update s.handlers j (some g)) :
    ∃ g, next.handlers i = some g ∧ g.client = h.client ∧
      (g = h ∨ g.place.calls < h.place.calls) ∧
      (Label.handler j = .handler i → g.place.calls < h.place.calls) := by
  by_cases hij : i = j
  · subst hij
    rw [hh] at he
    obtain rfl := Option.some.inj he
    refine ⟨g, ?_, hClient, .inr hCalls, fun _ => hCalls⟩
    rw [hThreads, Function.update_self]
  · refine ⟨h, ?_, rfl, .inl rfl, fun hl => ?_⟩
    · rw [hThreads, Function.update_of_ne hij, hh]
    · exact absurd (Label.handler.inj hl).symm hij

/-- What a call means for the thread `i`.  It keeps its connection, and only
its own turns bring it forward. -/
theorem thread_step (hI : Inv s) (hh : s.handlers i = some h)
    (hStep : step s l = some next) :
    ∃ g, next.handlers i = some g ∧ g.client = h.client ∧
      (g = h ∨ g.place.calls < h.place.calls) ∧
      (l = .handler i → g.place.calls < h.place.calls) := by
  have hKept : next.handlers i = s.handlers i → l ≠ .handler i →
      ∃ g, next.handlers i = some g ∧ g.client = h.client ∧
        (g = h ∨ g.place.calls < h.place.calls) ∧
        (l = .handler i → g.place.calls < h.place.calls) :=
    fun hSame hOther =>
      ⟨h, hSame.trans hh, rfl, .inl rfl, fun hl => absurd hl hOther⟩
  cases hI.holding.does hStep with
  | malloc a garbage hMain hFree => exact hKept rfl (by simp)
  | mallocFails => exact hKept rfl (by simp)
  | accept a fd d hMain hAccept =>
      rw [hI.holding.write_eq hMain] at hKept ⊢
      exact hKept rfl (by simp)
  | acceptFails a hMain =>
      rw [hI.holding.write_eq hMain] at hKept ⊢
      exact hKept rfl (by simp)
  | create a hMain =>
      have hi := hI.holding.born i h hh
      exact hKept (Function.update_of_ne (Nat.ne_of_lt hi) ..) (by simp)
  | createFails a hMain => exact hKept rfl (by simp)
  | refuse a hMain =>
      obtain ⟨fd, c, hfd, -, -⟩ := hI.holding.found (.inr hMain)
      refine hKept ?_ (by simp)
      rw [Server.refuse, hfd]
  | free a hMain =>
      have hBlock : s.block none = some a := by
        rw [Server.block, hMain]
        rfl
      rw [hI.holding.free_eq hBlock] at hKept ⊢
      exact hKept rfl (by simp)
  | starts j e arg fd he hPlace hfd =>
      exact goes_on hh he (g := { e with place := .copied arg fd }) rfl
        (by rw [hPlace]; exact Nat.lt_succ_self _) rfl
  | frees j e arg fd he hPlace =>
      have hBlock : s.block (some j) = some arg := by
        rw [block_eq he, hPlace]
        rfl
      rw [hI.holding.free_eq hBlock]
      exact goes_on hh he (g := { e with place := .sending fd }) rfl
        (by rw [hPlace]; exact Nat.lt_succ_self _) rfl
  | sends j e fd he hPlace hOpen =>
      exact goes_on hh he (g := { e with place := .closing fd }) rfl
        (by rw [hPlace]; exact Nat.lt_succ_self _) rfl
  | closes j e fd he hPlace hOpen =>
      exact goes_on hh he (g := { e with place := .exited }) rfl
        (by rw [hPlace]; exact Nat.lt_succ_self _) rfl
  | sigpipe j e fd he hPlace => exact hKept rfl (by simp)

/-- Only `SIGPIPE` kills the server. -/
theorem killed_step (hI : Inv s) (hStep : step s l = some next)
    (hKilled : next.killed = true) : ∃ j, l = .sigpipe j := by
  have hAlive := (step_eq_some hStep).1
  cases hI.holding.does hStep with
  | sigpipe j => exact ⟨j, rfl⟩
  | _ => simp [hAlive] at hKilled

theorem killed_states (hr : serverMachine.Reachable s)
    {schedule : Nat → Label} {n : Nat}
    (hKilled : (serverMachine.states s schedule n).killed = true) :
    s.killed = true ∨ ∃ k < n, ∃ j, schedule k = .sigpipe j := by
  induction n with
  | zero => exact .inl hKilled
  | succ n ih =>
      have hNow : (serverMachine.states s schedule n).killed = true →
          s.killed = true ∨ ∃ k < n + 1, ∃ j, schedule k = .sigpipe j := by
        intro hOld
        rcases ih hOld with hStart | ⟨k, hk, hPipe⟩
        · exact .inl hStart
        · exact .inr ⟨k, Nat.lt_succ_of_lt hk, hPipe⟩
      change (serverMachine.turn _ (schedule n)).killed = true at hKilled
      rcases serverMachine.turn_cases (serverMachine.states s schedule n)
        (schedule n) with hStep | hSame
      · have hReach : serverMachine.Reachable
            (serverMachine.states s schedule n) :=
          Machine.states_reachable hr n
        have hI := inv_reachable hReach
        exact .inr ⟨n, Nat.lt_succ_self n, killed_step hI hStep hKilled⟩
      · rw [hSame] at hKilled
        exact hNow hKilled

/-- A thread that has not exited can go on, while the process lives: none of
its calls waits, and it holds all that they use. -/
theorem handler_enabled (hI : Inv s) (hAlive : s.killed = false)
    (hh : s.handlers i = some h) (hPlace : h.place ≠ .exited) :
    ∃ next, step s (.handler i) = some next := by
  rw [step_of_alive hAlive]
  show ∃ next, (s.handlers i).bind (s.handle i) = some next
  rw [hh, Option.bind_some]
  unfold Server.handle
  cases hNow : h.place with
  | starting arg =>
      have hBlock : s.block (some i) = some arg := by
        rw [block_eq hh, hNow]
        rfl
      obtain ⟨fd, hfd⟩ :=
        Option.ne_none_iff_exists'.mp (hI.holding.blocks.alive _ arg hBlock)
      simp only [hfd]
      exact ⟨_, rfl⟩
  | copied arg fd | sending fd | closing fd => exact ⟨_, rfl⟩
  | exited => exact absurd hNow hPlace

/-- The thread `i` of the connection `c`. -/
structure Serves (i c : Nat) (s : Server) : Prop where
  /-- Blocks, descriptors and connections are in order. -/
  inv : Inv s
  /-- The thread was created for the connection. -/
  thread : s.HasClient i c

/-- The calls that the thread has not made yet go down with each of its turns
and with no other step, until it has exited or nothing moves any more. -/
theorem thread_ranking (i c : Nat) :
    serverMachine.Ranking (Serves i c)
      (fun s => s.killed = true ∨ s.handlers i = some ⟨.exited, c⟩)
      (fun s => s.calls i) fun _ => .handler i where
  keeps := by
    rintro s l next ⟨hI, h, hh, hClient⟩ hStep
    obtain ⟨g, hg, hSame, -, -⟩ := thread_step hI hh hStep
    exact ⟨hI.step hStep, g, hg, hSame.trans hClient⟩
  lowers := by
    rintro s ⟨hI, h, hh, rfl⟩ hFinal
    obtain ⟨hAlive, hRuns⟩ := not_or.mp hFinal
    have hPlace : h.place ≠ .exited := by
      intro hExited
      rw [← hExited] at hRuns
      exact hRuns hh
    obtain ⟨next, hStep⟩ :=
      handler_enabled hI (eq_false_of_ne_true hAlive) hh hPlace
    obtain ⟨g, hg, -, -, hLess⟩ := thread_step hI hh hStep
    have hTurn : serverMachine.turn s (.handler i) = next :=
      Machine.turn_eq hStep
    rw [hTurn, calls_eq hg, calls_eq hh]
    exact hLess rfl
  others := by
    rintro s l next ⟨hI, h, hh, -⟩ - hStep
    obtain ⟨g, hg, -, hGo, -⟩ := thread_step hI hh hStep
    rw [calls_eq hg, calls_eq hh]
    rcases hGo with rfl | hLess
    · exact .inr ⟨rfl, rfl⟩
    · exact .inl hLess

/-- **Every thread serves its client.**  From every reachable state with a
thread for a connection, whatever `main` and the other threads do from then on,
if the thread has its turn again and again it exits, and the connection has then
been told the time and closed; or else some `send`, of this thread or of
another one, has ended in `SIGPIPE` and the process with it. -/
theorem client_served (hr : serverMachine.Reachable s)
    (hh : s.handlers i = some h) {schedule : Nat → Label}
    (hFair : Fair schedule (.handler i)) :
    ∃ n, ((serverMachine.states s schedule n).killed = true ∧
        (s.killed = true ∨ ∃ k < n, ∃ j, schedule k = .sigpipe j)) ∨
      ((serverMachine.states s schedule n).handlers i =
          some ⟨.exited, h.client⟩ ∧
        h.client ∈ (serverMachine.states s schedule n).sent ∧
        h.client ∈ (serverMachine.states s schedule n).descriptors.closed) := by
  obtain ⟨n, -, hFinal⟩ := (thread_ranking i h.client).leadsTo
    (fun _ _ _ => hFair) ⟨inv_reachable hr, h, hh, rfl⟩ 0
  refine ⟨n, hFinal.imp ?_ ?_⟩
  · intro hKilled
    exact ⟨hKilled, killed_states hr hKilled⟩
  · intro hExited
    have hReach : serverMachine.Reachable (serverMachine.states s schedule n) :=
      Machine.states_reachable hr n
    obtain ⟨hTold, hClosed⟩ := told_and_closed (inv_reachable hReach) hExited
    exact ⟨hExited, hTold.mpr rfl, hClosed.mpr rfl⟩

end Threads

/-- Connection after connection, with a call of the first thread in between. -/
def busySchedule (n : Nat) : Label :=
  if n % 4 = 0 then .malloc (48 + n) 0
  else if n % 4 = 1 then .accept (8 + n)
  else if n % 4 = 2 then .create
  else .handler 0

theorem busySchedule_fair : Fair busySchedule (.handler 0) := by
  intro n
  refine ⟨4 * n + 3, by omega, ?_⟩
  have hMod : (4 * n + 3) % 4 = 3 := by omega
  simp [busySchedule, hMod]

theorem busySchedule_ne_sigpipe (n j : Nat) :
    busySchedule n ≠ .sigpipe j := by
  unfold busySchedule
  split_ifs <;> simp

/-- The first client is served while others arrive for ever. -/
theorem client_served_busy : ∃ s, serverMachine.Reachable s ∧
    ∃ n, 0 ∈ (serverMachine.states s busySchedule n).sent := by
  have hrun := Machine.reachable_of_run (m := serverMachine) (s := start) rfl
    (show _ = some _ from rfl : serverMachine.run start
      [.malloc 40 0, .accept 7, .create] = _)
  obtain ⟨n, ⟨-, hStart | ⟨k, -, j, hPipe⟩⟩ | ⟨-, hSent, -⟩⟩ :=
    client_served (i := 0) (h := ⟨.starting 40, 0⟩) hrun rfl busySchedule_fair
  · contradiction
  · exact absurd hPipe (busySchedule_ne_sigpipe k j)
  · exact ⟨_, hrun, n, hSent⟩

end UnixHomework.Ports.ThreadPerClient
