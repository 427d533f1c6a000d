import UnixHomework.Verified.Machine
import UnixHomework.Verified.Tally

/-!
# The shops, their buyers and the loader

Each buyer visits the shops in turn until one has something, buys what it
needs or what there is, sleeps, and starts again while it has a demand.  The
loader brings 500 to each shop in turn, and looks between two rounds whether
all buyers have finished.  Every shop has its own mutex, and the counter of
finished buyers has another one.

A step of the model is a stretch between locking and unlocking a mutex, or a
test of a variable that only the thread itself writes.  So the critical
sections are atomic, and the mutexes themselves are left out: no step of the
model waits for one.  The amounts are integers without bounds.  Besides `main`,
which joins them, there are the three buyers' threads and the loader's.
-/

namespace UnixHomework.Ports.Shops

open UnixHomework.Verified

abbrev shopCount : Nat := 5

abbrev buyerCount : Nat := 3

/-- What the loader brings to a shop. -/
def restock : Int := 500

/-- Where a buyer stands in `buyer_func`: at the test of the outer loop, in
front of a shop, behind the loop, or past its final increment. -/
inductive BuyerPhase where
  /-- At the test of the outer loop. -/
  | testing
  /-- In front of a shop. -/
  | visiting (i : Fin shopCount)
  /-- Behind the loop. -/
  | finishing
  /-- Past its final increment. -/
  | done
  deriving DecidableEq

/-- A buyer's thread and its `buyer_t`. -/
structure Buyer where
  phase : BuyerPhase
  /-- What it still wants. -/
  demand : Int

/-- Where the loader stands in `loader_func`. -/
inductive LoaderPhase where
  | testing
  | loading (i : Fin shopCount)
  | returned
  deriving DecidableEq

/-- All threads; `restocks` counts the visits of the loader. -/
structure State where
  /-- What is in each shop. -/
  shop : Fin shopCount → Int
  buyers : Fin buyerCount → Buyer
  /-- The counter that the loader tests. -/
  buyersFinished : Nat
  loader : LoaderPhase
  /-- How often the loader has filled a shop; for the record. -/
  restocks : Nat

/-- What `main` has drawn before it starts the threads. -/
structure Opening where
  stock : Fin shopCount → Nat
  demand : Fin buyerCount → Nat

def Opening.start (o : Opening) : State where
  shop i := o.stock i
  buyers b := { phase := .testing, demand := o.demand b }
  buyersFinished := 0
  loader := .testing
  restocks := 0

/-! ## Buyers -/

/-- Change one buyer. -/
def State.setBuyer (s : State) (b : Fin buyerCount) (buyer : Buyer) : State :=
  { s with buyers := Function.update s.buyers b buyer }

/-- The test `buyer->demand > 0`. -/
def State.testDemand (s : State) (b : Fin buyerCount) : State :=
  let buyer := s.buyers b
  s.setBuyer b { buyer with
    phase := if 0 < buyer.demand then .visiting ⟨0, by decide⟩
      else .finishing }

/-- Behind shop `i` without having bought: the next shop, or sleep. -/
def nextShop (i : Fin shopCount) : BuyerPhase :=
  if h : i.val + 1 < shopCount then .visiting ⟨i.val + 1, h⟩ else .testing

/-- The stretch under `shop_mutex[i]`. -/
def State.visit (s : State) (b : Fin buyerCount) (i : Fin shopCount) :
    State :=
  let buyer := s.buyers b
  if 0 < s.shop i then
    let canBuy := if buyer.demand < s.shop i then buyer.demand else s.shop i
    { s.setBuyer b { phase := .testing, demand := buyer.demand - canBuy } with
      shop := Function.update s.shop i (s.shop i - canBuy) }
  else s.setBuyer b { buyer with phase := nextShop i }

/-- The stretch under `finish_mutex`. -/
def State.finish (s : State) (b : Fin buyerCount) : State :=
  { s.setBuyer b { phase := .done, demand := (s.buyers b).demand } with
    buyersFinished := s.buyersFinished + 1 }

/-- `buyer_func`. -/
def State.buyerFunc (s : State) (b : Fin buyerCount) : Option State :=
  match (s.buyers b).phase with
  | .testing => some (s.testDemand b)
  | .visiting i => some (s.visit b i)
  | .finishing => some (s.finish b)
  | .done => none

/-! ## The loader -/

/-- The stretch under `finish_mutex`. -/
def State.testFinished (s : State) : State :=
  { s with
    loader := if s.buyersFinished = buyerCount then .returned
      else .loading ⟨0, by decide⟩ }

/-- The stretch under `shop_mutex[i]`. -/
def State.load (s : State) (i : Fin shopCount) : State :=
  { s with
    shop := Function.update s.shop i (s.shop i + restock)
    loader := if h : i.val + 1 < shopCount then .loading ⟨i.val + 1, h⟩
      else .testing
    restocks := s.restocks + 1 }

/-- `loader_func`. -/
def State.loaderFunc (s : State) : Option State :=
  match s.loader with
  | .testing => some s.testFinished
  | .loading i => some (s.load i)
  | .returned => none

/-! ## The program -/

/-- The thread that takes the next step. -/
inductive Thread where
  | buyer (b : Fin buyerCount)
  | loader

def shopStep (s : State) : Thread → Option State
  | .buyer b => s.buyerFunc b
  | .loader => s.loaderFunc

def shops (o : Opening) : Machine State Thread where
  init s := s = o.start
  step := shopStep

/-! ## The books -/

def State.totalStock (s : State) : Int :=
  ∑ i, s.shop i

def State.totalDemand (s : State) : Int :=
  ∑ b, (s.buyers b).demand

/-- The buyers that have passed their final increment. -/
def State.doneCount (s : State) : Nat :=
  tally (fun buyer : Buyer => buyer.phase = .done) s.buyers

/-- A buyer leaves its loop without a demand only. -/
def Buyer.Satisfied (buyer : Buyer) : Prop :=
  0 ≤ buyer.demand ∧
    (buyer.phase = .finishing ∨ buyer.phase = .done → buyer.demand = 0)

/-- The invariant: what a shop loses a buyer gets, and a restock is entered in
the books at once. -/
structure Balanced (o : Opening) (s : State) : Prop where
  /-- No shop owes anything. -/
  stock : ∀ i, 0 ≤ s.shop i
  /-- No demand is negative, and a buyer that has left its loop has none. -/
  buyers : ∀ b, (s.buyers b).Satisfied
  /-- What the shops have and what was bought is what there was and what was
  loaded. -/
  books : s.totalStock + (o.start.totalDemand - s.totalDemand) =
    o.start.totalStock + restock * s.restocks
  /-- The counter counts the buyers that are done, -/
  finished : s.buyersFinished = s.doneCount
  /-- and the loader returns when all of them are. -/
  returned : s.loader = .returned → ∀ b, (s.buyers b).phase = .done

theorem balanced_start (o : Opening) : Balanced o o.start where
  stock i := Int.natCast_nonneg _
  buyers b := ⟨Int.natCast_nonneg _, by simp [Opening.start]⟩
  books := by simp [Opening.start]
  finished := by simp [Opening.start, State.doneCount, tally]
  returned := by simp [Opening.start]

/-! ## Steps -/

theorem totalDemand_setBuyer (s : State) (b : Fin buyerCount)
    (buyer : Buyer) :
    (s.setBuyer b buyer).totalDemand =
      s.totalDemand + (buyer.demand - (s.buyers b).demand) :=
  sum_update Buyer.demand s.buyers b buyer

theorem totalStock_update (s : State) (i : Fin shopCount) (amount : Int) :
    ∑ j, Function.update s.shop i amount j =
      s.totalStock + (amount - s.shop i) :=
  sum_update id s.shop i amount

theorem stock_update {s : State} (h : ∀ i, 0 ≤ s.shop i) (i : Fin shopCount)
    {amount : Int} (hAmount : 0 ≤ amount) :
    ∀ j, 0 ≤ Function.update s.shop i amount j := by
  rw [Function.forall_update_iff s.shop fun _ n => 0 ≤ n]
  exact ⟨hAmount, fun j _ => h j⟩

theorem satisfied_setBuyer {s : State} (h : ∀ b, (s.buyers b).Satisfied)
    (b : Fin buyerCount) {buyer : Buyer} (hBuyer : buyer.Satisfied) :
    ∀ b', ((s.setBuyer b buyer).buyers b').Satisfied := by
  show ∀ b', (Function.update s.buyers b buyer b').Satisfied
  rw [Function.forall_update_iff s.buyers fun _ buyer => buyer.Satisfied]
  exact ⟨hBuyer, fun b' _ => h b'⟩

section Steps

variable {o : Opening} {s : State} {b : Fin buyerCount} {i : Fin shopCount}

/-- A step of a buyer between the start and the end of its loop: what leaves
the shops goes off the demand. -/
theorem Balanced.trade (h : Balanced o s) {buyer : Buyer}
    {shop : Fin shopCount → Int} (hBefore : (s.buyers b).phase ≠ .done)
    (hAfter : buyer.phase ≠ .done) (hBuyer : buyer.Satisfied)
    (hShop : ∀ i, 0 ≤ shop i)
    (hBooks : ∑ i, shop i - buyer.demand =
      s.totalStock - (s.buyers b).demand) :
    Balanced o { s.setBuyer b buyer with shop := shop } where
  stock := hShop
  buyers := satisfied_setBuyer h.buyers b hBuyer
  books := by
    have hDemand := totalDemand_setBuyer s b buyer
    have hOld := h.books
    show ∑ i, shop i + (o.start.totalDemand -
      (s.setBuyer b buyer).totalDemand) = o.start.totalStock +
        restock * s.restocks
    omega
  finished := h.finished.trans
    (tally_update_of_iff (fun buyer : Buyer => buyer.phase = .done)
      s.buyers b buyer (iff_of_false hAfter hBefore)).symm
  returned hReturned := absurd (h.returned hReturned b) hBefore

theorem Balanced.testDemand (h : Balanced o s)
    (hPhase : (s.buyers b).phase = .testing) :
    Balanced o (s.testDemand b) := by
  have hDemand := (h.buyers b).1
  show Balanced o { s.setBuyer b _ with shop := s.shop }
  apply h.trade (by simp [hPhase])
  · show (if _ then _ else _) ≠ BuyerPhase.done
    split <;> simp
  · apply And.intro hDemand
    intro hFinishing
    by_cases hPos : 0 < (s.buyers b).demand
    · simp [hPos] at hFinishing
    · show (s.buyers b).demand = 0
      omega
  · exact h.stock
  · rfl

theorem nextShop_cases (i : Fin shopCount) :
    nextShop i ≠ .finishing ∧ nextShop i ≠ .done := by
  unfold nextShop
  split <;> simp

theorem Balanced.visit (h : Balanced o s)
    (hPhase : (s.buyers b).phase = .visiting i) :
    Balanced o (s.visit b i) := by
  have hDemand := (h.buyers b).1
  have hBefore : (s.buyers b).phase ≠ .done := by simp [hPhase]
  unfold State.visit
  by_cases hStock : 0 < s.shop i
  · simp only [if_pos hStock]
    generalize hCan : (if (s.buyers b).demand < s.shop i
      then (s.buyers b).demand else s.shop i) = canBuy
    have hRange : canBuy ≤ (s.buyers b).demand ∧ canBuy ≤ s.shop i := by
      subst hCan
      split <;> omega
    have hTotal := totalStock_update s i (s.shop i - canBuy)
    apply h.trade hBefore
    · simp
    · exact ⟨by show 0 ≤ (s.buyers b).demand - canBuy; omega, by simp⟩
    · exact stock_update h.stock i (by omega)
    · show ∑ j, Function.update s.shop i (s.shop i - canBuy) j -
        ((s.buyers b).demand - canBuy) = s.totalStock - (s.buyers b).demand
      omega
  · simp only [if_neg hStock]
    have hNext := nextShop_cases i
    show Balanced o { s.setBuyer b _ with shop := s.shop }
    apply h.trade hBefore
    · exact hNext.2
    · exact ⟨hDemand, by simp [hNext.1, hNext.2]⟩
    · exact h.stock
    · rfl

theorem Balanced.finish (h : Balanced o s)
    (hPhase : (s.buyers b).phase = .finishing) :
    Balanced o (s.finish b) where
  stock := h.stock
  buyers := by
    have hZero := (h.buyers b).2 (Or.inl hPhase)
    exact satisfied_setBuyer h.buyers b ⟨(h.buyers b).1, fun _ => hZero⟩
  books := by
    have hDemand := totalDemand_setBuyer s b
      { phase := .done, demand := (s.buyers b).demand }
    rw [Int.sub_self, Int.add_zero] at hDemand
    exact hDemand.symm ▸ h.books
  finished := by
    have hTally := tally_update_succ
      (fun buyer : Buyer => buyer.phase = .done) s.buyers b
      { phase := .done, demand := (s.buyers b).demand } rfl (by simp [hPhase])
    have hOld : s.buyersFinished = tally _ s.buyers := h.finished
    show s.buyersFinished + 1 = tally _ (Function.update s.buyers b _)
    rw [hTally, hOld]
  returned hReturned := by
    have hDone := h.returned hReturned b
    rw [hPhase] at hDone
    contradiction

/-- The loader returns when all buyers are counted. -/
theorem Balanced.testFinished (h : Balanced o s) :
    Balanced o s.testFinished where
  stock := h.stock
  buyers := h.buyers
  books := h.books
  finished := h.finished
  returned hReturned := by
    by_cases hAll : s.buyersFinished = buyerCount
    · apply (tally_eq_card_iff (fun buyer : Buyer => buyer.phase = .done)
        s.buyers).mp
      exact (h.finished.symm.trans hAll).trans (Fintype.card_fin _).symm
    · simp [State.testFinished, hAll] at hReturned

theorem Balanced.load (h : Balanced o s) : Balanced o (s.load i) where
  stock := stock_update h.stock i (by
    have hStock := h.stock i
    simp only [restock]
    omega)
  buyers := h.buyers
  books := by
    have hTotal := totalStock_update s i (s.shop i + restock)
    have hOld := h.books
    show ∑ j, Function.update s.shop i (s.shop i + restock) j +
      (o.start.totalDemand - s.totalDemand) = o.start.totalStock +
        restock * ((s.restocks + 1 : Nat) : Int)
    rw [hTotal, Nat.cast_succ, mul_add, mul_one]
    omega
  finished := h.finished
  returned hReturned := by
    simp only [State.load] at hReturned
    split at hReturned <;> contradiction

end Steps

theorem Balanced.step {o : Opening} {s next : State} {t : Thread}
    (h : Balanced o s) (hStep : shopStep s t = some next) :
    Balanced o next := by
  cases t with
  | buyer b =>
      unfold shopStep State.buyerFunc at hStep
      cases hPhase : (s.buyers b).phase with
      | testing =>
          simp only [hPhase, Option.some.injEq] at hStep
          exact hStep ▸ h.testDemand hPhase
      | visiting i =>
          simp only [hPhase, Option.some.injEq] at hStep
          exact hStep ▸ h.visit hPhase
      | finishing =>
          simp only [hPhase, Option.some.injEq] at hStep
          exact hStep ▸ h.finish hPhase
      | done =>
          simp only [hPhase] at hStep
          contradiction
  | loader =>
      unfold shopStep State.loaderFunc at hStep
      cases hPhase : s.loader with
      | testing =>
          simp only [hPhase, Option.some.injEq] at hStep
          exact hStep ▸ h.testFinished
      | loading i =>
          simp only [hPhase, Option.some.injEq] at hStep
          exact hStep ▸ h.load
      | returned =>
          simp only [hPhase] at hStep
          contradiction

theorem balanced_reachable {o : Opening} {s : State}
    (h : (shops o).Reachable s) : Balanced o s := by
  apply h.invariant
  · rintro s rfl
    exact balanced_start o
  · intro s t next hBalanced _ hStep
    exact hBalanced.step hStep

/-- **Conservation.**  Whatever the threads do, no stock and no demand is
negative, what the shops have and what has been bought is what was there and
what was brought, the counter counts the buyers that have finished, and the
loader outlasts every demand. -/
theorem shops_conserve {o : Opening} {s : State}
    (h : (shops o).Reachable s) :
    (∀ i, 0 ≤ s.shop i) ∧ (∀ b, 0 ≤ (s.buyers b).demand) ∧
      ∑ i, s.shop i + ∑ b, ((o.demand b : Int) - (s.buyers b).demand) =
        ∑ i, (o.stock i : Int) + 500 * s.restocks ∧
      s.buyersFinished = s.doneCount ∧
      (s.loader = .returned → ∀ b, (s.buyers b).demand = 0) := by
  have hBalanced := balanced_reachable h
  have hDemand : ∀ b, 0 ≤ (s.buyers b).demand :=
    fun b => (hBalanced.buyers b).1
  have hFinished : s.buyersFinished = s.doneCount := hBalanced.finished
  refine ⟨hBalanced.stock, hDemand, ?_, hFinished, ?_⟩
  · rw [Finset.sum_sub_distrib]
    exact hBalanced.books
  · intro hReturned b
    exact (hBalanced.buyers b).2 (Or.inr (hBalanced.returned hReturned b))

/-- Shops with 400, and buyers that need 500: no shop is enough for one. -/
def smallOpening : Opening where
  stock _ := 400
  demand _ := 500

/-- The loader comes to the first shop when it is empty, the buyers go on one
after the other, and the loader returns at the end of its round. -/
theorem smallOpening_satisfied :
    ∃ s, (shops smallOpening).Reachable s ∧ s.loader = .returned ∧
      ∀ b, (s.buyers b).demand = 0 := by
  have hRun : (((shops smallOpening).run smallOpening.start
      ([.buyer 0, .buyer 0, .loader, .loader] ++
        List.replicate 4 (.buyer 0) ++ List.replicate 7 (.buyer 1) ++
          List.replicate 9 (.buyer 2) ++ List.replicate 5 .loader)).any
            fun s => s.loader == .returned) = true := by
    decide +kernel
  obtain ⟨s, hReachable, hReturned⟩ :=
    Machine.exists_reachable_of_run (m := shops smallOpening) rfl hRun
  have hLoader : s.loader = .returned := by simpa using hReturned
  obtain ⟨-, -, -, -, hDemand⟩ := shops_conserve hReachable
  exact ⟨s, hReachable, hLoader, hDemand hLoader⟩

end UnixHomework.Ports.Shops
