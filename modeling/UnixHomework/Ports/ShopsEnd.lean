import UnixHomework.Ports.Shops
import UnixHomework.Verified.FairRuns

/-!
# The shops close

Nothing bounds the rounds of the loader, and a buyer may find a shop empty that
was filled and emptied since its last visit.  Yet under every schedule that
lets each thread go on again and again the program ends (`shops_close`): while
a buyer has a demand, the loader fills a shop and that buyer buys something,
unless another one has bought before; and once nobody has a demand, the buyers
leave their loops and the loader sees that they have finished.

A turn is a whole critical section.  What is shown is therefore that no thread
waits for goods for ever; that a thread which waits for a mutex gets it in the
end is part of what a schedule is asked for.
-/

namespace UnixHomework.Ports.Shops

open UnixHomework.Verified

/-! ## What is left to do -/

/-- There is something in a shop from `i` on.  A buyer that stands before `i`
comes to it in this round, unless another one empties it before. -/
def State.Stocked (s : State) (i : Nat) : Prop :=
  ∃ j : Fin shopCount, i ≤ j.val ∧ 0 < s.shop j

instance (s : State) (i : Nat) : Decidable (s.Stocked i) := by
  unfold State.Stocked
  infer_instance

/-- The turns in which a buyer gets something, if the shops have something and
nobody else buys.  What it has already passed in this round it reaches in the
next one. -/
def State.buyTurns (s : State) (b : Fin buyerCount) : Nat :=
  match (s.buyers b).phase with
  | .testing => shopCount + 1
  | .visiting i =>
      if s.Stocked i then shopCount - i else 2 * shopCount + 1 - i
  | .finishing | .done => 0

/-- The turns in which the loader fills a shop: it tests that not all have
finished, and goes to one. -/
def LoaderPhase.loadTurns : LoaderPhase → Nat
  | .testing => 2
  | .loading _ => 1
  | .returned => 0

/-- The turns in which a buyer without a demand is done: the rest of its round,
the test of its loop, and the count of those that have finished. -/
def BuyerPhase.leaveTurns : BuyerPhase → Nat
  | .testing => 2
  | .visiting i => shopCount - i + 2
  | .finishing => 1
  | .done => 0

/-- The turns in which the loader returns, once all buyers are done: the rest
of its round and the test. -/
def LoaderPhase.returnTurns : LoaderPhase → Nat
  | .testing => 1
  | .loading i => shopCount - i + 1
  | .returned => 0

/-- The first buyer with a property. -/
def first (p : Fin buyerCount → Bool) : Option (Fin buyerCount) :=
  (List.finRange buyerCount).find? p

/-- The buyer still wants something. -/
def State.hungry (s : State) (b : Fin buyerCount) : Bool :=
  decide (0 < (s.buyers b).demand)

/-- The buyer has not come to its end. -/
def State.active (s : State) (b : Fin buyerCount) : Bool :=
  decide ((s.buyers b).phase ≠ .done)

/-- The turns until a demand goes down, or until the end.  The stages come in
this order: fill a shop, let a hungry buyer reach it, and when nobody is hungry
any more, let the buyers leave and the loader return. -/
def State.stage (s : State) : Nat :=
  match first s.hungry with
  | some b => if s.Stocked 0 then s.buyTurns b else 20 + s.loader.loadTurns
  | none =>
      match first s.active with
      | some _ => 20 + ∑ b, (s.buyers b).phase.leaveTurns
      | none => s.loader.returnTurns

/-- The thread whose turns these are.  Others may take any number of turns in
between; they do not bring the stage back. -/
def State.helpful (s : State) : Thread :=
  match first s.hungry with
  | some b => if s.Stocked 0 then .buyer b else .loader
  | none =>
      match first s.active with
      | some b => .buyer b
      | none => .loader

/-- First the demands, which are never raised, then the stage.  A stage is
below 64, so a purchase outweighs whatever it does to the stage. -/
def State.rank (s : State) : Nat :=
  64 * s.totalDemand.toNat + s.stage

theorem first_eq_some {p : Fin buyerCount → Bool} {b : Fin buyerCount}
    (h : first p = some b) : p b = true :=
  List.find?_some h

theorem first_eq_none {p : Fin buyerCount → Bool} (h : first p = none)
    (b : Fin buyerCount) : p b = false := by
  have hb := List.find?_eq_none.mp h b (List.mem_finRange b)
  exact Bool.not_eq_true _ ▸ hb

theorem leaveTurns_le (p : BuyerPhase) : p.leaveTurns ≤ 7 := by
  cases p <;> simp only [BuyerPhase.leaveTurns, shopCount] <;> omega

theorem loadTurns_le (p : LoaderPhase) : p.loadTurns ≤ 2 := by
  cases p <;> simp [LoaderPhase.loadTurns]

theorem returnTurns_le (p : LoaderPhase) : p.returnTurns ≤ 6 := by
  cases p <;> simp only [LoaderPhase.returnTurns, shopCount] <;> omega

theorem buyTurns_le (s : State) (b : Fin buyerCount) : s.buyTurns b ≤ 11 := by
  unfold State.buyTurns
  cases (s.buyers b).phase with
  | visiting i =>
      simp only [shopCount]
      split <;> omega
  | testing | finishing | done => simp [shopCount]

theorem stage_lt (s : State) : s.stage < 64 := by
  have hSum : ∑ b, (s.buyers b).phase.leaveTurns ≤ 21 := by
    calc ∑ b, (s.buyers b).phase.leaveTurns
        ≤ ∑ _b : Fin buyerCount, 7 :=
          Finset.sum_le_sum fun b _ => leaveTurns_le _
      _ = 21 := rfl
  have hLoad := loadTurns_le s.loader
  have hReturn := returnTurns_le s.loader
  unfold State.stage
  split
  · rename_i b _
    have hBuy := buyTurns_le s b
    split <;> omega
  · split <;> omega

/-! ## Turns that help and turns that do not harm -/

section Turns

variable {o : Opening} {s next : State} {b : Fin buyerCount}

/-- A turn lowers the rank, or leaves it and the helpful thread alone. -/
def Harmless (s next : State) : Prop :=
  next.rank < s.rank ∨ next.rank = s.rank ∧ next.helpful = s.helpful

/-- Somebody buys: the demand goes down, and the new stage does not matter. -/
theorem rank_lt_of_demand (hLess : next.totalDemand < s.totalDemand)
    (hNext : 0 ≤ next.totalDemand) : next.rank < s.rank := by
  have hStage := stage_lt next
  unfold State.rank
  omega

theorem hungry_congr
    (hDemand : ∀ b, (next.buyers b).demand = (s.buyers b).demand) :
    next.hungry = s.hungry := by
  funext b
  rw [State.hungry, State.hungry, hDemand]

theorem totalDemand_congr
    (hDemand : ∀ b, (next.buyers b).demand = (s.buyers b).demand) :
    next.totalDemand = s.totalDemand :=
  Finset.sum_congr rfl fun b _ => hDemand b

theorem Stocked.mono {i j : Nat} (hij : j ≤ i)
    (hShop : ∀ i, s.shop i ≤ next.shop i) (h : s.Stocked i) :
    next.Stocked j := by
  obtain ⟨k, hk, hPos⟩ := h
  exact ⟨k, Nat.le_trans hij hk, Int.lt_of_lt_of_le hPos (hShop k)⟩

theorem rank_buying (hb : first s.hungry = some b) (hStocked : s.Stocked 0) :
    s.rank = 64 * s.totalDemand.toNat + s.buyTurns b ∧
      s.helpful = .buyer b := by
  unfold State.rank State.stage State.helpful
  simp only [hb, if_pos hStocked, and_self]

theorem rank_loading (hb : first s.hungry = some b)
    (hStocked : ¬s.Stocked 0) :
    s.rank = 64 * s.totalDemand.toNat + (20 + s.loader.loadTurns) ∧
      s.helpful = .loader := by
  unfold State.rank State.stage State.helpful
  simp only [hb, if_neg hStocked, and_self]

theorem rank_leaving (hNone : first s.hungry = none)
    (hb : first s.active = some b) :
    s.rank = 64 * s.totalDemand.toNat +
        (20 + ∑ b, (s.buyers b).phase.leaveTurns) ∧
      s.helpful = .buyer b := by
  unfold State.rank State.stage State.helpful
  simp only [hNone, hb, and_self]

theorem rank_returning (hNone : first s.hungry = none)
    (hInactive : first s.active = none) :
    s.rank = 64 * s.totalDemand.toNat + s.loader.returnTurns ∧
      s.helpful = .loader := by
  unfold State.rank State.stage State.helpful
  simp only [hNone, hInactive, and_self]

end Turns

/-! ## What a turn does -/

section Steps

variable {o : Opening} {s next : State} {b : Fin buyerCount}

theorem visit_empty {i : Fin shopCount} (hStock : ¬0 < s.shop i) :
    s.visit b i =
      s.setBuyer b { s.buyers b with phase := nextShop i } :=
  if_neg hStock

theorem visit_nothing {i : Fin shopCount} (hZero : (s.buyers b).demand = 0)
    (hStock : 0 < s.shop i) :
    s.visit b i = s.setBuyer b { phase := .testing, demand := 0 } := by
  unfold State.visit
  simp only [if_pos hStock, hZero, Int.sub_zero, Function.update_eq_self]
  rfl

theorem leaveTurns_nextShop (i : Fin shopCount) :
    (nextShop i).leaveTurns < shopCount - i + 2 := by
  revert i
  decide

/-- The next shop is nearer to one that has something, since this one has
nothing. -/
theorem buyTurns_nextShop {i : Fin shopCount} (hStock : ¬0 < s.shop i)
    (hPhase : (s.buyers b).phase = nextShop i) :
    s.buyTurns b < if s.Stocked i then shopCount - i
      else 2 * shopCount + 1 - i := by
  have hNext : s.Stocked i ↔ s.Stocked (i + 1) := by
    refine exists_congr fun j => and_congr_left fun hPos => ?_
    refine ⟨fun hij => Nat.lt_of_le_of_ne hij ?_, Nat.le_of_succ_le⟩
    rintro hij
    obtain rfl := Fin.ext hij
    exact hStock hPos
  rw [State.buyTurns, hPhase]
  unfold nextShop
  by_cases hLast : i.val + 1 < shopCount
  · simp only [dif_pos hLast, hNext]
    split <;> omega
  · have hNone : ¬s.Stocked (i + 1) := by
      rintro ⟨j, hj, -⟩
      exact hLast (Nat.lt_of_le_of_lt hj j.isLt)
    have hi := i.isLt
    simp only [dif_neg hLast, hNext, if_neg hNone]
    omega

/-- A buyer without a demand leaves its loop; it may come to a shop with
something in it, but buys nothing. -/
theorem buyer_leaves (hZero : (s.buyers b).demand = 0)
    (hStep : s.buyerFunc b = some next) :
    ∃ buyer : Buyer, next.buyers = Function.update s.buyers b buyer ∧
      buyer.demand = 0 ∧
      buyer.phase.leaveTurns < (s.buyers b).phase.leaveTurns ∧
      next.shop = s.shop ∧ next.loader = s.loader := by
  unfold State.buyerFunc at hStep
  cases hPhase : (s.buyers b).phase with
  | testing =>
      simp only [hPhase, Option.some.injEq] at hStep
      subst hStep
      refine ⟨_, rfl, hZero, ?_, rfl, rfl⟩
      simp [hZero, BuyerPhase.leaveTurns]
  | visiting i =>
      simp only [hPhase, Option.some.injEq] at hStep
      subst hStep
      by_cases hStock : 0 < s.shop i
      · rw [visit_nothing hZero hStock]
        refine ⟨_, rfl, rfl, ?_, rfl, rfl⟩
        exact Nat.lt_add_of_pos_left (Nat.sub_pos_of_lt i.isLt)
      · rw [visit_empty hStock]
        exact ⟨_, rfl, hZero, leaveTurns_nextShop i, rfl, rfl⟩
  | finishing =>
      simp only [hPhase, Option.some.injEq] at hStep
      subst hStep
      exact ⟨_, rfl, hZero, Nat.zero_lt_one, rfl, rfl⟩
  | done => simp only [hPhase, reduceCtorEq] at hStep

/-- A hungry buyer buys, or goes on to the next shop. -/
theorem buyer_seeks (h : Balanced o s) (hHungry : 0 < (s.buyers b).demand)
    (hStep : s.buyerFunc b = some next) :
    next.totalDemand < s.totalDemand ∨
    ∃ buyer : Buyer, next.buyers = Function.update s.buyers b buyer ∧
      buyer.demand = (s.buyers b).demand ∧ next.shop = s.shop ∧
      next.loader = s.loader ∧
      (s.Stocked 0 → next.buyTurns b < s.buyTurns b) := by
  have hPhases := (h.buyers b).2
  unfold State.buyerFunc at hStep
  cases hPhase : (s.buyers b).phase with
  | testing =>
      simp only [hPhase, Option.some.injEq] at hStep
      subst hStep
      refine .inr ⟨_, rfl, rfl, rfl, rfl, fun hStocked => ?_⟩
      have hNow : (s.testDemand b).buyTurns b = shopCount := by
        simp only [State.buyTurns, State.testDemand, State.setBuyer,
          Function.update_self, if_pos hHungry]
        exact if_pos hStocked
      rw [hNow, State.buyTurns, hPhase]
      exact Nat.lt_succ_self _
  | visiting i =>
      simp only [hPhase, Option.some.injEq] at hStep
      subst hStep
      by_cases hStock : 0 < s.shop i
      · left
        unfold State.visit
        simp only [if_pos hStock]
        have hTotal := totalDemand_setBuyer s b
          { phase := .testing
            demand := (s.buyers b).demand -
              if (s.buyers b).demand < s.shop i then (s.buyers b).demand
              else s.shop i }
        show (s.setBuyer b _).totalDemand < s.totalDemand
        rw [hTotal]
        split <;> simp only <;> omega
      · right
        rw [visit_empty hStock]
        refine ⟨_, rfl, rfl, rfl, rfl, fun _ => ?_⟩
        have hSelf : (s.setBuyer b
            { s.buyers b with phase := nextShop i }).buyers b =
            { s.buyers b with phase := nextShop i } := Function.update_self ..
        have hNow := buyTurns_nextShop (b := b)
          (s := s.setBuyer b { s.buyers b with phase := nextShop i }) hStock
          (congrArg Buyer.phase hSelf)
        rw [State.buyTurns.eq_def s, hPhase]
        exact hNow
  | finishing =>
      have hZero := hPhases (.inl hPhase)
      omega
  | done =>
      have hZero := hPhases (.inr hPhase)
      omega

/-- The loader fills a shop or goes there, as long as a buyer is not done.  It
takes nothing from any shop. -/
theorem loader_loads (h : Balanced o s) (hb : (s.buyers b).phase ≠ .done)
    (hStep : s.loaderFunc = some next) :
    next.buyers = s.buyers ∧ (∀ i, s.shop i ≤ next.shop i) ∧
      (¬next.Stocked 0 → next.loader.loadTurns < s.loader.loadTurns) := by
  unfold State.loaderFunc at hStep
  cases hPhase : s.loader with
  | testing =>
      simp only [hPhase, Option.some.injEq] at hStep
      subst hStep
      have hNotAll : s.buyersFinished ≠ buyerCount := by
        intro hAll
        have hCard : s.doneCount = Fintype.card (Fin buyerCount) := by
          rw [← h.finished, hAll, Fintype.card_fin]
        exact hb ((tally_eq_card_iff (fun buyer : Buyer =>
          buyer.phase = .done) s.buyers).mp hCard b)
      refine ⟨rfl, fun i => Int.le_refl _, fun _ => ?_⟩
      simp [State.testFinished, hNotAll, LoaderPhase.loadTurns]
  | loading i =>
      simp only [hPhase, Option.some.injEq] at hStep
      subst hStep
      have hStock := h.stock i
      refine ⟨rfl, fun j => ?_, fun hNot => ?_⟩
      · show s.shop j ≤ Function.update s.shop i (s.shop i + restock) j
        by_cases hj : j = i
        · subst hj
          rw [Function.update_self]
          exact Int.le_add_of_nonneg_right (by decide)
        · rw [Function.update_of_ne hj]
      · refine absurd ⟨i, Nat.zero_le _, ?_⟩ hNot
        show 0 < Function.update s.shop i (s.shop i + restock) i
        rw [Function.update_self, restock]
        omega
  | returned => exact absurd (h.returned hPhase b) hb

theorem returnTurns_load (i : Fin shopCount) :
    LoaderPhase.returnTurns (if h : i.val + 1 < shopCount then
      .loading ⟨i.val + 1, h⟩ else .testing) < shopCount - i + 1 := by
  revert i
  decide

/-- Once all are done, the loader comes to the end of its round and
returns. -/
theorem loader_returns (h : Balanced o s)
    (hDone : ∀ b, (s.buyers b).phase = .done)
    (hStep : s.loaderFunc = some next) :
    next.buyers = s.buyers ∧
      next.loader.returnTurns < s.loader.returnTurns := by
  unfold State.loaderFunc at hStep
  cases hPhase : s.loader with
  | testing =>
      simp only [hPhase, Option.some.injEq] at hStep
      subst hStep
      have hAll : s.buyersFinished = buyerCount := by
        rw [h.finished]
        exact (tally_eq_card_iff (fun buyer : Buyer => buyer.phase = .done)
          s.buyers).mpr hDone
      refine ⟨rfl, ?_⟩
      simp [State.testFinished, hAll, LoaderPhase.returnTurns]
  | loading i =>
      simp only [hPhase, Option.some.injEq] at hStep
      subst hStep
      exact ⟨rfl, returnTurns_load i⟩
  | returned => simp only [hPhase, reduceCtorEq] at hStep

end Steps

/-! ## The end -/

section End

variable {o : Opening} {s next : State} {t : Thread}

/-- Nobody is hungry, so all demands are 0: they never become negative. -/
theorem demand_eq_zero (h : Balanced o s) (hNone : first s.hungry = none)
    (b : Fin buyerCount) : (s.buyers b).demand = 0 := by
  have hb := first_eq_none hNone b
  have hNonneg := (h.buyers b).1
  simp only [State.hungry, decide_eq_false_iff_not] at hb
  omega

theorem demand_update {b : Fin buyerCount} {buyer : Buyer}
    (hBuyers : next.buyers = Function.update s.buyers b buyer)
    (hDemand : buyer.demand = (s.buyers b).demand) (c : Fin buyerCount) :
    (next.buyers c).demand = (s.buyers c).demand := by
  rw [hBuyers]
  by_cases hc : c = b
  · subst hc
    rw [Function.update_self, hDemand]
  · rw [Function.update_of_ne hc]

theorem buyTurns_update {b c : Fin buyerCount} {buyer : Buyer}
    (hBuyers : next.buyers = Function.update s.buyers b buyer)
    (hShop : next.shop = s.shop) (hc : c ≠ b) :
    next.buyTurns c = s.buyTurns c := by
  have hStocked : ∀ i, next.Stocked i ↔ s.Stocked i := fun i => by
    rw [State.Stocked, State.Stocked, hShop]
  unfold State.buyTurns
  simp only [hBuyers, Function.update_of_ne hc, hStocked]

theorem done_of_inactive (hNone : first s.active = none)
    (b : Fin buyerCount) : (s.buyers b).phase = .done := by
  have hb := first_eq_none hNone b
  simpa only [State.active, decide_eq_false_iff_not, not_not] using hb

/-- The loader never makes the way of a buyer longer. -/
theorem buyTurns_le_of_shop (hBuyers : next.buyers = s.buyers)
    (hShop : ∀ i, s.shop i ≤ next.shop i) (b : Fin buyerCount) :
    next.buyTurns b ≤ s.buyTurns b := by
  unfold State.buyTurns
  rw [hBuyers]
  cases (s.buyers b).phase with
  | visiting i =>
      by_cases hOld : s.Stocked i
      · simp only [if_pos hOld,
          if_pos (Stocked.mono (Nat.le_refl _) hShop hOld), Nat.le_refl]
      · simp only [if_neg hOld]
        split <;> omega
  | testing | finishing | done => exact Nat.le_refl _

/-- A buyer that buys nothing, while one is hungry.  If it is the hungry one
that is looked at, it comes nearer to the goods; if it is another, nothing
changes for that one. -/
theorem buyer_goes_on {b c : Fin buyerCount} {buyer : Buyer}
    (hb : first s.hungry = some b)
    (hBuyers : next.buyers = Function.update s.buyers c buyer)
    (hDemand : buyer.demand = (s.buyers c).demand)
    (hShop : next.shop = s.shop) (hLoader : next.loader = s.loader)
    (hTurns : c = b → s.Stocked 0 → next.buyTurns b < s.buyTurns b) :
    Harmless s next ∧ (s.helpful = .buyer c → next.rank < s.rank) := by
  have hAll := demand_update hBuyers hDemand
  have hTotal := totalDemand_congr hAll
  have hbNext : first next.hungry = some b := by rw [hungry_congr hAll, hb]
  have hStocked : next.Stocked 0 ↔ s.Stocked 0 := by
    rw [State.Stocked, State.Stocked, hShop]
  by_cases hNow : s.Stocked 0
  · obtain ⟨hRank, hHelpful⟩ := rank_buying hb hNow
    obtain ⟨hRank', hHelpful'⟩ := rank_buying hbNext (hStocked.mpr hNow)
    rw [hTotal] at hRank'
    by_cases hc : c = b
    · have hLess : next.rank < s.rank := by
        have hFewer := hTurns hc hNow
        omega
      exact ⟨.inl hLess, fun _ => hLess⟩
    · have hSame := buyTurns_update hBuyers hShop (Ne.symm hc)
      refine ⟨.inr ⟨?_, hHelpful'.trans hHelpful.symm⟩, fun hThread => ?_⟩
      · rw [hRank', hRank, hSame]
      · rw [hHelpful] at hThread
        exact absurd (Thread.buyer.inj hThread).symm hc
  · obtain ⟨hRank, hHelpful⟩ := rank_loading hb hNow
    obtain ⟨hRank', hHelpful'⟩ :=
      rank_loading hbNext (fun h => hNow (hStocked.mp h))
    refine ⟨.inr ⟨?_, hHelpful'.trans hHelpful.symm⟩, fun hThread => ?_⟩
    · rw [hRank', hRank, hTotal, hLoader]
    · rw [hHelpful] at hThread
      contradiction

/-- A step of a buyer, in each of the stages. -/
theorem buyer_harmless (h : Balanced o s) {c : Fin buyerCount}
    (hStep : s.buyerFunc c = some next) :
    Harmless s next ∧ (s.helpful = .buyer c → next.rank < s.rank) := by
  cases hb : first s.hungry with
  | some b =>
      have hHungry : 0 < (s.buyers b).demand :=
        of_decide_eq_true (first_eq_some hb)
      by_cases hc : 0 < (s.buyers c).demand
      · rcases buyer_seeks h hc hStep with hLess |
          ⟨buyer, hBuyers, hDemand, hShop, hLoader, hTurns⟩
        · have hNext := h.step (t := .buyer c) hStep
          have hRank := rank_lt_of_demand hLess
            (Finset.sum_nonneg fun b _ => (hNext.buyers b).1)
          exact ⟨.inl hRank, fun _ => hRank⟩
        · refine buyer_goes_on hb hBuyers hDemand hShop hLoader ?_
          rintro rfl
          exact hTurns
      · have hNonneg := (h.buyers c).1
        have hZero : (s.buyers c).demand = 0 := by omega
        obtain ⟨buyer, hBuyers, hDemand, -, hShop, hLoader⟩ :=
          buyer_leaves hZero hStep
        refine buyer_goes_on hb hBuyers (hDemand.trans hZero.symm) hShop
          hLoader ?_
        rintro rfl
        exact absurd hHungry hc
  | none =>
      have hZero := demand_eq_zero h hb
      obtain ⟨buyer, hBuyers, hDemand, hLeave, -, -⟩ :=
        buyer_leaves (hZero c) hStep
      have hAll := demand_update hBuyers (hDemand.trans (hZero c).symm)
      have hNoneNext : first next.hungry = none := by
        rw [hungry_congr hAll, hb]
      have hSum : ∑ b, (next.buyers b).phase.leaveTurns +
          (s.buyers c).phase.leaveTurns =
          ∑ b, (s.buyers b).phase.leaveTurns + buyer.phase.leaveTurns := by
        rw [hBuyers]
        have hSums := sum_add_of_others (S := Finset.univ)
          (f := fun b => (s.buyers b).phase.leaveTurns)
          (g := fun b => (Function.update s.buyers c buyer b).phase.leaveTurns)
          (Finset.mem_univ c)
          (fun b hbc => by simp only [Function.update_of_ne hbc])
        simpa only [Function.update_self] using hSums
      have hLess : next.rank < s.rank := by
        cases hActive : first s.active with
        | none =>
            have hDone := done_of_inactive hActive c
            rw [hDone] at hLeave
            exact absurd hLeave (Nat.not_lt_zero _)
        | some b =>
            rw [(rank_leaving hb hActive).1]
            cases hNow : first next.active with
            | none =>
                have hReturn := returnTurns_le next.loader
                rw [(rank_returning hNoneNext hNow).1, totalDemand_congr hAll]
                omega
            | some b' =>
                rw [(rank_leaving hNoneNext hNow).1, totalDemand_congr hAll]
                omega
      exact ⟨.inl hLess, fun _ => hLess⟩

/-- A step of the loader, in each of the stages. -/
theorem loader_harmless (h : Balanced o s) (hStep : s.loaderFunc = some next) :
    Harmless s next ∧ (s.helpful = .loader → next.rank < s.rank) := by
  cases hb : first s.hungry with
  | some b =>
      have hHungry : 0 < (s.buyers b).demand :=
        of_decide_eq_true (first_eq_some hb)
      have hPhase : (s.buyers b).phase ≠ .done := by
        intro hDone
        have hZero := (h.buyers b).2 (.inr hDone)
        omega
      obtain ⟨hBuyers, hShop, hLoad⟩ := loader_loads h hPhase hStep
      have hAll : ∀ b, (next.buyers b).demand = (s.buyers b).demand :=
        fun b => by rw [hBuyers]
      have hTotal := totalDemand_congr hAll
      have hbNext : first next.hungry = some b := by
        rw [hungry_congr hAll, hb]
      by_cases hStocked : s.Stocked 0
      · obtain ⟨hRank, hHelpful⟩ := rank_buying hb hStocked
        obtain ⟨hRank', hHelpful'⟩ := rank_buying hbNext
          (Stocked.mono (Nat.le_refl 0) hShop hStocked)
        have hTurns := buyTurns_le_of_shop hBuyers hShop b
        rw [hTotal] at hRank'
        refine ⟨?_, fun hThread => ?_⟩
        · rcases Nat.lt_or_eq_of_le hTurns with hFewer | hSame
          · exact .inl (by omega)
          · exact .inr ⟨by omega, hHelpful'.trans hHelpful.symm⟩
        · rw [hHelpful] at hThread
          contradiction
      · have hRank := (rank_loading hb hStocked).1
        have hLess : next.rank < s.rank := by
          by_cases hNow : next.Stocked 0
          · have hRank' := (rank_buying hbNext hNow).1
            have hTurns := buyTurns_le next b
            rw [hTotal] at hRank'
            omega
          · have hRank' := (rank_loading hbNext hNow).1
            have hFewer := hLoad hNow
            rw [hTotal] at hRank'
            omega
        exact ⟨.inl hLess, fun _ => hLess⟩
  | none =>
      cases hActive : first s.active with
      | some b =>
          have hPhase : (s.buyers b).phase ≠ .done :=
            of_decide_eq_true (first_eq_some hActive)
          obtain ⟨hBuyers, -, -⟩ := loader_loads h hPhase hStep
          have hAll : ∀ b, (next.buyers b).demand = (s.buyers b).demand :=
            fun b => by rw [hBuyers]
          have hSame : next.active = s.active := by
            funext c
            rw [State.active, State.active, hBuyers]
          obtain ⟨hRank, hHelpful⟩ := rank_leaving hb hActive
          obtain ⟨hRank', hHelpful'⟩ := rank_leaving (s := next) (b := b)
            (by rw [hungry_congr hAll, hb]) (by rw [hSame, hActive])
          refine ⟨.inr ⟨?_, hHelpful'.trans hHelpful.symm⟩, fun hThread => ?_⟩
          · rw [hRank', hRank, hBuyers, totalDemand_congr hAll]
          · rw [hHelpful] at hThread
            contradiction
      | none =>
          obtain ⟨hBuyers, hFewer⟩ :=
            loader_returns h (done_of_inactive hActive) hStep
          have hAll : ∀ b, (next.buyers b).demand = (s.buyers b).demand :=
            fun b => by rw [hBuyers]
          have hSame : next.active = s.active := by
            funext c
            rw [State.active, State.active, hBuyers]
          have hRank := (rank_returning hb hActive).1
          have hRank' := (rank_returning (s := next)
            (by rw [hungry_congr hAll, hb]) (by rw [hSame, hActive])).1
          have hLess : next.rank < s.rank := by
            rw [hRank', hRank, totalDemand_congr hAll]
            omega
          exact ⟨.inl hLess, fun _ => hLess⟩

/-- A buyer that is not done can go on, and so can the loader until it has
returned: a critical section is one turn, and none of them waits inside. -/
theorem helpful_enabled (h : Balanced o s) (hFinal : s.loader ≠ .returned) :
    ∃ next, shopStep s s.helpful = some next := by
  have hBuyer : ∀ b, (s.buyers b).phase ≠ .done →
      ∃ next, shopStep s (.buyer b) = some next := by
    intro b hb
    show ∃ next, s.buyerFunc b = some next
    unfold State.buyerFunc
    cases hPhase : (s.buyers b).phase with
    | testing | visiting i | finishing => exact ⟨_, rfl⟩
    | done => exact absurd hPhase hb
  have hLoader : ∃ next, shopStep s .loader = some next := by
    show ∃ next, s.loaderFunc = some next
    unfold State.loaderFunc
    cases hPhase : s.loader with
    | testing | loading i => exact ⟨_, rfl⟩
    | returned => exact absurd hPhase hFinal
  cases hb : first s.hungry with
  | some b =>
      by_cases hStocked : s.Stocked 0
      · rw [(rank_buying hb hStocked).2]
        refine hBuyer b fun hDone => ?_
        have hHungry : 0 < (s.buyers b).demand :=
          of_decide_eq_true (first_eq_some hb)
        have hZero := (h.buyers b).2 (.inr hDone)
        omega
      · rw [(rank_loading hb hStocked).2]
        exact hLoader
  | none =>
      cases hActive : first s.active with
      | some b =>
          rw [(rank_leaving hb hActive).2]
          exact hBuyer b (of_decide_eq_true (first_eq_some hActive))
      | none =>
          rw [(rank_returning hb hActive).2]
          exact hLoader

theorem thread_harmless (h : Balanced o s) (hStep : shopStep s t = some next) :
    Harmless s next ∧ (s.helpful = t → next.rank < s.rank) := by
  cases t with
  | buyer c => exact buyer_harmless h hStep
  | loader => exact loader_harmless h hStep

theorem shops_ranking (o : Opening) :
    (shops o).Ranking (Balanced o) (fun s => s.loader = .returned)
      State.rank State.helpful where
  keeps s t next h hStep := h.step hStep
  lowers s h hFinal := by
    obtain ⟨next, hStep⟩ := helpful_enabled h hFinal
    rw [Machine.turn_eq (m := shops o) hStep]
    exact (thread_harmless h hStep).2 rfl
  others s t next h _ hStep := (thread_harmless h hStep).1

/-- **The program ends.**  Whatever the shops have and the buyers need at
first, under every schedule in which no thread is left out for ever there comes
a moment from which on the loader has returned and all buyers have finished,
with their demands satisfied. -/
theorem shops_close (o : Opening) {schedule : Nat → Thread}
    (hFair : ∀ t, Fair schedule t) :
    ∃ n, ∀ k, n ≤ k →
      ((shops o).states o.start schedule k).loader = .returned ∧
      ∀ b, (((shops o).states o.start schedule k).buyers b).phase = .done ∧
        (((shops o).states o.start schedule k).buyers b).demand = 0 := by
  have hBalanced : ∀ n, Balanced o ((shops o).states o.start schedule n) :=
    Machine.states_invariant (shops_ranking o).keeps (balanced_start o)
  obtain ⟨n, -, hReturned⟩ := (shops_ranking o).leadsTo
    (fun _ _ _ => hFair _) (balanced_start o) 0
  refine ⟨n, fun k hk => ?_⟩
  have hStays : ((shops o).states o.start schedule k).loader = .returned := by
    obtain ⟨d, rfl⟩ := Nat.exists_eq_add_of_le hk
    induction d with
    | zero => exact hReturned
    | succ d ih =>
        have hNow := ih (Nat.le_add_right n d)
        have hDone := (hBalanced (n + d)).returned hNow
        have hSettled : shopStep ((shops o).states o.start schedule (n + d))
            (schedule (n + d)) = none := by
          cases schedule (n + d) with
          | buyer b => simp only [shopStep, State.buyerFunc, hDone b]
          | loader => simp only [shopStep, State.loaderFunc, hNow]
        show ((shops o).turn ((shops o).states o.start schedule (n + d))
          (schedule (n + d))).loader = .returned
        rw [Machine.turn_of_none (m := shops o) hSettled]
        exact hNow
  refine ⟨hStays, fun b => ?_⟩
  have hDone := (hBalanced k).returned hStays b
  exact ⟨hDone, ((hBalanced k).buyers b).2 (.inr hDone)⟩

end End

/-- The threads in turn. -/
def roundRobin (n : Nat) : Thread :=
  if h : n % 4 < buyerCount then .buyer ⟨n % 4, h⟩ else .loader

theorem roundRobin_fair (t : Thread) : Fair roundRobin t := by
  intro n
  cases t with
  | buyer b =>
      have hMod : (4 * n + b.val) % 4 = b.val := by
        have hb : b.val < 3 := b.isLt
        omega
      refine ⟨4 * n + b, by omega, ?_⟩
      simp only [roundRobin, hMod, b.isLt, dite_true]
  | loader =>
      refine ⟨4 * n + 3, by omega, ?_⟩
      have hMod : (4 * n + 3) % 4 = 3 := by omega
      simp [roundRobin, hMod]

/-- The small shops, with the threads in turn. -/
theorem shops_close_roundRobin :
    ∃ n, ((shops smallOpening).states smallOpening.start roundRobin n).loader =
      .returned := by
  obtain ⟨n, hn⟩ := shops_close smallOpening roundRobin_fair
  exact ⟨n, (hn n (Nat.le_refl n)).1⟩

end UnixHomework.Ports.Shops
