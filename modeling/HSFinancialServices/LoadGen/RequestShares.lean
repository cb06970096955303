import HSFinancialServices.LoadGen.PickWindow
import HSFinancialServices.LoadGen.RandomStream
import HSFinancialServices.Services.Days
import Mathlib.Order.Interval.Finset.Nat

/-!
# The share of each request type

Every pick below the total of the weights has its type, and each type has as many picks as
its weight says. The options let more through than such weights.
-/

namespace HSFinancialServices.LoadGen
open Services

def pickedType (scenario : ScenarioConfig) (pick : ℤ) : RequestType :=
  let threshold := scenario.weightSql
  if pick < threshold then .sql
  else
  let threshold := wrapInt (threshold + scenario.weightBuy)
  if pick < threshold then .buy
  else
  let threshold := wrapInt (threshold + scenario.weightSell)
  if pick < threshold then .sell
  else
  let threshold := wrapInt (threshold + scenario.weightPosition)
  if pick < threshold then .position
  else .history

def pickCount (scenario : ScenarioConfig) (t : RequestType) : ℕ :=
  ((Finset.range scenario.sum.toNat).filter
    (fun pick : ℕ => pickedType scenario pick = t)).card

theorem nextRequest_pickedType (printPrice : ℕ → Bytes) (scenario : ScenarioConfig)
    (rngState : UInt64) :
    (nextRequest printPrice scenario rngState).1.header.messageType =
      (pickedType scenario (nextPick scenario rngState)).messageType := by
  have hpick : ((nextRand rngState).toNat % scenario.total.toNat : ℕ) =
      nextPick scenario rngState := rfl
  simp only [nextRequest, pickedType, hpick]
  by_cases hsql : nextPick scenario rngState < scenario.weightSql
  · rw [if_pos hsql, if_pos hsql]
    rfl
  rw [if_neg hsql, if_neg hsql]
  by_cases hbuy : nextPick scenario rngState < wrapInt (scenario.weightSql + scenario.weightBuy)
  · rw [if_pos hbuy, if_pos hbuy]
    rfl
  rw [if_neg hbuy, if_neg hbuy]
  split_ifs <;> rfl

section Valid
variable {scenario : ScenarioConfig} (h : scenario.Valid)
include h

theorem exists_nextPick_eq {pick : ℤ} (hnonneg : 0 ≤ pick) (hlt : pick < scenario.sum) :
    ∃ rngState, nextPick scenario rngState = pick := by
  have hle := h.le
  obtain ⟨rngState, hstate⟩ := nextRand_surjective (UInt64.ofNat pick.toNat)
  refine ⟨rngState, ?_⟩
  rw [nextPick_eq h, hstate, UInt64.toNat_ofNat_of_lt' (by norm_num [UInt64.size]; omega),
    Int.toNat_of_nonneg hnonneg, Int.emod_eq_of_lt hnonneg hlt]

theorem pickedType_of_picks {t : RequestType} {pick : ℤ} (ht : scenario.Picks t pick) :
    pickedType scenario pick = t := by
  obtain ⟨hnonneg, hlt⟩ := picks_bounds h ht
  obtain ⟨rngState, rfl⟩ := exists_nextPick_eq h hnonneg hlt
  apply RequestType.messageType_injective
  rw [← nextRequest_pickedType (fun _ => [])]
  exact (nextRequest_of_picks h ht).1

theorem pickedType_eq_iff {t : RequestType} {pick : ℤ} (hnonneg : 0 ≤ pick)
    (hlt : pick < scenario.sum) : pickedType scenario pick = t ↔ scenario.Picks t pick := by
  refine ⟨?_, pickedType_of_picks h⟩
  rintro rfl
  obtain ⟨t, ht⟩ := exists_picks hnonneg hlt
  rwa [pickedType_of_picks h ht]

theorem pickCount_eq (t : RequestType) : pickCount scenario t = scenario.weight t := by
  have hnonneg := h.nonneg t
  obtain ⟨hfirst, hlast⟩ := interval_bounds h t
  have hfilter : (Finset.range scenario.sum.toNat).filter
      (fun pick : ℕ => pickedType scenario pick = t) =
        Finset.Ico (scenario.first t).toNat (scenario.first t + scenario.weight t).toNat := by
    ext pick
    simp only [Finset.mem_filter, Finset.mem_range, Finset.mem_Ico]
    constructor
    · rintro ⟨hlt, ht⟩
      obtain ⟨hge, hle⟩ := (pickedType_eq_iff h (by omega) (by omega)).mp ht
      omega
    · rintro ⟨hge, hlt⟩
      exact ⟨by omega, pickedType_of_picks h ⟨by omega, by omega⟩⟩
  rw [pickCount, hfilter, Nat.card_Ico]
  omega

/-- What a pick stands for does not depend on the state that gave it, and each type has as many
picks as its weight. -/
theorem request_shares (printPrice : ℕ → Bytes) :
    (∀ rngState, 0 ≤ nextPick scenario rngState ∧ nextPick scenario rngState < scenario.sum ∧
      (nextRequest printPrice scenario rngState).1.header.messageType =
        (pickedType scenario (nextPick scenario rngState)).messageType) ∧
    (∀ pick, 0 ≤ pick → pick < scenario.sum → ∃ rngState, nextPick scenario rngState = pick) ∧
    ∀ t, pickCount scenario t = scenario.weight t := by
  refine ⟨?_, ?_, pickCount_eq h⟩
  · intro rngState
    obtain ⟨hnonneg, hlt⟩ := nextPick_bounds h rngState
    exact ⟨hnonneg, hlt, nextRequest_pickedType _ _ _⟩
  · intro pick hnonneg hlt
    exact exists_nextPick_eq h hnonneg hlt

end Valid

theorem request_shares_two_types :
    (pickCount ⟨0, 3, 0, 0, 2⟩ .buy : ℤ) = 3 ∧ (pickCount ⟨0, 3, 0, 0, 2⟩ .sql : ℤ) = 0 := by
  have hvalid : ScenarioConfig.Valid ⟨0, 3, 0, 0, 2⟩ := by
    refine ⟨?_, by decide, by decide⟩
    intro t
    cases t <;> decide
  exact ⟨(request_shares hvalid priceText).2.2 .buy, (request_shares hvalid priceText).2.2 .sql⟩

section Options
variable (scenario : ScenarioConfig)

def thresholdSums : List ℤ :=
  [scenario.weightSql + scenario.weightBuy,
    wrapInt (scenario.weightSql + scenario.weightBuy) + scenario.weightSell,
    wrapInt (wrapInt (scenario.weightSql + scenario.weightBuy) + scenario.weightSell) +
      scenario.weightPosition]

def totalSums : List ℤ :=
  [scenario.weightSql + scenario.weightBuy,
    wrapInt (scenario.weightSql + scenario.weightBuy) + scenario.weightSell,
    wrapInt (wrapInt (scenario.weightSql + scenario.weightBuy) + scenario.weightSell) +
      scenario.weightPosition,
    wrapInt (wrapInt (wrapInt (scenario.weightSql + scenario.weightBuy) + scenario.weightSell) +
      scenario.weightPosition) + scenario.weightPriceHistory]

/-- The next request of a client in this state is drawn without an overflow, modulo a positive
number, and is of a type with a positive weight. -/
structure Handled (printPrice : ℕ → Bytes) (rngState : UInt64) : Prop where
  total_inRange : ∀ s ∈ totalSums scenario, InIntRange s
  thresholds_inRange : ∀ s ∈ thresholdSums scenario, InIntRange s
  modulus_pos : 0 < scenario.total
  weight_pos : ∀ t : RequestType,
    (nextRequest printPrice scenario rngState).1.header.messageType = t.messageType →
      0 < scenario.weight t

structure SumsInRange : Prop where
  two : InIntRange (scenario.first .sell)
  three : InIntRange (scenario.first .position)
  four : InIntRange (scenario.first .history)
  five : InIntRange scenario.sum

variable {scenario}

theorem totalSums_inRange_iff :
    (∀ s ∈ totalSums scenario, InIntRange s) ↔ SumsInRange scenario := by
  simp only [totalSums, List.forall_mem_cons, List.not_mem_nil, false_implies, implies_true,
    and_true]
  constructor
  · rintro ⟨htwo, hthree, hfour, hfive⟩
    rw [wrapInt_of_inIntRange htwo] at hthree hfour hfive
    rw [wrapInt_of_inIntRange hthree] at hfour hfive
    rw [wrapInt_of_inIntRange hfour] at hfive
    exact ⟨htwo, hthree, hfour, hfive⟩
  · rintro ⟨htwo, hthree, hfour, hfive⟩
    simp only [ScenarioConfig.sum, ScenarioConfig.first] at htwo hthree hfour hfive
    rw [wrapInt_of_inIntRange htwo, wrapInt_of_inIntRange hthree, wrapInt_of_inIntRange hfour]
    exact ⟨htwo, hthree, hfour, hfive⟩

theorem thresholdSums_subset : thresholdSums scenario ⊆ totalSums scenario := by
  simp [thresholdSums, totalSums]

theorem total_pos (scenario : ScenarioConfig) : 0 < scenario.total := by
  simp only [ScenarioConfig.total]
  split <;> omega

theorem first_inRange (h : SumsInRange scenario) :
    wrapInt (scenario.weightSql + scenario.weightBuy) = scenario.first .sell ∧
      wrapInt (scenario.first .sell + scenario.weightSell) = scenario.first .position ∧
      wrapInt (scenario.first .position + scenario.weightPosition) = scenario.first .history ∧
      wrapInt (scenario.first .history + scenario.weightPriceHistory) = scenario.sum :=
  ⟨wrapInt_of_inIntRange h.two, wrapInt_of_inIntRange h.three, wrapInt_of_inIntRange h.four,
    wrapInt_of_inIntRange h.five⟩

theorem total_of_inRange (h : SumsInRange scenario) :
    scenario.total = if scenario.sum ≤ 0 then 1 else scenario.sum := by
  obtain ⟨hsell, hposition, hhistory, hsum⟩ := first_inRange h
  simp only [ScenarioConfig.total, hsell, hposition, hhistory, hsum]

theorem pickedType_of_inRange (h : SumsInRange scenario) (pick : ℤ) :
    pickedType scenario pick =
      if pick < scenario.first .buy then .sql
      else if pick < scenario.first .sell then .buy
      else if pick < scenario.first .position then .sell
      else if pick < scenario.first .history then .position
      else .history := by
  obtain ⟨hsell, hposition, hhistory, -⟩ := first_inRange h
  simp only [pickedType, hsell, hposition, hhistory]
  rfl

theorem weight_pos_iff (printPrice : ℕ → Bytes) (rngState : UInt64) :
    (∀ t : RequestType,
      (nextRequest printPrice scenario rngState).1.header.messageType = t.messageType →
        0 < scenario.weight t) ↔
      0 < scenario.weight (pickedType scenario (nextPick scenario rngState)) := by
  rw [nextRequest_pickedType]
  constructor
  · intro h
    exact h _ rfl
  · intro h t ht
    rwa [← RequestType.messageType_injective ht]

/-- Only the last type is taken without a look at its weight; for the pick to fall through to
it where it has none, no sum of the other weights may be positive. -/
theorem weight_pickedType_pos_iff (h : SumsInRange scenario) (rngState : UInt64) :
    0 < scenario.weight (pickedType scenario (nextPick scenario rngState)) ↔
      0 < scenario.first .buy ∨ 0 < scenario.first .sell ∨ 0 < scenario.first .position ∨
        0 < scenario.first .history ∨ 0 < scenario.weightPriceHistory := by
  have hmodulus := total_pos scenario
  have hlt : ((nextRand rngState).toNat % scenario.total.toNat : ℕ) < scenario.total.toNat :=
    Nat.mod_lt _ (by omega)
  have hpick : ((nextRand rngState).toNat % scenario.total.toNat : ℕ) =
      nextPick scenario rngState := rfl
  have htotal := total_of_inRange h
  have hsql : scenario.first .buy = scenario.weightSql := rfl
  have hbuy : scenario.first .sell = scenario.first .buy + scenario.weightBuy := rfl
  have hsell : scenario.first .position = scenario.first .sell + scenario.weightSell := rfl
  have hposition : scenario.first .history = scenario.first .position + scenario.weightPosition :=
    rfl
  have hsum : scenario.sum = scenario.first .history + scenario.weightPriceHistory := rfl
  generalize (nextRand rngState).toNat % scenario.total.toNat = n at hlt hpick
  rw [pickedType_of_inRange h, ← hpick]
  split_ifs at htotal ⊢ <;> simp only [ScenarioConfig.weight] <;> omega

theorem handled_iff (printPrice : ℕ → Bytes) (scenario : ScenarioConfig) (rngState : UInt64) :
    Handled scenario printPrice rngState ↔ SumsInRange scenario ∧
      (0 < scenario.first .buy ∨ 0 < scenario.first .sell ∨ 0 < scenario.first .position ∨
        0 < scenario.first .history ∨ 0 < scenario.weightPriceHistory) := by
  constructor
  · intro h
    have hsums := totalSums_inRange_iff.mp h.total_inRange
    exact ⟨hsums, (weight_pickedType_pos_iff hsums rngState).mp
      ((weight_pos_iff printPrice rngState).mp h.weight_pos)⟩
  · rintro ⟨hsums, hpos⟩
    have htotal := totalSums_inRange_iff.mpr hsums
    refine ⟨htotal, ?_, total_pos scenario, ?_⟩
    · intro s hs
      exact htotal s (thresholdSums_subset hs)
    · exact (weight_pos_iff printPrice rngState).mpr
        ((weight_pickedType_pos_iff hsums rngState).mpr hpos)

end Options

theorem not_handled_largest : ¬ ∀ (printPrice : ℕ → Bytes) (scenario : ScenarioConfig)
    (rngState : UInt64), (∀ t, InIntRange (scenario.weight t)) →
      Handled scenario printPrice rngState := by
  intro h
  have hweights : ∀ t, InIntRange
      (ScenarioConfig.weight { weightSql := 2147483647 } t) := by
    intro t
    cases t <;> exact ⟨by decide, by decide⟩
  have htotal := (h priceText { weightSql := 2147483647 } 1 hweights).total_inRange _
    List.mem_cons_self
  exact absurd htotal.2 (by decide)

end HSFinancialServices.LoadGen
