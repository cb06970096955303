import HSFinancialServices.LoadGen.Requests

/-!
# Which request a draw leads to

The pick falls into one of five intervals, one behind the other, as long as the weights of
the types. Every type draws its own number of times in all.
-/

namespace HSFinancialServices.LoadGen
open Services

inductive RequestType
  | sql
  | buy
  | sell
  | position
  | history
  deriving DecidableEq, Repr

def RequestType.messageType : RequestType → MessageType
  | .sql => MessageType.kSqlQuery
  | .buy => MessageType.kBuyOrder
  | .sell => MessageType.kSellOrder
  | .position => MessageType.kGetPosition
  | .history => MessageType.kGetPriceHistory

/-- The calls of `next_rand` for one request, the pick among them. -/
def RequestType.draws : RequestType → ℕ
  | .sql | .position => 2
  | .history => 3
  | .buy | .sell => 4

theorem RequestType.messageType_injective : Function.Injective RequestType.messageType := by
  intro t t' h
  cases t <;> cases t' <;> first | rfl | exact absurd h (by decide)

theorem RequestType.draws_bounds (t : RequestType) : 2 ≤ t.draws ∧ t.draws ≤ 4 := by
  cases t <;> decide

namespace ScenarioConfig

def weight (scenario : ScenarioConfig) : RequestType → ℤ
  | .sql => scenario.weightSql
  | .buy => scenario.weightBuy
  | .sell => scenario.weightSell
  | .position => scenario.weightPosition
  | .history => scenario.weightPriceHistory

def first (scenario : ScenarioConfig) : RequestType → ℤ
  | .sql => 0
  | .buy => scenario.weightSql
  | .sell => scenario.weightSql + scenario.weightBuy
  | .position => scenario.weightSql + scenario.weightBuy + scenario.weightSell
  | .history =>
    scenario.weightSql + scenario.weightBuy + scenario.weightSell + scenario.weightPosition

def sum (scenario : ScenarioConfig) : ℤ := scenario.first .history + scenario.weightPriceHistory

structure Valid (scenario : ScenarioConfig) : Prop where
  nonneg : ∀ t, 0 ≤ scenario.weight t
  pos : 0 < scenario.sum
  le : scenario.sum < 2 ^ 31

def Picks (scenario : ScenarioConfig) (t : RequestType) (pick : ℤ) : Prop :=
  scenario.first t ≤ pick ∧ pick < scenario.first t + scenario.weight t

instance (scenario : ScenarioConfig) (t : RequestType) (pick : ℤ) :
    Decidable (scenario.Picks t pick) :=
  inferInstanceAs (Decidable (_ ∧ _))

theorem wrapInt_eq {z : ℤ} (hz : 0 ≤ z) (hlt : z < 2 ^ 31) : wrapInt z = z :=
  Int.bmod_eq_of_le_mul_two (by omega) (by omega)

section Valid
variable {scenario : ScenarioConfig} (h : scenario.Valid)
include h

theorem Valid.weights_nonneg :
    0 ≤ scenario.weightSql ∧ 0 ≤ scenario.weightBuy ∧ 0 ≤ scenario.weightSell ∧
      0 ≤ scenario.weightPosition ∧ 0 ≤ scenario.weightPriceHistory :=
  ⟨h.nonneg .sql, h.nonneg .buy, h.nonneg .sell, h.nonneg .position, h.nonneg .history⟩

theorem Valid.total_eq : scenario.total = scenario.sum := by
  obtain ⟨hsql, hbuy, hsell, hposition, hhistory⟩ := h.weights_nonneg
  have hpos := h.pos
  have hle := h.le
  simp only [sum, first] at *
  simp (disch := omega) only [total, wrapInt_eq]
  rw [if_neg (by omega)]

end Valid

end ScenarioConfig

theorem exists_picks {scenario : ScenarioConfig} {pick : ℤ} (hnonneg : 0 ≤ pick)
    (hlt : pick < scenario.sum) :
    ∃ t, scenario.Picks t pick := by
  simp only [ScenarioConfig.sum, ScenarioConfig.first] at hlt
  by_cases hsql : pick < scenario.weightSql
  · refine ⟨.sql, ?_⟩
    simp only [ScenarioConfig.Picks, ScenarioConfig.first, ScenarioConfig.weight]
    omega
  by_cases hbuy : pick < scenario.weightSql + scenario.weightBuy
  · refine ⟨.buy, ?_⟩
    simp only [ScenarioConfig.Picks, ScenarioConfig.first, ScenarioConfig.weight]
    omega
  by_cases hsell : pick < scenario.weightSql + scenario.weightBuy + scenario.weightSell
  · refine ⟨.sell, ?_⟩
    simp only [ScenarioConfig.Picks, ScenarioConfig.first, ScenarioConfig.weight]
    omega
  by_cases hposition : pick < scenario.weightSql + scenario.weightBuy + scenario.weightSell +
      scenario.weightPosition
  · refine ⟨.position, ?_⟩
    simp only [ScenarioConfig.Picks, ScenarioConfig.first, ScenarioConfig.weight]
    omega
  · refine ⟨.history, ?_⟩
    simp only [ScenarioConfig.Picks, ScenarioConfig.first, ScenarioConfig.weight]
    omega

theorem weight_pos_of_picks {scenario : ScenarioConfig} {t : RequestType} {pick : ℤ}
    (h : scenario.Picks t pick) : 0 < scenario.weight t := by
  obtain ⟨hfirst, hlast⟩ := h
  omega

def nextPick (scenario : ScenarioConfig) (rngState : UInt64) : ℤ :=
  ((nextRand rngState).toNat % scenario.total.toNat : ℕ)

section Requests
variable {printPrice : ℕ → Bytes} {scenario : ScenarioConfig} (h : scenario.Valid)
include h

theorem interval_bounds (t : RequestType) :
    0 ≤ scenario.first t ∧ scenario.first t + scenario.weight t ≤ scenario.sum := by
  obtain ⟨hsql, hbuy, hsell, hposition, hhistory⟩ := h.weights_nonneg
  simp only [ScenarioConfig.sum, ScenarioConfig.first, ScenarioConfig.weight] at *
  cases t <;> simp only <;> omega

theorem picks_bounds {t : RequestType} {pick : ℤ} (ht : scenario.Picks t pick) :
    0 ≤ pick ∧ pick < scenario.sum := by
  obtain ⟨hfirst, hlast⟩ := ht
  obtain ⟨hnonneg, hle⟩ := interval_bounds h t
  omega

theorem nextPick_bounds (rngState : UInt64) :
    0 ≤ nextPick scenario rngState ∧ nextPick scenario rngState < scenario.sum := by
  have hpos := h.pos
  have hlt := Nat.mod_lt (nextRand rngState).toNat (by omega : 0 < scenario.sum.toNat)
  rw [nextPick, h.total_eq]
  omega

/-- The next request has the type that its pick belongs to, and takes the draws of the type. -/
theorem nextRequest_of_picks {rngState : UInt64} {t : RequestType}
    (ht : scenario.Picks t (nextPick scenario rngState)) :
    (nextRequest printPrice scenario rngState).1.header.messageType = t.messageType ∧
      (nextRequest printPrice scenario rngState).2 = nextRand^[t.draws] rngState := by
  obtain ⟨hsql, hbuy, hsell, hposition, hhistory⟩ := h.weights_nonneg
  have hle := h.le
  obtain ⟨hfirst, hlast⟩ := ht
  have hpick : ((nextRand rngState).toNat % scenario.total.toNat : ℕ) =
      nextPick scenario rngState := rfl
  generalize nextPick scenario rngState = pick at *
  simp only [ScenarioConfig.sum, ScenarioConfig.first, ScenarioConfig.weight] at *
  simp (disch := omega) only [nextRequest, hpick, ScenarioConfig.wrapInt_eq]
  cases t <;> simp only at hfirst hlast
  · rw [if_pos (by omega)]
    exact ⟨rfl, rfl⟩
  · rw [if_neg (by omega), if_pos (by omega)]
    exact ⟨rfl, rfl⟩
  · rw [if_neg (by omega), if_neg (by omega), if_pos (by omega)]
    exact ⟨rfl, rfl⟩
  · rw [if_neg (by omega), if_neg (by omega), if_neg (by omega), if_pos (by omega)]
    exact ⟨rfl, rfl⟩
  · rw [if_neg (by omega), if_neg (by omega), if_neg (by omega), if_neg (by omega)]
    exact ⟨rfl, rfl⟩

end Requests

end HSFinancialServices.LoadGen
