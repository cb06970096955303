import HSFinancialServices.LoadGen.Walk

/-!
# Picks in a row

States of the generator at equal distances form a lattice, moved away from the origin. As
far as the lattice has a short basis, the states can be given any remainders modulo the total
of the weights that their lowest bits allow.
-/

namespace HSFinancialServices.LoadGen
open Ascii Matrix Services

/-- States of the generator `2 ^ twos * odd` draws apart, and a basis of the differences of
two rows of such states. -/
structure PickWindow where
  twos : ℕ
  odd : ℕ
  last : ℕ
  basis : Matrix (Fin (last + 1)) (Fin (last + 1)) ℤ
  maxTotal : ℤ
  twos_le : twos ≤ 64
  odd_odd : Odd odd
  det_pos : 0 < basis.det
  succ : ∀ (i : Fin (last + 1)) (k : Fin last), basis i k.succ ≡
    multiplier ^ (2 ^ twos * odd) * basis i k.castSucc [ZMOD 2 ^ 64]
  kept : ∀ i, 2 ^ twos ∣ basis i 0
  fits : ∀ k, maxTotal * (∑ i, |basis i k| + 2) ≤ 2 ^ 64

namespace PickWindow

def stride (w : PickWindow) : ℕ := 2 ^ w.twos * w.odd

def length (w : PickWindow) : ℕ := w.last + 1

def everyState : PickWindow where
  twos := 0
  odd := 1
  last := 3
  basis :=
    !![-183412778687379, 127683850795561, -199276674133963, 677377041489;
      21353581504438, -229055879117570, -90594258066778, 67599939350830;
      -242513036984482, 41440388203910, 113878546363022, 143667996316918;
      157233346521599, 174533809791699, 114373844306967, 220947666110731]
  maxTotal := 30515
  twos_le := by decide
  odd_odd := by decide
  det_pos := by decide +kernel
  succ := by decide +kernel
  kept := by decide +kernel
  fits := by decide +kernel

def threeStates : PickWindow where
  twos := 0
  odd := 1
  last := 2
  basis :=
    !![-810954487658, 5215258438750, 5556843294342;
      781967691603, -4841909526889, 3676893481355;
      7308804055591, 544764893659, 3371785891967]
  maxTotal := 1463385
  twos_le := by decide
  odd_odd := by decide
  det_pos := by decide +kernel
  succ := by decide +kernel
  kept := by decide +kernel
  fits := by decide +kernel

def everySecondState : PickWindow where
  twos := 1
  odd := 1
  last := 1
  basis := !![-10152165862, -4590135382; 1687127710, -2871243826]
  maxTotal := 1558094995
  twos_le := by decide
  odd_odd := by decide
  det_pos := by decide +kernel
  succ := by decide +kernel
  kept := by decide +kernel
  fits := by decide +kernel

def single (twos odd : ℕ) (htwos : twos ≤ 2) (hodd : Odd odd) : PickWindow where
  twos := twos
  odd := odd
  last := 0
  basis := !![2 ^ twos]
  maxTotal := 2 ^ 31 - 1
  twos_le := htwos.trans (by decide)
  odd_odd := hodd
  det_pos := by
    rw [det_fin_one_of]
    positivity
  succ := fun _ k => k.elim0
  kept := by simp
  fits := by
    interval_cases twos <;> decide

variable (w : PickWindow)

theorem vecMul_basis_succ (m : Fin (w.last + 1) → ℤ) (k : Fin w.last) :
    (m ᵥ* w.basis) k.succ ≡
      multiplier ^ w.stride * (m ᵥ* w.basis) k.castSucc [ZMOD 2 ^ 64] := by
  rw [Int.modEq_iff_dvd, vecMul, vecMul, dotProduct, dotProduct, Finset.mul_sum,
    ← Finset.sum_sub_distrib]
  apply Finset.dvd_sum
  intro i _
  rw [mul_left_comm, ← mul_sub]
  exact (w.succ i k).dvd.mul_left (m i)

theorem two_pow_dvd_vecMul_basis (m : Fin (w.last + 1) → ℤ) :
    (2 : ℤ) ^ w.twos ∣ (m ᵥ* w.basis) 0 := by
  rw [vecMul, dotProduct]
  apply Finset.dvd_sum
  intro i _
  exact (w.kept i).mul_left (m i)

def run (x : ℤ) (k : ℕ) : ℤ := (Congruential.next multiplier increment)^[w.stride * k] x

theorem run_succ (x : ℤ) (k : ℕ) : w.run x (k + 1) =
    multiplier ^ w.stride * w.run x k + Congruential.powers multiplier w.stride * increment := by
  rw [← Congruential.iterate_next_eq, run, run, ← Function.iterate_add_apply, Nat.mul_succ,
    Nat.add_comm]

theorem exists_run {T : ℤ} (hT : 0 < T) (hmax : T ≤ w.maxTotal) {P : ℤ → Prop}
    (hP : ∀ p, P p → 0 ≤ p ∧ p < T) {x : ℤ}
    (hpicks : ∀ k < w.length, ∃ p, P p ∧ p ≡ w.run x k [ZMOD Int.gcd (2 ^ 64) T]) :
    ∃ z : Fin (w.last + 1) → ℤ, (∀ k, 0 ≤ z k ∧ z k < 2 ^ 64) ∧ x ≡ z 0 [ZMOD 2 ^ w.twos] ∧
      (∀ k : Fin w.last, z k.succ ≡ multiplier ^ w.stride * z k.castSucc +
        Congruential.powers multiplier w.stride * increment [ZMOD 2 ^ 64]) ∧
      ∀ k, P (z k % T) := by
  have hclass : ∀ k : Fin (w.last + 1), ∃ p q, P p ∧ w.run x k + 2 ^ 64 * q ≡ p [ZMOD T] := by
    intro k
    obtain ⟨p, hp, hmod⟩ := hpicks k k.isLt
    obtain ⟨q, hq⟩ := Congruential.exists_add_mul_modEq hmod.symm
    exact ⟨p, q, hp, hq⟩
  choose p q hp hq using hclass
  have hwide : ∀ k, T * (∑ i, |w.basis i k| + 2) ≤ 2 ^ 64 := by
    intro k
    refine le_trans (mul_le_mul_of_nonneg_right hmax ?_) (w.fits k)
    exact add_nonneg (Finset.sum_nonneg fun i _ => abs_nonneg _) (by norm_num)
  obtain ⟨m, hm⟩ := LatticeCover.exists_in_box w.det_pos hT hwide
    fun k => w.run x k + 2 ^ 64 * q k
  refine ⟨fun k => w.run x k + 2 ^ 64 * q k - T * (m ᵥ* w.basis) k, hm, ?_, ?_, ?_⟩
  · have hbits : (2 : ℤ) ^ w.twos ∣ 2 ^ 64 := pow_dvd_pow 2 w.twos_le
    have hstart : w.run x (0 : Fin (w.last + 1)) = x := by
      simp only [run, Fin.val_zero, Nat.mul_zero, Function.iterate_zero_apply]
    have hdiff : w.run x (0 : Fin (w.last + 1)) + 2 ^ 64 * q 0 - T * (m ᵥ* w.basis) 0 - x =
        2 ^ 64 * q 0 - T * (m ᵥ* w.basis) 0 := by
      rw [hstart]
      ring
    rw [Int.modEq_iff_dvd, hdiff]
    exact (hbits.mul_right _).sub ((w.two_pow_dvd_vecMul_basis m).mul_left T)
  · intro k
    have hnext : T * (m ᵥ* w.basis) k.succ ≡
        T * (multiplier ^ w.stride * (m ᵥ* w.basis) k.castSucc) [ZMOD 2 ^ 64] :=
      (w.vecMul_basis_succ m k).mul_left T
    have hrun := w.run_succ x k
    obtain ⟨r, hr⟩ := hnext.dvd
    refine Int.modEq_iff_dvd.mpr ⟨multiplier ^ w.stride * q k.castSucc - q k.succ - r, ?_⟩
    simp only [Fin.val_succ, Fin.val_castSucc, hrun]
    linear_combination -hr
  · intro k
    obtain ⟨hnonneg, hlt⟩ := hP (p k) (hp k)
    rw [Int.sub_mul_emod_self_left, hq k, Int.emod_eq_of_lt hnonneg hlt]
    exact hp k

theorem length_pos : 0 < w.length := Nat.succ_pos w.last

theorem exists_window {scenario : ScenarioConfig} (h : scenario.Valid) {clientId : UInt32}
    {t : RequestType} (hmax : scenario.sum ≤ w.maxTotal) {x : ℤ}
    (hx : (nextRand (seed clientId)).toNat ≡ x [ZMOD 2 ^ w.twos])
    (hpicks : ∀ k < w.length, ∃ pick, scenario.Picks t pick ∧
      pick ≡ w.run x k [ZMOD Int.gcd (2 ^ 64) scenario.sum]) :
    ∃ i, ∀ k < w.length,
      scenario.Picks t (nextPick scenario (nextRand^[w.stride * (i + k)] (seed clientId))) := by
  obtain ⟨z, hrange, hstart, hsucc, hz⟩ :=
    w.exists_run h.pos hmax (fun _ hpick => picks_bounds h hpick) hpicks
  obtain ⟨i, hi⟩ := exists_iterate_eq w.twos_le w.odd_odd (hrange 0) (hx.trans hstart)
  have hstates : ∀ k : Fin (w.last + 1),
      ((nextRand^[w.stride * (i + k)] (nextRand (seed clientId))).toNat : ℤ) = z k := by
    intro k
    induction k using Fin.induction with
    | zero => exact hi
    | succ k ih =>
      apply toNat_eq_of_modEq (hrange k.succ)
      rw [Fin.val_succ, ← add_assoc, Nat.mul_succ, Nat.add_comm, Function.iterate_add_apply]
      refine (iterate_nextRand_modEq _ _).trans ?_
      rw [Congruential.iterate_next_eq, ← Fin.val_castSucc k, ih]
      exact (hsucc k).symm
  refine ⟨i, ?_⟩
  intro k hk
  rw [nextPick_eq h, ← Function.iterate_succ_apply' nextRand, Function.iterate_succ_apply,
    hstates ⟨k, hk⟩]
  exact hz ⟨k, hk⟩

end PickWindow

def pickWindows : List PickWindow :=
  [.everyState, .threeStates, .everySecondState, .single 1 1 (by decide) (by decide),
    .single 0 3 (by decide) (by decide), .single 2 1 (by decide) (by decide)]

/-- The other types cannot skip the whole window, and its picks can be chosen. -/
def PickWindow.Fits (w : PickWindow) (scenario : ScenarioConfig) (t : RequestType) : Prop :=
  OthersSkip scenario t w.stride w.length ∧ scenario.sum ≤ w.maxTotal

/-- Some states of the class that the client stays in agree in their lowest bits, as far as
these reach the pick, with picks of the type. -/
def PickWindow.HasPicks (w : PickWindow) (scenario : ScenarioConfig) (clientId : UInt32)
    (t : RequestType) : Prop :=
  ∃ x : ℤ, (nextRand (seed clientId)).toNat ≡ x [ZMOD 2 ^ w.twos] ∧
    ∀ k < w.length, ∃ pick, scenario.Picks t pick ∧
      pick ≡ w.run x k [ZMOD Int.gcd (2 ^ 64) scenario.sum]

def Covered (scenario : ScenarioConfig) (clientId : UInt32) (t : RequestType) : Prop :=
  ∃ w ∈ pickWindows, w.Fits scenario t ∧ w.HasPicks scenario clientId t

section Covered
variable {printPrice : ℕ → Bytes} {scenario : ScenarioConfig} {clientId : UInt32}
  {t : RequestType}

theorem exercised_of_covered (h : scenario.Valid) (hcovered : Covered scenario clientId t) :
    Exercised printPrice scenario clientId t := by
  obtain ⟨w, -, ⟨hskip, hmax⟩, x, hx, hpicks⟩ := hcovered
  obtain ⟨i, hwindow⟩ := w.exists_window h hmax hx hpicks
  exact exercised_of_window h hskip w.length_pos hwindow

theorem hasPicks_of_weight (w : PickWindow) (clientId : UInt32)
    (hweight : (Int.gcd (2 ^ 64) scenario.sum : ℤ) ≤ scenario.weight t) :
    w.HasPicks scenario clientId t := by
  have hgcd : (0 : ℤ) < Int.gcd (2 ^ 64) scenario.sum := by
    exact_mod_cast Int.gcd_pos_of_ne_zero_left _ (by norm_num)
  refine ⟨_, Int.ModEq.refl _, ?_⟩
  intro k _
  let d := w.run (nextRand (seed clientId)).toNat k - scenario.first t
  have hnonneg := Int.emod_nonneg d hgcd.ne'
  have hlt := Int.emod_lt_of_pos d hgcd
  refine ⟨scenario.first t + d % Int.gcd (2 ^ 64) scenario.sum, ⟨by omega, by omega⟩, ?_⟩
  have hmod := (Int.mod_modEq d (Int.gcd (2 ^ 64) scenario.sum)).add_left (scenario.first t)
  rwa [add_sub_cancel] at hmod

def PickWindow.Exact (w : PickWindow) (scenario : ScenarioConfig) : Prop :=
  w.last = 0 ∨ (Int.gcd (2 ^ 64) scenario.sum : ℤ) ∣ 2 ^ w.twos

theorem PickWindow.run_modEq (w : PickWindow) (x : ℤ) (k : ℕ) :
    w.run x k ≡ x [ZMOD 2 ^ w.twos] := by
  apply (Congruential.iterate_modEq_self_iff multiplier_mod_four increment_odd w.twos _ x).mpr
  exact (dvd_mul_right _ w.odd).mul_right k

theorem hasPicks_of_exercised {w : PickWindow} (h : scenario.Valid)
    (hskip : OthersSkip scenario t w.stride w.length) (hexact : w.Exact scenario)
    (hmet : Exercised printPrice scenario clientId t) : w.HasPicks scenario clientId t := by
  obtain ⟨pick, hpick, hclass⟩ := exists_picks_modEq_of_exercised h w.twos_le hskip
    (dvd_mul_right _ w.odd) hmet
  have hdvd : (Int.gcd (2 ^ 64) scenario.sum : ℤ) ∣ scenario.sum := Int.gcd_dvd_right ..
  obtain hlast | hbits := hexact
  · have hboth : (Int.gcd (Int.gcd (2 ^ 64) scenario.sum) (2 ^ w.twos) : ℤ) ∣
        Int.gcd scenario.sum (2 ^ w.twos) :=
      Int.dvd_coe_gcd ((Int.gcd_dvd_left ..).trans hdvd) (Int.gcd_dvd_right ..)
    obtain ⟨q, hq⟩ := Congruential.exists_add_mul_modEq (hclass.of_dvd hboth)
    refine ⟨_, hq.symm, ?_⟩
    intro k hk
    obtain rfl : k = 0 := by
      simp only [PickWindow.length, hlast] at hk
      omega
    refine ⟨pick, hpick, Int.modEq_iff_dvd.mpr ⟨q, ?_⟩⟩
    simp only [PickWindow.run, Nat.mul_zero, Function.iterate_zero_apply, add_sub_cancel_left]
  · refine ⟨_, Int.ModEq.refl _, ?_⟩
    intro k _
    refine ⟨pick, hpick, ?_⟩
    exact (hclass.of_dvd (Int.dvd_coe_gcd hdvd hbits)).trans
      ((w.run_modEq _ k).of_dvd hbits).symm

end Covered

/-- A client sends every type whose picks can be chosen in a window that the other types
cannot skip. Where a window is exact, it sends no others. -/
theorem exercised_where_covered (printPrice : ℕ → Bytes) {scenario : ScenarioConfig}
    (h : scenario.Valid) (clientId : UInt32) (t : RequestType) :
    (Covered scenario clientId t → Exercised printPrice scenario clientId t) ∧
      ∀ w ∈ pickWindows, w.Fits scenario t → w.Exact scenario →
        (Exercised printPrice scenario clientId t ↔ Covered scenario clientId t) := by
  refine ⟨exercised_of_covered h, ?_⟩
  intro w hw hfits hexact
  refine ⟨?_, exercised_of_covered h⟩
  intro hmet
  exact ⟨w, hw, hfits, hasPicks_of_exercised h hfits.1 hexact hmet⟩

def priceText (cents : ℕ) : Bytes :=
  decimal (100 + cents / 100) ++
    if cents % 100 = 0 then [] else if cents % 10 = 0 then [point, digit (cents / 10 % 10)]
    else [point, digit (cents / 10 % 10), digit (cents % 10)]

theorem exercised_where_covered_default : Exercised priceText {} 7 .history := by
  have hvalid : ScenarioConfig.Valid {} := by
    refine ⟨?_, by decide, by decide⟩
    intro t
    cases t <;> decide
  have hskip : OthersSkip {} .history 1 4 := by
    intro t _ _
    exact ⟨one_dvd _, t.draws_bounds.2⟩
  have hpicks : PickWindow.everyState.HasPicks {} 7 .history :=
    hasPicks_of_weight _ 7 (by decide)
  exact (exercised_where_covered priceText hvalid 7 .history).1
    ⟨.everyState, by simp [pickWindows], ⟨hskip, by decide⟩, hpicks⟩

theorem buy_orders_starved :
    ¬ ∀ (printPrice : ℕ → Bytes) (scenario : ScenarioConfig) (clientId : UInt32)
      (t : RequestType), scenario.Valid → 0 < scenario.weight t →
        Exercised printPrice scenario clientId t := by
  intro h
  have hvalid : ScenarioConfig.Valid ⟨1, 1, 0, 0, 0⟩ := by
    refine ⟨?_, by decide, by decide⟩
    intro t
    cases t <;> decide
  have hskip : OthersSkip ⟨1, 1, 0, 0, 0⟩ .buy 2 1 := by
    intro t hne hpos
    cases t <;> first | decide | exact absurd rfl hne | exact absurd hpos (by decide)
  have hmet := h priceText ⟨1, 1, 0, 0, 0⟩ 0 .buy hvalid (by decide)
  obtain ⟨pick, ⟨hfirst, hlast⟩, hclass⟩ :=
    exists_picks_modEq_of_exercised (j := 1) hvalid (by decide) hskip (by decide) hmet
  simp only [ScenarioConfig.first, ScenarioConfig.weight] at hfirst hlast
  obtain rfl : pick = 1 := by omega
  exact absurd hclass (by decide)

end HSFinancialServices.LoadGen
