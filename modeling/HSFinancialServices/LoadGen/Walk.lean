import HSFinancialServices.Lib.Congruential
import HSFinancialServices.Lib.LatticeCover
import HSFinancialServices.LoadGen.RequestMix

/-!
# Which request types a client ever sends

A client reads its picks off the states of its generator and skips the states between them,
two, three or four at a time.
-/

namespace HSFinancialServices.LoadGen
open Services

def multiplier : ℤ := 6364136223846793005

def increment : ℤ := 1442695040888963407

theorem multiplier_mod_four : multiplier ≡ 1 [ZMOD 4] := by decide

theorem increment_odd : Odd increment := by decide

theorem nextRand_modEq (x : UInt64) :
    ((nextRand x).toNat : ℤ) ≡ Congruential.next multiplier increment x.toNat [ZMOD 2 ^ 64] := by
  have hnat : (nextRand x).toNat =
      (x.toNat * 6364136223846793005 + 1442695040888963407) % 2 ^ 64 := by
    simp [nextRand, UInt64.toNat_add, UInt64.toNat_mul]
  rw [hnat, Congruential.next, multiplier, increment, mul_comm]
  push_cast
  exact Int.mod_modEq _ _

theorem iterate_nextRand_modEq (n : ℕ) (x : UInt64) :
    ((nextRand^[n] x).toNat : ℤ) ≡
      (Congruential.next multiplier increment)^[n] x.toNat [ZMOD 2 ^ 64] := by
  induction n with
  | zero => rfl
  | succ n ih =>
    rw [Function.iterate_succ_apply', Function.iterate_succ_apply']
    exact (nextRand_modEq _).trans ((ih.mul_left _).add_right _)

theorem toNat_eq_of_modEq {x : UInt64} {z : ℤ} (hz : 0 ≤ z ∧ z < 2 ^ 64)
    (h : (x.toNat : ℤ) ≡ z [ZMOD 2 ^ 64]) : (x.toNat : ℤ) = z := by
  have hlt := x.toNat_lt
  have hmod : (x.toNat : ℤ) % 2 ^ 64 = z % 2 ^ 64 := h
  rw [Int.emod_eq_of_lt (by omega) (by omega), Int.emod_eq_of_lt hz.1 hz.2] at hmod
  exact hmod

theorem exists_iterate_eq {x : UInt64} {j e : ℕ} (hj : j ≤ 64) (he : Odd e) {y : ℤ}
    (hy : 0 ≤ y ∧ y < 2 ^ 64) (hclass : x.toNat ≡ y [ZMOD 2 ^ j]) :
    ∃ n, ((nextRand^[2 ^ j * e * n] x).toNat : ℤ) = y := by
  obtain ⟨n, hn⟩ := Congruential.exists_iterate_mul_modEq multiplier_mod_four increment_odd hj he
    hclass
  exact ⟨n, toNat_eq_of_modEq hy ((iterate_nextRand_modEq _ x).trans hn)⟩

section Client
variable (printPrice : ℕ → Bytes) (scenario : ScenarioConfig) (clientId : UInt32)

def stateAt (n : ℕ) : UInt64 :=
  (fun rngState => (nextRequest printPrice scenario rngState).2)^[n] (seed clientId)

def Exercised (t : RequestType) : Prop :=
  ∃ n, (nextRequest printPrice scenario
    (stateAt printPrice scenario clientId n)).1.header.messageType = t.messageType

variable {printPrice scenario clientId} (h : scenario.Valid)
include h

theorem exercised_iff {t : RequestType} : Exercised printPrice scenario clientId t ↔
    ∃ n, scenario.Picks t (nextPick scenario (stateAt printPrice scenario clientId n)) := by
  constructor
  · rintro ⟨n, hn⟩
    obtain ⟨hnonneg, hlt⟩ := nextPick_bounds h (stateAt printPrice scenario clientId n)
    obtain ⟨t', ht'⟩ := exists_picks hnonneg hlt
    obtain rfl : t = t' := RequestType.messageType_injective
      (hn.symm.trans (nextRequest_of_picks h ht').1)
    exact ⟨n, ht'⟩
  · rintro ⟨n, hn⟩
    exact ⟨n, (nextRequest_of_picks h hn).1⟩

theorem stateAt_succ {n : ℕ} {t : RequestType}
    (ht : scenario.Picks t (nextPick scenario (stateAt printPrice scenario clientId n))) :
    stateAt printPrice scenario clientId (n + 1) =
      nextRand^[t.draws] (stateAt printPrice scenario clientId n) := by
  rw [← (nextRequest_of_picks h ht).2, stateAt, Function.iterate_succ_apply', ← stateAt]

/-- The other types of positive weight draw a multiple of `stride` times, and at most `length`
such strides. -/
def OthersSkip (scenario : ScenarioConfig) (t : RequestType) (stride length : ℕ) : Prop :=
  ∀ t' ≠ t, 0 < scenario.weight t' → stride ∣ t'.draws ∧ t'.draws ≤ stride * length

variable {t : RequestType} {stride length : ℕ}

theorem stateAt_succ_of_unmet {n : ℕ}
    (hunmet : ¬ scenario.Picks t (nextPick scenario (stateAt printPrice scenario clientId n))) :
    ∃ t' ≠ t, 0 < scenario.weight t' ∧ stateAt printPrice scenario clientId (n + 1) =
      nextRand^[t'.draws] (stateAt printPrice scenario clientId n) := by
  obtain ⟨hnonneg, hlt⟩ := nextPick_bounds h (stateAt printPrice scenario clientId n)
  obtain ⟨t', ht'⟩ := exists_picks hnonneg hlt
  have hne : t' ≠ t := by
    rintro rfl
    exact hunmet ht'
  exact ⟨t', hne, weight_pos_of_picks ht', stateAt_succ h ht'⟩

theorem exists_stateAt_stride (hskip : OthersSkip scenario t stride length) (n : ℕ)
    (hunmet : ∀ m < n, ¬ scenario.Picks t
      (nextPick scenario (stateAt printPrice scenario clientId m))) :
    ∃ k, stateAt printPrice scenario clientId n = nextRand^[stride * k] (seed clientId) := by
  induction n with
  | zero =>
    refine ⟨0, ?_⟩
    simp only [stateAt, Nat.mul_zero, Function.iterate_zero_apply]
  | succ n ih =>
    obtain ⟨k, hstate⟩ := ih fun m hm => hunmet m (by omega)
    obtain ⟨t', hne, hpos, hnext⟩ := stateAt_succ_of_unmet h (hunmet n (by omega))
    obtain ⟨m, hm⟩ := (hskip t' hne hpos).1
    refine ⟨m + k, ?_⟩
    rw [hnext, hstate, hm, ← Function.iterate_add_apply, mul_add]

/-- A client that never meets a type reads one of any `length` states at this distance. -/
theorem exists_stateAt_window (hskip : OthersSkip scenario t stride length) (hlength : 0 < length)
    (hunmet : ∀ n, ¬ scenario.Picks t
      (nextPick scenario (stateAt printPrice scenario clientId n))) (i : ℕ) :
    ∃ n k, i ≤ k ∧ k < i + length ∧
      stateAt printPrice scenario clientId n = nextRand^[stride * k] (seed clientId) := by
  induction i with
  | zero =>
    refine ⟨0, 0, le_rfl, by omega, ?_⟩
    simp only [stateAt, Nat.mul_zero, Function.iterate_zero_apply]
  | succ i ih =>
    obtain ⟨n, k, hle, hlt, hstate⟩ := ih
    by_cases hk : i + 1 ≤ k
    · exact ⟨n, k, hk, by omega, hstate⟩
    · obtain ⟨t', hne, hpos, hnext⟩ := stateAt_succ_of_unmet h (hunmet n)
      obtain ⟨⟨m, hm⟩, hmax⟩ := hskip t' hne hpos
      have hdraws := t'.draws_bounds.1
      have hstride : 0 < stride := Nat.pos_of_ne_zero fun h0 => by simp [hm, h0] at hdraws
      have hm0 : m ≠ 0 := fun h0 => by simp [hm, h0] at hdraws
      have hmlength : m ≤ length := Nat.le_of_mul_le_mul_left (hm ▸ hmax) hstride
      refine ⟨n + 1, m + k, by omega, by omega, ?_⟩
      rw [hnext, hstate, hm, ← Function.iterate_add_apply, mul_add]

theorem exercised_of_window (hskip : OthersSkip scenario t stride length) (hlength : 0 < length)
    {i : ℕ} (hwindow : ∀ k < length, scenario.Picks t
      (nextPick scenario (nextRand^[stride * (i + k)] (seed clientId)))) :
    Exercised printPrice scenario clientId t := by
  by_contra hunmet
  rw [exercised_iff h, not_exists] at hunmet
  obtain ⟨n, k, hle, hlt, hstate⟩ := exists_stateAt_window h hskip hlength hunmet i
  apply hunmet n
  rw [hstate]
  have hk := hwindow (k - i) (by omega)
  rwa [Nat.add_sub_cancel' hle] at hk

theorem nextPick_eq (rngState : UInt64) :
    nextPick scenario rngState = (nextRand rngState).toNat % scenario.sum := by
  have hsum := h.pos
  rw [nextPick, h.total_eq, Int.natCast_mod, Int.toNat_of_nonneg hsum.le]

/-- A type is met only where it has a pick in the class in which the strides of the others
keep the first pick. -/
theorem exists_picks_modEq_of_exercised {j : ℕ} (hj : j ≤ 64)
    (hskip : OthersSkip scenario t stride length) (hstride : 2 ^ j ∣ stride)
    (hmet : Exercised printPrice scenario clientId t) :
    ∃ pick, scenario.Picks t pick ∧
      pick ≡ (nextRand (seed clientId)).toNat [ZMOD Int.gcd scenario.sum (2 ^ j)] := by
  rw [exercised_iff h] at hmet
  refine ⟨_, Nat.find_spec hmet, ?_⟩
  obtain ⟨k, hstate⟩ := exists_stateAt_stride h hskip (Nat.find hmet) fun m hm =>
    Nat.find_min hmet hm
  have hclass : ((nextRand (nextRand^[stride * k] (seed clientId))).toNat : ℤ) ≡
      (nextRand (seed clientId)).toNat [ZMOD 2 ^ j] := by
    rw [← Function.iterate_succ_apply' nextRand, Function.iterate_succ_apply]
    have hkept := (Congruential.iterate_modEq_self_iff multiplier_mod_four increment_odd j _
      ((nextRand (seed clientId)).toNat : ℤ)).mpr (hstride.mul_right k)
    exact ((iterate_nextRand_modEq _ _).of_dvd (pow_dvd_pow 2 hj)).trans hkept
  rw [hstate, nextPick_eq h]
  exact ((Int.mod_modEq _ _).of_dvd (Int.gcd_dvd_left ..)).trans
    (hclass.of_dvd (Int.gcd_dvd_right ..))

end Client

end HSFinancialServices.LoadGen
