import Mathlib.Algebra.BigOperators.Intervals
import Mathlib.Algebra.Ring.GeomSum
import Mathlib.Data.Int.ModEq
import Mathlib.Logic.Function.Iterate
import Mathlib.RingTheory.Int.Basic
import Mathlib.Tactic.LinearCombination

/-!
# Linear congruential generators modulo a power of two

For a multiplier that is one modulo four and an odd increment, every state leads to every
other, and a state returns after a multiple of the modulus only. Taken in strides, the
generator stays in one class modulo the power of two in the stride, and meets all of it.
-/

namespace Congruential

theorem exists_add_mul_modEq {m n p x : ℤ} (h : p ≡ x [ZMOD Int.gcd m n]) :
    ∃ q, p + m * q ≡ x [ZMOD n] := by
  obtain ⟨s, hs⟩ := h.dvd
  refine ⟨Int.gcdA m n * s, Int.modEq_iff_dvd.mpr ⟨Int.gcdB m n * s, ?_⟩⟩
  have hgcd : (Int.gcd m n : ℤ) = m * Int.gcdA m n + n * Int.gcdB m n := Int.gcd_eq_gcd_ab m n
  linear_combination hs + s * hgcd

def next (a c x : ℤ) : ℤ := a * x + c

def powers (a : ℤ) (n : ℕ) : ℤ := ∑ i ∈ Finset.range n, a ^ i

theorem powers_succ (a : ℤ) (n : ℕ) : powers a (n + 1) = powers a n + a ^ n :=
  Finset.sum_range_succ ..

theorem powers_add_self (a : ℤ) (n : ℕ) : powers a (n + n) = powers a n * (1 + a ^ n) := by
  have hsecond : ∑ i ∈ Finset.range n, a ^ (n + i) = a ^ n * powers a n := by
    rw [powers, Finset.mul_sum]
    exact Finset.sum_congr rfl fun i _ => pow_add a n i
  rw [powers, Finset.sum_range_add, hsecond, powers]
  ring

theorem iterate_next (a c : ℤ) (n : ℕ) (x : ℤ) :
    (next a c)^[n] x = x + powers a n * ((a - 1) * x + c) := by
  induction n with
  | zero => simp [powers]
  | succ n ih =>
    have hgeom : powers a n * (a - 1) = a ^ n - 1 := geom_sum_mul a n
    have hstep : powers a (n + 1) = a * powers a n + 1 := by
      rw [powers_succ]
      linear_combination -hgeom
    rw [Function.iterate_succ_apply', ih, next, hstep]
    ring

theorem iterate_next_eq (a c : ℤ) (n : ℕ) (x : ℤ) :
    (next a c)^[n] x = a ^ n * x + powers a n * c := by
  have hgeom : powers a n * (a - 1) = a ^ n - 1 := geom_sum_mul a n
  rw [iterate_next]
  linear_combination x * hgeom

section FullPeriod
variable {a c : ℤ} (ha : a ≡ 1 [ZMOD 4]) (hc : Odd c)
include ha

theorem odd_multiplier : Odd a := by
  rw [Int.odd_iff]
  have h := ha.dvd
  omega

theorem odd_powers_iff (n : ℕ) : Odd (powers a n) ↔ Odd n := by
  induction n with
  | zero => simp [powers]
  | succ n ih =>
    rw [powers_succ, Int.odd_add, ih, Nat.odd_add_one]
    have hodd : ¬ Even (a ^ n) := Int.not_even_iff_odd.mpr (odd_multiplier ha).pow
    simp [hodd]

theorem one_add_pow (n : ℕ) : ∃ r, Odd r ∧ 1 + a ^ n = 2 * r := by
  have hpow : a ^ n ≡ 1 [ZMOD 4] := by simpa using ha.pow n
  obtain ⟨m, hm⟩ := hpow.symm.dvd
  refine ⟨2 * m + 1, odd_two_mul_add_one m, ?_⟩
  linear_combination hm

theorem two_pow_dvd_powers_iff (k n : ℕ) : (2 : ℤ) ^ k ∣ powers a n ↔ 2 ^ k ∣ n := by
  induction k generalizing n with
  | zero => simp
  | succ k ih =>
    obtain ⟨m, rfl⟩ | hodd := n.even_or_odd
    · obtain ⟨r, hr, hsum⟩ := one_add_pow ha m
      have hcoprime : IsCoprime ((2 : ℤ) ^ k) r :=
        (Int.isCoprime_two_left.mpr hr).pow_left
      rw [powers_add_self, hsum, pow_succ', pow_succ', ← two_mul,
        show powers a m * (2 * r) = 2 * (powers a m * r) by ring,
        Int.mul_dvd_mul_iff_left two_ne_zero, Nat.mul_dvd_mul_iff_left two_pos, ← ih m]
      exact ⟨fun h => hcoprime.dvd_of_dvd_mul_right h, fun h => h.mul_right r⟩
    · have hpowers := (odd_powers_iff ha n).mpr hodd
      have hleft : ¬ (2 : ℤ) ^ (k + 1) ∣ powers a n := fun h =>
        Int.not_even_iff_odd.mpr hpowers
          (even_iff_two_dvd.mpr ((dvd_pow_self 2 k.succ_ne_zero).trans h))
      have hright : ¬ 2 ^ (k + 1) ∣ n := fun h =>
        Nat.not_even_iff_odd.mpr hodd
          (even_iff_two_dvd.mpr ((dvd_pow_self 2 k.succ_ne_zero).trans h))
      exact iff_of_false hleft hright

include hc

theorem odd_drift (x : ℤ) : Odd ((a - 1) * x + c) := by
  have heven : Even (a - 1) := (odd_multiplier ha).sub_odd odd_one
  exact (heven.mul_right x).add_odd hc

theorem iterate_modEq_self_iff (k n : ℕ) (x : ℤ) :
    (next a c)^[n] x ≡ x [ZMOD 2 ^ k] ↔ 2 ^ k ∣ n := by
  have hcoprime : IsCoprime ((2 : ℤ) ^ k) ((a - 1) * x + c) :=
    (Int.isCoprime_two_left.mpr (odd_drift ha hc x)).pow_left
  rw [iterate_next, ← two_pow_dvd_powers_iff ha, Int.modEq_comm, Int.modEq_iff_dvd,
    add_sub_cancel_left]
  exact ⟨fun h => hcoprime.dvd_of_dvd_mul_right h, fun h => h.mul_right _⟩

theorem exists_iterate_two_pow (k : ℕ) (x : ℤ) :
    ∃ r, Odd r ∧ (next a c)^[2 ^ k] x = x + 2 ^ k * r := by
  obtain ⟨s, hs⟩ := (two_pow_dvd_powers_iff ha k (2 ^ k)).mpr dvd_rfl
  have hodd : Odd s := by
    rw [← Int.not_even_iff_odd]
    rintro ⟨t, rfl⟩
    have hdvd : (2 : ℤ) ^ (k + 1) ∣ powers a (2 ^ k) := ⟨t, by rw [hs]; ring⟩
    rw [two_pow_dvd_powers_iff ha] at hdvd
    exact absurd hdvd (Nat.not_dvd_of_pos_of_lt (Nat.two_pow_pos k) (Nat.pow_lt_pow_succ one_lt_two))
  refine ⟨s * ((a - 1) * x + c), hodd.mul (odd_drift ha hc x), ?_⟩
  rw [iterate_next, hs]
  ring

/-- Every state leads to every other: what is met modulo `2 ^ k` but missed modulo
`2 ^ (k + 1)` is met `2 ^ k` draws later. -/
theorem exists_iterate_modEq (k : ℕ) (x y : ℤ) : ∃ n, (next a c)^[n] x ≡ y [ZMOD 2 ^ k] := by
  induction k with
  | zero => exact ⟨0, by simp [Int.modEq_one]⟩
  | succ k ih =>
    obtain ⟨n, hn⟩ := ih
    obtain ⟨q, hq⟩ := hn.dvd
    obtain ⟨r, hr⟩ | hodd := q.even_or_odd
    · refine ⟨n, Int.modEq_iff_dvd.mpr ⟨r, ?_⟩⟩
      rw [hq, hr]
      ring
    · obtain ⟨r, hr, hlater⟩ := exists_iterate_two_pow ha hc k ((next a c)^[n] x)
      obtain ⟨t, ht⟩ := hodd.sub_odd hr
      refine ⟨2 ^ k + n, Int.modEq_iff_dvd.mpr ⟨t, ?_⟩⟩
      rw [Function.iterate_add_apply, hlater, ← sub_sub, hq, ← mul_sub, ht]
      ring

theorem iterate_modEq_of_modEq {k m n : ℕ} (h : m ≡ n [MOD 2 ^ k]) (x : ℤ) :
    (next a c)^[m] x ≡ (next a c)^[n] x [ZMOD 2 ^ k] := by
  wlog hle : m ≤ n generalizing m n
  · exact (this h.symm (le_of_not_ge hle)).symm
  obtain ⟨q, hq⟩ := (Nat.modEq_iff_dvd' hle).mp h
  have hn : n = 2 ^ k * q + m := by omega
  rw [hn, Function.iterate_add_apply]
  exact ((iterate_modEq_self_iff ha hc k _ _).mpr (dvd_mul_right _ q)).symm

/-- The states repeat with period `2 ^ k`, and never sooner. -/
theorem iterate_modEq_iterate_iff {k m n : ℕ} (x : ℤ) :
    (next a c)^[m] x ≡ (next a c)^[n] x [ZMOD 2 ^ k] ↔ m ≡ n [MOD 2 ^ k] := by
  refine ⟨?_, fun h => iterate_modEq_of_modEq ha hc h x⟩
  intro h
  wlog hle : m ≤ n generalizing m n
  · exact (this h.symm (le_of_not_ge hle)).symm
  rw [Nat.modEq_iff_dvd' hle, ← iterate_modEq_self_iff ha hc k _ ((next a c)^[m] x),
    ← Function.iterate_add_apply, Nat.sub_add_cancel hle]
  exact h.symm

theorem exists_iterate_mul_modEq {j k e : ℕ} (hjk : j ≤ k) (he : Odd e) {x y : ℤ}
    (hxy : x ≡ y [ZMOD 2 ^ j]) : ∃ n, (next a c)^[2 ^ j * e * n] x ≡ y [ZMOD 2 ^ k] := by
  obtain ⟨m, hm⟩ := exists_iterate_modEq ha hc k x y
  have hclass : (next a c)^[m] x ≡ x [ZMOD 2 ^ j] :=
    (hm.of_dvd (pow_dvd_pow 2 hjk)).trans hxy.symm
  obtain ⟨m', rfl⟩ := (iterate_modEq_self_iff ha hc j m x).mp hclass
  have hcoprime : Nat.Coprime e (2 ^ k) := (Nat.coprime_two_right.mpr he).pow_right k
  obtain ⟨n, -, hn⟩ := Nat.exists_mul_mod_eq_of_coprime m' hcoprime (Nat.two_pow_pos k).ne'
  have hstride : 2 ^ j * e * n ≡ 2 ^ j * m' [MOD 2 ^ k] := by
    rw [mul_assoc]
    exact Nat.ModEq.mul_left _ hn
  exact ⟨n, (iterate_modEq_of_modEq ha hc hstride x).trans hm⟩

end FullPeriod

end Congruential
