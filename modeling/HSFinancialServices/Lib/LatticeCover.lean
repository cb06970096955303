import Mathlib.Algebra.Order.BigOperators.Group.Finset
import Mathlib.Data.Int.ModEq
import Mathlib.LinearAlgebra.Matrix.Adjugate
import Mathlib.Tactic.Linarith
import Mathlib.Tactic.LinearCombination

/-!
# Points of a lattice in a box

A basis of short vectors says how far a point can be from the lattice at most. A box that
is wide enough for that meets every residue class that the lattice meets.
-/

namespace LatticeCover
open Matrix

variable {ι : Type*} [Fintype ι] [DecidableEq ι] {B : Matrix ι ι ℤ}

/-- The lattice that the rows of `B` span comes close to every point: round its coordinates
in the basis, which the adjugate computes up to the determinant. -/
theorem exists_close (hB : 0 < B.det) (w : ι → ℤ) :
    ∃ m : ι → ℤ, ∀ k, 2 * |w k - (m ᵥ* B) k| ≤ ∑ i, |B i k| := by
  let d := B.det
  let u := w ᵥ* B.adjugate
  let m := fun i => (2 * u i + d) / (2 * d)
  have hrounded : ∀ i, |2 * u i - 2 * d * m i| ≤ d := by
    intro i
    have hdiv := Int.mul_ediv_add_emod (2 * u i + d) (2 * d)
    have hd : 0 < d := hB
    have hnonneg := Int.emod_nonneg (2 * u i + d) (by omega : 2 * d ≠ 0)
    have hlt := Int.emod_lt_of_pos (2 * u i + d) (by omega : 0 < 2 * d)
    rw [abs_le]
    constructor <;> linarith
  have hcoordinates : u ᵥ* B = d • w := by
    rw [vecMul_vecMul, adjugate_mul, vecMul_smul, vecMul_one]
  refine ⟨m, ?_⟩
  intro k
  have hk : ∑ i, u i * B i k = d * w k := congrFun hcoordinates k
  have herror : 2 * d * (w k - (m ᵥ* B) k) = ∑ i, (2 * u i - 2 * d * m i) * B i k := by
    simp only [sub_mul, Finset.sum_sub_distrib, mul_assoc, ← Finset.mul_sum, hk]
    simp only [vecMul, dotProduct]
    ring
  have hbound : d * (2 * |w k - (m ᵥ* B) k|) ≤ d * ∑ i, |B i k| := by
    calc d * (2 * |w k - (m ᵥ* B) k|) = |2 * d * (w k - (m ᵥ* B) k)| := by
          rw [abs_mul, abs_of_pos (mul_pos two_pos hB)]
          ring
      _ = |∑ i, (2 * u i - 2 * d * m i) * B i k| := by rw [herror]
      _ ≤ ∑ i, |(2 * u i - 2 * d * m i) * B i k| := Finset.abs_sum_le_sum_abs _ _
      _ ≤ ∑ i, d * |B i k| := by
          apply Finset.sum_le_sum
          intro i _
          rw [abs_mul]
          exact mul_le_mul_of_nonneg_right (hrounded i) (abs_nonneg _)
      _ = d * ∑ i, |B i k| := (Finset.mul_sum ..).symm
  exact le_of_mul_le_mul_left hbound hB

theorem exists_in_box (hB : 0 < B.det) {T N : ℤ} (hT : 0 < T)
    (hwide : ∀ k, T * (∑ i, |B i k| + 2) ≤ N) (u : ι → ℤ) :
    ∃ m : ι → ℤ, ∀ k, 0 ≤ u k - T * (m ᵥ* B) k ∧ u k - T * (m ᵥ* B) k < N := by
  -- the point of the scaled lattice next to `u` is measured from the middle of the box
  obtain ⟨m, hm⟩ := exists_close hB fun k => (2 * u k - N) / (2 * T)
  refine ⟨m, ?_⟩
  intro k
  have hclose := hm k
  have hdiv := Int.mul_ediv_add_emod (2 * u k - N) (2 * T)
  have hnonneg := Int.emod_nonneg (2 * u k - N) (by omega : 2 * T ≠ 0)
  have hlt := Int.emod_lt_of_pos (2 * u k - N) (by omega : 0 < 2 * T)
  have hwidth := hwide k
  set q := (2 * u k - N) / (2 * T)
  set v := (m ᵥ* B) k
  set S := ∑ i, |B i k|
  have hle : 2 * (q - v) ≤ S := le_trans (by linarith [le_abs_self (q - v)]) hclose
  have hge : -S ≤ 2 * (q - v) := by linarith [neg_abs_le (q - v)]
  have hupper := mul_le_mul_of_nonneg_left hle hT.le
  have hlower := mul_le_mul_of_nonneg_left hge hT.le
  constructor
  · nlinarith
  · nlinarith

end LatticeCover
