import Mathlib.Data.Rat.Floor
import Mathlib.Algebra.Order.Floor.Semifield
import Mathlib.Algebra.Order.BigOperators.Group.List
import HSFinancialServices.Lib.OrderStatistics
import HSFinancialServices.LoadGen.LoadTest

/-!
# The performance report

`MetricsCollector::compute` over the samples of a run, with exact fractions for its doubles.
A percentile is the sample at a truncated position of the sorted list.
-/

namespace HSFinancialServices.LoadGen
open OrderStatistics

structure Stats where
  count : ℕ
  errors : ℕ
  rps : ℚ
  meanUs : ℚ
  p50Us : ℚ
  p90Us : ℚ
  p99Us : ℚ
  minUs : ℚ
  maxUs : ℚ
  deriving DecidableEq

namespace Metrics

def sorted (samples : List ℤ) : List ℤ := samples.insertionSort (· ≤ ·)

/-- The cast to `size_t` truncates. -/
def percentileIndex (p : ℚ) (size : ℕ) : ℕ := ⌊p * ((size - 1 : ℕ) : ℚ)⌋₊

def percentile (sorted : List ℤ) (p : ℚ) : ℚ :=
  if sorted = [] then 0 else (sorted.getD (percentileIndex p sorted.length) 0 : ℤ)

def compute (m : Metrics) (elapsedSeconds : ℚ) : Stats :=
  let s : Stats :=
    { count := m.successes
      errors := m.errors
      rps := if 0 < elapsedSeconds then m.successes / elapsedSeconds else 0
      meanUs := 0, p50Us := 0, p90Us := 0, p99Us := 0, minUs := 0, maxUs := 0 }
  let sorted := sorted m.samples
  if sorted = [] then s
  else
    { s with
      minUs := (sorted.headD 0 : ℤ)
      maxUs := (sorted.getLastD 0 : ℤ)
      meanUs := sorted.foldl (fun (sum : ℚ) (v : ℤ) => sum + v) 0 / sorted.length
      p50Us := percentile sorted (50 / 100)
      p90Us := percentile sorted (90 / 100)
      p99Us := percentile sorted (99 / 100) }

theorem pairwise_sorted (samples : List ℤ) : (sorted samples).Pairwise (· ≤ ·) :=
  List.pairwise_insertionSort _ samples

theorem sorted_perm (samples : List ℤ) : (sorted samples).Perm samples :=
  List.perm_insertionSort _ samples

@[simp] theorem length_sorted (samples : List ℤ) : (sorted samples).length = samples.length :=
  (sorted_perm samples).length_eq

@[simp] theorem sorted_eq_nil_iff (samples : List ℤ) : sorted samples = [] ↔ samples = [] := by
  rw [← List.length_eq_zero_iff, length_sorted, List.length_eq_zero_iff]

theorem sorted_eq_of_perm {samples samples' : List ℤ} (h : samples.Perm samples') :
    sorted samples = sorted samples' :=
  (((sorted_perm samples).trans h).trans (sorted_perm samples').symm).eq_of_sortedLE
    (pairwise_sorted samples).sortedLE (pairwise_sorted samples').sortedLE

theorem percentileIndex_eq_position (m size : ℕ) :
    percentileIndex ((m - 1 : ℕ) / m) size = position m size := by
  have hcast : ((m - 1 : ℕ) / m : ℚ) * ((size - 1 : ℕ) : ℚ) =
      (((m - 1) * (size - 1) : ℕ) : ℚ) / (m : ℕ) := by
    rw [Nat.cast_mul, div_mul_eq_mul_div]
  rw [percentileIndex, hcast, Nat.floor_div_eq_div, position]

theorem percentileIndex_mono {p p' : ℚ} (h : p ≤ p') (size : ℕ) :
    percentileIndex p size ≤ percentileIndex p' size :=
  Nat.floor_mono (mul_le_mul_of_nonneg_right h (Nat.cast_nonneg _))

theorem percentileIndex_le {p : ℚ} (h : p ≤ 1) (size : ℕ) :
    percentileIndex p size ≤ size - 1 := by
  refine (percentileIndex_mono h size).trans (le_of_eq ?_)
  rw [percentileIndex, one_mul, Nat.floor_natCast]

section NonEmpty
variable {l : List ℤ} (hl : l.Pairwise (· ≤ ·)) (hne : l ≠ [])
include hne

theorem percentileIndex_lt {p : ℚ} (h : p ≤ 1) : percentileIndex p l.length < l.length := by
  have hle := percentileIndex_le h l.length
  have hpos := List.length_pos_of_ne_nil hne
  omega

theorem percentile_eq {p : ℚ} (hlt : percentileIndex p l.length < l.length) :
    percentile l p = (l[percentileIndex p l.length] : ℤ) := by
  rw [percentile, if_neg hne, List.getD_eq_getElem _ _ hlt]

include hl

theorem percentile_mono {p p' : ℚ} (h : p ≤ p') (h' : p' ≤ 1) :
    percentile l p ≤ percentile l p' := by
  rw [percentile_eq hne (percentileIndex_lt hne (h.trans h')),
    percentile_eq hne (percentileIndex_lt hne h')]
  exact Int.cast_le.mpr
    (getElem_le_getElem hl (percentileIndex_mono h _) (percentileIndex_lt hne h'))

end NonEmpty

theorem percentile_zero (l : List ℤ) : percentile l 0 = (l.headD 0 : ℤ) := by
  rw [percentile, percentileIndex, zero_mul, Nat.floor_zero]
  cases l with
  | nil => simp
  | cons v l => simp

theorem percentile_one (l : List ℤ) : percentile l 1 = (l.getLastD 0 : ℤ) := by
  rw [percentile, percentileIndex, one_mul, Nat.floor_natCast]
  split_ifs with h
  · simp [h]
  · rw [List.getD_eq_getElem?_getD, ← List.getLast?_eq_getElem?, List.getLastD_eq_getLast?]

section Extremes
variable {l : List ℤ} (hl : l.Pairwise (· ≤ ·)) (hne : l ≠ [])
include hl hne

theorem percentile_zero_le {v : ℤ} (hv : v ∈ l) : percentile l 0 ≤ v := by
  obtain ⟨j, hj, rfl⟩ := List.getElem_of_mem hv
  have hlt := percentileIndex_lt hne zero_le_one
  rw [percentile_eq hne hlt]
  refine Int.cast_le.mpr (getElem_le_getElem hl ?_ hj)
  rw [percentileIndex, zero_mul, Nat.floor_zero]
  exact Nat.zero_le j

theorem le_percentile_one {v : ℤ} (hv : v ∈ l) : v ≤ percentile l 1 := by
  obtain ⟨j, hj, rfl⟩ := List.getElem_of_mem hv
  have hlt := percentileIndex_lt hne le_rfl
  rw [percentile_eq hne hlt]
  refine Int.cast_le.mpr (getElem_le_getElem hl ?_ hlt)
  rw [percentileIndex, one_mul, Nat.floor_natCast]
  omega

theorem mean_bounds :
    percentile l 0 ≤ l.foldl (fun (sum : ℚ) (v : ℤ) => sum + v) 0 / l.length ∧
      l.foldl (fun (sum : ℚ) (v : ℤ) => sum + v) 0 / l.length ≤ percentile l 1 := by
  have hpos : (0 : ℚ) < l.length := Nat.cast_pos.mpr (List.length_pos_of_ne_nil hne)
  have hsum : l.foldl (fun (sum : ℚ) (v : ℤ) => sum + v) 0 =
      (l.map (fun v : ℤ => (v : ℚ))).sum := by
    rw [List.sum_eq_foldl, List.foldl_map]
  have hlow := List.card_nsmul_le_sum (l.map (fun v : ℤ => (v : ℚ))) (percentile l 0)
    (List.forall_mem_map.mpr fun v hv => percentile_zero_le hl hne hv)
  have hhigh := List.sum_le_card_nsmul (l.map (fun v : ℤ => (v : ℚ))) (percentile l 1)
    (List.forall_mem_map.mpr fun v hv => le_percentile_one hl hne hv)
  rw [List.length_map, nsmul_eq_mul, mul_comm] at hlow hhigh
  rw [hsum]
  exact ⟨(le_div_iff₀ hpos).mpr hlow, (div_le_iff₀ hpos).mpr hhigh⟩

end Extremes

theorem compute_eq {m : Metrics} (hne : m.samples ≠ []) (elapsed : ℚ) :
    m.compute elapsed =
      { count := m.successes
        errors := m.errors
        rps := if 0 < elapsed then m.successes / elapsed else 0
        meanUs := (sorted m.samples).foldl (fun (sum : ℚ) (v : ℤ) => sum + v) 0 /
          (sorted m.samples).length
        p50Us := percentile (sorted m.samples) (50 / 100)
        p90Us := percentile (sorted m.samples) (90 / 100)
        p99Us := percentile (sorted m.samples) (99 / 100)
        minUs := percentile (sorted m.samples) 0
        maxUs := percentile (sorted m.samples) 1 } := by
  rw [percentile_zero, percentile_one]
  exact if_neg (mt (sorted_eq_nil_iff _).mp hne)

def reportedFractions : List ℚ := [50 / 100, 90 / 100, 99 / 100]

theorem percentile_mem {l : List ℤ} (hne : l ≠ []) {p : ℚ} (h : p ≤ 1) :
    ∃ v ∈ l, percentile l p = (v : ℤ) :=
  ⟨_, List.getElem_mem (percentileIndex_lt hne h), percentile_eq hne (percentileIndex_lt hne h)⟩

/-- Every position exists, the statistics are in order, all but the mean are samples, and
the order in which the clients recorded the samples does not matter. -/
theorem compute_consistent (m : Metrics) (elapsed : ℚ) (hne : m.samples ≠ []) :
    let s := m.compute elapsed
    (∀ p ∈ reportedFractions, percentileIndex p (sorted m.samples).length <
      (sorted m.samples).length) ∧
    (s.minUs ≤ s.p50Us ∧ s.p50Us ≤ s.p90Us ∧ s.p90Us ≤ s.p99Us ∧ s.p99Us ≤ s.maxUs) ∧
    (s.minUs ≤ s.meanUs ∧ s.meanUs ≤ s.maxUs) ∧
    (∀ x ∈ [s.minUs, s.p50Us, s.p90Us, s.p99Us, s.maxUs], ∃ v ∈ m.samples, x = (v : ℤ)) ∧
    ∀ samples : List ℤ, samples.Perm m.samples →
      ({ m with samples := samples } : Metrics).compute elapsed = s := by
  have hsorted := pairwise_sorted m.samples
  have hne' := mt (sorted_eq_nil_iff m.samples).mp hne
  refine ⟨?_, ?_, ?_, ?_, ?_⟩
  · intro p hp
    apply percentileIndex_lt hne'
    revert p
    decide +kernel
  · rw [compute_eq hne]
    refine ⟨?_, ?_, ?_, ?_⟩ <;> exact percentile_mono hsorted hne' (by norm_num) (by norm_num)
  · rw [compute_eq hne]
    exact mean_bounds hsorted hne'
  · intro x hx
    obtain ⟨p, hp, hxp⟩ : ∃ p : ℚ, p ≤ 1 ∧ x = percentile (sorted m.samples) p := by
      rw [compute_eq hne] at hx
      simp only [List.mem_cons, List.not_mem_nil, or_false] at hx
      obtain h | h | h | h | h := hx
      · exact ⟨_, zero_le_one, h⟩
      · exact ⟨_, by norm_num, h⟩
      · exact ⟨_, by norm_num, h⟩
      · exact ⟨_, by norm_num, h⟩
      · exact ⟨_, le_rfl, h⟩
    obtain ⟨v, hv, heq⟩ := percentile_mem hne' hp
    exact ⟨v, (sorted_perm m.samples).mem_iff.mp hv, hxp.trans heq⟩
  · intro samples hperm
    simp only [compute, sorted_eq_of_perm hperm]

theorem compute_consistent_three :
    let m : Metrics := { successes := 3, samples := [120, 45, 1200] }
    (m.compute 1).minUs ≤ (m.compute 1).meanUs ∧
      ({ m with samples := [45, 120, 1200] } : Metrics).compute 1 = m.compute 1 := by
  obtain ⟨-, -, hmean, -, hperm⟩ :=
    compute_consistent { successes := 3, samples := [120, 45, 1200] } 1 (by decide)
  exact ⟨hmean.1, hperm [45, 120, 1200] (by decide)⟩

def Covers (p x : ℚ) (samples : List ℤ) : Prop :=
  p * samples.length ≤ samples.countP fun v : ℤ => (v : ℚ) ≤ x

/-- In rounds of `m` the sample count is at most one past the end of a round, or the sample
that would have been the next in the sorted list is the equal of the one at the truncated
position. -/
def EndsRound (m : ℕ) (samples : List ℤ) : Prop :=
  samples.length % m ≤ 1 ∨
    (sorted samples)[position m samples.length + 1]? =
      (sorted samples)[position m samples.length]?

theorem covers_percentile_iff {m : ℕ} (hm : 2 ≤ m) {samples : List ℤ} (hne : samples ≠ []) :
    Covers ((m - 1 : ℕ) / m) (percentile (sorted samples) ((m - 1 : ℕ) / m)) samples ↔
      EndsRound m samples := by
  have hne' := mt (sorted_eq_nil_iff samples).mp hne
  have hpos : (0 : ℚ) < m := by
    rw [Nat.cast_pos]
    omega
  have hindex := percentileIndex_eq_position m (sorted samples).length
  have hk : position m (sorted samples).length < (sorted samples).length :=
    position_lt (List.length_pos_of_ne_nil hne')
  have hvalue : percentile (sorted samples) ((m - 1 : ℕ) / m) =
      ((sorted samples)[position m (sorted samples).length] : ℤ) := by
    rw [percentile, if_neg hne', hindex, List.getD_eq_getElem _ _ hk]
  have hcount : (samples.countP fun v : ℤ =>
        (v : ℚ) ≤ percentile (sorted samples) ((m - 1 : ℕ) / m)) =
      rank (sorted samples)[position m (sorted samples).length] (sorted samples) := by
    rw [hvalue, rank, (sorted_perm samples).countP_eq]
    simp only [Int.cast_le]
  have hfraction := fraction_le_rank_iff (pairwise_sorted samples) hm hk
  have hnext := List.getElem?_eq_getElem hk
  simp only [length_sorted] at hcount hfraction hnext
  rw [Covers, hcount, div_mul_eq_mul_div, div_le_iff₀ hpos, mul_comm _ (m : ℚ), EndsRound, hnext,
    ← hfraction]
  norm_cast

theorem endsRound_two (samples : List ℤ) : EndsRound 2 samples :=
  .inl (Nat.le_of_lt_succ (Nat.mod_lt _ Nat.two_pos))

/-- The median keeps its promise always, the other two percentiles exactly for sample counts
that end a round of ten or of a hundred and for ties at the position. -/
theorem percentiles_cover_iff (m : Metrics) (elapsed : ℚ) (hne : m.samples ≠ []) :
    Covers (50 / 100) (m.compute elapsed).p50Us m.samples ∧
      (Covers (90 / 100) (m.compute elapsed).p90Us m.samples ↔ EndsRound 10 m.samples) ∧
      (Covers (99 / 100) (m.compute elapsed).p99Us m.samples ↔ EndsRound 100 m.samples) := by
  have h₅₀ : ((2 - 1 : ℕ) / (2 : ℕ) : ℚ) = 50 / 100 := by norm_num
  have h₉₀ : ((10 - 1 : ℕ) / (10 : ℕ) : ℚ) = 90 / 100 := by norm_num
  have h₉₉ : ((100 - 1 : ℕ) / (100 : ℕ) : ℚ) = 99 / 100 := by norm_num
  rw [compute_eq hne, ← h₅₀, ← h₉₀, ← h₉₉]
  refine ⟨?_, ?_, ?_⟩
  · exact (covers_percentile_iff (by norm_num) hne).mpr (endsRound_two m.samples)
  · exact covers_percentile_iff (by norm_num) hne
  · exact covers_percentile_iff (by norm_num) hne

theorem percentiles_cover_eleven :
    let m : Metrics :=
      { successes := 11, samples := [900, 45, 50, 55, 60, 65, 70, 75, 80, 85, 90] }
    Covers (90 / 100) (m.compute 1).p90Us m.samples := by
  intro m
  exact (percentiles_cover_iff m 1 (by decide)).2.1.mpr (.inl (by decide))

theorem percentiles_do_not_cover_two :
    ¬ ∀ (m : Metrics) (elapsed : ℚ), m.samples ≠ [] →
      Covers (50 / 100) (m.compute elapsed).p50Us m.samples ∧
        Covers (90 / 100) (m.compute elapsed).p90Us m.samples ∧
        Covers (99 / 100) (m.compute elapsed).p99Us m.samples := by
  intro h
  obtain ⟨-, h₉₀, -⟩ := h { successes := 2, samples := [100, 5000] } 1 (by decide)
  revert h₉₀
  simp only [Covers]
  decide +kernel

end Metrics
end HSFinancialServices.LoadGen
