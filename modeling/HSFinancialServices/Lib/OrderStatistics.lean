import Mathlib.Data.List.Sort
import Mathlib.Tactic.Linarith
import Mathlib.Tactic.Ring

/-!
# Order statistics

What the position of an element in a sorted list says about the number of elements that are
at most as large, and which positions answer for a fraction `1 - 1 / m` of the list.
-/

namespace OrderStatistics

variable {α : Type*} [LinearOrder α]

def rank (x : α) (l : List α) : ℕ := l.countP (· ≤ x)

theorem rank_le_length (x : α) (l : List α) : rank x l ≤ l.length := List.countP_le_length

theorem rank_cons (x a : α) (l : List α) :
    rank x (a :: l) = rank x l + if a ≤ x then 1 else 0 := by
  simp only [rank, List.countP_cons, decide_eq_true_eq]

theorem lt_rank_iff {l : List α} (hl : l.Pairwise (· ≤ ·)) (x : α) {j : ℕ} (hj : j < l.length) :
    j < rank x l ↔ l[j] ≤ x := by
  induction l generalizing j with
  | nil => exact absurd hj (Nat.not_lt_zero j)
  | cons a l ih =>
    obtain ⟨ha, hl⟩ := List.pairwise_cons.mp hl
    rw [rank_cons]
    by_cases hax : a ≤ x
    · rw [if_pos hax]
      cases j with
      | zero => simp [hax]
      | succ j =>
        rw [Nat.add_lt_add_iff_right, List.getElem_cons_succ]
        exact ih hl (Nat.lt_of_succ_lt_succ hj)
    · have hnone : rank x l = 0 := by
        apply List.countP_eq_zero.mpr
        intro b hb hbx
        exact hax ((ha b hb).trans (of_decide_eq_true hbx))
      have hlarge : ¬ (a :: l)[j] ≤ x := by
        intro hle
        have hmem := List.getElem_mem hj
        obtain heq | htail := List.mem_cons.mp hmem
        · exact hax (heq ▸ hle)
        · exact hax ((ha _ htail).trans hle)
      simp [if_neg hax, hnone, hlarge]

theorem lt_rank_getElem {l : List α} (hl : l.Pairwise (· ≤ ·)) {j : ℕ} (hj : j < l.length) :
    j < rank l[j] l :=
  (lt_rank_iff hl l[j] hj).mpr le_rfl

theorem getElem_le_getElem {l : List α} (hl : l.Pairwise (· ≤ ·)) {i j : ℕ} (hij : i ≤ j)
    (hj : j < l.length) : l[i] ≤ l[j] :=
  hl.sortedLE.getElem_le_getElem_of_le hij

/-- The truncated position of the fraction `1 - 1 / m` between the ends of `n` elements. -/
def position (m n : ℕ) : ℕ := (m - 1) * (n - 1) / m

theorem position_lt {m n : ℕ} (hn : 0 < n) : position m n < n := by
  have hle : (m - 1) * (n - 1) ≤ m * (n - 1) := Nat.mul_le_mul_right _ (Nat.sub_le m 1)
  have hdiv := Nat.div_le_of_le_mul hle
  exact hdiv.trans_lt (Nat.sub_one_lt_of_lt hn)

theorem position_add {m q r : ℕ} (hr : r < m) :
    position m (m * q + r + 1) = (m - 1) * q + (r - 1) := by
  have hm : 0 < m := Nat.zero_lt_of_lt hr
  rw [position, Nat.add_sub_cancel]
  have hsplit : (m - 1) * (m * q + r) = (m - 1) * r + m * ((m - 1) * q) := by ring
  rw [hsplit, Nat.add_mul_div_left _ _ hm, Nat.add_comm]
  congr 1
  cases r with
  | zero => simp
  | succ r =>
    obtain ⟨a, rfl⟩ := Nat.exists_eq_add_of_le' hm
    rw [Nat.add_sub_cancel, Nat.add_sub_cancel]
    apply Nat.div_eq_of_lt_le <;> nlinarith

theorem enough_iff {m n : ℕ} (hm : 2 ≤ m) (hn : 0 < n) :
    (m - 1) * n ≤ m * (position m n + 1) ↔ n % m ≤ 1 := by
  obtain ⟨q, r, hr, rfl⟩ : ∃ q r, r < m ∧ n = m * q + r + 1 :=
    ⟨(n - 1) / m, (n - 1) % m, Nat.mod_lt _ (by omega), by
      rw [Nat.div_add_mod]
      omega⟩
  rw [position_add hr]
  obtain ⟨a, rfl⟩ := Nat.exists_eq_add_of_le' (Nat.le_of_succ_le hm)
  have hmod : ((a + 1) * q + r + 1) % (a + 1) = if r = a then 0 else r + 1 := by
    rw [Nat.add_assoc, Nat.mul_add_mod]
    split_ifs with h
    · rw [h, Nat.mod_self]
    · exact Nat.mod_eq_of_lt (by omega)
  rw [hmod, Nat.add_sub_cancel]
  have hexpand : a * ((a + 1) * q + r + 1) = (a + 1) * (a * q) + (a * r + a) := by ring
  have hexpand' : (a + 1) * (a * q + (r - 1) + 1) =
      (a + 1) * (a * q) + (a + 1) * (r - 1 + 1) := by ring
  rw [hexpand, hexpand', Nat.add_le_add_iff_left]
  cases r with
  | zero =>
    split_ifs <;> omega
  | succ r =>
    rw [Nat.add_sub_cancel]
    have hmul : a * (r + 1) + a ≤ (a + 1) * (r + 1) ↔ a ≤ r + 1 := by
      rw [Nat.add_mul, Nat.one_mul, Nat.add_le_add_iff_left]
    rw [hmul]
    split_ifs <;> omega

theorem enough_succ {m n : ℕ} (hm : 0 < m) (hn : 0 < n) :
    (m - 1) * n ≤ m * (position m n + 2) := by
  have hfloor := Nat.lt_mul_div_succ ((m - 1) * (n - 1)) hm
  obtain ⟨n, rfl⟩ := Nat.exists_eq_add_of_le' hn
  obtain ⟨a, rfl⟩ := Nat.exists_eq_add_of_le' hm
  rw [position]
  rw [Nat.add_sub_cancel, Nat.add_sub_cancel] at *
  nlinarith

section Fraction
variable {l : List α} {m : ℕ}

/-- The element at the truncated position answers for the fraction `1 - 1 / m` exactly if
the count ends a round or if its successor in the order is its equal. -/
theorem fraction_le_rank_iff (hl : l.Pairwise (· ≤ ·)) (hm : 2 ≤ m)
    (hk : position m l.length < l.length) :
    (m - 1) * l.length ≤ m * rank l[position m l.length] l ↔
      l.length % m ≤ 1 ∨ l[position m l.length + 1]? = some l[position m l.length] := by
  have hn : 0 < l.length := Nat.zero_lt_of_lt hk
  have hrank := lt_rank_getElem hl hk
  by_cases hround : l.length % m ≤ 1
  · have henough := (enough_iff hm hn).mpr hround
    have hle : m * (position m l.length + 1) ≤ m * rank l[position m l.length] l :=
      Nat.mul_le_mul_left m hrank
    simp only [hround, true_or, iff_true]
    exact henough.trans hle
  · have hshort := mt (enough_iff hm hn).mp hround
    have hnext : position m l.length + 1 < rank l[position m l.length] l ↔
        l[position m l.length + 1]? = some l[position m l.length] := by
      by_cases hlast : position m l.length + 1 < l.length
      · rw [lt_rank_iff hl _ hlast, List.getElem?_eq_getElem hlast, Option.some_inj]
        have hle := getElem_le_getElem hl (Nat.le_succ (position m l.length)) hlast
        exact ⟨fun h => h.antisymm hle, fun h => h.le⟩
      · rw [List.getElem?_eq_none (Nat.not_lt.mp hlast)]
        have hbound := rank_le_length l[position m l.length] l
        simp only [reduceCtorEq, iff_false]
        omega
    rw [← hnext]
    simp only [hround, false_or]
    constructor
    · intro h
      exact Nat.lt_of_mul_lt_mul_left ((Nat.not_le.mp hshort).trans_le h)
    · intro h
      exact (enough_succ (Nat.zero_lt_of_lt hm) hn).trans (Nat.mul_le_mul_left m h)

end Fraction

end OrderStatistics
