import Mathlib.Data.Real.Basic
import Mathlib.Tactic.Linarith
import HSFinancialServices.Services.Days

/-!
# The prices of a candle

With exact reals for its doubles the handler moves every price away from a base price by at
most 4.3. The base price is 182.5 and a hundredth of the sum of the symbol's bytes, which are
signed.
-/

namespace HSFinancialServices.Services
open Ascii

noncomputable section

def realDoubles (sin cos : ℝ → ℝ) (toInt64 : ℝ → ℤ) (print : ℝ → Bytes) : Doubles ℝ where
  literal q := q
  ofInt z := z
  add := (· + ·)
  sub := (· - ·)
  mul := (· * ·)
  abs x := |x|
  sin := sin
  cos := cos
  max := Max.max
  min := Min.min
  toInt64 := toInt64
  print := print

structure Candle.Sane (c : Candle ℝ) : Prop where
  low_pos : 0 < c.low
  low_le : c.low ≤ min c.open_ c.close_
  le_high : max c.open_ c.close_ ≤ c.high

def symbolSum (symbol : Bytes) : ℤ := (symbol.map signedChar).sum

variable {sin cos : ℝ → ℝ} {toInt64 : ℝ → ℤ} {print : ℝ → Bytes}

theorem basePrice_eq (symbol : Bytes) :
    basePrice (realDoubles sin cos toInt64 print) symbol = 182.5 + symbolSum symbol * 0.01 := by
  have hfold : ∀ price : ℝ, symbol.foldl (fun price c => price + (signedChar c : ℝ) * 0.01) price =
      price + symbolSum symbol * 0.01 := by
    induction symbol with
    | nil => simp [symbolSum]
    | cons c symbol ih =>
      intro price
      rw [List.foldl_cons, ih]
      simp only [symbolSum, List.map_cons, List.sum_cons, Int.cast_add]
      ring
  have hliteral : ((182.5 : ℚ) : ℝ) = 182.5 := by norm_num
  have hcent : ((0.01 : ℚ) : ℝ) = 0.01 := by norm_num
  simp only [basePrice, realDoubles, hliteral, hcent]
  exact hfold _

section Candle
variable (base : ℝ) (now : ℤ) (i : ℕ)

theorem candle_low_le :
    (candle (realDoubles sin cos toInt64 print) base now i).low ≤
      min (candle (realDoubles sin cos toInt64 print) base now i).open_
        (candle (realDoubles sin cos toInt64 print) base now i).close_ := by
  simp only [candle, realDoubles]
  have habs := abs_nonneg (cos (((i : ℤ) : ℝ) * ((0.7 : ℚ) : ℝ)))
  have hliteral : ((0.8 : ℚ) : ℝ) = 0.8 := by norm_num
  rw [hliteral]
  linarith

theorem candle_le_high :
    max (candle (realDoubles sin cos toInt64 print) base now i).open_
        (candle (realDoubles sin cos toInt64 print) base now i).close_ ≤
      (candle (realDoubles sin cos toInt64 print) base now i).high := by
  simp only [candle, realDoubles]
  have habs := abs_nonneg (sin (((i : ℤ) : ℝ) * ((0.7 : ℚ) : ℝ)))
  have hliteral : ((0.8 : ℚ) : ℝ) = 0.8 := by norm_num
  rw [hliteral]
  linarith

theorem candle_low_ge (hsin : ∀ x, |sin x| ≤ 1) (hcos : ∀ x, |cos x| ≤ 1) :
    base - 4.3 ≤ (candle (realDoubles sin cos toInt64 print) base now i).low := by
  simp only [candle, realDoubles]
  have h₁ := (abs_le.mp (hsin (((i : ℤ) : ℝ) * ((0.42 : ℚ) : ℝ)))).1
  have h₂ := (abs_le.mp (hcos (((i : ℤ) : ℝ) * ((0.31 : ℚ) : ℝ)))).1
  have h₃ := hcos (((i : ℤ) : ℝ) * ((0.7 : ℚ) : ℝ))
  have hliteral : ((0.8 : ℚ) : ℝ) = 0.8 ∧ ((1.5 : ℚ) : ℝ) = 1.5 ∧ ((2.0 : ℚ) : ℝ) = 2 := by norm_num
  rw [hliteral.1, hliteral.2.1, hliteral.2.2]
  obtain hmin | hmin := min_choice (base + sin (((i : ℤ) : ℝ) * ((0.42 : ℚ) : ℝ)) * 2)
    (base + sin (((i : ℤ) : ℝ) * ((0.42 : ℚ) : ℝ)) * 2 +
      cos (((i : ℤ) : ℝ) * ((0.31 : ℚ) : ℝ)) * 1.5)
  · rw [hmin]
    linarith
  · rw [hmin]
    linarith

theorem candle_low_least :
    (candle (realDoubles (fun _ => -1) (fun _ => -1) toInt64 print) base now i).low =
      base - 4.3 := by
  simp only [candle, realDoubles]
  have hliteral : ((0.8 : ℚ) : ℝ) = 0.8 ∧ ((1.5 : ℚ) : ℝ) = 1.5 ∧ ((2.0 : ℚ) : ℝ) = 2 := by norm_num
  rw [hliteral.1, hliteral.2.1, hliteral.2.2, abs_neg, abs_one, min_eq_right (by linarith)]
  linarith

end Candle

/-- Whatever sine and cosine return, the candles for this symbol are sane. -/
def CandlesSane (requestJson : Bytes) : Prop :=
  ∀ (sin cos : ℝ → ℝ) (toInt64 : ℝ → ℤ) (print : ℝ → Bytes) (now : ℤ),
    (∀ x, |sin x| ≤ 1) → (∀ x, |cos x| ≤ 1) →
    ∀ c ∈ historyCandles (realDoubles sin cos toInt64 print) requestJson now, c.Sane

/-- The lows stay positive exactly if the bytes of the symbol add up to more than -17820. -/
theorem candles_sane_iff (requestJson : Bytes) :
    CandlesSane requestJson ↔ -17820 < symbolSum (historySymbol requestJson) := by
  constructor
  · intro h
    have hmem : candle (realDoubles (fun _ => -1) (fun _ => -1) (fun _ => 0) fun _ => [])
        (basePrice (realDoubles (fun _ => -1) (fun _ => -1) (fun _ => 0) fun _ => [])
          (historySymbol requestJson)) 0 0 ∈
        historyCandles (realDoubles (fun _ => -1) (fun _ => -1) (fun _ => 0) fun _ => [])
          requestJson 0 := by
      have hdays := (effectiveDays_bounds requestJson).1
      exact List.mem_map_of_mem (List.mem_reverse.mpr (List.mem_range.mpr hdays))
    have hlow := (h (fun _ => -1) (fun _ => -1) (fun _ => 0) (fun _ => []) 0 (by simp) (by simp)
      _ hmem).low_pos
    rw [candle_low_least, basePrice_eq] at hlow
    have hcast : (-17820 : ℝ) < symbolSum (historySymbol requestJson) := by linarith
    exact_mod_cast hcast
  · intro h sin cos toInt64 print now hsin hcos c hc
    obtain ⟨i, -, rfl⟩ := List.mem_map.mp hc
    refine ⟨?_, candle_low_le _ now i, candle_le_high _ now i⟩
    refine lt_of_lt_of_le ?_ (candle_low_ge _ now i hsin hcos)
    have hcast : (-17820 : ℝ) < symbolSum (historySymbol requestJson) := by exact_mod_cast h
    rw [basePrice_eq]
    linarith

def accentedRequest : Bytes :=
  ascii "\x7b\"symbol\":\"" ++ (List.replicate 124 [0xC3, 0xA9]).flatten ++
    ascii "\",\"days\":1\x7d"

theorem accented_low_negative :
    ¬ ∀ requestJson : Bytes, CandlesSane requestJson := by
  intro h
  have hsum : symbolSum (historySymbol accentedRequest) = -18352 := by decide +kernel
  have hmem : candle (realDoubles (fun _ => 0) (fun _ => 1) (fun _ => 0) fun _ => [])
      (basePrice (realDoubles (fun _ => 0) (fun _ => 1) (fun _ => 0) fun _ => [])
        (historySymbol accentedRequest)) 0 0 ∈
      historyCandles (realDoubles (fun _ => 0) (fun _ => 1) (fun _ => 0) fun _ => [])
        accentedRequest 0 :=
    List.mem_map_of_mem (List.mem_reverse.mpr (List.mem_range.mpr
      (effectiveDays_bounds accentedRequest).1))
  have hsane := h accentedRequest (fun _ => 0) (fun _ => 1) (fun _ => 0) (fun _ => []) 0
    (by simp) (by simp) _ hmem
  have hlow := hsane.low_pos.trans_le (hsane.low_le.trans (min_le_left _ _))
  rw [basePrice_eq, hsum] at hlow
  simp only [candle, realDoubles] at hlow
  norm_num at hlow

end

end HSFinancialServices.Services
