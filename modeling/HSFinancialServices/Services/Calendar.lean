import Mathlib.Tactic.Linarith
import HSFinancialServices.Services.Days

/-!
# The dates of the candles

A date of the proleptic Gregorian calendar has a number, the days from the epoch, by a
formula. The dates of the clock follow it: one day is one more, and a date is told by its
number and by its text.
-/

namespace HSFinancialServices.Services
open Ascii

namespace Date

structure Valid (d : Date) : Prop where
  month_pos : 1 ≤ d.month
  month_le : d.month ≤ 12
  day_pos : 1 ≤ d.day
  day_le : d.day ≤ daysInMonth d.year d.month

def daysBeforeMonth (year : ℤ) (month : ℕ) : ℕ :=
  ((List.range (month - 1)).map fun m => daysInMonth year (m + 1)).sum

def daysBeforeYear (year : ℤ) : ℤ :=
  365 * (year - 1) + (year - 1) / 4 - (year - 1) / 100 + (year - 1) / 400

def dayNumber (d : Date) : ℤ :=
  daysBeforeYear d.year + daysBeforeMonth d.year d.month + (d.day - 1) - daysBeforeYear 1970

theorem daysInMonth_bounds (year : ℤ) (month : ℕ) :
    28 ≤ daysInMonth year month ∧ daysInMonth year month ≤ 31 := by
  simp only [daysInMonth]
  split_ifs <;> omega

theorem daysBeforeMonth_succ (year : ℤ) {month : ℕ} (h : 1 ≤ month) :
    daysBeforeMonth year (month + 1) = daysBeforeMonth year month + daysInMonth year month := by
  obtain ⟨m, rfl⟩ := Nat.exists_eq_add_of_le' h
  simp only [daysBeforeMonth, Nat.add_sub_cancel, List.range_succ, List.map_append, List.sum_append,
    List.map_singleton, List.sum_singleton]

theorem daysBeforeMonth_twelve (year : ℤ) :
    daysBeforeMonth year 12 = if isLeapYear year then 335 else 334 := by
  cases hleap : isLeapYear year <;>
    simp [daysBeforeMonth, daysInMonth, hleap, List.range_succ]

theorem daysBeforeYear_succ (year : ℤ) :
    daysBeforeYear (year + 1) = daysBeforeYear year + if isLeapYear year then 366 else 365 := by
  have h4 : year / 4 = (year - 1) / 4 + if year % 4 = 0 then 1 else 0 := by
    split_ifs <;> omega
  have h100 : year / 100 = (year - 1) / 100 + if year % 100 = 0 then 1 else 0 := by
    split_ifs <;> omega
  have h400 : year / 400 = (year - 1) / 400 + if year % 400 = 0 then 1 else 0 := by
    split_ifs <;> omega
  have hleap : isLeapYear year = true ↔ year % 4 = 0 ∧ (year % 100 ≠ 0 ∨ year % 400 = 0) := by
    simp only [isLeapYear, Bool.and_eq_true, Bool.or_eq_true, decide_eq_true_eq]
  simp only [daysBeforeYear, Int.add_sub_cancel, h4, h100, h400, hleap]
  split_ifs <;> omega

variable {d : Date}

theorem Valid.next (h : d.Valid) : d.next.Valid := by
  obtain ⟨hm, hm', hd, hd'⟩ := h
  simp only [Date.next]
  split_ifs with hday hmonth
  · exact ⟨hm, hm', Nat.le_add_left 1 _, hday⟩
  · exact ⟨Nat.le_add_left 1 _, hmonth, le_rfl, Nat.one_le_of_lt (daysInMonth_bounds _ _).1⟩
  · exact ⟨le_rfl, by norm_num, le_rfl, Nat.one_le_of_lt (daysInMonth_bounds _ _).1⟩

theorem Valid.dayNumber_next (h : d.Valid) : d.next.dayNumber = d.dayNumber + 1 := by
  obtain ⟨hm, hm', hd, hd'⟩ := h
  simp only [Date.next]
  split_ifs with hday hmonth
  · simp only [dayNumber]
    push_cast
    ring
  · have hday' : d.day = daysInMonth d.year d.month := by omega
    simp only [dayNumber, daysBeforeMonth_succ d.year hm, hday']
    push_cast
    ring
  · have hday' : d.day = daysInMonth d.year d.month := by omega
    have hmonth' : d.month = 12 := by omega
    have hdecember : daysInMonth d.year 12 = 31 := by simp [daysInMonth]
    simp only [dayNumber, daysBeforeYear_succ, hday', hmonth', hdecember, daysBeforeMonth_twelve]
    have hjanuary : daysBeforeMonth (d.year + 1) 1 = 0 := rfl
    rw [hjanuary]
    split_ifs <;> push_cast <;> ring

theorem lt_of_daysBeforeYear_lt {year year' : ℤ} (h : daysBeforeYear year < daysBeforeYear year') :
    year < year' := by
  have hmono : StrictMono daysBeforeYear := by
    apply strictMono_int_of_lt_succ
    intro year
    rw [daysBeforeYear_succ]
    split_ifs <;> omega
  exact hmono.lt_iff_lt.mp h

theorem daysBeforeMonth_mono (year : ℤ) : Monotone (daysBeforeMonth year) := by
  refine monotone_nat_of_le_succ ?_
  intro month
  cases month with
  | zero => exact Nat.zero_le _
  | succ m =>
    rw [daysBeforeMonth_succ year (Nat.le_add_left 1 m)]
    exact Nat.le_add_right _ _

theorem Valid.month_bounds (h : d.Valid) :
    daysBeforeMonth d.year d.month ≤ daysBeforeMonth d.year d.month + (d.day - 1) ∧
      daysBeforeMonth d.year d.month + (d.day - 1) < daysBeforeMonth d.year (d.month + 1) := by
  have hday := h.day_pos
  have hday' := h.day_le
  rw [daysBeforeMonth_succ d.year h.month_pos]
  omega

theorem Valid.year_bounds (h : d.Valid) :
    daysBeforeYear d.year ≤ d.dayNumber + daysBeforeYear 1970 ∧
      d.dayNumber + daysBeforeYear 1970 < daysBeforeYear (d.year + 1) := by
  have hday := h.day_pos
  have hmonth := h.month_bounds.2.trans_le
    (daysBeforeMonth_mono d.year (Nat.succ_le_succ h.month_le))
  have hyear : daysBeforeMonth d.year 13 = if isLeapYear d.year then 366 else 365 := by
    rw [daysBeforeMonth_succ d.year (by norm_num), daysBeforeMonth_twelve]
    split_ifs <;> simp [daysInMonth]
  rw [hyear] at hmonth
  rw [dayNumber, daysBeforeYear_succ]
  split_ifs at hmonth ⊢ <;> omega

theorem Valid.eq_of_dayNumber_eq {d' : Date} (h : d.Valid) (h' : d'.Valid)
    (heq : d.dayNumber = d'.dayNumber) : d = d' := by
  have hyear : d.year = d'.year := by
    have hb := h.year_bounds
    have hb' := h'.year_bounds
    rw [heq] at hb
    have hlt := lt_of_daysBeforeYear_lt (hb.1.trans_lt hb'.2)
    have hlt' := lt_of_daysBeforeYear_lt (hb'.1.trans_lt hb.2)
    omega
  have hoffset : daysBeforeMonth d.year d.month + (d.day - 1) =
      daysBeforeMonth d.year d'.month + (d'.day - 1) := by
    have hday := h.day_pos
    have hday' := h'.day_pos
    simp only [dayNumber, ← hyear] at heq
    omega
  have hmonth : d.month = d'.month := by
    have hb := h.month_bounds
    have hb' := h'.month_bounds
    rw [← hyear, ← hoffset] at hb'
    have hlt := (daysBeforeMonth_mono d.year).reflect_lt (hb.1.trans_lt hb'.2)
    have hlt' := (daysBeforeMonth_mono d.year).reflect_lt (hb'.1.trans_lt hb.2)
    omega
  have hday : d.day = d'.day := by
    have hday := h.day_pos
    have hday' := h'.day_pos
    rw [← hmonth] at hoffset
    omega
  cases d
  cases d'
  simp_all only

/-- The date of the day that is `n` days after the epoch. -/
structure IsDay (d : Date) (n : ℤ) : Prop where
  valid : d.Valid
  dayNumber : d.dayNumber = n

theorem IsDay.unique {d' : Date} {n : ℤ} (h : d.IsDay n) (h' : d'.IsDay n) : d = d' :=
  h.valid.eq_of_dayNumber_eq h'.valid (h.dayNumber.trans h'.dayNumber.symm)

theorem IsDay.next {n : ℤ} (h : d.IsDay n) : d.next.IsDay (n + 1) :=
  ⟨h.valid.next, by rw [h.valid.dayNumber_next, h.dayNumber]⟩

theorem isDay_epoch : IsDay ⟨1970, 1, 1⟩ 0 :=
  ⟨⟨by decide, by decide, by decide, by decide⟩, rfl⟩

def text (d : Date) : Bytes :=
  decimalInt d.year ++ minus :: twoDigits d.month ++ minus :: twoDigits d.day

end Date

theorem gmtime_isDay {t : ℤ} (h : 0 ≤ t) : (gmtime t).IsDay (t / 86400) := by
  have hiterate : ∀ n : ℕ, (Date.next^[n] ⟨1970, 1, 1⟩).IsDay n := by
    intro n
    induction n with
    | zero => exact Date.isDay_epoch
    | succ n ih =>
      rw [Function.iterate_succ_apply', Nat.cast_succ]
      exact ih.next
  obtain ⟨n, hn⟩ := Int.eq_ofNat_of_zero_le (Int.ediv_nonneg h (by norm_num : (0 : ℤ) ≤ 86400))
  rw [gmtime, hn]
  exact hiterate n

theorem formatDate_eq (t : ℤ) : formatDate t = (gmtime t).text := rfl

theorem twoDigits_injective {m n : ℕ} (hm : m < 100) (hn : n < 100)
    (h : twoDigits m = twoDigits n) : m = n := by
  simp only [twoDigits, List.cons.injEq, and_true] at h
  have htens := congrArg UInt8.toNat h.1
  have hones := congrArg UInt8.toNat h.2
  rw [toNat_digit (Nat.mod_lt _ (by norm_num)), toNat_digit (Nat.mod_lt _ (by norm_num))] at htens
  rw [toNat_digit (Nat.mod_lt _ (by norm_num)), toNat_digit (Nat.mod_lt _ (by norm_num))] at hones
  omega

theorem Date.Valid.text_injective {d d' : Date} (h : d.Valid) (h' : d'.Valid) (hyear : 0 ≤ d.year)
    (hyear' : 0 ≤ d'.year) (heq : d.text = d'.text) : d = d' := by
  obtain ⟨hfront, hdays⟩ := List.append_inj' heq rfl
  obtain ⟨hyears, hmonths⟩ := List.append_inj' hfront rfl
  have hy : d.year = d'.year := by
    simp only [decimalInt, not_lt.mpr hyear, not_lt.mpr hyear', if_false] at hyears
    have hnat := decimal_injective hyears
    omega
  have hm : d.month = d'.month := by
    have hle := h.month_le
    have hle' := h'.month_le
    exact twoDigits_injective (by omega) (by omega) (List.cons.inj hmonths).2
  have hd : d.day = d'.day := by
    have hle := h.day_le.trans (daysInMonth_bounds _ _).2
    have hle' := h'.day_le.trans (daysInMonth_bounds _ _).2
    exact twoDigits_injective (by omega) (by omega) (List.cons.inj hdays).2
  cases d
  cases d'
  simp_all only

theorem Date.IsDay.year_bounds {d : Date} {n : ℤ} (h : d.IsDay n) (hn : 0 ≤ n)
    (hlt : n < 2932897) : 1970 ≤ d.year ∧ d.year ≤ 9999 := by
  obtain ⟨hlow, hhigh⟩ := h.valid.year_bounds
  rw [h.dayNumber] at hlow hhigh
  have hfirst : Date.daysBeforeYear 1970 < Date.daysBeforeYear (d.year + 1) := by omega
  have hlast : Date.daysBeforeYear d.year < Date.daysBeforeYear 10000 := by
    refine hlow.trans_lt ?_
    have hspan : Date.daysBeforeYear 10000 = 2932897 + Date.daysBeforeYear 1970 := by decide
    omega
  have h₁ := Date.lt_of_daysBeforeYear_lt hfirst
  have h₂ := Date.lt_of_daysBeforeYear_lt hlast
  omega

theorem Date.length_text {d : Date} (h : 1970 ≤ d.year ∧ d.year ≤ 9999) : d.text.length = 10 := by
  have hneg : ¬ d.year < 0 := by omega
  have hdigits : (Nat.digits 10 d.year.natAbs).length = 4 := by
    rw [Nat.length_digits 10 _ (by norm_num) (by omega),
      Nat.log_eq_of_pow_le_of_lt_pow (m := 3) (by omega) (by omega)]
  have hyear : (decimalInt d.year).length = 4 := by
    rw [decimalInt, if_neg hneg, decimal, if_neg (by omega), List.length_reverse, List.length_map,
      hdigits]
  simp only [text, twoDigits, List.length_append, List.length_cons, List.length_nil, hyear]

theorem commaJoin_eq_intercalate (ts : List Bytes) : commaJoin ts = [comma].intercalate ts := by
  induction ts with
  | nil => rfl
  | cons t ts ih =>
    cases ts with
    | nil => simp [commaJoin]
    | cons u us =>
      have hstep : commaJoin (t :: u :: us) = t ++ comma :: commaJoin (u :: us) := by
        simp only [commaJoin, List.flatMap_cons, List.cons_append]
      rw [hstep, ih]
      simp [List.intercalate]

variable {D : Type*} (dbl : Doubles D)

theorem historyCandles_getElem? {requestJson : Bytes} {now : ℤ} {k : ℕ} {c : Candle D}
    (h : (historyCandles dbl requestJson now)[k]? = some c) :
    k < effectiveDays requestJson ∧
      c.date = formatDate (now - (effectiveDays requestJson - 1 - k : ℕ) * 86400) := by
  rw [historyCandles, List.getElem?_map, Option.map_eq_some_iff] at h
  obtain ⟨i, hi, rfl⟩ := h
  obtain ⟨hlt, hget⟩ := List.getElem?_eq_some_iff.mp hi
  rw [List.length_reverse, List.length_range] at hlt
  rw [List.getElem_reverse, List.getElem_range, List.length_range] at hget
  exact ⟨hlt, by rw [hget]; rfl⟩

theorem historyCandles_isDay {requestJson : Bytes} {now : ℤ} (hnow : 31536000 ≤ now) {k : ℕ}
    {c : Candle D} (h : (historyCandles dbl requestJson now)[k]? = some c) :
    ∃ d : Date, d.IsDay (now / 86400 - (effectiveDays requestJson - 1 - k)) ∧ c.date = d.text := by
  obtain ⟨hk, hdate⟩ := historyCandles_getElem? dbl h
  have hdays := (effectiveDays_bounds requestJson).2
  have hpos : 0 ≤ now - (effectiveDays requestJson - 1 - k : ℕ) * 86400 := by omega
  have hnumber : (now - (effectiveDays requestJson - 1 - k : ℕ) * 86400) / 86400 =
      now / 86400 - (effectiveDays requestJson - 1 - k) := by omega
  exact ⟨_, hnumber ▸ gmtime_isDay hpos, hdate.trans (formatDate_eq _)⟩

/-- As many candles as days, with a comma between any two, on consecutive days up to today. -/
theorem history_shape (requestJson : Bytes) {now : ℤ} (hnow : 31536000 ≤ now)
    (hend : now < 253402300800) :
    let candles := historyCandles dbl requestJson now
    let days := effectiveDays requestJson
    (candles.length = days ∧ 1 ≤ days ∧ days ≤ 365) ∧
      handleGetPriceHistory dbl requestJson now =
        ascii "\x7b\"symbol\":\"" ++ historySymbol requestJson ++ ascii "\",\"history\":[" ++
          [comma].intercalate (candles.map (candleText dbl)) ++ ascii "]\x7d" ∧
      (∀ (k : ℕ) (c : Candle D), candles[k]? = some c →
        (∃ d : Date, d.IsDay (now / 86400 - (days - 1 - k))) ∧
          ∀ d : Date, d.IsDay (now / 86400 - (days - 1 - k)) →
            c.date = d.text ∧ c.date.length = 10) ∧
      (candles.map Candle.date).Nodup := by
  intro candles days
  have hyears : ∀ (k : ℕ) (d : Date), k < days → d.IsDay (now / 86400 - (days - 1 - k)) →
      1970 ≤ d.year ∧ d.year ≤ 9999 := by
    intro k d hk hd
    have hdays := (effectiveDays_bounds requestJson).2
    exact hd.year_bounds (by omega) (by omega)
  have hlength : candles.length = days := length_historyCandles dbl requestJson now
  refine ⟨⟨hlength, effectiveDays_bounds requestJson⟩, ?_, ?_, ?_⟩
  · rw [← commaJoin_eq_intercalate]
    rfl
  · intro k c hk
    obtain ⟨d, hd, hdate⟩ := historyCandles_isDay dbl hnow hk
    refine ⟨⟨d, hd⟩, ?_⟩
    intro d' hd'
    obtain rfl := hd.unique hd'
    refine ⟨hdate, ?_⟩
    rw [hdate]
    exact Date.length_text (hyears k d (historyCandles_getElem? dbl hk).1 hd)
  · rw [List.nodup_iff_pairwise_ne, List.pairwise_map, List.pairwise_iff_getElem]
    intro i j hi hj hij heq
    obtain ⟨d, hd, hdate⟩ := historyCandles_isDay dbl hnow (List.getElem?_eq_getElem hi)
    obtain ⟨d', hd', hdate'⟩ := historyCandles_isDay dbl hnow (List.getElem?_eq_getElem hj)
    have hyear := hyears i d (hlength ▸ hi) hd
    have hyear' := hyears j d' (hlength ▸ hj) hd'
    have hsame := hd.valid.text_injective hd'.valid (by omega) (by omega)
      (hdate.symm.trans (heq.trans hdate'))
    rw [hsame] at hd
    have hnumber := hd.dayNumber.symm.trans hd'.dayNumber
    omega

theorem history_shape_leap_day :
    (historyCandles exactDoubles (ascii "\x7b\"days\":3\x7d") 951868800).length = 3 ∧
      ∀ c : Candle ℚ,
        (historyCandles exactDoubles (ascii "\x7b\"days\":3\x7d") 951868800)[1]? = some c →
          c.date = ascii "2000-02-29" := by
  obtain ⟨⟨hlength, -⟩, -, hdates, -⟩ :=
    history_shape exactDoubles (ascii "\x7b\"days\":3\x7d")
      (by norm_num : (31536000 : ℤ) ≤ 951868800) (by norm_num)
  have hdays : effectiveDays (ascii "\x7b\"days\":3\x7d") = 3 := by decide
  rw [hdays] at hlength hdates
  refine ⟨hlength, ?_⟩
  intro c hc
  have hleap : Date.IsDay ⟨2000, 2, 29⟩ 11016 := ⟨⟨by decide, by decide, by decide, by decide⟩, rfl⟩
  have hnumber : (951868800 : ℤ) / 86400 - ((3 : ℕ) - 1 - (1 : ℕ)) = 11016 := by norm_num
  have htext : Date.text ⟨2000, 2, 29⟩ = ascii "2000-02-29" := by decide
  rw [← htext]
  exact ((hdates 1 c hc).2 _ (hnumber.symm ▸ hleap)).1

end HSFinancialServices.Services
