import HSFinancialServices.ServerStreams
import HSFinancialServices.Services.Calendar
import HSFinancialServices.Services.Registry

/-!
# The price histories of a run

The figures of a candle depend on how many days ago it is, not on its date. So within a day
the histories of a symbol agree wherever they meet, and from one day to the next they keep
their figures and change their dates.
-/

namespace HSFinancialServices
open Ascii Services Transitions

namespace Services
variable {D : Type*} {dbl : Doubles D}

structure Candle.SameFigures (c c' : Candle D) : Prop where
  open_ : c.open_ = c'.open_
  high : c.high = c'.high
  low : c.low = c'.low
  close_ : c.close_ = c'.close_
  volume : c.volume = c'.volume

theorem formatDate_of_day {t t' : ℤ} (h : t / 86400 = t' / 86400) : formatDate t = formatDate t' := by
  rw [formatDate_eq, formatDate_eq, gmtime, gmtime, h]

theorem candle_sameFigures (base : D) (now now' : ℤ) (i : ℕ) :
    (candle dbl base now i).SameFigures (candle dbl base now' i) := ⟨rfl, rfl, rfl, rfl, rfl⟩

theorem candle_of_day (base : D) {now now' : ℤ} (h : now / 86400 = now' / 86400) (i : ℕ) :
    candle dbl base now i = candle dbl base now' i := by
  have hdate : formatDate (now - i * 86400) = formatDate (now' - i * 86400) :=
    formatDate_of_day (by omega)
  simp only [candle, hdate]

theorem drop_historyCandles {p p' : Bytes} (hsymbol : historySymbol p = historySymbol p')
    (hdays : effectiveDays p ≤ effectiveDays p') (now : ℤ) :
    (historyCandles dbl p' now).drop (effectiveDays p' - effectiveDays p) =
      historyCandles dbl p now := by
  have hsplit : List.range (effectiveDays p') = List.range (effectiveDays p) ++
      (List.range (effectiveDays p' - effectiveDays p)).map (effectiveDays p + ·) := by
    rw [← List.range_add, Nat.add_sub_cancel' hdays]
  rw [historyCandles, historyCandles, hsplit, hsymbol, List.reverse_append, List.map_append]
  apply List.drop_left'
  simp only [List.length_map, List.length_reverse, List.length_range]

theorem historyCandles_sameFigures (p : Bytes) (now now' : ℤ) :
    List.Forall₂ Candle.SameFigures (historyCandles dbl p now) (historyCandles dbl p now') := by
  rw [historyCandles, historyCandles, List.forall₂_map_left_iff, List.forall₂_map_right_iff]
  exact List.forall₂_same.mpr fun i _ => candle_sameFigures _ now now' i

theorem historyCandles_of_day (p : Bytes) {now now' : ℤ} (h : now / 86400 = now' / 86400) :
    historyCandles dbl p now = historyCandles dbl p now' :=
  List.map_congr_left fun i _ => candle_of_day _ h i

theorem day_of_historyCandles (p : Bytes) {now now' : ℤ}
    (hnow : 31536000 ≤ now ∧ now < 253402300800) (hnow' : 31536000 ≤ now' ∧ now' < 253402300800)
    (heq : historyCandles dbl p now = historyCandles dbl p now') : now / 86400 = now' / 86400 := by
  obtain ⟨hpos, -⟩ := effectiveDays_bounds p
  have hlt : effectiveDays p - 1 < (historyCandles dbl p now).length := by
    simp only [historyCandles, List.length_map, List.length_reverse, List.length_range]
    omega
  obtain ⟨c, hlast⟩ : ∃ c, (historyCandles dbl p now)[effectiveDays p - 1]? = some c :=
    ⟨_, List.getElem?_eq_getElem hlt⟩
  obtain ⟨d, hd, hdate⟩ := historyCandles_isDay dbl hnow.1 hlast
  have hlast' := hlast
  rw [heq] at hlast'
  obtain ⟨d', hd', hdate'⟩ := historyCandles_isDay dbl hnow'.1 hlast'
  have hyear := hd.year_bounds (by omega) (by omega)
  have hyear' := hd'.year_bounds (by omega) (by omega)
  have hsame := hd.valid.text_injective hd'.valid (by omega) (by omega) (hdate.symm.trans hdate')
  rw [hsame] at hd
  have hnumber := hd.dayNumber.symm.trans hd'.dayNumber
  omega

theorem dispatch_clockReads (request : Message) (w : World) :
    ((serverRouter dbl).dispatch request w).2.clockReads = w.clockReads +
      if request.header.messageType = MessageType.kGetPriceHistory then 1 else 0 := by
  by_cases hhistory : request.header.messageType = MessageType.kGetPriceHistory
  · simp only [ServiceRouter.dispatch, serverRouter, hhistory]
    rfl
  · simp only [ServiceRouter.dispatch, serverRouter, if_neg hhistory]
    split_ifs <;> rfl

end Services

namespace Server
variable {D : Type*} {dbl : Doubles D} {host : HostOrder} {maxConnections : UInt64}
  {clock : ℕ → ℤ} {s s' : Server World}

/-- What the sessions together have answered to requests for a price history -/
def histories (s : Server World) : List Exchange :=
  (s.log.map Prod.snd).filter fun e => e.request.header.messageType == MessageType.kGetPriceHistory

structure Recorded (dbl : Doubles D) (clock : ℕ → ℤ) (s : Server World) : Prop where
  sameClock : s.store.clock = clock
  clockReads : s.store.clockReads = s.histories.length
  answers : ∀ (j : ℕ) (e : Exchange), s.histories[j]? = some e →
    e.response.payload = handleGetPriceHistory dbl e.request.payload (clock j)

theorem Recorded.of_same (h : Recorded dbl clock s) (hstore : s'.store = s.store)
    (hlog : s'.log = s.log) : Recorded dbl clock s' := by
  have hhistories : s'.histories = s.histories := by rw [histories, histories, hlog]
  refine ⟨?_, ?_, ?_⟩
  · rw [hstore, h.sameClock]
  · rw [hstore, hhistories, h.clockReads]
  · rw [hhistories]
    exact h.answers

theorem Recorded.dispatched (h : Recorded dbl clock s) {k : ℕ} {slot : Slot} {effect : Effect World}
    {request : Message} (hstore : effect.store = ((serverRouter dbl).dispatch request s.store).2)
    (hlog : effect.dispatched = [⟨request, ((serverRouter dbl).dispatch request s.store).1⟩]) :
    Recorded dbl clock (s.after k slot effect) := by
  have hclock : effect.store.clock = clock := by rw [hstore, dispatch_clock, h.sameClock]
  have hreads : effect.store.clockReads = s.histories.length +
      if request.header.messageType = MessageType.kGetPriceHistory then 1 else 0 := by
    rw [hstore, dispatch_clockReads, h.clockReads]
  by_cases hhistory : request.header.messageType = MessageType.kGetPriceHistory
  · have hhistories : (s.after k slot effect).histories =
        s.histories ++ [⟨request, ((serverRouter dbl).dispatch request s.store).1⟩] := by
      simp [histories, after, hlog, hhistory]
    refine ⟨hclock, ?_, ?_⟩
    · rw [hhistories, List.length_append, List.length_singleton]
      rw [if_pos hhistory] at hreads
      exact hreads
    · intro j e hj
      rw [hhistories, List.getElem?_append] at hj
      split_ifs at hj with hlt
      · exact h.answers j e hj
      · obtain ⟨hzero, rfl⟩ := List.getElem?_eq_some_iff.mp hj
        rw [List.length_singleton] at hzero
        obtain rfl : j = s.histories.length := by omega
        rw [List.getElem_singleton, dispatch_payload, responsePayload_history _ hhistory,
          World.time, h.sameClock, h.clockReads]
  · have hhistories : (s.after k slot effect).histories = s.histories := by
      simp [histories, after, hlog, hhistory]
    refine ⟨hclock, ?_, ?_⟩
    · rw [hhistories]
      rw [if_neg hhistory] at hreads
      exact hreads
    · rw [hhistories]
      exact h.answers

theorem reaches_recorded {ok : Action → Server World → Prop}
    (h : Reaches (step host (serverRouter dbl)) ok (initial maxConnections (World.initial clock)) s) :
    Recorded dbl clock s := by
  apply h.invariant (P := Recorded dbl clock)
    ⟨rfl, rfl, fun _ _ hj => absurd hj (Option.some_ne_none _).symm⟩
  intro a b c hb _ hstep
  obtain ⟨ok, hs⟩ | ⟨i, optionOk, -, hs⟩ | ⟨k, c₁, c₂, alive, effect, -, rfl, hmoved, -⟩ :=
    step_cases hstep
  · have haccepting := acceptCompleted_accepting hs
    exact hb.of_same haccepting.store haccepting.log
  · have haccepting := acceptStep_accepting hs
    exact hb.of_same haccepting.store haccepting.log
  · obtain ⟨hsame, hnone⟩ | ⟨request, hnext, hone⟩ := hmoved.dispatches
    · apply hb.of_same hsame
      simp only [after, hnone, List.map_nil, List.append_nil]
    · exact hb.dispatched hnext hone

/-- Whichever sessions ask and whenever, two histories of a symbol agree day by day from the
end in all figures, and in the dates too when both were given on the same UTC day. Between 1971
and 9999 the dates agree only then. -/
theorem histories_slide {ok : Action → Server World → Prop}
    (h : Reaches (step host (serverRouter dbl)) ok (initial maxConnections (World.initial clock)) s)
    {j j' : ℕ} {e e' : Exchange} (hj : s.histories[j]? = some e) (hj' : s.histories[j']? = some e')
    (hsymbol : historySymbol e.request.payload = historySymbol e'.request.payload)
    (hdays : effectiveDays e.request.payload ≤ effectiveDays e'.request.payload) :
    let candles := historyCandles dbl e.request.payload (clock j)
    let candles' := historyCandles dbl e'.request.payload (clock j')
    let latest := candles'.drop (effectiveDays e'.request.payload - effectiveDays e.request.payload)
    e.response.payload = handleGetPriceHistory dbl e.request.payload (clock j) ∧
      e'.response.payload = handleGetPriceHistory dbl e'.request.payload (clock j') ∧
      List.Forall₂ Candle.SameFigures candles latest ∧
      (clock j / 86400 = clock j' / 86400 → candles = latest) ∧
      (31536000 ≤ clock j ∧ clock j < 253402300800 →
        31536000 ≤ clock j' ∧ clock j' < 253402300800 →
          candles = latest → clock j / 86400 = clock j' / 86400) := by
  intro candles candles' latest
  have hrecorded := reaches_recorded h
  have hlatest : latest = historyCandles dbl e.request.payload (clock j') :=
    drop_historyCandles hsymbol hdays (clock j')
  rw [hlatest]
  exact ⟨hrecorded.answers j e hj, hrecorded.answers j' e' hj', historyCandles_sameFigures _ _ _,
    historyCandles_of_day _, day_of_historyCandles _⟩

theorem histories_slide_leap_day :
    let clock : ℕ → ℤ := fun n => if n = 0 then 951782400 else 951868800
    let one := ascii "\x7b\"symbol\":\"AAPL\",\"days\":1\x7d"
    let two := ascii "\x7b\"symbol\":\"AAPL\",\"days\":2\x7d"
    ∃ s : Server World, s.histories.map (fun e => e.request.payload) = [one, two] ∧
      List.Forall₂ Candle.SameFigures (historyCandles exactDoubles one (clock 0))
        ((historyCandles exactDoubles two (clock 1)).drop 1) ∧
      historyCandles exactDoubles one (clock 0) ≠
        (historyCandles exactDoubles two (clock 1)).drop 1 := by
  intro clock one two
  let next := Action.acceptStep 0 true
  let ask := fun payload => (Message.make MessageType.kGetPriceHistory payload 0).serialise .little
  let run := [.accepted, next, next, next, next, next, next, next, next, .arrive 0 (ask one),
    .arrive 0 (ask two), .io 0, .io 0, .io 0, .io 0, .io 0].foldlM
    (fun s a => if True then step .little (serverRouter exactDoubles) a s else none)
    (initial 2 (World.initial clock))
  have hrun : run.map (fun s => s.histories.map fun e => e.request.payload) = some [one, two] := by
    decide +kernel
  obtain ⟨s, hs, hpayloads⟩ := Option.map_eq_some_iff.mp hrun
  have hreach := Reaches.of_foldlM hs
  obtain ⟨e, rest, hhistories, hone, hrest⟩ := List.map_eq_cons_iff.mp hpayloads
  obtain ⟨e', rest', rfl, htwo, -⟩ := List.map_eq_cons_iff.mp hrest
  have hfirst : s.histories[0]? = some e := by rw [hhistories]; rfl
  have hsecond : s.histories[1]? = some e' := by rw [hhistories]; rfl
  have hsymbol : historySymbol e.request.payload = historySymbol e'.request.payload := by
    rw [hone, htwo]
    decide
  have hdays : effectiveDays e.request.payload = 1 ∧ effectiveDays e'.request.payload = 2 := by
    rw [hone, htwo]
    decide
  obtain ⟨-, -, hfigures, -, hday⟩ :=
    histories_slide hreach hfirst hsecond hsymbol (by rw [hdays.1, hdays.2]; decide)
  have hnot : clock 0 / 86400 ≠ clock 1 / 86400 := by decide
  have hdates := mt (hday (by decide) (by decide)) hnot
  rw [hdays.1, hdays.2, hone, htwo] at hfigures hdates
  exact ⟨s, hpayloads, hfigures, hdates⟩

end Server

end HSFinancialServices
