import HSFinancialServices.Ui.Scans

/-!
# Scanned responses

What the loops of a query, of a position and of a price history take out of a response is
what the server has put into it.
-/

namespace HSFinancialServices.Ui
open Ascii FlatObject Services TextSearch

theorem misses_header {key u pre sym post : Bytes} (hkey : quote ∉ key)
    (hpre : clears (needle key (colon :: u)) pre = true) (hsym : quote ∉ sym)
    (hpost : clears (needle key (colon :: u)) (quote :: comma :: post) = true) (rest : Bytes) :
    Misses (needle key (colon :: u)) (pre ++ (quote :: sym ++ quote :: comma :: post)) rest := by
  rw [misses_append, misses_append]
  refine ⟨misses_of_clears hpre _, ?_, misses_of_clears hpost _⟩
  apply misses_stop hkey hsym
  rintro ⟨-, hstands⟩
  exact absurd (List.cons_prefix_cons.mp hstands).1 (by decide)

theorem misses_opening {key front rest : Bytes} (h : Misses (keyNeedle key) front rest)
    (hrest : quote ∉ rest.take 1) : Misses (opening key) front rest := by
  apply h.cons
  intro hstands
  cases rest with
  | nil => exact absurd (List.prefix_nil.mp hstands) (needle_ne_nil key [colon])
  | cons b rest =>
    have hb : quote = b := (List.cons_prefix_cons.mp hstands).1
    exact hrest (hb ▸ List.mem_cons_self)

theorem misses_opening_commaJoin {key front rest : Bytes} {mss : List (List Member)}
    (h : Misses (keyNeedle key) front (commaJoin (mss.map objectText) ++ rest))
    (hrest : quote ∉ rest.take 1) :
    Misses (opening key) front (commaJoin (mss.map objectText) ++ rest) := by
  apply misses_opening h
  cases mss with
  | nil => exact hrest
  | cons ms mss =>
    have hbrace : quote ∉ [openBrace] := by decide
    rw [commaJoin_append]
    cases ms with
    | nil => exact hbrace
    | cons m ms => exact hbrace

theorem extractField_append_of_misses {key front rest : Bytes}
    (hstring : Misses (stringKeyNeedle key) front rest)
    (hbare : Misses (keyNeedle key) front rest) :
    extractField (front ++ rest) key = extractField rest key := by
  have hdrop : ∀ pos len,
      (front ++ rest).drop (pos + front.length + len) = rest.drop (pos + len) := by
    intro pos len
    rw [Nat.add_right_comm, Nat.add_comm, ← List.drop_drop, List.drop_left]
  have hfind_string : find (stringNeedle key) (front ++ rest) =
      (find (stringNeedle key) rest).map (· + front.length) := find_append_of_misses hstring
  have hfind_bare : find (numberNeedle key) (front ++ rest) =
      (find (numberNeedle key) rest).map (· + front.length) := find_append_of_misses hbare
  simp only [extractField, hfind_string, hfind_bare]
  cases find (stringNeedle key) rest with
  | some pos => simp only [Option.map_some, hdrop]
  | none =>
    cases find (numberNeedle key) rest with
    | none => rfl
    | some pos => simp only [Option.map_some, Option.map_none, hdrop]

theorem quote_notMem_jsonEscape {s : Bytes} (h : quote ∉ s) : quote ∉ jsonEscape s := by
  intro hmem
  obtain ⟨c, hc, hquote⟩ := List.mem_flatMap.mp hmem
  have hne : c ≠ quote := fun heq => h (heq ▸ hc)
  simp only [escapeByte, if_neg hne] at hquote
  split_ifs at hquote
  · exact absurd hquote (by decide)
  · exact absurd hquote (by decide)
  · exact absurd hquote (by decide)
  · exact absurd hquote (by decide)
  · exact hne (List.mem_singleton.mp hquote).symm

theorem occurrences_sqlResult {sql : Bytes} (h : quote ∉ sql) :
    occurrences (keyNeedle (ascii "symbol")) (sqlRows ++ jsonEscape sql ++ ascii "\"\x7d") = 3 := by
  have hquery : sqlRows ++ jsonEscape sql ++ ascii "\"\x7d" =
      sqlRows.dropLast ++ ((quote :: jsonEscape sql ++ [quote, closeBrace]) ++ []) := by
    have hrows : sqlRows = sqlRows.dropLast ++ [quote] := by decide +kernel
    rw [hrows, List.dropLast_concat]
    simp only [List.append_assoc, List.cons_append, List.nil_append, List.append_nil]
    rfl
  have hecho : Misses (keyNeedle (ascii "symbol"))
      (quote :: jsonEscape sql ++ [quote, closeBrace]) [] := by
    rw [misses_append]
    refine ⟨?_, misses_of_clears (by decide) []⟩
    apply misses_stop (by decide) (quote_notMem_jsonEscape h)
    rintro ⟨-, hstands⟩
    exact absurd (List.cons_prefix_cons.mp hstands).1 (by decide)
  have hrows : occurrences (keyNeedle (ascii "symbol")) sqlRows.dropLast = 3 := by decide +kernel
  rw [hquery, occurrences_append_of_apart (by decide +kernel), hrows,
    occurrences_append_of_misses hecho]
  rfl

theorem occurrences_handleSqlQuery {sql : Bytes} (h : quote ∉ sql) :
    occurrences (keyNeedle (ascii "symbol")) (handleSqlQuery (sqlPayload sql)) =
      if sql = [] then 0 else 3 := by
  rw [handleSqlQuery, extractString_sqlPayload h]
  split_ifs with hempty
  · decide +kernel
  · exact occurrences_sqlResult h

def PositionEntry.text (p : PositionEntry) : Bytes :=
  ascii "\x7b\"symbol\":\"" ++ p.symbol ++ ascii "\",\"qty\":" ++ p.qty ++
    ascii ",\"avg_cost\":" ++ p.avgCost ++ ascii ",\"current\":" ++ p.current ++
    ascii ",\"pnl\":" ++ p.pnl ++ [closeBrace]

def positions : List PositionEntry :=
  [⟨ascii "AAPL", ascii "500", ascii "178.30", ascii "182.50", ascii "2100.00"⟩,
    ⟨ascii "MSFT", ascii "200", ascii "305.10", ascii "310.10", ascii "1000.00"⟩,
    ⟨ascii "GOOGL", ascii "50", ascii "138.20", ascii "140.75", ascii "127.50"⟩]

def positionsAndCash : Bytes :=
  commaJoin (positions.map PositionEntry.text) ++ ascii "],\"cash\":12345.67\x7d"

def positionAccount (requestJson : Bytes) : Bytes :=
  orDefault (extractString requestJson (ascii "account")) (ascii "UNKNOWN")

def positionHeader (requestJson : Bytes) : Bytes :=
  ascii "\x7b\"account\":" ++
    (quote :: positionAccount requestJson ++ quote :: comma :: ascii "\"positions\":[")

theorem handleGetPosition_eq (requestJson : Bytes) :
    handleGetPosition requestJson = positionHeader requestJson ++ positionsAndCash := by
  have hrows : positionRows = ascii "\"positions\":[" ++ positionsAndCash := by decide +kernel
  have hstart : ascii "\x7b\"account\":\"" = ascii "\x7b\"account\":" ++ [quote] := by decide
  have hend : ascii "\"," = [quote, comma] := by decide
  rw [handleGetPosition, hrows, hstart, hend]
  simp only [positionHeader, positionAccount, List.append_assoc, List.cons_append, List.nil_append]

theorem misses_positionHeader {key u : Bytes} (hkey : quote ∉ key)
    (hclears : clears (needle key (colon :: u)) (ascii "\x7b\"account\":") = true ∧
      clears (needle key (colon :: u)) (quote :: comma :: ascii "\"positions\":[") = true)
    (requestJson rest : Bytes) :
    Misses (needle key (colon :: u)) (positionHeader requestJson) rest :=
  misses_header hkey hclears.1 (quote_notMem_orDefault requestJson _ (by decide)) hclears.2 rest

theorem runs_handleGetPosition (requestJson : Bytes) :
    Runs (nextEntry (ascii "\x7b\"symbol\":")) (handleGetPosition requestJson)
      (positions.map PositionEntry.text) := by
  have hopening : ascii "\x7b\"symbol\":" = opening (ascii "symbol") := by decide
  have hmisses : Misses (opening (ascii "symbol")) (positionHeader requestJson) positionsAndCash :=
    misses_opening (misses_positionHeader (by decide) (by decide) _ _) (by decide)
  have hentries : collectAll (nextEntry (opening (ascii "symbol"))) positionsAndCash =
      positions.map PositionEntry.text := by decide +kernel
  have hshrinks := nextEntry_shrinks (opening_ne_nil (ascii "symbol"))
  have hruns := runs_collectAll hshrinks positionsAndCash
  rw [hopening, handleGetPosition_eq, ← hentries]
  exact hruns.of_next_eq (nextEntry_append_of_misses hmisses)

theorem positionEntry_text : (positions.map PositionEntry.text).map positionEntry = positions := by
  decide +kernel

theorem cash_handleGetPosition (requestJson : Bytes) :
    extractField (handleGetPosition requestJson) (ascii "cash") = ascii "12345.67" := by
  have hstring : Misses (stringKeyNeedle (ascii "cash")) (positionHeader requestJson)
      positionsAndCash := misses_positionHeader (by decide) (by decide) _ _
  have hbare : Misses (keyNeedle (ascii "cash")) (positionHeader requestJson) positionsAndCash :=
    misses_positionHeader (by decide) (by decide) _ _
  have hcash : extractField positionsAndCash (ascii "cash") = ascii "12345.67" := by decide +kernel
  rw [handleGetPosition_eq, extractField_append_of_misses hstring hbare, hcash]

def isFloatChar (b : UInt8) : Bool := isDigit b || (ascii ".-+einfa").contains b

structure FloatText (n : Bytes) : Prop where
  ne_nil : n ≠ []
  chars : ∀ b ∈ n, isFloatChar b = true

theorem isFloatChar_of_isNumberChar {b : UInt8} (h : isNumberChar b = true) :
    isFloatChar b = true := by
  simp only [isNumberChar, Bool.or_eq_true, beq_iff_eq] at h
  rcases h with (hdigit | rfl) | rfl
  · rw [isFloatChar, hdigit, Bool.true_or]
  · rfl
  · rfl

theorem FloatText.of_number {n : Bytes} (h : NumberText n) : FloatText n :=
  ⟨h.ne_nil, fun b hb => isFloatChar_of_isNumberChar (h.chars b hb)⟩

theorem FloatText.bare {n : Bytes} (h : FloatText n) : BareText n :=
  .of_chars h.ne_nil h.chars (by decide)

theorem notMem_of_isFloatChar {n : Bytes} (h : ∀ b ∈ n, isFloatChar b = true) {b : UInt8}
    (hb : isFloatChar b = false) : b ∉ n := by
  intro hmem
  rw [h b hmem] at hb
  cases hb

theorem isNumberChar_of_mem_twoDigits {n : ℕ} {b : UInt8} (h : b ∈ twoDigits n) :
    isNumberChar b = true := by
  simp only [twoDigits, List.mem_cons, List.not_mem_nil, or_false] at h
  rcases h with rfl | rfl
  · rw [isNumberChar, isDigit_digit (by omega), Bool.true_or, Bool.true_or]
  · rw [isNumberChar, isDigit_digit (by omega), Bool.true_or, Bool.true_or]

theorem isNumberChar_of_mem_formatDate {t : ℤ} {b : UInt8} (h : b ∈ formatDate t) :
    isNumberChar b = true := by
  simp only [formatDate, List.mem_append, List.mem_cons] at h
  rcases h with (hyear | rfl | hmonth) | rfl | hday
  · exact (numberText_decimalInt _).chars b hyear
  · rfl
  · exact isNumberChar_of_mem_twoDigits hmonth
  · rfl
  · exact isNumberChar_of_mem_twoDigits hday

def CandleEntry.members (e : CandleEntry) : List Member :=
  [⟨ascii "date", .string e.date⟩, ⟨ascii "open", .bare e.open_⟩, ⟨ascii "high", .bare e.high⟩,
    ⟨ascii "low", .bare e.low⟩, ⟨ascii "close", .bare e.close_⟩, ⟨ascii "volume", .bare e.volume⟩]

structure CandleEntry.Sound (e : CandleEntry) : Prop where
  date : ∀ b ∈ e.date, isFloatChar b = true
  open_ : FloatText e.open_
  high : FloatText e.high
  low : FloatText e.low
  close_ : FloatText e.close_
  volume : FloatText e.volume

section Candles
variable {e : CandleEntry}

theorem CandleEntry.Sound.listEntry (h : e.Sound) : ListEntry (ascii "date") e.members := by
  have hbare : ∀ {key n : Bytes}, quote ∉ key ∧ closeBrace ∉ key → FloatText n →
      Member.Clean ⟨key, .bare n⟩ ∧ closeBrace ∉ Member.text ⟨key, .bare n⟩ := by
    intro key n hkey hn
    have hbrace := notMem_of_isFloatChar hn.chars (b := closeBrace) (by rfl)
    refine ⟨⟨hkey.1, notMem_of_isFloatChar hn.chars (by rfl)⟩, ?_⟩
    simp only [Member.text, Value.text, List.mem_cons, List.mem_append, hkey.2, hbrace]
    decide
  have hdate : Member.Clean ⟨ascii "date", .string e.date⟩ ∧
      closeBrace ∉ Member.text ⟨ascii "date", .string e.date⟩ := by
    have hkey : quote ∉ ascii "date" ∧ closeBrace ∉ ascii "date" := by decide
    have hbrace := notMem_of_isFloatChar h.date (b := closeBrace) (by rfl)
    refine ⟨⟨hkey.1, notMem_of_isFloatChar h.date (by rfl)⟩, ?_⟩
    simp only [Member.text, Value.text, List.mem_cons, List.mem_append, hkey.2, hbrace]
    decide
  have hmembers : ∀ m ∈ e.members, m.Clean ∧ closeBrace ∉ m.text := by
    intro m hm
    simp only [members, List.mem_cons, List.not_mem_nil, or_false] at hm
    rcases hm with rfl | rfl | rfl | rfl | rfl | rfl
    · exact hdate
    · exact hbare (by decide) h.open_
    · exact hbare (by decide) h.high
    · exact hbare (by decide) h.low
    · exact hbare (by decide) h.close_
    · exact hbare (by decide) h.volume
  have hkeys : [ascii "open", ascii "high", ascii "low", ascii "close", ascii "volume"].all
      (· ≠ ascii "date") = true := by decide
  refine ⟨fun m hm => (hmembers m hm).1, fun m hm => (hmembers m hm).2, _, _, rfl, ?_⟩
  intro m hm
  exact of_decide_eq_true (List.all_eq_true.mp hkeys _ (List.mem_map_of_mem (f := Member.key) hm))

theorem CandleEntry.Sound.candleEntry (h : e.Sound) : candleEntry (objectText e.members) = e := by
  have hclean := h.listEntry.clean
  have hdate : extractField (objectText e.members) (ascii "date") = e.date :=
    extractField_objectText_string (by decide) hclean (by rfl)
  have hopen : extractField (objectText e.members) (ascii "open") = e.open_ :=
    extractField_objectText_bare (by decide) hclean (by rfl) (by rfl) h.open_.bare
  have hhigh : extractField (objectText e.members) (ascii "high") = e.high :=
    extractField_objectText_bare (by decide) hclean (by rfl) (by rfl) h.high.bare
  have hlow : extractField (objectText e.members) (ascii "low") = e.low :=
    extractField_objectText_bare (by decide) hclean (by rfl) (by rfl) h.low.bare
  have hclose : extractField (objectText e.members) (ascii "close") = e.close_ :=
    extractField_objectText_bare (by decide) hclean (by rfl) (by rfl) h.close_.bare
  have hvolume : extractField (objectText e.members) (ascii "volume") = e.volume :=
    extractField_objectText_bare (by decide) hclean (by rfl) (by rfl) h.volume.bare
  rw [Ui.candleEntry, hdate, hopen, hhigh, hlow, hclose, hvolume]

end Candles

/-- Doubles that are printed in the manner of `operator<<`, whatever their digits -/
structure PrintsPlain {D : Type*} (dbl : Doubles D) : Prop where
  print : ∀ x, FloatText (dbl.print x)

section History
variable {D : Type*} (dbl : Doubles D)

def candleFields (c : Candle D) : CandleEntry :=
  { date := c.date
    open_ := dbl.print c.open_
    high := dbl.print c.high
    low := dbl.print c.low
    close_ := dbl.print c.close_
    volume := decimalInt c.volume }

theorem candleText_eq_objectText (c : Candle D) :
    candleText dbl c = objectText (candleFields dbl c).members := by
  simp only [candleText, candleFields, CandleEntry.members, objectText, memberTail, Member.text,
    Value.text, List.append_assoc, List.cons_append, List.nil_append]
  rfl

def historyHeader (requestJson : Bytes) : Bytes :=
  ascii "\x7b\"symbol\":" ++
    (quote :: historySymbol requestJson ++ quote :: comma :: ascii "\"history\":[")

def historyMembers (requestJson : Bytes) (now : ℤ) : List (List Member) :=
  (historyCandles dbl requestJson now).map fun c => (candleFields dbl c).members

theorem map_historyMembers (requestJson : Bytes) (now : ℤ) :
    (historyMembers dbl requestJson now).map objectText =
      (historyCandles dbl requestJson now).map (candleText dbl) := by
  rw [historyMembers, List.map_map]
  exact List.map_congr_left fun c _ => (candleText_eq_objectText dbl c).symm

theorem handleGetPriceHistory_eq (requestJson : Bytes) (now : ℤ) :
    handleGetPriceHistory dbl requestJson now = historyHeader requestJson ++
      (commaJoin ((historyMembers dbl requestJson now).map objectText) ++ ascii "]\x7d") := by
  have hstart : ascii "\x7b\"symbol\":\"" = ascii "\x7b\"symbol\":" ++ [quote] := by decide
  have hend : ascii "\",\"history\":[" = quote :: comma :: ascii "\"history\":[" := by decide
  rw [handleGetPriceHistory, map_historyMembers, hstart, hend]
  simp only [historyHeader, List.append_assoc, List.cons_append, List.nil_append]

theorem misses_historyHeader (requestJson rest : Bytes) :
    Misses (keyNeedle (ascii "date")) (historyHeader requestJson) rest :=
  misses_header (by decide) (by decide) (quote_notMem_orDefault requestJson _ (by decide))
    (by decide) rest

variable {dbl}

theorem candleFields_sound (hprint : PrintsPlain dbl) {requestJson : Bytes} {now : ℤ}
    {c : Candle D} (hc : c ∈ historyCandles dbl requestJson now) : (candleFields dbl c).Sound := by
  obtain ⟨i, -, rfl⟩ := List.mem_map.mp hc
  exact
    { date := fun b hb => isFloatChar_of_isNumberChar (isNumberChar_of_mem_formatDate hb)
      open_ := hprint.print _
      high := hprint.print _
      low := hprint.print _
      close_ := hprint.print _
      volume := .of_number (numberText_decimalInt _) }

theorem listEntry_historyMembers (hprint : PrintsPlain dbl) (requestJson : Bytes) (now : ℤ) :
    ∀ ms ∈ historyMembers dbl requestJson now, ListEntry (ascii "date") ms := by
  intro ms hms
  obtain ⟨c, hc, rfl⟩ := List.mem_map.mp hms
  exact (candleFields_sound hprint hc).listEntry

theorem occurrences_handleGetPriceHistory (hprint : PrintsPlain dbl) (requestJson : Bytes)
    (now : ℤ) :
    occurrences (keyNeedle (ascii "date")) (handleGetPriceHistory dbl requestJson now) =
      (historyCandles dbl requestJson now).length := by
  have hend : occurrences (keyNeedle (ascii "date")) (ascii "]\x7d") = 0 := by decide
  have hentries := listEntry_historyMembers hprint requestJson now
  rw [handleGetPriceHistory_eq, occurrences_append_of_misses (misses_historyHeader requestJson _),
    occurrences_commaJoin (by decide) (by decide) hentries, hend, Nat.zero_add, historyMembers,
    List.length_map]

theorem runs_handleGetPriceHistory (hprint : PrintsPlain dbl) (requestJson : Bytes) (now : ℤ) :
    Runs (nextEntry (opening (ascii "date"))) (handleGetPriceHistory dbl requestJson now)
      ((historyCandles dbl requestJson now).map (candleText dbl)) := by
  have hentries := listEntry_historyMembers hprint requestJson now
  have hruns : Runs (nextEntry (opening (ascii "date")))
      (commaJoin ((historyMembers dbl requestJson now).map objectText) ++ ascii "]\x7d")
      ((historyMembers dbl requestJson now).map objectText) := runs_commaJoin hentries (by decide)
  have hmisses : Misses (opening (ascii "date")) (historyHeader requestJson)
      (commaJoin ((historyMembers dbl requestJson now).map objectText) ++ ascii "]\x7d") :=
    misses_opening_commaJoin (misses_historyHeader requestJson _) (by decide)
  rw [handleGetPriceHistory_eq, ← map_historyMembers]
  exact hruns.of_next_eq (nextEntry_append_of_misses hmisses)

theorem candleEntry_candleText (hprint : PrintsPlain dbl) {requestJson : Bytes} {now : ℤ}
    {c : Candle D} (hc : c ∈ historyCandles dbl requestJson now) :
    candleEntry (candleText dbl c) = candleFields dbl c := by
  rw [candleText_eq_objectText]
  exact (candleFields_sound hprint hc).candleEntry

/-- The lambda of `RunGetPriceHistory`. It cuts wide characters, which are bytes where the text
is ASCII. -/
def trunc7 (s : Bytes) : Bytes := s.take (min s.length 7)

def CandleEntry.line (e : CandleEntry) : CandleEntry :=
  { e with
    open_ := trunc7 e.open_
    high := trunc7 e.high
    low := trunc7 e.low
    close_ := trunc7 e.close_ }

def displayedCandles (respPayload : Bytes) : List CandleEntry :=
  ((collect (nextEntry (ascii "\x7b\"date\":")) 5 respPayload).map candleEntry).map CandleEntry.line

variable (dbl) in
def candleLine (c : Candle D) : CandleEntry :=
  { date := c.date
    open_ := (dbl.print c.open_).take 7
    high := (dbl.print c.high).take 7
    low := (dbl.print c.low).take 7
    close_ := (dbl.print c.close_).take 7
    volume := decimalInt c.volume }

theorem trunc7_eq (s : Bytes) : trunc7 s = s.take 7 := by
  obtain hle | hle := Nat.le_total s.length 7
  · rw [trunc7, Nat.min_eq_left hle, List.take_length, List.take_of_length_le hle]
  · rw [trunc7, Nat.min_eq_right hle]

theorem candleFields_line (c : Candle D) : (candleFields dbl c).line = candleLine dbl c := by
  simp only [CandleEntry.line, candleFields, candleLine, trunc7_eq]

end History

/-- The three commands report the rows, the positions and the candles of the response that
answers their own request, and their loops end by themselves. -/
theorem scans_agree {D : Type*} {dbl : Doubles D} (hprint : PrintsPlain dbl) (seq : ℤ) :
    (∀ sql : Bytes, quote ∉ sql →
      let response := handleSqlQuery ((Command.sqlQuery sql).request seq).2
      let rows := if sql = [] then 0 else 3
      Runs (nextOccurrence (ascii "\"symbol\":")) response (List.replicate rows ()) ∧
        (Command.sqlQuery sql).report response = .queryComplete response rows) ∧
    (∀ account : Bytes,
      let response := handleGetPosition ((Command.getPosition account).request seq).2
      Runs (nextEntry (ascii "\x7b\"symbol\":")) response (positions.map PositionEntry.text) ∧
        (Command.getPosition account).report response =
          .positionComplete positions (ascii "12345.67")) ∧
    ∀ (symbol : Bytes) (days now : ℤ),
      let request := ((Command.getPriceHistory symbol days).request seq).2
      let response := handleGetPriceHistory dbl request now
      let candles := historyCandles dbl request now
      Runs (nextOccurrence (ascii "\"date\":")) response (List.replicate candles.length ()) ∧
        Runs (nextEntry (ascii "\x7b\"date\":")) response (candles.map (candleText dbl)) ∧
        (Command.getPriceHistory symbol days).report response =
          .priceHistoryComplete ((candles.take 5).map (candleFields dbl)) candles.length ∧
        displayedCandles response = (candles.take 5).map (candleLine dbl) := by
  have hsymbol : ascii "\"symbol\":" = keyNeedle (ascii "symbol") := by decide
  have hdate : ascii "\"date\":" = keyNeedle (ascii "date") := by decide
  have hopening : ascii "\x7b\"date\":" = opening (ascii "date") := by decide
  have hne : ∀ key, keyNeedle key ≠ [] := fun key => needle_ne_nil key [colon]
  refine ⟨?_, ?_, ?_⟩
  · intro sql hsql response rows
    have hrows : occurrences (keyNeedle (ascii "symbol")) response = rows :=
      occurrences_handleSqlQuery hsql
    refine ⟨?_, ?_⟩
    · rw [hsymbol, ← hrows]
      exact runs_nextOccurrence (hne _) response
    · rw [Command.report, hsymbol, countOccurrences_eq_occurrences (hne _), hrows]
  · intro account response
    have hruns := runs_handleGetPosition ((Command.getPosition account).request seq).2
    refine ⟨hruns, ?_⟩
    have hentries := hruns.collectAll_eq (nextEntry_shrinks (by decide))
    rw [Command.report, hentries, positionEntry_text, cash_handleGetPosition]
  · intro symbol days now request response candles
    have hcount : occurrences (keyNeedle (ascii "date")) response = candles.length :=
      occurrences_handleGetPriceHistory hprint request now
    have hruns := runs_handleGetPriceHistory hprint request now
    have hshown : (collect (nextEntry (opening (ascii "date"))) 5 response).map candleEntry =
        (candles.take 5).map (candleFields dbl) := by
      rw [hruns.collect_eq 5, ← List.map_take, List.map_map]
      apply List.map_congr_left
      intro c hc
      exact candleEntry_candleText hprint (List.mem_of_mem_take hc)
    refine ⟨?_, ?_, ?_, ?_⟩
    · rw [hdate, ← hcount]
      exact runs_nextOccurrence (hne _) response
    · rw [hopening]
      exact hruns
    · rw [Command.report, hopening, hshown, hdate, countOccurrences_eq_occurrences (hne _), hcount]
    · rw [displayedCandles, hopening, hshown, List.map_map]
      exact List.map_congr_left fun c _ => candleFields_line c

theorem exactDoubles_printsPlain : PrintsPlain exactDoubles where
  print x := by
    have hne : exactDoubles.print x ≠ [] :=
      List.append_ne_nil_of_right_ne_nil _ (List.cons_ne_nil _ _)
    refine ⟨hne, ?_⟩
    intro b hb
    apply isFloatChar_of_isNumberChar
    rw [exactDoubles, List.mem_append, List.mem_cons] at hb
    rcases hb with hunits | rfl | hcents
    · exact (numberText_decimalInt _).chars b hunits
    · rfl
    · exact isNumberChar_of_mem_twoDigits hcents

theorem scans_agree_date :
    displayedCandles (handleGetPriceHistory exactDoubles
      ((Command.getPriceHistory (ascii "date") 1).request 0).2 0) =
      [⟨ascii "1970-01-01", ascii "186.64", ascii "188.14", ascii "185.84", ascii "188.14",
        ascii "20000000"⟩] := by
  have hcandles : ((historyCandles exactDoubles
      ((Command.getPriceHistory (ascii "date") 1).request 0).2 0).take 5).map
        (candleLine exactDoubles) =
      [⟨ascii "1970-01-01", ascii "186.64", ascii "188.14", ascii "185.84", ascii "188.14",
        ascii "20000000"⟩] := by decide +kernel
  rw [← hcandles]
  exact ((scans_agree exactDoubles_printsPlain 0).2.2 (ascii "date") 1 0).2.2.2

end HSFinancialServices.Ui
