import HSFinancialServices.Services.Registry
import HSFinancialServices.Services.SqlEcho
import HSFinancialServices.Services.WellFormed

/-!
# Well-formed responses

Each response to a request that is JSON, or empty, is run through the JSON scanner.
Text that ends inside an escape swallows the quote after it: of the handlers that
splice text, only the SQL handler, which escapes it, still answers with JSON then.
-/

namespace HSFinancialServices.Services
open Ascii Json

section OrderAck
variable {order : Order} (side : Side) (orderId : UInt64)

theorem run_orderAck_symbol : run (ascii "\x7b\"order_id\":\"" ++ (orderIdText orderId ++
    ascii "\",\"symbol\":\"")) (.value, []) = some (.str false .plain, [.object]) := by
  have hopen : run (ascii "\x7b\"order_id\":\"") (.value, []) =
      some (.str false .plain, [.object]) := by decide
  have hid : Chars (orderIdText orderId) :=
    (chars_of_plain (List.all_eq_true.mp (by decide))).append (chars_decimal orderId.toNat)
  rw [run_append_of_run hopen, run_append_of_run (hid.run false [.object])]
  decide

theorem run_orderAck_account : run (ascii "\",\"side\":\"" ++ (side.text ++
    ascii "\",\"account\":\"")) (.str false .plain, [.object]) =
      some (.str false .plain, [.object]) := by
  cases side <;> decide

theorem run_orderAck_numbers (hqty : Number order.qty) (hprice : Number order.price) :
    run (ascii "\",\"qty\":" ++ (order.qty ++ (ascii ",\"price\":" ++ (order.price ++
      ascii ",\"status\":\"FILLED\"\x7d")))) (.str false .plain, [.object]) =
      some (.done, []) := by
  have hopen : run (ascii "\",\"qty\":") (.str false .plain, [.object]) =
      some (.value, [.object]) := by decide
  have hmiddle : run (ascii ",\"price\":") (.done, [.object]) = some (.value, [.object]) := by
    decide
  have hend : run (ascii ",\"status\":\"FILLED\"\x7d") (.done, [.object]) =
      some (.done, []) := by decide
  rw [run_append_of_run hopen, hqty.run_then hmiddle rfl rfl,
    ← List.append_nil (ascii ",\"status\":\"FILLED\"\x7d"), hprice.run_then hend rfl rfl, run_nil]

theorem orderAckText_eq (order : Order) : orderAckText order side orderId =
    (ascii "\x7b\"order_id\":\"" ++ (orderIdText orderId ++ ascii "\",\"symbol\":\"")) ++
      (order.symbol ++ ((ascii "\",\"side\":\"" ++ (side.text ++ ascii "\",\"account\":\"")) ++
        (order.account ++ (ascii "\",\"qty\":" ++ (order.qty ++ (ascii ",\"price\":" ++
          (order.price ++ ascii ",\"status\":\"FILLED\"\x7d"))))))) := by
  simp only [orderAckText, List.append_assoc]

theorem text_orderAckText_iff (hsymbol : CutText order.symbol) (haccount : CutText order.account)
    (hqty : Number order.qty) (hprice : Number order.price) :
    Text (orderAckText order side orderId) ↔
      endsInEscape order.symbol = false ∧ endsInEscape order.account = false := by
  rw [orderAckText_eq]
  constructor
  · intro htext
    have hwhole : endsInEscape order.symbol = false := by
      by_contra hescape
      exact hsymbol.not_accepts (by simpa using hescape) (run_orderAck_symbol orderId)
        (b := 115) (by decide) (by decide) htext
    refine ⟨hwhole, ?_⟩
    by_contra hescape
    have hbefore := run_append_of_run (run_orderAck_symbol orderId)
      (t := order.symbol ++ (ascii "\",\"side\":\"" ++ (side.text ++ ascii "\",\"account\":\"")))
    rw [run_append_of_run ((hsymbol.chars hwhole).run false [.object]), run_orderAck_account]
      at hbefore
    rw [← List.append_assoc order.symbol, ← List.append_assoc] at htext
    exact haccount.not_accepts (by simpa using hescape) hbefore (b := 113) (by decide)
      (by decide) htext
  · intro hwhole
    refine accepts_of_run_done ?_
    rw [run_append_of_run (run_orderAck_symbol orderId),
      run_append_of_run ((hsymbol.chars hwhole.1).run false [.object]),
      run_append_of_run (run_orderAck_account side),
      run_append_of_run ((haccount.chars hwhole.2).run false [.object]),
      run_orderAck_numbers hqty hprice]

end OrderAck

theorem le_of_isHex {b : UInt8} (h : isHex b = true) : 0x20 ≤ b := by
  have hcases : isDigit b = true ∨ (97 ≤ b ∧ b ≤ 102) ∨ (65 ≤ b ∧ b ≤ 70) := by
    simpa [isHex, or_assoc] using h
  rcases hcases with hdigit | hlower | hupper
  · exact (isPlain_iff.mp (isPlain_of_isDigit hdigit)).1
  · exact UInt8.le_trans (by decide) hlower.1
  · exact UInt8.le_trans (by decide) hupper.1

theorem le_of_strStep {b : UInt8} {q q' : StrMode} (h : strStep b q = some q') : 0x20 ≤ b := by
  match q with
  | .plain =>
    simp only [strStep] at h
    split_ifs at h with hback hplain
    · subst hback
      decide
    · exact (isPlain_iff.mp hplain).1
  | .escape =>
    simp only [strStep] at h
    split_ifs at h with hsimple hu
    · have hcases : b = 34 ∨ b = 92 ∨ b = 47 ∨ b = 98 ∨ b = 102 ∨ b = 110 ∨ b = 114 ∨ b = 116 := by
        simpa [isSimpleEscape, ascii] using hsimple
      rcases hcases with rfl | rfl | rfl | rfl | rfl | rfl | rfl | rfl <;> decide
    · subst hu
      decide
  | .hex 0 | .hex (n + 1) =>
    simp only [strStep] at h
    split_ifs at h with hhex
    exact le_of_isHex hhex

theorem le_of_strRun {s : Bytes} {q q' : StrMode} (h : strRun s q = some q') :
    ∀ b ∈ s, 0x20 ≤ b := by
  induction s generalizing q with
  | nil => simp
  | cons b s ih =>
    obtain ⟨q'', hstep, hrun⟩ := Option.bind_eq_some_iff.mp h
    exact List.forall_mem_cons.mpr ⟨le_of_strStep hstep, ih hrun⟩

theorem text_handleSqlQuery {p : Bytes} (hp : JsonOrEmpty p) : Text (handleSqlQuery p) := by
  simp only [handleSqlQuery]
  split_ifs
  · have hmissing : run missingSqlField (.value, []) = some (.done, []) := by decide +kernel
    exact accepts_of_run_done hmissing
  · have hcut := cutText_extractString hp plainKeys.2.2.1
    have hsql : Escapable (extractString p (ascii "sql")) := fun b hb =>
      Or.inl (le_of_strRun hcut.scan b hb)
    exact (objectText_sqlResult hsql).text

theorem text_handleGetPosition_iff {p : Bytes} (hp : JsonOrEmpty p) :
    Text (handleGetPosition p) ↔ endsInEscape (extractString p (ascii "account")) = false := by
  have hopen : run (ascii "\x7b\"account\":\"") (.value, []) =
      some (.str false .plain, [.object]) := by decide
  have hend : run (ascii "\"," ++ positionRows) (.str false .plain, [.object]) =
      some (.done, []) := by decide +kernel
  have hcut : CutText (orDefault (extractString p (ascii "account")) (ascii "UNKNOWN")) :=
    (cutText_extractString hp plainKeys.2.1).orDefault ⟨by decide, by decide⟩
  rw [← endsInEscape_orDefault (extractString p (ascii "account"))
    (show endsInEscape (ascii "UNKNOWN") = false by decide)]
  simp only [handleGetPosition]
  generalize orDefault (extractString p (ascii "account")) (ascii "UNKNOWN") = account at hcut ⊢
  rw [List.append_assoc, List.append_assoc]
  constructor
  · intro htext
    by_contra hescape
    exact hcut.not_accepts (by simpa using hescape) hopen (b := 112) (by decide) (by decide) htext
  · intro hwhole
    refine accepts_of_run_done ?_
    rw [run_append_of_run hopen, run_append_of_run ((hcut.chars hwhole).run false [.object]), hend]

theorem number_decimal (n : ℕ) : IntPart (decimal n) := by
  by_cases h : n = 0
  · subst h
    exact IntPart.zero
  · obtain ⟨d, rest, hdecimal, hpos, hlt⟩ := decimal_head h
    have hmem : ∀ b ∈ digit d :: rest, isDigit b = true := by
      intro b hb
      rw [← hdecimal] at hb
      exact isDigit_of_mem_decimal hb
    rw [hdecimal]
    refine IntPart.positive (hmem _ (by simp)) ?_ (List.forall_mem_of_forall_mem_cons hmem)
    intro hzero
    have htoNat := congrArg UInt8.toNat hzero
    rw [toNat_digit hlt] at htoNat
    simp only [UInt8.reduceToNat] at htoNat
    omega

theorem number_decimalInt (z : ℤ) : Number (decimalInt z) := by
  rw [decimalInt]
  split_ifs
  · simpa using Number.negative (number_decimal z.natAbs) .absent .absent
  · simpa using Number.positive (number_decimal z.natAbs) .absent .absent

theorem isPlain_of_mem_decimalInt {z : ℤ} {b : UInt8} (h : b ∈ decimalInt z) :
    isPlain b = true := by
  rw [decimalInt] at h
  split_ifs at h
  · cases List.mem_cons.mp h with
    | inl heq =>
      subst heq
      rfl
    | inr hmem => exact isPlain_of_isDigit (isDigit_of_mem_decimal hmem)
  · exact isPlain_of_isDigit (isDigit_of_mem_decimal h)

theorem chars_twoDigits (n : ℕ) : Chars (twoDigits n) := by
  refine chars_of_plain fun b hb => isPlain_of_isDigit ?_
  simp only [twoDigits, List.mem_cons, List.not_mem_nil, or_false] at hb
  rcases hb with rfl | rfl
  · exact isDigit_digit (Nat.mod_lt _ (by decide))
  · exact isDigit_digit (Nat.mod_lt _ (by decide))

theorem chars_formatDate (t : ℤ) : Chars (formatDate t) := by
  have hminus : isPlain minus = true := rfl
  have hyear : Chars (decimalInt (gmtime t).year) :=
    chars_of_plain fun b hb => isPlain_of_mem_decimalInt hb
  simp only [formatDate]
  rw [List.append_assoc, List.cons_append]
  exact hyear.append (.plain hminus ((chars_twoDigits _).append (.plain hminus (chars_twoDigits _))))

variable {D : Type*} (dbl : Doubles D)

structure PrintsNumbers (c : Candle D) : Prop where
  open_ : Number (dbl.print c.open_)
  high : Number (dbl.print c.high)
  low : Number (dbl.print c.low)
  close_ : Number (dbl.print c.close_)

theorem run_candleText {c : Candle D} (hdate : Chars c.date) (hc : PrintsNumbers dbl c)
    {m : Mode} (hm : m = .value ∨ m = .firstItem) (st : List Frame) :
    run (candleText dbl c) (m, st) = some (.done, st) := by
  have hopen : run (ascii "\x7b\"date\":\"") (m, st) = some (.str false .plain, .object :: st) := by
    rcases hm with rfl | rfl <;> rfl
  have hfirst : run (ascii "\",\"open\":") (.str false .plain, .object :: st) =
      some (.value, .object :: st) := rfl
  have hhigh : run (ascii ",\"high\":") (.done, .object :: st) = some (.value, .object :: st) := rfl
  have hlow : run (ascii ",\"low\":") (.done, .object :: st) = some (.value, .object :: st) := rfl
  have hclose : run (ascii ",\"close\":") (.done, .object :: st) =
      some (.value, .object :: st) := rfl
  have hvolume : run (ascii ",\"volume\":") (.done, .object :: st) =
      some (.value, .object :: st) := rfl
  have hend : run [closeBrace] (.done, .object :: st) = some (.done, st) := rfl
  simp only [candleText, List.append_assoc]
  rw [run_append_of_run hopen, run_append_of_run (hdate.run false _), run_append_of_run hfirst,
    hc.open_.run_then hhigh rfl rfl, hc.high.run_then hlow rfl rfl,
    hc.low.run_then hclose rfl rfl, hc.close_.run_then hvolume rfl rfl,
    ← List.append_nil [closeBrace], (number_decimalInt c.volume).run_then hend rfl rfl, run_nil]

theorem run_commaJoin {ts : List Bytes} (hne : ts ≠ []) {st : List Frame}
    (hts : ∀ t ∈ ts, run t (.firstItem, .array :: st) = some (.done, .array :: st) ∧
      run t (.value, .array :: st) = some (.done, .array :: st)) :
    run (commaJoin ts) (.firstItem, .array :: st) = some (.done, .array :: st) := by
  obtain ⟨t, ts, rfl⟩ := List.exists_cons_of_ne_nil hne
  rw [commaJoin, run_append_of_run (hts t (by simp)).1]
  have hrest : ∀ u ∈ ts, run u (.value, .array :: st) = some (.done, .array :: st) :=
    fun u hu => (hts u (List.mem_cons_of_mem _ hu)).2
  clear hts hne
  induction ts with
  | nil => rfl
  | cons u ts ih =>
    have hcomma : step comma (.done, .array :: st) = some (.value, .array :: st) := rfl
    rw [List.flatMap_cons, List.cons_append, run_cons, hcomma, Option.bind_some,
      run_append_of_run (hrest u (by simp))]
    exact ih (List.forall_mem_of_forall_mem_cons hrest)

theorem run_historyCandles {p : Bytes} {now : ℤ}
    (hnumbers : ∀ c ∈ historyCandles dbl p now, PrintsNumbers dbl c) (st : List Frame) :
    run (commaJoin ((historyCandles dbl p now).map (candleText dbl))) (.firstItem, .array :: st) =
      some (.done, .array :: st) := by
  refine run_commaJoin ?_ ?_
  · have hdays := (effectiveDays_bounds p).1
    simp only [historyCandles, ne_eq, List.map_eq_nil_iff, List.reverse_eq_nil_iff,
      List.range_eq_nil]
    omega
  · intro t ht
    obtain ⟨c, hc, rfl⟩ := List.mem_map.mp ht
    have hdate : Chars c.date := by
      obtain ⟨i, _, rfl⟩ := List.mem_map.mp hc
      exact chars_formatDate _
    exact ⟨run_candleText dbl hdate (hnumbers c hc) (Or.inr rfl) _,
      run_candleText dbl hdate (hnumbers c hc) (Or.inl rfl) _⟩

theorem text_handleGetPriceHistory_iff {p : Bytes} (hp : JsonOrEmpty p) {now : ℤ}
    (hnumbers : ∀ c ∈ historyCandles dbl p now, PrintsNumbers dbl c) :
    Text (handleGetPriceHistory dbl p now) ↔
      endsInEscape (extractString p (ascii "symbol")) = false := by
  have hopen : run (ascii "\x7b\"symbol\":\"") (.value, []) =
      some (.str false .plain, [.object]) := by decide
  have hmiddle : run (ascii "\",\"history\":[") (.str false .plain, [.object]) =
      some (.firstItem, [.array, .object]) := by decide
  have hend : run (ascii "]\x7d") (.done, [.array, .object]) = some (.done, []) := by decide
  have hcut : CutText (historySymbol p) :=
    (cutText_extractString hp plainKeys.1).orDefault ⟨by decide, by decide⟩
  have hsame : endsInEscape (historySymbol p) = endsInEscape (extractString p (ascii "symbol")) :=
    endsInEscape_orDefault _ (by decide)
  rw [← hsame, handleGetPriceHistory]
  simp only [List.append_assoc]
  constructor
  · intro htext
    by_contra hescape
    exact hcut.not_accepts (by simpa using hescape) hopen (b := 104) (by decide) (by decide) htext
  · intro hwhole
    refine accepts_of_run_done ?_
    rw [run_append_of_run hopen, run_append_of_run ((hcut.chars hwhole).run false [.object]),
      run_append_of_run hmiddle, run_append_of_run (run_historyCandles dbl hnumbers [.object]), hend]

def IsRegistered (type : MessageType) : Prop :=
  type = MessageType.kSqlQuery ∨ type = MessageType.kBuyOrder ∨ type = MessageType.kSellOrder ∨
    type = MessageType.kGetPosition ∨ type = MessageType.kGetPriceHistory ∨
    type = MessageType.kPing

instance (type : MessageType) : Decidable (IsRegistered type) :=
  inferInstanceAs (Decidable (_ ∨ _))

/-- The handler puts the symbol, or the account, of the request into its response as it is. -/
def SplicesSymbol (type : MessageType) : Prop :=
  type = MessageType.kBuyOrder ∨ type = MessageType.kSellOrder ∨ type = MessageType.kGetPriceHistory

def SplicesAccount (type : MessageType) : Prop :=
  type = MessageType.kBuyOrder ∨ type = MessageType.kSellOrder ∨ type = MessageType.kGetPosition

instance (type : MessageType) : Decidable (SplicesSymbol type) :=
  inferInstanceAs (Decidable (_ ∨ _))

instance (type : MessageType) : Decidable (SplicesAccount type) :=
  inferInstanceAs (Decidable (_ ∨ _))

/-- No text that is spliced ends in an odd number of backslashes. -/
def SplicesWholeCharacters (request : Message) : Prop :=
  (SplicesSymbol request.header.messageType →
      endsInEscape (extractString request.payload (ascii "symbol")) = false) ∧
    (SplicesAccount request.header.messageType →
      endsInEscape (extractString request.payload (ascii "account")) = false)

theorem text_readOrder_iff {p : Bytes} (hp : JsonOrEmpty p) (side : Side) (orderId : UInt64) :
    Text (orderAckText (readOrder p) side orderId) ↔
      endsInEscape (extractString p (ascii "symbol")) = false ∧
        endsInEscape (extractString p (ascii "account")) = false := by
  have hsymbol : CutText (readOrder p).symbol :=
    (cutText_extractString hp plainKeys.1).orDefault ⟨by decide, by decide⟩
  have haccount : CutText (readOrder p).account :=
    (cutText_extractString hp plainKeys.2.1).orDefault ⟨by decide, by decide⟩
  rw [text_orderAckText_iff side orderId hsymbol haccount
    (number_extractNumber hp plainKeys.2.2.2.1) (number_extractNumber hp plainKeys.2.2.2.2)]
  simp only [readOrder]
  rw [endsInEscape_orDefault _ (by decide), endsInEscape_orDefault _ (by decide)]

theorem response_json_iff (request : Message) (w : World)
    (hrequest : request.payload = [] ∨ ∃ ms, ObjectText request.payload ms)
    (htype : IsRegistered request.header.messageType)
    (hnumbers : request.header.messageType = MessageType.kGetPriceHistory →
      ∀ c ∈ historyCandles dbl request.payload w.time.1, PrintsNumbers dbl c) :
    Text ((serverRouter dbl).dispatch request w).1.payload ↔ SplicesWholeCharacters request := by
  have hp : JsonOrEmpty request.payload := by
    refine hrequest.imp_right fun hobject => ?_
    obtain ⟨ms, hms⟩ := hobject
    exact hms.text
  rw [dispatch_payload, SplicesWholeCharacters]
  rcases htype with h | h | h | h | h | h
  · have hsymbol : ¬ SplicesSymbol MessageType.kSqlQuery := by decide
    have haccount : ¬ SplicesAccount MessageType.kSqlQuery := by decide
    simp [responsePayload_sql w h, h, hsymbol, haccount, text_handleSqlQuery hp]
  · have hsymbol : SplicesSymbol MessageType.kBuyOrder := by decide
    have haccount : SplicesAccount MessageType.kBuyOrder := by decide
    simp [responsePayload_buy w h, h, hsymbol, haccount, text_readOrder_iff hp]
  · have hsymbol : SplicesSymbol MessageType.kSellOrder := by decide
    have haccount : SplicesAccount MessageType.kSellOrder := by decide
    simp [responsePayload_sell w h, h, hsymbol, haccount, text_readOrder_iff hp]
  · have hsymbol : ¬ SplicesSymbol MessageType.kGetPosition := by decide
    have haccount : SplicesAccount MessageType.kGetPosition := by decide
    simp [responsePayload_position w h, h, hsymbol, haccount, text_handleGetPosition_iff hp]
  · have hsymbol : SplicesSymbol MessageType.kGetPriceHistory := by decide
    have haccount : ¬ SplicesAccount MessageType.kGetPriceHistory := by decide
    simp [responsePayload_history w h, h, hsymbol, haccount,
      text_handleGetPriceHistory_iff dbl hp (hnumbers h)]
  · have hsymbol : ¬ SplicesSymbol MessageType.kPing := by decide
    have haccount : ¬ SplicesAccount MessageType.kPing := by decide
    have hping : Text (handlePing request.payload) := by
      rw [handlePing]
      split_ifs with hempty
      · exact accepts_of_run_done (by decide)
      · exact hp.resolve_left hempty
    simp [responsePayload_ping w h, h, hsymbol, haccount, hping]

def oneDayRequest : Message :=
  Message.make MessageType.kGetPriceHistory (ascii "\x7b\"symbol\":\"A\",\"days\":1\x7d") 0

theorem oneDayRequest_object : ∃ ms, ObjectText oneDayRequest.payload ms := by
  refine ⟨[⟨[], ascii "symbol", [], [], ascii "\"A\"", []⟩,
    ⟨[], ascii "days", [], [], ascii "1", []⟩], ?_, [], [], by simp [Blank], by simp [Blank], rfl⟩
  have hkey : Chars (ascii "symbol") := chars_of_plain (List.all_eq_true.mp (by decide))
  have hdays : Chars (ascii "days") := chars_of_plain (List.all_eq_true.mp (by decide))
  have hone : Number (ascii "1") :=
    Number.positive (i := ascii "1") (.positive rfl (by decide) (by simp)) .absent .absent
  have hname : Chars (ascii "A") := chars_of_plain (List.all_eq_true.mp (by decide))
  intro n hn
  simp only [List.mem_cons, List.not_mem_nil, or_false] at hn
  rcases hn with rfl | rfl
  · exact ⟨by simp [Member.Layout, Blank, hkey], .string hname⟩
  · exact ⟨by simp [Member.Layout, Blank, hdays], .number hone⟩

theorem number_price {d e f g h : UInt8} (hd : isDigit d = true) (hd0 : d ≠ 48)
    (hall : ∀ b ∈ [e, f, g, h], isDigit b = true) : Number [d, e, f, point, g, h] := by
  have hwhole : ∀ b ∈ [e, f], isDigit b = true := fun b hb =>
    hall b (List.mem_append_left [g, h] hb)
  have hfrac : ∀ b ∈ [g, h], isDigit b = true := fun b hb =>
    hall b (List.mem_append_right [e, f] hb)
  exact Number.positive (i := [d, e, f]) (f := [point, g, h]) (.positive hd hd0 hwhole)
    (.present ⟨by simp, hfrac⟩) .absent

theorem oneDayRequest_numbers : ∀ c ∈ historyCandles exactDoubles oneDayRequest.payload 0,
    PrintsNumbers exactDoubles c := by
  have hdays : effectiveDays oneDayRequest.payload = 1 := by decide +kernel
  intro c hc
  simp only [historyCandles, hdays, List.range_one, List.reverse_singleton, List.map_cons,
    List.map_nil, List.mem_singleton] at hc
  subst hc
  let c := candle exactDoubles (basePrice exactDoubles (historySymbol oneDayRequest.payload)) 0 0
  have hopen : exactDoubles.print c.open_ = ascii "183.15" := by decide +kernel
  have hhigh : exactDoubles.print c.high = ascii "184.65" := by decide +kernel
  have hlow : exactDoubles.print c.low = ascii "182.35" := by decide +kernel
  have hclose : exactDoubles.print c.close_ = ascii "184.65" := by decide +kernel
  refine ⟨?_, ?_, ?_, ?_⟩
  · exact hopen ▸ number_price (by decide) (by decide) (List.all_eq_true.mp (by decide))
  · exact hhigh ▸ number_price (by decide) (by decide) (List.all_eq_true.mp (by decide))
  · exact hlow ▸ number_price (by decide) (by decide) (List.all_eq_true.mp (by decide))
  · exact hclose ▸ number_price (by decide) (by decide) (List.all_eq_true.mp (by decide))

theorem response_json_iff_oneDay :
    Text ((serverRouter exactDoubles).dispatch oneDayRequest (World.initial fun _ => 0)).1.payload ↔
      SplicesWholeCharacters oneDayRequest :=
  response_json_iff exactDoubles oneDayRequest (World.initial fun _ => 0)
    (Or.inr oneDayRequest_object) (by decide) fun _ => oneDayRequest_numbers

def quotedSymbolOrder : Message :=
  Message.make MessageType.kBuyOrder (ascii "\x7b\"symbol\":\"A\\\"B\"\x7d") 0

theorem not_all_responses_json :
    ¬ ∀ (request : Message) (w : World),
      (request.payload = [] ∨ ∃ ms, ObjectText request.payload ms) →
        IsRegistered request.header.messageType →
        (request.header.messageType = MessageType.kGetPriceHistory →
          ∀ c ∈ historyCandles exactDoubles request.payload w.time.1, PrintsNumbers exactDoubles c) →
        Text ((serverRouter exactDoubles).dispatch request w).1.payload := by
  intro h
  have hchars : Chars (ascii "A\\\"B") :=
    .plain (by decide) (.escape (by decide) (.plain (by decide) .nil))
  have hobject : ObjectText quotedSymbolOrder.payload
      [⟨[], ascii "symbol", [], [], ascii "\"A\\\"B\"", []⟩] := by
    refine ⟨?_, [], [], by simp [Blank], by simp [Blank], rfl⟩
    intro n hn
    obtain rfl := List.mem_singleton.mp hn
    have hkey : Chars (ascii "symbol") := chars_of_plain (List.all_eq_true.mp (by decide))
    exact ⟨by simp [Member.Layout, Blank, hkey], .string hchars⟩
  have htext := h quotedSymbolOrder (World.initial fun _ => 0) (Or.inr ⟨_, hobject⟩) (by decide)
    fun htype => absurd htype (by decide)
  rw [dispatch_payload, responsePayload_buy _ rfl, text_readOrder_iff (Or.inr hobject.text)] at htext
  exact absurd htext.1 (by decide)

end HSFinancialServices.Services
