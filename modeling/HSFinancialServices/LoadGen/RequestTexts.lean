import HSFinancialServices.LoadGen.Framing
import HSFinancialServices.LoadGen.PickWindow
import HSFinancialServices.LoadGen.Successes
import HSFinancialServices.OrderTexts
import HSFinancialServices.Services.Days
import HSFinancialServices.Services.ResponseBound

/-!
# What the load generator asks and what it gets

Whatever the scenario and the state of a client's generator, its next request is one of five
texts with the drawn values in their ranges. The services read these values back, and no
request of this kind is refused or answered with more than the peers accept.
-/

namespace HSFinancialServices.LoadGen
open Ascii FlatObject Services TextSearch

def sqlText (sym : Bytes) : Bytes :=
  ascii "SELECT symbol, price FROM quotes WHERE symbol='" ++ sym ++ ascii "'"

inductive Asked (printPrice : ℕ → Bytes) : Message → Prop
  | sql {sym : Bytes} : sym ∈ symbols →
      Asked printPrice (Message.make MessageType.kSqlQuery (sqlPayload sym) 0)
  | buy {sym : Bytes} {qty : ℤ} {cents : ℕ} : sym ∈ symbols → 10 ≤ qty → qty ≤ 500 →
      cents < 20000 →
      Asked printPrice
        (Message.make MessageType.kBuyOrder (orderPayload sym qty (printPrice cents)) 0)
  | sell {sym : Bytes} {qty : ℤ} {cents : ℕ} : sym ∈ symbols → 10 ≤ qty → qty ≤ 500 →
      cents < 20000 →
      Asked printPrice
        (Message.make MessageType.kSellOrder (orderPayload sym qty (printPrice cents)) 0)
  | position : Asked printPrice (Message.make MessageType.kGetPosition positionPayload 0)
  | history {sym : Bytes} {days : ℕ} : sym ∈ symbols → 7 ≤ days → days ≤ 30 →
      Asked printPrice (Message.make MessageType.kGetPriceHistory (historyPayload sym days) 0)

theorem getD_mem_symbols (rngState : UInt64) :
    symbols.getD (rngState % 5).toNat [] ∈ symbols := by
  have hlt : (rngState % 5).toNat < symbols.length := by
    rw [UInt64.toNat_mod]
    exact Nat.mod_lt _ (by decide)
  rw [List.getD_eq_getElem _ _ hlt]
  exact List.getElem_mem hlt

theorem toNat_mod_lt (rngState : UInt64) {m : UInt64} (hm : 0 < m.toNat) :
    (rngState % m).toNat < m.toNat := by
  rw [UInt64.toNat_mod]
  exact Nat.mod_lt _ hm

theorem nextRequest_asked (printPrice : ℕ → Bytes) (scenario : ScenarioConfig)
    (rngState : UInt64) : Asked printPrice (nextRequest printPrice scenario rngState).1 := by
  have hsym := getD_mem_symbols (nextRand (nextRand rngState))
  have hqty : ∀ x : UInt64, (x % 491).toNat < 491 := fun x => toNat_mod_lt x (by decide)
  have hcents : ∀ x : UInt64, (x % 20000).toNat < 20000 := fun x => toNat_mod_lt x (by decide)
  have hdays : ∀ x : UInt64, (x % 24).toNat < 24 := fun x => toNat_mod_lt x (by decide)
  simp only [nextRequest]
  split_ifs
  · exact .sql hsym
  · refine .buy hsym ?_ ?_ (hcents _)
    · omega
    · have hlt := hqty (nextRand (nextRand (nextRand rngState)))
      omega
  · refine .sell hsym ?_ ?_ (hcents _)
    · omega
    · have hlt := hqty (nextRand (nextRand (nextRand rngState)))
      omega
  · exact .position
  · have hlt := hdays (nextRand (nextRand (nextRand rngState)))
    rw [← Nat.cast_ofNat, ← Nat.cast_add]
    exact .history hsym (by omega) (by omega)

theorem mem_symbols_text {sym : Bytes} (h : sym ∈ symbols) :
    sym ≠ [] ∧ quote ∉ sym ∧ sym.length ≤ 5 := by
  have hall : ∀ sym ∈ symbols, sym ≠ [] ∧ quote ∉ sym ∧ sym.length ≤ 5 := by decide
  exact hall sym h

theorem quote_notMem_sqlText {sym : Bytes} (h : sym ∈ symbols) : quote ∉ sqlText sym := by
  have hall : ∀ sym ∈ symbols, quote ∉ sqlText sym := by decide
  exact hall sym h

theorem extractString_sqlPayload {sym : Bytes} (h : sym ∈ symbols) :
    extractString (sqlPayload sym) (ascii "sql") = sqlText sym := by
  have htext : sqlPayload sym = objectText [⟨ascii "sql", .string (sqlText sym)⟩] := by
    simp only [sqlPayload, sqlText, objectText, memberTail, Member.text, Value.text,
      List.append_assoc, List.cons_append, List.nil_append]
    rfl
  have hkey : Plain (ascii "sql") := by decide
  have hclean : ∀ m ∈ [(⟨ascii "sql", .string (sqlText sym)⟩ : Member)], m.Clean := by
    intro m hm
    rw [List.mem_singleton] at hm
    rw [hm]
    exact ⟨hkey.quote, quote_notMem_sqlText h⟩
  rw [htext]
  exact extractString_objectText hkey hclean

def historyMembers (sym : Bytes) (days : ℤ) : List Member :=
  [⟨ascii "symbol", .string sym⟩, ⟨ascii "days", .bare (decimalInt days)⟩]

theorem plain_days : Plain (ascii "days") := by decide

theorem historyPayload_eq_objectText (sym : Bytes) (days : ℤ) :
    historyPayload sym days = objectText (historyMembers sym days) := by
  simp only [historyPayload, historyMembers, objectText, memberTail, Member.text, Value.text,
    List.append_assoc, List.cons_append, List.nil_append]
  rfl

theorem historyMembers_clean {sym : Bytes} (h : quote ∉ sym) (days : ℤ) :
    ∀ m ∈ historyMembers sym days, m.Clean := by
  intro m hm
  simp only [historyMembers, List.mem_cons, List.not_mem_nil, or_false] at hm
  rcases hm with rfl | rfl
  · exact ⟨plain_symbol.quote, h⟩
  · exact ⟨plain_days.quote, (numberText_decimalInt days).notMem (by rfl)⟩

theorem historySymbol_historyPayload {sym : Bytes} (h : sym ∈ symbols) (days : ℤ) :
    historySymbol (historyPayload sym days) = sym := by
  obtain ⟨hne, hquote, -⟩ := mem_symbols_text h
  have hread : extractString (objectText (historyMembers sym days)) (ascii "symbol") = sym :=
    extractString_objectText plain_symbol (historyMembers_clean hquote days)
  rw [historySymbol, historyPayload_eq_objectText, hread, orDefault, if_neg hne]

theorem hasInt_historyPayload {sym : Bytes} (h : quote ∉ sym) (days : ℕ) :
    HasInt (historyPayload sym days) (ascii "days") (decimal days) := by
  have hdigits : ∀ b ∈ decimal days, isDigit b = true := fun b hb => isDigit_of_mem_decimal hb
  have hdecimal : decimalInt (days : ℤ) = decimal days := by simp [decimalInt]
  refine ⟨decimal_ne_nil days, hdigits, ?_⟩
  obtain ⟨m, rest, -, hm, hafter⟩ | ⟨hnone, -⟩ :=
    after_keyNeedle plain_days (historyMembers_clean h days)
  · have hvalue : (historyMembers sym days).find? (fun m => m.key = ascii "days") =
        some ⟨ascii "days", .bare (decimalInt days)⟩ := by rfl
    rw [hvalue, Option.some.injEq] at hm
    subst hm
    rw [← historyPayload_eq_objectText] at hafter
    obtain ⟨i, hi, htail⟩ := Option.map_eq_some_iff.mp hafter
    obtain ⟨c, rest', hc, hstop⟩ := memberTail_cons rest
    refine ⟨i, 0, memberTail rest, (find_eq_some_iff (numberNeedle_ne_nil _)).mp hi, ?_, ?_⟩
    · change (historyPayload sym days).drop (i + (numberNeedle (ascii "days")).length) = _ at htail
      rw [htail, List.replicate_zero, List.nil_append]
      change decimalInt days ++ memberTail rest = _
      rw [hdecimal]
    · intro b hb
      rw [hc, List.head?_cons, Option.mem_some] at hb
      rw [← hb]
      rcases hstop with rfl | rfl <;> rfl
  · have hvalue : (historyMembers sym days).find? (fun m => m.key = ascii "days") =
        some ⟨ascii "days", .bare (decimalInt days)⟩ := by rfl
    rw [hvalue] at hnone
    cases hnone

theorem effectiveDays_historyPayload {sym : Bytes} (h : quote ∉ sym) {days : ℕ} (hpos : 1 ≤ days)
    (hle : days ≤ 365) : effectiveDays (historyPayload sym days) = days := by
  have hint := hasInt_historyPayload h days
  obtain ⟨-, hvalue⟩ := noOverflow_iff hint.isDigit
  rw [value_decimal] at hvalue
  rw [effectiveDays, extractInt_eq, hint.intDigits]
  simp only [hint.ne_nil, if_false, hvalue (by omega)]
  rw [if_neg (by omega)]
  exact Int.toNat_natCast days

theorem readOrder_loadGen {sym price : Bytes} (h : sym ∈ symbols) (qty : ℤ)
    (hprice : NumberText price) :
    readOrder (orderPayload sym qty price) = ⟨sym, decimalInt qty, price, ascii "ACC-001"⟩ := by
  obtain ⟨hne, hquote, -⟩ := mem_symbols_text h
  rw [loadGen_orderPayload_eq]
  exact readOrder_orderPayload qty ⟨hne, hquote⟩ (by decide) hprice

section Answers
variable {printPrice : ℕ → Bytes} {m : Message}

structure PrintsNumbers (printPrice : ℕ → Bytes) : Prop where
  number : ∀ cents < 20000, NumberText (printPrice cents)
  length : ∀ cents < 20000, (printPrice cents).length ≤ 13

theorem priceText_printsNumbers : PrintsNumbers priceText where
  number cents _ := by
    have hdigit : ∀ d, isNumberChar (digit (d % 10)) = true := by
      intro d
      rw [isNumberChar, isDigit_digit (Nat.mod_lt d (by decide)), Bool.true_or, Bool.true_or]
    refine ⟨List.append_ne_nil_of_left_ne_nil (decimal_ne_nil _) _, ?_⟩
    intro b hb
    obtain hb | hb := List.mem_append.mp hb
    · rw [isNumberChar, isDigit_of_mem_decimal hb, Bool.true_or, Bool.true_or]
    · split_ifs at hb
      · cases hb
      all_goals
        simp only [List.mem_cons, List.not_mem_nil, or_false] at hb
        rcases hb with rfl | hb
        · rfl
      · rw [hb, hdigit]
      · rcases hb with rfl | rfl <;> exact hdigit _
  length cents hcents := by
    have hint : (decimal (100 + cents / 100)).length ≤ 3 :=
      length_decimal_le (by norm_num) (by omega)
    simp only [priceText, List.length_append]
    split_ifs <;> simp only [List.length_cons, List.length_nil] <;> omega

theorem length_orderPayload_le {sym price : Bytes} {qty : ℤ} (hsym : sym.length ≤ 5)
    (hprice : price.length ≤ 13) (hqty : qty.natAbs < 1000) :
    (orderPayload sym qty price).length ≤ 100 := by
  have h₁ : (ascii "\x7b\"symbol\":\"").length = 11 := rfl
  have h₂ : (ascii "\",\"qty\":").length = 8 := rfl
  have h₃ : (ascii ",\"price\":").length = 9 := rfl
  have h₄ : (ascii ",\"account\":\"ACC-001\"\x7d").length = 21 := rfl
  have hint : (decimalInt qty).length ≤ 3 + 1 := length_decimalInt_le (by norm_num) (by omega)
  simp only [orderPayload, List.length_append, h₁, h₂, h₃, h₄]
  omega

theorem Asked.length_le (h : Asked printPrice m) (hprint : PrintsNumbers printPrice) :
    m.payload.length ≤ 100 := by
  cases h with
  | sql hsym =>
    have hall : ∀ sym ∈ symbols, (sqlPayload sym).length ≤ 100 := by decide
    exact hall _ hsym
  | buy hsym hlow hhigh hcents | sell hsym hlow hhigh hcents =>
    exact length_orderPayload_le (mem_symbols_text hsym).2.2 (hprint.length _ hcents) (by omega)
  | position => exact Nat.le_of_ble_eq_true rfl
  | @history sym days hsym hlow hhigh =>
    have h₁ : (ascii "\x7b\"symbol\":\"").length = 11 := rfl
    have h₂ : (ascii "\",\"days\":").length = 9 := rfl
    have h₃ : (ascii "\x7d").length = 1 := rfl
    have hshort := (mem_symbols_text hsym).2.2
    have hint : (decimalInt (days : ℤ)).length ≤ 2 + 1 :=
      length_decimalInt_le (by norm_num) (by omega)
    simp only [Message.make_payload, historyPayload, List.length_append, h₁, h₂, h₃]
    omega

theorem Asked.sized (h : Asked printPrice m) (hprint : PrintsNumbers printPrice) : m.Sized := by
  have hle := h.length_le hprint
  have hmax : m.payload.length ≤ kMaxPayloadSize.toNat := by
    rw [kMaxPayloadSize_toNat]
    omega
  cases h with
  | sql | buy | sell | position | history => exact Message.make_sized hmax _ _

variable {D : Type*} {dbl : Doubles D} {w : World}

theorem serverRouter_fails_iff (request : Message) (w : World) :
    (serverRouter dbl).Fails request w ↔
      (serverRouter dbl).handlers request.header.messageType = none := by
  constructor
  · rintro (hnone | ⟨handler, what, hsome, herror⟩)
    · exact hnone
    · simp only [serverRouter] at hsome
      split_ifs at hsome <;> cases hsome <;> cases herror
  · exact .inl

theorem Asked.not_fails (h : Asked printPrice m) (w : World) : ¬ (serverRouter dbl).Fails m w := by
  rw [serverRouter_fails_iff]
  cases h with
  | sql | buy | sell | position | history => exact Option.some_ne_none _

/-- Nothing that the load generator asks for gets an error or the answer to something else. -/
theorem Asked.rightAnswer (h : Asked printPrice m) (w : World) :
    RightAnswer ⟨m, ((serverRouter dbl).dispatch m w).1⟩ = true := by
  rw [RightAnswer, ServiceRouter.dispatch_type_of_succeeds (h.not_fails w), Bool.and_eq_true]
  refine ⟨?_, beq_self_eq_true _⟩
  cases h with
  | sql | buy | sell | position | history =>
    rw [Message.make_messageType]
    decide

theorem Asked.response_sized (h : Asked printPrice m) (hprint : PrintsNumbers printPrice)
    (hshort : ShortPrints dbl w.clock) : ((serverRouter dbl).dispatch m w).1.Sized := by
  have hle := h.length_le hprint
  apply ServiceRouter.dispatch_sized
  rw [dispatch_payload, kMaxPayloadSize_toNat]
  cases h with
  | @sql sym hsym =>
    have hextract := length_extractString_le (sqlPayload sym) (ascii "sql")
    have hescape := List.countP_le_length (p := needsEscape)
      (l := extractString (sqlPayload sym) (ascii "sql"))
    rw [Message.make_payload] at hle
    rw [responsePayload_sql w rfl, Message.make_payload, length_handleSqlQuery]
    split_ifs <;> omega
  | @buy sym qty cents | @sell sym qty cents =>
    have horder := size_readOrder_le (orderPayload sym qty (printPrice cents))
    have hid : (decimal w.orderCounter.toNat).length ≤ 20 :=
      length_decimal_le (by norm_num) (w.orderCounter.toNat_lt.trans (by norm_num))
    first
      | rw [responsePayload_buy w rfl, length_orderAckText]
      | rw [responsePayload_sell w rfl, length_orderAckText]
    simp only [Message.make_payload, Side.text] at hle ⊢
    have hside : (ascii "BUY").length = 3 ∧ (ascii "SELL").length = 4 := ⟨rfl, rfl⟩
    omega
  | position =>
    have haccount : (orDefault (extractString positionPayload (ascii "account"))
        (ascii "UNKNOWN")).length = 7 := rfl
    rw [responsePayload_position w rfl, length_handleGetPosition]
    simp only [Message.make_payload, haccount]
    omega
  | @history sym days hsym =>
    have hcandles := candlesSize_le hshort (historyPayload sym days) w.clockReads
    have hsymbol := (mem_symbols_text hsym).2.2
    rw [responsePayload_history w rfl, length_handleGetPriceHistory]
    simp only [Message.make_payload, historySymbol_historyPayload hsym, World.time]
    omega

end Answers

end HSFinancialServices.LoadGen
