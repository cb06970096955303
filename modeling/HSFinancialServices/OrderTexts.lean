import HSFinancialServices.LoadGen.Requests
import HSFinancialServices.Services.OrderIdentity
import HSFinancialServices.Ui.Commands
import HSFinancialServices.Ui.Fields

/-!
# Orders and their acknowledgements as texts

Both clients write an order as a flat object and the server acknowledges it with another.
What the texts stand for survives both ways, whatever their values contain besides quotes.
-/

namespace HSFinancialServices
open Ascii FlatObject Services TextSearch

/-- What `extract_number` takes as a whole. -/
structure NumberText (n : Bytes) : Prop where
  ne_nil : n ≠ []
  chars : ∀ b ∈ n, isNumberChar b = true

theorem NumberText.notMem {n : Bytes} (h : NumberText n) {b : UInt8} (hb : isNumberChar b = false) :
    b ∉ n := by
  intro hmem
  rw [h.chars b hmem] at hb
  cases hb

theorem numberText_decimalInt (z : ℤ) : NumberText (decimalInt z) := by
  have hdigits : ∀ b ∈ decimal z.natAbs, isNumberChar b = true := by
    intro b hb
    simp only [isNumberChar, isDigit_of_mem_decimal hb, Bool.true_or]
  by_cases hneg : z < 0
  · rw [decimalInt, if_pos hneg]
    exact ⟨List.cons_ne_nil _ _, List.forall_mem_cons.mpr ⟨by decide, hdigits⟩⟩
  · rw [decimalInt, if_neg hneg]
    exact ⟨decimal_ne_nil _, hdigits⟩

/-- What `ExtractField` takes as a whole where it is no string: no blanks that are skipped
before it and nothing that ends it. -/
structure BareText (n : Bytes) : Prop where
  ne_nil : n ≠ []
  blank : ∀ b ∈ n, (b == space || b == tab) = false
  inside : ∀ b ∈ n, (!(b == comma || b == closeBrace)) = true

theorem BareText.of_chars {p : UInt8 → Bool} {n : Bytes} (hne : n ≠ [])
    (hchars : ∀ b ∈ n, p b = true)
    (hp : p space = false ∧ p tab = false ∧ p comma = false ∧ p closeBrace = false) :
    BareText n := by
  have hother : ∀ {b c : UInt8}, b ∈ n → p c = false → (b == c) = false := by
    intro b c hb hc
    apply beq_false_of_ne
    rintro rfl
    rw [hchars b hb] at hc
    cases hc
  refine ⟨hne, ?_, ?_⟩
  · intro b hb
    rw [hother hb hp.1, hother hb hp.2.1, Bool.or_false]
  · intro b hb
    rw [hother hb hp.2.2.1, hother hb hp.2.2.2, Bool.or_false, Bool.not_false]

theorem NumberText.bare {n : Bytes} (h : NumberText n) : BareText n :=
  .of_chars h.ne_nil h.chars (by decide)

theorem takeWhile_dropWhile_append {p q : UInt8 → Bool} {n rest : Bytes} {c : UInt8}
    (hne : n ≠ []) (hp : ∀ b ∈ n, p b = false) (hq : ∀ b ∈ n, q b = true) (hc : q c = false) :
    ((n ++ c :: rest).dropWhile p).takeWhile q = n := by
  have hdrop : (n ++ c :: rest).dropWhile p = n ++ c :: rest := by
    cases n with
    | nil => exact absurd rfl hne
    | cons b n => exact List.dropWhile_cons_of_neg (by simp [hp b (List.mem_cons_self ..)])
  rw [hdrop, List.takeWhile_append_of_pos hq, List.takeWhile_cons_of_neg (by simp [hc]),
    List.append_nil]

section FlatTexts
variable {key : Bytes} {ms : List Member}

theorem extractString_objectText (hkey : Plain key) (hms : ∀ m ∈ ms, m.Clean) :
    extractString (objectText ms) key = (ms.findSome? (Member.stringOf key)).getD [] := by
  rw [extractString_eq_cut]
  obtain ⟨v, rest, hv, hquote, hafter⟩ | ⟨hnone, hafter⟩ := after_stringKeyNeedle hkey hms
  · rw [hv]
    exact cut_of_after hafter hquote
  · rw [hnone]
    exact cut_of_after_eq_none quote hafter

theorem NumberText.takeWhile_dropWhile {n rest : Bytes} (hn : NumberText n) {c : UInt8}
    (hc : isNumberChar c = false) :
    ((n ++ c :: rest).dropWhile fun b => b == space || b == tab).takeWhile isNumberChar = n := by
  obtain ⟨hne, hblank, -⟩ := hn.bare
  exact takeWhile_dropWhile_append hne hblank hn.chars hc

theorem extractNumber_objectText (hkey : Plain key) (hms : ∀ m ∈ ms, m.Clean) {n k : Bytes}
    (hfind : ms.find? (fun m => m.key = key) = some ⟨k, .bare n⟩) (hn : NumberText n) :
    extractNumber (objectText ms) key = n := by
  obtain ⟨m, rest, -, hm, hafter⟩ | ⟨hnone, -⟩ := after_keyNeedle hkey hms
  · rw [hfind, Option.some.injEq] at hm
    subst hm
    obtain ⟨i, hi, htail⟩ := Option.map_eq_some_iff.mp hafter
    obtain ⟨c, rest', hc, hstop⟩ := memberTail_cons rest
    have hend : isNumberChar c = false := by
      rcases hstop with rfl | rfl <;> rfl
    rw [hc] at htail
    change find (numberNeedle key) (objectText ms) = some i at hi
    change (objectText ms).drop (i + (numberNeedle key).length) = n ++ c :: rest' at htail
    simp only [extractNumber, hi, htail]
    exact hn.takeWhile_dropWhile hend
  · rw [hfind] at hnone
    cases hnone

open Ui in
theorem extractField_objectText_string (hkey : Plain key) (hms : ∀ m ∈ ms, m.Clean) {v : Bytes}
    (hfind : ms.findSome? (Member.stringOf key) = some v) :
    extractField (objectText ms) key = v := by
  have hread := extractString_objectText hkey hms
  obtain ⟨v', rest, hv', -, hafter⟩ | ⟨hnone, -⟩ := after_stringKeyNeedle hkey hms
  · obtain ⟨i, hi, -⟩ := Option.map_eq_some_iff.mp hafter
    change find (stringNeedle key) (objectText ms) = some i at hi
    rw [hfind, Option.getD_some] at hread
    simp only [extractString, hi] at hread
    simp only [extractField, hi]
    rw [← hread]
    split <;> split <;> simp_all
  · rw [hfind] at hnone
    cases hnone

open Ui in
theorem extractField_objectText_bare (hkey : Plain key) (hms : ∀ m ∈ ms, m.Clean) {n k : Bytes}
    (hnone : ms.findSome? (Member.stringOf key) = none)
    (hfind : ms.find? (fun m => m.key = key) = some ⟨k, .bare n⟩) (hn : BareText n) :
    extractField (objectText ms) key = n := by
  obtain ⟨v, rest, hv, -⟩ | ⟨-, hstring⟩ := after_stringKeyNeedle hkey hms
  · rw [hnone] at hv
    cases hv
  obtain ⟨m, rest, -, hm, hafter⟩ | ⟨hnone', -⟩ := after_keyNeedle hkey hms
  · rw [hfind, Option.some.injEq] at hm
    subst hm
    obtain ⟨i, hi, htail⟩ := Option.map_eq_some_iff.mp hafter
    obtain ⟨c, rest', hc, hstop⟩ := memberTail_cons rest
    rw [hc] at htail
    change find (numberNeedle key) (objectText ms) = some i at hi
    change (objectText ms).drop (i + (numberNeedle key).length) = n ++ c :: rest' at htail
    have hfirst : find (stringNeedle key) (objectText ms) = none :=
      Option.map_eq_none_iff.mp hstring
    simp only [extractField, hfirst, hi, htail]
    apply takeWhile_dropWhile_append hn.ne_nil hn.blank hn.inside
    rcases hstop with rfl | rfl <;> rfl
  · rw [hfind] at hnone'
    cases hnone'

end FlatTexts

theorem plain_symbol : Plain (ascii "symbol") := by decide
theorem plain_qty : Plain (ascii "qty") := by decide
theorem plain_price : Plain (ascii "price") := by decide
theorem plain_account : Plain (ascii "account") := by decide

def orderMembers (symbol qty price account : Bytes) : List Member :=
  [⟨ascii "symbol", .string symbol⟩, ⟨ascii "qty", .bare qty⟩, ⟨ascii "price", .bare price⟩,
    ⟨ascii "account", .string account⟩]

theorem orderPayload_eq_objectText (symbol : Bytes) (qty : ℤ) (price account : Bytes) :
    Ui.orderPayload symbol qty price account =
      objectText (orderMembers symbol (decimalInt qty) price account) := by
  simp only [Ui.orderPayload, orderMembers, objectText, memberTail, Member.text, Value.text,
    List.append_assoc, List.cons_append, List.nil_append]
  rfl

theorem loadGen_orderPayload_eq (sym : Bytes) (qty : ℤ) (price : Bytes) :
    LoadGen.orderPayload sym qty price = Ui.orderPayload sym qty price (ascii "ACC-001") := by
  simp only [LoadGen.orderPayload, Ui.orderPayload, List.append_assoc]
  rfl

theorem orderMembers_clean {symbol qty price account : Bytes} (hsymbol : quote ∉ symbol)
    (hqty : NumberText qty) (hprice : NumberText price) (haccount : quote ∉ account) :
    ∀ m ∈ orderMembers symbol qty price account, m.Clean := by
  intro m hm
  simp only [orderMembers, List.mem_cons, List.not_mem_nil, or_false] at hm
  rcases hm with rfl | rfl | rfl | rfl
  · exact ⟨plain_symbol.quote, hsymbol⟩
  · exact ⟨plain_qty.quote, hqty.notMem (by rfl)⟩
  · exact ⟨plain_price.quote, hprice.notMem (by rfl)⟩
  · exact ⟨plain_account.quote, haccount⟩

theorem readOrder_orderPayload {symbol account price : Bytes} (qty : ℤ)
    (hsymbol : symbol ≠ [] ∧ quote ∉ symbol) (haccount : account ≠ [] ∧ quote ∉ account)
    (hprice : NumberText price) :
    readOrder (Ui.orderPayload symbol qty price account) =
      ⟨symbol, decimalInt qty, price, account⟩ := by
  have hqty := numberText_decimalInt qty
  have hclean := orderMembers_clean hsymbol.2 hqty hprice haccount.2
  rw [orderPayload_eq_objectText]
  have hread_symbol : extractString (objectText (orderMembers symbol (decimalInt qty) price account))
      (ascii "symbol") = symbol := extractString_objectText plain_symbol hclean
  have hread_account : extractString
      (objectText (orderMembers symbol (decimalInt qty) price account)) (ascii "account") = account :=
    extractString_objectText plain_account hclean
  have hread_qty : extractNumber (objectText (orderMembers symbol (decimalInt qty) price account))
      (ascii "qty") = decimalInt qty := extractNumber_objectText plain_qty hclean (by rfl) hqty
  have hread_price : extractNumber (objectText (orderMembers symbol (decimalInt qty) price account))
      (ascii "price") = price := extractNumber_objectText plain_price hclean (by rfl) hprice
  simp only [readOrder, hread_symbol, hread_account, hread_qty, hread_price, orDefault, hsymbol.1,
    haccount.1, hqty.ne_nil, hprice.ne_nil, if_false]

theorem order_round_trip (symbol account price : Bytes) (qty : ℤ)
    (hsymbol : symbol ≠ [] ∧ quote ∉ symbol) (haccount : account ≠ [] ∧ quote ∉ account)
    (hprice : price ≠ [] ∧ ∀ b ∈ price, isNumberChar b = true) :
    readOrder (Ui.orderPayload symbol qty price account) =
        ⟨symbol, decimalInt qty, price, account⟩ ∧
      readOrder (LoadGen.orderPayload symbol qty price) =
        ⟨symbol, decimalInt qty, price, ascii "ACC-001"⟩ := by
  have hnumber : NumberText price := ⟨hprice.1, hprice.2⟩
  refine ⟨readOrder_orderPayload qty hsymbol haccount hnumber, ?_⟩
  rw [loadGen_orderPayload_eq]
  exact readOrder_orderPayload qty hsymbol (by decide) hnumber

theorem order_round_trip_field_names :
    readOrder (Ui.orderPayload (ascii "qty") (-5) (ascii "1.5") (ascii "price:\\,\x7dqty")) =
      ⟨ascii "qty", ascii "-5", ascii "1.5", ascii "price:\\,\x7dqty"⟩ :=
  (order_round_trip (ascii "qty") (ascii "price:\\,\x7dqty") (ascii "1.5") (-5) (by decide)
    (by decide) ⟨by decide, List.all_eq_true.mp (by decide)⟩).1

def ackMembers (order : Order) (side : Side) (orderId : UInt64) : List Member :=
  [⟨ascii "order_id", .string (orderIdText orderId)⟩, ⟨ascii "symbol", .string order.symbol⟩,
    ⟨ascii "side", .string side.text⟩, ⟨ascii "account", .string order.account⟩,
    ⟨ascii "qty", .bare order.qty⟩, ⟨ascii "price", .bare order.price⟩,
    ⟨ascii "status", .string (ascii "FILLED")⟩]

theorem orderAckText_eq_objectText (order : Order) (side : Side) (orderId : UInt64) :
    orderAckText order side orderId = objectText (ackMembers order side orderId) := by
  simp only [orderAckText, ackMembers, objectText, memberTail, Member.text, Value.text,
    List.append_assoc, List.cons_append, List.nil_append]
  rfl

/-- The texts that the server reads from any request whatsoever -/
structure Services.Order.Sound (order : Order) : Prop where
  symbol : quote ∉ order.symbol
  qty : NumberText order.qty
  price : NumberText order.price
  account : quote ∉ order.account

theorem numberText_orDefault (json key : Bytes) :
    NumberText (orDefault (extractNumber json key) (ascii "0")) := by
  refine ⟨orDefault_ne_nil _ (by decide), ?_⟩
  obtain h | h := orDefault_eq_or (extractNumber json key) (ascii "0")
  · rw [h]
    exact List.all_eq_true.mp (by decide)
  · rw [h]
    exact fun b hb => isNumberChar_of_mem_extractNumber hb

theorem quote_notMem_orDefault (json key : Bytes) {fallback : Bytes} (h : quote ∉ fallback) :
    quote ∉ orDefault (extractString json key) fallback := by
  obtain heq | heq := orDefault_eq_or (extractString json key) fallback
  · rwa [heq]
  · rw [heq]
    exact quote_notMem_extractString json key

theorem readOrder_sound (requestJson : Bytes) : (readOrder requestJson).Sound where
  symbol := quote_notMem_orDefault requestJson _ (by decide)
  qty := numberText_orDefault requestJson _
  price := numberText_orDefault requestJson _
  account := quote_notMem_orDefault requestJson _ (by decide)

theorem ackMembers_clean {order : Order} (h : order.Sound) (side : Side) (orderId : UInt64) :
    ∀ m ∈ ackMembers order side orderId, m.Clean := by
  have hside : quote ∉ side.text := by cases side <;> decide
  have horder_id : Plain (ascii "order_id") := by decide
  have hside_key : Plain (ascii "side") := by decide
  have hstatus : Plain (ascii "status") := by decide
  have hfilled : quote ∉ ascii "FILLED" := by decide
  intro m hm
  simp only [ackMembers, List.mem_cons, List.not_mem_nil, or_false] at hm
  rcases hm with rfl | rfl | rfl | rfl | rfl | rfl | rfl
  · exact ⟨horder_id.quote, quote_notMem_orderText orderId.toNat⟩
  · exact ⟨plain_symbol.quote, h.symbol⟩
  · exact ⟨hside_key.quote, hside⟩
  · exact ⟨plain_account.quote, h.account⟩
  · exact ⟨plain_qty.quote, h.qty.notMem (by rfl)⟩
  · exact ⟨plain_price.quote, h.price.notMem (by rfl)⟩
  · exact ⟨hstatus.quote, hfilled⟩

/-- The client displays what the server inserted, for every request. -/
theorem ack_round_trip (requestJson : Bytes) (side : Side) (orderCounter : UInt64) :
    let order := readOrder requestJson
    let ack := (buildOrderAck requestJson side orderCounter).1
    Ui.extractField ack (ascii "order_id") = ascii "ORD-" ++ decimal orderCounter.toNat ∧
      Ui.extractField ack (ascii "symbol") = order.symbol ∧
      Ui.extractField ack (ascii "side") = side.text ∧
      Ui.extractField ack (ascii "account") = order.account ∧
      Ui.extractField ack (ascii "qty") = order.qty ∧
      Ui.extractField ack (ascii "price") = order.price ∧
      Ui.extractField ack (ascii "status") = ascii "FILLED" := by
  intro order ack
  have hsound : order.Sound := readOrder_sound requestJson
  have hclean := ackMembers_clean hsound side orderCounter
  have hack : ack = objectText (ackMembers order side orderCounter) :=
    orderAckText_eq_objectText order side orderCounter
  rw [hack]
  refine ⟨?_, ?_, ?_, ?_, ?_, ?_, ?_⟩
  · exact extractField_objectText_string (by decide) hclean (by rfl)
  · exact extractField_objectText_string plain_symbol hclean (by rfl)
  · exact extractField_objectText_string (by decide) hclean (by rfl)
  · exact extractField_objectText_string plain_account hclean (by rfl)
  · exact extractField_objectText_bare plain_qty hclean (by rfl) (by rfl) hsound.qty.bare
  · exact extractField_objectText_bare plain_price hclean (by rfl) (by rfl) hsound.price.bare
  · exact extractField_objectText_string (by decide) hclean (by rfl)

end HSFinancialServices
