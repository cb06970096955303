import HSFinancialServices.Services.Registry
import HSFinancialServices.SessionStream
import HSFinancialServices.Ui.Protocol

/-!
# The size of the responses

The bound on request payloads does not carry over to the responses: every handler
wraps the text it cuts out of the request, and the SQL handler may double it. The
lengths are computed exactly, handler by handler.
-/

namespace HSFinancialServices.Services
open Ascii

def needsEscape (c : UInt8) : Bool :=
  c == quote || c == backslash || c == newline || c == carriageReturn || c == tab

theorem length_escapeByte (c : UInt8) :
    (escapeByte c).length = if needsEscape c then 2 else 1 := by
  by_cases h₁ : c = quote
  · subst h₁
    rfl
  by_cases h₂ : c = backslash
  · subst h₂
    rfl
  by_cases h₃ : c = newline
  · subst h₃
    rfl
  by_cases h₄ : c = carriageReturn
  · subst h₄
    rfl
  by_cases h₅ : c = tab
  · subst h₅
    rfl
  simp [escapeByte, needsEscape, h₁, h₂, h₃, h₄, h₅]

theorem length_jsonEscape (s : Bytes) :
    (jsonEscape s).length = s.length + s.countP needsEscape := by
  induction s with
  | nil => rfl
  | cons c s ih =>
    simp only [jsonEscape, List.flatMap_cons, List.length_append, List.length_cons,
      List.countP_cons] at ih ⊢
    rw [length_escapeByte, ih]
    split_ifs <;> omega

theorem length_handleSqlQuery (p : Bytes) :
    (handleSqlQuery p).length =
      if extractString p (ascii "sql") = [] then 31
      else (extractString p (ascii "sql")).length +
        (extractString p (ascii "sql")).countP needsEscape + 188 := by
  have hrows : sqlRows.length = 186 := rfl
  have hend : (ascii "\"\x7d").length = 2 := rfl
  have hmissing : missingSqlField.length = 31 := rfl
  simp only [handleSqlQuery]
  split_ifs
  · exact hmissing
  · rw [List.length_append, List.length_append, length_jsonEscape, hrows, hend]
    omega

def Order.size (order : Order) : ℕ :=
  order.symbol.length + order.qty.length + order.price.length + order.account.length

theorem length_orderAckText (order : Order) (side : Side) (orderId : UInt64) :
    (orderAckText order side orderId).length =
      order.size + (decimal orderId.toNat).length + side.text.length + 88 := by
  simp only [orderAckText, orderIdText, List.length_append, Order.size]
  have h₁ : (ascii "\x7b\"order_id\":\"").length = 13 := rfl
  have h₂ : (ascii "ORD-").length = 4 := rfl
  have h₃ : (ascii "\",\"symbol\":\"").length = 12 := rfl
  have h₄ : (ascii "\",\"side\":\"").length = 10 := rfl
  have h₅ : (ascii "\",\"account\":\"").length = 13 := rfl
  have h₆ : (ascii "\",\"qty\":").length = 8 := rfl
  have h₇ : (ascii ",\"price\":").length = 9 := rfl
  have h₈ : (ascii ",\"status\":\"FILLED\"\x7d").length = 19 := rfl
  omega

theorem length_handleGetPosition (p : Bytes) :
    (handleGetPosition p).length =
      (orDefault (extractString p (ascii "account")) (ascii "UNKNOWN")).length + 274 := by
  have hstart : (ascii "\x7b\"account\":\"").length = 12 := rfl
  have hmiddle : (ascii "\",").length = 2 := rfl
  have hrows : positionRows.length = 260 := by decide +kernel
  simp only [handleGetPosition, List.length_append, hstart, hmiddle, hrows]
  omega

variable {D : Type*} (dbl : Doubles D)

def candlesSize (p : Bytes) (now : ℤ) : ℕ :=
  (commaJoin ((historyCandles dbl p now).map (candleText dbl))).length

theorem length_handleGetPriceHistory (p : Bytes) (now : ℤ) :
    (handleGetPriceHistory dbl p now).length =
      (historySymbol p).length + candlesSize dbl p now + 26 := by
  have hstart : (ascii "\x7b\"symbol\":\"").length = 11 := rfl
  have hmiddle : (ascii "\",\"history\":[").length = 13 := rfl
  have hend : (ascii "]\x7d").length = 2 := rfl
  simp only [handleGetPriceHistory, candlesSize, List.length_append, hstart, hmiddle, hend]
  omega

end HSFinancialServices.Services
