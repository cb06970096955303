import HSFinancialServices.Services.Fields

/-!
# The SQL, trade, position and ping handlers

The stub handlers answer with fixed rows around the text they cut out of the
request. Only the SQL handler escapes that text.
-/

namespace HSFinancialServices.Services
open Ascii

def orDefault (extracted fallback : Bytes) : Bytes :=
  if extracted = [] then fallback else extracted

def escapeByte (c : UInt8) : Bytes :=
  if c = quote then [backslash, quote]
  else if c = backslash then [backslash, backslash]
  else if c = newline then ascii "\\n"
  else if c = carriageReturn then ascii "\\r"
  else if c = tab then ascii "\\t"
  else [c]

def jsonEscape (s : Bytes) : Bytes := s.flatMap escapeByte

def missingSqlField : Bytes := ascii "\x7b\"error\":\"missing 'sql' field\"\x7d"

def sqlRows : Bytes :=
  ascii "\x7b\"rows\":[" ++
    ascii "\x7b\"symbol\":\"AAPL\",\"price\":182.50,\"volume\":52000000\x7d," ++
    ascii "\x7b\"symbol\":\"MSFT\",\"price\":310.10,\"volume\":28000000\x7d," ++
    ascii "\x7b\"symbol\":\"GOOGL\",\"price\":140.75,\"volume\":18000000\x7d" ++
    ascii "],\"affected\":0,\"query\":\""

def handleSqlQuery (requestJson : Bytes) : Bytes :=
  let sql := extractString requestJson (ascii "sql")
  if sql = [] then missingSqlField
  else sqlRows ++ jsonEscape sql ++ ascii "\"\x7d"

inductive Side
  | buy
  | sell
  deriving DecidableEq, Repr

def Side.text : Side → Bytes
  | .buy => ascii "BUY"
  | .sell => ascii "SELL"

structure Order where
  symbol : Bytes
  qty : Bytes
  price : Bytes
  account : Bytes
  deriving DecidableEq, Repr

def readOrder (requestJson : Bytes) : Order :=
  { symbol := orDefault (extractString requestJson (ascii "symbol")) (ascii "UNKNOWN")
    qty := orDefault (extractNumber requestJson (ascii "qty")) (ascii "0")
    price := orDefault (extractNumber requestJson (ascii "price")) (ascii "0")
    account := orDefault (extractString requestJson (ascii "account")) (ascii "N/A") }

def orderIdText (orderId : UInt64) : Bytes := ascii "ORD-" ++ decimal orderId.toNat

def orderAckText (order : Order) (side : Side) (orderId : UInt64) : Bytes :=
  ascii "\x7b\"order_id\":\"" ++ orderIdText orderId ++ ascii "\",\"symbol\":\"" ++ order.symbol ++
    ascii "\",\"side\":\"" ++ side.text ++ ascii "\",\"account\":\"" ++ order.account ++
    ascii "\",\"qty\":" ++ order.qty ++ ascii ",\"price\":" ++ order.price ++
    ascii ",\"status\":\"FILLED\"\x7d"

/-- `fetch_add` on the shared counter returns the value before the increment. -/
def buildOrderAck (requestJson : Bytes) (side : Side) (orderCounter : UInt64) : Bytes × UInt64 :=
  (orderAckText (readOrder requestJson) side orderCounter, orderCounter + 1)

def handleBuyOrder (requestJson : Bytes) (orderCounter : UInt64) : Bytes × UInt64 :=
  buildOrderAck requestJson .buy orderCounter

def handleSellOrder (requestJson : Bytes) (orderCounter : UInt64) : Bytes × UInt64 :=
  buildOrderAck requestJson .sell orderCounter

def positionRows : Bytes :=
  ascii "\"positions\":[" ++
    ascii ("\x7b\"symbol\":\"AAPL\",\"qty\":500,\"avg_cost\":178.30,\"current\":182.50," ++
      "\"pnl\":2100.00\x7d,") ++
    ascii ("\x7b\"symbol\":\"MSFT\",\"qty\":200,\"avg_cost\":305.10,\"current\":310.10," ++
      "\"pnl\":1000.00\x7d,") ++
    ascii ("\x7b\"symbol\":\"GOOGL\",\"qty\":50,\"avg_cost\":138.20,\"current\":140.75," ++
      "\"pnl\":127.50\x7d") ++
    ascii "],\"cash\":12345.67\x7d"

def handleGetPosition (requestJson : Bytes) : Bytes :=
  let account := orDefault (extractString requestJson (ascii "account")) (ascii "UNKNOWN")
  ascii "\x7b\"account\":\"" ++ account ++ ascii "\"," ++ positionRows

def handlePing (payload : Bytes) : Bytes :=
  if payload = [] then ascii "\x7b\"seq\":0\x7d" else payload

theorem orDefault_eq_or (extracted fallback : Bytes) :
    orDefault extracted fallback = fallback ∨ orDefault extracted fallback = extracted := by
  by_cases h : extracted = []
  · simp [orDefault, h]
  · simp [orDefault, h]

theorem orDefault_ne_nil (extracted : Bytes) {fallback : Bytes} (h : fallback ≠ []) :
    orDefault extracted fallback ≠ [] := by
  by_cases hempty : extracted = []
  · simp [orDefault, hempty, h]
  · simp [orDefault, hempty]

end HSFinancialServices.Services
