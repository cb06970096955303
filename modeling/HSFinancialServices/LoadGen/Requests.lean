import HSFinancialServices.Protocol
import HSFinancialServices.Services.Fields

/-!
# The requests of the load generator

Every simulated client draws its requests from its own linear congruential generator.
The text that an output stream prints for a price is a parameter.
-/

namespace HSFinancialServices.LoadGen
open Ascii Services

structure ScenarioConfig where
  weightSql : ℤ := 20
  weightBuy : ℤ := 25
  weightSell : ℤ := 25
  weightPosition : ℤ := 20
  weightPriceHistory : ℤ := 10
  deriving DecidableEq, Repr

/-- The state of the generator is also the number that it returns. -/
def nextRand (rngState : UInt64) : UInt64 := rngState * 6364136223846793005 + 1442695040888963407

/-- `rng_state_` after the constructor -/
def seed (clientId : UInt32) : UInt64 := clientId.toUInt64 * 2654435761 + 1

def ScenarioConfig.total (scenario : ScenarioConfig) : ℤ :=
  let total := wrapInt (wrapInt (wrapInt (wrapInt (scenario.weightSql + scenario.weightBuy) +
    scenario.weightSell) + scenario.weightPosition) + scenario.weightPriceHistory)
  if total ≤ 0 then 1 else total

def symbols : List Bytes := [ascii "AAPL", ascii "MSFT", ascii "GOOGL", ascii "AMZN", ascii "TSLA"]

def sqlPayload (sym : Bytes) : Bytes :=
  ascii "\x7b\"sql\":\"SELECT symbol, price FROM quotes WHERE symbol='" ++ sym ++ ascii "'\"\x7d"

def orderPayload (sym : Bytes) (qty : ℤ) (price : Bytes) : Bytes :=
  ascii "\x7b\"symbol\":\"" ++ sym ++ ascii "\",\"qty\":" ++ decimalInt qty ++
    ascii ",\"price\":" ++ price ++ ascii ",\"account\":\"ACC-001\"\x7d"

def positionPayload : Bytes := ascii "\x7b\"account\":\"ACC-001\"\x7d"

def historyPayload (sym : Bytes) (days : ℤ) : Bytes :=
  ascii "\x7b\"symbol\":\"" ++ sym ++ ascii "\",\"days\":" ++ decimalInt days ++ ascii "\x7d"

section Generator
variable (printPrice : ℕ → Bytes) (scenario : ScenarioConfig)

/-- An order draws its quantity and its price, `100.0 + cents / 100.0`. -/
def orderRequest (type : MessageType) (sym : Bytes) (rngState : UInt64) : Message × UInt64 :=
  let rngState := nextRand rngState
  let qty : ℤ := 10 + (rngState % 491).toNat
  let rngState := nextRand rngState
  let cents := (rngState % 20000).toNat
  (Message.make type (orderPayload sym qty (printPrice cents)) 0, rngState)

def nextRequest (rngState : UInt64) : Message × UInt64 :=
  let rngState := nextRand rngState
  let pick : ℤ := (rngState.toNat % scenario.total.toNat : ℕ)
  let rngState := nextRand rngState
  let sym := symbols.getD (rngState % 5).toNat []
  let threshold := scenario.weightSql
  if pick < threshold then
    (Message.make MessageType.kSqlQuery (sqlPayload sym) 0, rngState)
  else
  let threshold := wrapInt (threshold + scenario.weightBuy)
  if pick < threshold then orderRequest printPrice MessageType.kBuyOrder sym rngState
  else
  let threshold := wrapInt (threshold + scenario.weightSell)
  if pick < threshold then orderRequest printPrice MessageType.kSellOrder sym rngState
  else
  let threshold := wrapInt (threshold + scenario.weightPosition)
  if pick < threshold then (Message.make MessageType.kGetPosition positionPayload 0, rngState)
  else
  let rngState := nextRand rngState
  let days : ℤ := 7 + (rngState % 24).toNat
  (Message.make MessageType.kGetPriceHistory (historyPayload sym days) 0, rngState)

end Generator

end HSFinancialServices.LoadGen
