import HSFinancialServices.Ui.Transport
import HSFinancialServices.Lib.Ascii
import HSFinancialServices.Services.Fields

/-!
# The commands of the UI client

A command sends one request and waits for one response; a batch is a list of commands.
A failed command leaves the socket as it is. Only the logout closes it.
-/

namespace HSFinancialServices.Ui
open Ascii Services

variable {σ : Type*}

def kMsgSqlQuery : UInt16 := 0x0001
def kMsgBuyOrder : UInt16 := 0x0002
def kMsgSellOrder : UInt16 := 0x0003
def kMsgGetPos : UInt16 := 0x0004
def kMsgPriceHist : UInt16 := 0x0005
def kMsgPing : UInt16 := 0x0006

inductive CmdId
  | login
  | logout
  | ping
  | sqlQueryAapl
  | sqlQueryMsft
  | sqlQueryAll
  | buyAapl
  | buyMsft
  | sellAapl
  | sellTsla
  | getPositionAcc001
  | getPositionAcc002
  | priceHistAapl30
  | priceHistMsft7
  | priceHistGoogl14
  | batchTest
  deriving DecidableEq, Repr

/-- One of the `Run` functions with its arguments, a price as the stream prints it. -/
inductive Command
  | login
  | logout
  | ping
  | sqlQuery (sql : Bytes)
  | buyOrder (symbol : Bytes) (qty : ℤ) (price account : Bytes)
  | sellOrder (symbol : Bytes) (qty : ℤ) (price account : Bytes)
  | getPosition (account : Bytes)
  | getPriceHistory (symbol : Bytes) (days : ℤ)
  deriving DecidableEq, Repr

def selectAapl : Bytes := ascii "SELECT symbol, price FROM quotes WHERE symbol='AAPL'"

def selectMsft : Bytes := ascii "SELECT symbol, price FROM quotes WHERE symbol='MSFT'"

def selectAll : Bytes := ascii "SELECT symbol, price, volume FROM quotes ORDER BY volume DESC"

def buyAapl : Command := .buyOrder (ascii "AAPL") 100 (ascii "182.5") (ascii "ACC-001")

def buyMsft : Command := .buyOrder (ascii "MSFT") 50 (ascii "310.1") (ascii "ACC-001")

def sellAapl : Command := .sellOrder (ascii "AAPL") 75 (ascii "183") (ascii "ACC-002")

def sellTsla : Command := .sellOrder (ascii "TSLA") 200 (ascii "245.5") (ascii "ACC-002")

def runBatchTest : List Command :=
  [.ping, .sqlQuery selectAapl, .sqlQuery selectAll, buyAapl, buyMsft, sellAapl, sellTsla,
    .getPosition (ascii "ACC-001"), .getPosition (ascii "ACC-002"),
    .getPriceHistory (ascii "AAPL") 30, .getPriceHistory (ascii "MSFT") 7,
    .getPriceHistory (ascii "GOOGL") 14]

def CmdId.commands : CmdId → List Command
  | login => [.login]
  | logout => [.logout]
  | ping => [.ping]
  | sqlQueryAapl => [.sqlQuery selectAapl]
  | sqlQueryMsft => [.sqlQuery selectMsft]
  | sqlQueryAll => [.sqlQuery selectAll]
  | buyAapl => [Ui.buyAapl]
  | buyMsft => [Ui.buyMsft]
  | sellAapl => [Ui.sellAapl]
  | sellTsla => [Ui.sellTsla]
  | getPositionAcc001 => [.getPosition (ascii "ACC-001")]
  | getPositionAcc002 => [.getPosition (ascii "ACC-002")]
  | priceHistAapl30 => [.getPriceHistory (ascii "AAPL") 30]
  | priceHistMsft7 => [.getPriceHistory (ascii "MSFT") 7]
  | priceHistGoogl14 => [.getPriceHistory (ascii "GOOGL") 14]
  | batchTest => runBatchTest

def orderPayload (symbol : Bytes) (qty : ℤ) (price account : Bytes) : Bytes :=
  ascii "\x7b\"symbol\":\"" ++ symbol ++ ascii "\",\"qty\":" ++ decimalInt qty ++
    ascii ",\"price\":" ++ price ++ ascii ",\"account\":\"" ++ account ++ ascii "\"\x7d"

def Command.request (seq : ℤ) : Command → UInt16 × Bytes
  | login => (kMsgPing, ascii "\x7b\"seq\":1,\"client\":\"HS-UI-Client-v1.0\"\x7d")
  | logout => (kMsgPing, ascii "\x7b\"seq\":0,\"reason\":\"user_logout\"\x7d")
  | ping => (kMsgPing, ascii "\x7b\"seq\":" ++ decimalInt seq ++ ascii "\x7d")
  | sqlQuery sql => (kMsgSqlQuery, ascii "\x7b\"sql\":\"" ++ sql ++ ascii "\"\x7d")
  | buyOrder symbol qty price account => (kMsgBuyOrder, orderPayload symbol qty price account)
  | sellOrder symbol qty price account => (kMsgSellOrder, orderPayload symbol qty price account)
  | getPosition account => (kMsgGetPos, ascii "\x7b\"account\":\"" ++ account ++ ascii "\"\x7d")
  | getPriceHistory symbol days =>
    (kMsgPriceHist, ascii "\x7b\"symbol\":\"" ++ symbol ++ ascii "\",\"days\":" ++
      decimalInt days ++ ascii "\x7d")

structure Attempt where
  type : UInt16
  payload : Bytes
  arrivedBefore : Bytes
  arrivedAfter : Bytes
  /-- The message of `RecvMsg`, if it and `SendMsg` returned true. -/
  delivered : Option (UInt16 × Bytes)
  log : List Exchange
  deriving DecidableEq, Repr

structure Client (σ : Type*) where
  connected : Bool
  link : Link σ
  seq : ℤ
  calls : List Call
  attempts : List Attempt

namespace Client

def connect (sessionId : UInt64) (store : σ) (seq : ℤ) (calls : List Call) : Client σ :=
  { connected := true
    link := ⟨⟨Connection.accept sessionId, store, [], 0⟩, 0⟩
    seq := seq
    calls := calls
    attempts := [] }

def record (c : Client σ) (request : UInt16 × Bytes) (delivered : Option (UInt16 × Bytes))
    (calls : List Call) (link : Link σ) : Client σ :=
  { c with
    link := link
    calls := calls
    attempts := c.attempts ++ [⟨request.1, request.2, c.link.line.connection.arrived,
      link.line.connection.arrived, delivered, link.line.log⟩] }

section Runs
variable (host : HostOrder) (router : ServiceRouter σ)

/-- `SendMsg(..) && RecvMsg(..)` -/
def exchange (c : Client σ) (request : UInt16 × Bytes) : Client σ :=
  match sendMsg host router request.1 request.2 c.calls c.link with
  | (false, calls, link) => c.record request none calls link
  | (true, calls, link) =>
    let (delivered, calls, link) := recvMsg host router calls link
    c.record request delivered calls link

def doDisconnect (c : Client σ) : Client σ :=
  let connection := { c.link.line.connection with eof := true }
  { c with connected := false, link := { c.link with line := { c.link.line with connection := connection } } }

def runCommand (c : Client σ) (command : Command) : Client σ :=
  if c.connected then
    match command with
    | .logout =>
      let request := command.request c.seq
      let (_, calls, link) := sendMsg host router request.1 request.2 c.calls c.link
      (c.record request none calls link).doDisconnect
    | .ping =>
      let c := { c with seq := wrapInt (c.seq + 1) }
      c.exchange host router (command.request c.seq)
    | command => c.exchange host router (command.request c.seq)
  else c

def run (c : Client σ) (ids : List CmdId) : Client σ :=
  (ids.flatMap CmdId.commands).foldl (runCommand host router) c

end Runs

end Client

end HSFinancialServices.Ui
