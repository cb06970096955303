import HSFinancialServices.Router
import HSFinancialServices.Services.PriceHistory

/-!
# The services behind the router

The handlers share the order counter and the clock. Every reading of the clock is
an input of the model: the `k`-th call of `std::time` returns `clock k`.
-/

namespace HSFinancialServices.Services

structure World where
  orderCounter : UInt64
  clock : ℕ → ℤ
  clockReads : ℕ

def World.initial (clock : ℕ → ℤ) : World := ⟨1, clock, 0⟩

def World.time (w : World) : ℤ × World := (w.clock w.clockReads, { w with clockReads := w.clockReads + 1 })

variable {D : Type*} (dbl : Doubles D)

def pureHandler (f : Bytes → Bytes) : ServiceHandler World := fun payload w => (.ok (f payload), w)

def orderHandler (f : Bytes → UInt64 → Bytes × UInt64) : ServiceHandler World := fun payload w =>
  let (response, counter) := f payload w.orderCounter
  (.ok response, { w with orderCounter := counter })

def priceHistoryHandler : ServiceHandler World := fun payload w =>
  let (now, w) := w.time
  (.ok (handleGetPriceHistory dbl payload now), w)

def registerServices (router : ServiceRouter World) : Except String (ServiceRouter World) := do
  let router ← router.registerHandler MessageType.kSqlQuery (pureHandler handleSqlQuery)
  let router ← router.registerHandler MessageType.kBuyOrder (orderHandler handleBuyOrder)
  let router ← router.registerHandler MessageType.kSellOrder (orderHandler handleSellOrder)
  let router ← router.registerHandler MessageType.kGetPosition (pureHandler handleGetPosition)
  let router ← router.registerHandler MessageType.kGetPriceHistory (priceHistoryHandler dbl)
  router.registerHandler MessageType.kPing (pureHandler handlePing)

/-- The router that `register_services` leaves, as a table. -/
def serverRouter : ServiceRouter World where
  handlers type :=
    if type = MessageType.kPing then some (pureHandler handlePing)
    else if type = MessageType.kGetPriceHistory then some (priceHistoryHandler dbl)
    else if type = MessageType.kGetPosition then some (pureHandler handleGetPosition)
    else if type = MessageType.kSellOrder then some (orderHandler handleSellOrder)
    else if type = MessageType.kBuyOrder then some (orderHandler handleBuyOrder)
    else if type = MessageType.kSqlQuery then some (pureHandler handleSqlQuery)
    else none

/-- No type is registered twice, so starting the server does not fail here. -/
theorem registerServices_empty :
    registerServices dbl .empty = .ok (serverRouter dbl) := by
  have htable : registerServices dbl .empty = .ok ⟨Function.update (Function.update
      (Function.update (Function.update (Function.update (Function.update (fun _ => none)
        MessageType.kSqlQuery (some (pureHandler handleSqlQuery)))
        MessageType.kBuyOrder (some (orderHandler handleBuyOrder)))
        MessageType.kSellOrder (some (orderHandler handleSellOrder)))
        MessageType.kGetPosition (some (pureHandler handleGetPosition)))
        MessageType.kGetPriceHistory (some (priceHistoryHandler dbl)))
        MessageType.kPing (some (pureHandler handlePing))⟩ := rfl
  rw [htable, serverRouter]
  congr 2
  funext type
  simp only [Function.update_apply]

def responsePayload (request : Message) (w : World) : Bytes :=
  if request.header.messageType = MessageType.kPing then handlePing request.payload
  else if request.header.messageType = MessageType.kGetPriceHistory then
    handleGetPriceHistory dbl request.payload w.time.1
  else if request.header.messageType = MessageType.kGetPosition then
    handleGetPosition request.payload
  else if request.header.messageType = MessageType.kSellOrder then
    orderAckText (readOrder request.payload) .sell w.orderCounter
  else if request.header.messageType = MessageType.kBuyOrder then
    orderAckText (readOrder request.payload) .buy w.orderCounter
  else if request.header.messageType = MessageType.kSqlQuery then handleSqlQuery request.payload
  else unknownMessageType

section Payloads
variable {dbl} {request : Message} (w : World)

theorem responsePayload_sql (h : request.header.messageType = MessageType.kSqlQuery) :
    responsePayload dbl request w = handleSqlQuery request.payload := by
  simp only [responsePayload, h]
  rfl

theorem responsePayload_buy (h : request.header.messageType = MessageType.kBuyOrder) :
    responsePayload dbl request w =
      orderAckText (readOrder request.payload) .buy w.orderCounter := by
  simp only [responsePayload, h]
  rfl

theorem responsePayload_sell (h : request.header.messageType = MessageType.kSellOrder) :
    responsePayload dbl request w =
      orderAckText (readOrder request.payload) .sell w.orderCounter := by
  simp only [responsePayload, h]
  rfl

theorem responsePayload_position (h : request.header.messageType = MessageType.kGetPosition) :
    responsePayload dbl request w = handleGetPosition request.payload := by
  simp only [responsePayload, h]
  rfl

theorem responsePayload_history (h : request.header.messageType = MessageType.kGetPriceHistory) :
    responsePayload dbl request w = handleGetPriceHistory dbl request.payload w.time.1 := by
  simp only [responsePayload, h]
  rfl

theorem responsePayload_ping (h : request.header.messageType = MessageType.kPing) :
    responsePayload dbl request w = handlePing request.payload := by
  simp only [responsePayload, h, if_true]

end Payloads

theorem dispatch_payload (request : Message) (w : World) :
    ((serverRouter dbl).dispatch request w).1.payload = responsePayload dbl request w := by
  simp only [ServiceRouter.dispatch, serverRouter, responsePayload]
  split_ifs <;> rfl

theorem dispatch_orderCounter (request : Message) (w : World) :
    ((serverRouter dbl).dispatch request w).2.orderCounter =
      if request.header.messageType = MessageType.kBuyOrder ∨
          request.header.messageType = MessageType.kSellOrder then w.orderCounter + 1
      else w.orderCounter := by
  by_cases hping : request.header.messageType = MessageType.kPing
  · simp only [ServiceRouter.dispatch, serverRouter, hping, if_true]
    rfl
  by_cases hhistory : request.header.messageType = MessageType.kGetPriceHistory
  · simp only [ServiceRouter.dispatch, serverRouter, hhistory]
    rfl
  by_cases hposition : request.header.messageType = MessageType.kGetPosition
  · simp only [ServiceRouter.dispatch, serverRouter, hposition]
    rfl
  by_cases hsell : request.header.messageType = MessageType.kSellOrder
  · simp only [ServiceRouter.dispatch, serverRouter, hsell]
    rfl
  by_cases hbuy : request.header.messageType = MessageType.kBuyOrder
  · simp only [ServiceRouter.dispatch, serverRouter, hbuy]
    rfl
  by_cases hsql : request.header.messageType = MessageType.kSqlQuery
  · simp only [ServiceRouter.dispatch, serverRouter, hsql]
    rfl
  simp only [ServiceRouter.dispatch, serverRouter, hping, hhistory, hposition, hsell, hbuy, hsql,
    if_false, or_self]

theorem dispatch_clock (request : Message) (w : World) :
    ((serverRouter dbl).dispatch request w).2.clock = w.clock := by
  simp only [ServiceRouter.dispatch, serverRouter]
  split_ifs <;> rfl

theorem handlers_unknown {type : MessageType}
    (h : type ∉ [MessageType.kSqlQuery, MessageType.kBuyOrder, MessageType.kSellOrder,
      MessageType.kGetPosition, MessageType.kGetPriceHistory, MessageType.kPing]) :
    (serverRouter dbl).handlers type = none := by
  simp only [List.mem_cons, List.not_mem_nil, or_false, not_or] at h
  obtain ⟨hsql, hbuy, hsell, hposition, hhistory, hping⟩ := h
  simp only [serverRouter, hsql, hbuy, hsell, hposition, hhistory, hping, if_false]

theorem dispatch_unknown {request : Message} (w : World)
    (h : (serverRouter dbl).handlers request.header.messageType = none) :
    ((serverRouter dbl).dispatch request w).1 =
      Message.make MessageType.kError unknownMessageType 0 := by
  simp only [ServiceRouter.dispatch, h]

end HSFinancialServices.Services
