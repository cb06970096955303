import HSFinancialServices.ResponseType
import HSFinancialServices.Services.OrderIdentity
import HSFinancialServices.UntroubledSession

/-!
# What one session sees of the others

The handlers share the order counter and nothing else that a response could depend on
while the clock stands still. Two runs in which a session reads the same stream give it
the same responses, up to the numbers its orders draw.
-/

namespace HSFinancialServices.Services
open Ascii Framing Transitions Server

def ackWithId (type : MessageType) (n : ℕ) (rest : Bytes) : Message :=
  Message.make type (ascii "\x7b\"order_id\":\"ORD-" ++ decimal n ++ quote :: rest) 0

/-- The same response, or two acknowledgements of one order under different ids. -/
def SameButOrderId (resp resp' : Message) : Prop :=
  resp = resp' ∨ ∃ type n n' rest,
    (type = MessageType.canonicalResponse MessageType.kBuyOrder ∨
      type = MessageType.canonicalResponse MessageType.kSellOrder) ∧
    resp = ackWithId type n rest ∧ resp' = ackWithId type n' rest

theorem make_orderAckText (order : Order) (side : Side) : ∃ rest,
    ∀ (type : MessageType) (orderId : UInt64),
      Message.make type (orderAckText order side orderId) 0 =
        ackWithId type orderId.toNat rest := by
  obtain ⟨rest, hrest⟩ := orderAckText_front order side
  have hfront : ascii "\x7b\"order_id\":\"ORD-" =
      openBrace :: (stringNeedle (ascii "order_id") ++ ascii "ORD-") := by decide
  refine ⟨rest, ?_⟩
  intro type orderId
  rw [hrest, ackWithId, hfront]
  simp only [orderText, List.cons_append, List.append_assoc]

section Dispatch
variable {D : Type*} {dbl : Doubles D} {request : Message} {w w' : World} {now : ℤ}

theorem dispatch_buy (h : request.header.messageType = MessageType.kBuyOrder) :
    ((serverRouter dbl).dispatch request w).1 =
      Message.make (MessageType.canonicalResponse MessageType.kBuyOrder)
        (orderAckText (readOrder request.payload) .buy w.orderCounter) 0 := by
  simp only [ServiceRouter.dispatch, serverRouter, h]
  rfl

theorem dispatch_sell (h : request.header.messageType = MessageType.kSellOrder) :
    ((serverRouter dbl).dispatch request w).1 =
      Message.make (MessageType.canonicalResponse MessageType.kSellOrder)
        (orderAckText (readOrder request.payload) .sell w.orderCounter) 0 := by
  simp only [ServiceRouter.dispatch, serverRouter, h]
  rfl

theorem dispatch_other (hbuy : request.header.messageType ≠ MessageType.kBuyOrder)
    (hsell : request.header.messageType ≠ MessageType.kSellOrder)
    (htime : w.time.1 = w'.time.1) :
    ((serverRouter dbl).dispatch request w).1 = ((serverRouter dbl).dispatch request w').1 := by
  simp only [ServiceRouter.dispatch, serverRouter, hbuy, hsell, if_false]
  split_ifs
  · rfl
  · simp only [priceHistoryHandler, htime]
  · rfl
  · rfl
  · rfl

theorem ack_sameButOrderId {type : MessageType}
    (htype : type = MessageType.canonicalResponse MessageType.kBuyOrder ∨
      type = MessageType.canonicalResponse MessageType.kSellOrder)
    (order : Order) (side : Side) (orderId orderId' : UInt64) :
    SameButOrderId (Message.make type (orderAckText order side orderId) 0)
      (Message.make type (orderAckText order side orderId') 0) := by
  obtain ⟨rest, hrest⟩ := make_orderAckText order side
  exact Or.inr ⟨type, _, _, rest, htype, hrest type orderId, hrest type orderId'⟩

theorem dispatch_sameButOrderId (request : Message) (hw : w.clock = fun _ => now)
    (hw' : w'.clock = fun _ => now) :
    SameButOrderId ((serverRouter dbl).dispatch request w).1
      ((serverRouter dbl).dispatch request w').1 := by
  by_cases hbuy : request.header.messageType = MessageType.kBuyOrder
  · rw [dispatch_buy hbuy, dispatch_buy hbuy]
    exact ack_sameButOrderId (Or.inl rfl) _ _ _ _
  by_cases hsell : request.header.messageType = MessageType.kSellOrder
  · rw [dispatch_sell hsell, dispatch_sell hsell]
    exact ack_sameButOrderId (Or.inr rfl) _ _ _ _
  · apply Or.inl
    apply dispatch_other hbuy hsell
    simp only [World.time, hw, hw']

end Dispatch

section Runs
variable {D : Type*} {dbl : Doubles D} {host : HostOrder} {maxConnections : UInt64} {now : ℤ}
  {s : Server World}

structure Answered (dbl : Doubles D) (now : ℤ) (s : Server World) : Prop where
  clock : s.store.clock = fun _ => now
  responses : ∀ e ∈ s.log, ∃ w : World, (w.clock = fun _ => now) ∧
    e.2.response = ((serverRouter dbl).dispatch e.2.request w).1

theorem reaches_answered {ok : Action → Server World → Prop}
    (h : Reaches (step host (serverRouter dbl)) ok
      (initial maxConnections (World.initial fun _ => now)) s) : Answered dbl now s := by
  obtain ⟨hclock, hresponses⟩ := reaches_dispatched (I := fun w => w.clock = fun _ => now) rfl
    (fun request w hw => by rw [dispatch_clock, hw]) h
  exact ⟨hclock, hresponses⟩

theorem Answered.of_logOf (h : Answered dbl now s) {k i : ℕ} {e : Exchange}
    (hi : (s.logOf k)[i]? = some e) : ∃ w : World, (w.clock = fun _ => now) ∧
      e.response = ((serverRouter dbl).dispatch e.request w).1 := by
  exact h.responses (k, e) (mem_log_of_mem_logOf (List.mem_of_getElem? hi))

end Runs

def SameExchange (e e' : Exchange) : Prop :=
  e.request = e'.request ∧ SameButOrderId e.response e'.response

section TwoRuns
variable {D : Type*} {dbl : Doubles D} {host : HostOrder} {now : ℤ}

theorem settled_length_eq {s s' : Server World} {k k' : ℕ} {slot slot' : Slot}
    (h : HoldsAt k (Connection.Undisturbed host) s) (hk : s.slots[k]? = some slot)
    (h' : HoldsAt k' (Connection.Undisturbed host) s') (hk' : s'.slots[k']? = some slot')
    (hstream : slot.connection.arrived = slot'.connection.arrived)
    (hsettled : slot.connection.io host (serverRouter dbl) s.store = none)
    (hsettled' : slot'.connection.io host (serverRouter dbl) s'.store = none) :
    (s.logOf k).length = (s'.logOf k').length := by
  obtain ⟨-, frames, tail, hat, hstuck⟩ := (h slot hk).settled hsettled
  obtain ⟨-, frames', tail', hat', hstuck'⟩ := (h' slot' hk').settled hsettled'
  have hread : concat frames ++ (tail ++ slot.connection.unread) =
      concat frames' ++ (tail' ++ slot'.connection.unread) := by
    rw [← hat.stream, ← hat'.stream, hstream]
  obtain ⟨rfl, -⟩ := concat_append_inj (forall_wellFormed hat.carries)
    (forall_wellFormed hat'.carries) hstuck hstuck' hread
  have hlength := hat.carries.length_eq.symm.trans hat'.carries.length_eq
  rwa [List.length_map, List.length_map] at hlength

/-- What other sessions send shows in a session's responses only through its order ids.
Both runs give it the same responses as far as both get, and all of them once neither
session, its socket free of errors, can go on. -/
theorem sessions_isolated {maxConnections maxConnections' : UInt64} {s s' : Server World}
    (h : Reaches (step host (serverRouter dbl)) (fun _ _ => True)
      (initial maxConnections (World.initial fun _ => now)) s)
    (h' : Reaches (step host (serverRouter dbl)) (fun _ _ => True)
      (initial maxConnections' (World.initial fun _ => now)) s')
    {k k' : ℕ} {slot slot' : Slot} (hk : s.slots[k]? = some slot)
    (hk' : s'.slots[k']? = some slot') {stream : Bytes}
    (hstream : slot.connection.arrived <+: stream)
    (hstream' : slot'.connection.arrived <+: stream) :
    (∀ (i : ℕ) (e e' : Exchange), (s.logOf k)[i]? = some e → (s'.logOf k')[i]? = some e' → SameExchange e e') ∧
      slot.connection.written <+: replies host (s.logOf k) ∧
      slot'.connection.written <+: replies host (s'.logOf k') ∧
      (slot.connection.arrived = stream → slot'.connection.arrived = stream →
        Reaches (step host (serverRouter dbl)) (Untroubled k)
          (initial maxConnections (World.initial fun _ => now)) s →
        Reaches (step host (serverRouter dbl)) (Untroubled k')
          (initial maxConnections' (World.initial fun _ => now)) s' →
        slot.connection.io host (serverRouter dbl) s.store = none →
        slot'.connection.io host (serverRouter dbl) s'.store = none →
        List.Forall₂ SameExchange (s.logOf k) (s'.logOf k') ∧
          slot.connection.written = replies host (s.logOf k) ∧
          slot'.connection.written = replies host (s'.logOf k')) := by
  obtain ⟨frames, tail, hat⟩ := (reaches_streamed h).tracks k slot hk
  obtain ⟨frames', tail', hat'⟩ := (reaches_streamed h').tracks k' slot' hk'
  have hsame : ∀ (i : ℕ) (e e' : Exchange), (s.logOf k)[i]? = some e → (s'.logOf k')[i]? = some e' →
      SameExchange e e' := by
    intro i e e' hi hi'
    have hrequest := hat.request_unique hat' hstream hstream' hi hi'
    obtain ⟨w, hw, hresponse⟩ := (reaches_answered h).of_logOf hi
    obtain ⟨w', hw', hresponse'⟩ := (reaches_answered h').of_logOf hi'
    refine ⟨hrequest, ?_⟩
    rw [hresponse, hresponse', hrequest]
    exact dispatch_sameButOrderId e'.request hw hw'
  refine ⟨hsame, hat.written_prefix, hat'.written_prefix, ?_⟩
  intro harrived harrived' hcalm hcalm' hsettled hsettled'
  have hfree := reaches_undisturbed hcalm
  have hfree' := reaches_undisturbed hcalm'
  have hlength := settled_length_eq hfree hk hfree' hk' (harrived.trans harrived'.symm) hsettled
    hsettled'
  refine ⟨?_, ((hfree slot hk).settled hsettled).1, ((hfree' slot' hk').settled hsettled').1⟩
  rw [List.forall₂_iff_get]
  refine ⟨hlength, ?_⟩
  intro i hi hi'
  exact hsame i _ _ (List.getElem?_eq_getElem hi) (List.getElem?_eq_getElem hi')

theorem prefix_of_eq {bytes stream : Bytes} (h : bytes = stream) : bytes <+: stream := by rw [h]

theorem sessions_isolated_two_orders :
    ∃ s s' : Server World,
      Reaches (step .little (serverRouter exactDoubles)) (fun _ _ => True)
          (initial 50000 (World.initial fun _ => 0)) s ∧
        Reaches (step .little (serverRouter exactDoubles)) (fun _ _ => True)
          (initial 50000 (World.initial fun _ => 0)) s' ∧
        List.Forall₂ SameExchange (s.logOf 0) (s'.logOf 0) ∧
        (s.logOf 0).map ackOrderId = [orderText 1] ∧
        (s'.logOf 0).map ackOrderId = [orderText 2] := by
  let next := Action.acceptStep 0 true
  let buy := (Message.make MessageType.kBuyOrder (ascii "\x7b\x7d") 0).serialise .little
  let accepting := [.accepted, next, next, next, next, next, next, next, next]
  let play := fun actions => List.foldlM
    (fun s a => if Untroubled 0 a s then step .little (serverRouter exactDoubles) a s else none)
    (initial 50000 (World.initial fun _ => 0)) actions
  let alone := play (accepting ++ [.arrive 0 buy, .io 0, .io 0, .io 0])
  let second := play (accepting ++ accepting ++
    [.arrive 1 buy, .io 1, .io 1, .arrive 0 buy, .io 0, .io 0, .io 0])
  let seen : Server World → _ := fun s =>
    ((s.logOf 0).map ackOrderId, s.slots[0]?.map fun slot =>
      (slot.connection.arrived, (slot.connection.io .little (serverRouter exactDoubles) s.store).isNone))
  have halone : alone.map seen = some ([orderText 1], some (buy, true)) := by decide +kernel
  have hsecond : second.map seen = some ([orderText 2], some (buy, true)) := by decide +kernel
  obtain ⟨s, hs, hseen⟩ := Option.map_eq_some_iff.mp halone
  obtain ⟨s', hs', hseen'⟩ := Option.map_eq_some_iff.mp hsecond
  obtain ⟨hids, hslot⟩ := Prod.mk.inj hseen
  obtain ⟨hids', hslot'⟩ := Prod.mk.inj hseen'
  obtain ⟨slot, hk, hslot⟩ := Option.map_eq_some_iff.mp hslot
  obtain ⟨slot', hk', hslot'⟩ := Option.map_eq_some_iff.mp hslot'
  obtain ⟨harrived, hsettled⟩ := Prod.mk.inj hslot
  obtain ⟨harrived', hsettled'⟩ := Prod.mk.inj hslot'
  have hcalm := Reaches.of_foldlM hs
  have hcalm' := Reaches.of_foldlM hs'
  have hreach : Reaches (step .little (serverRouter exactDoubles)) (fun _ _ => True) _ s :=
    hcalm.mono fun _ _ _ => trivial
  have hreach' : Reaches (step .little (serverRouter exactDoubles)) (fun _ _ => True) _ s' :=
    hcalm'.mono fun _ _ _ => trivial
  obtain ⟨-, -, -, hsame⟩ := sessions_isolated hreach hreach' hk hk' (prefix_of_eq harrived)
    (prefix_of_eq harrived')
  obtain ⟨hexchanges, -⟩ := hsame harrived harrived' hcalm hcalm'
    (Option.isNone_iff_eq_none.mp hsettled) (Option.isNone_iff_eq_none.mp hsettled')
  exact ⟨s, s', hreach, hreach', hexchanges, hids, hids'⟩

end TwoRuns

end HSFinancialServices.Services
