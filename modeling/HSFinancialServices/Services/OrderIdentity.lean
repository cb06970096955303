import HSFinancialServices.ServerStreams
import HSFinancialServices.Services.Registry

/-!
# Order ids

Buy and sell orders of all sessions draw from one counter. The order that is
dispatched `n`-th is acknowledged as `ORD-n`, whichever session it came from.
-/

namespace HSFinancialServices.Services
open Ascii Framing Transitions Server

def ackOrderId (e : Exchange) : Bytes := extractString e.response.payload (ascii "order_id")

def orderText (n : ℕ) : Bytes := ascii "ORD-" ++ decimal n

theorem orderText_injective : Function.Injective orderText := fun _ _ h =>
  decimal_injective (List.append_cancel_left h)

theorem quote_notMem_orderText (n : ℕ) : quote ∉ orderText n := by
  intro h
  obtain h | h := List.mem_append.mp h
  · revert h
    decide
  · have := isDigit_of_mem_decimal h
    revert this
    decide

theorem orderAckText_front (order : Order) (side : Side) :
    ∃ rest, ∀ orderId : UInt64, orderAckText order side orderId =
      openBrace :: (stringNeedle (ascii "order_id") ++
        (orderText orderId.toNat ++ quote :: rest)) := by
  have hneedle : ascii "\x7b\"order_id\":\"" = openBrace :: stringNeedle (ascii "order_id") := by
    decide
  have hclose : ascii "\",\"symbol\":\"" = quote :: ascii ",\"symbol\":\"" := by decide
  refine ⟨ascii ",\"symbol\":\"" ++ order.symbol ++
    ascii "\",\"side\":\"" ++ side.text ++ ascii "\",\"account\":\"" ++ order.account ++
    ascii "\",\"qty\":" ++ order.qty ++ ascii ",\"price\":" ++ order.price ++
    ascii ",\"status\":\"FILLED\"\x7d", ?_⟩
  intro orderId
  simp only [orderAckText, orderIdText, orderText, hneedle, hclose, List.append_assoc,
    List.cons_append]

theorem extractString_orderAckText (order : Order) (side : Side) (orderId : UInt64) :
    extractString (orderAckText order side orderId) (ascii "order_id") =
      orderText orderId.toNat := by
  obtain ⟨rest, hrest⟩ := orderAckText_front order side
  rw [hrest]
  exact extractString_front (quote_notMem_orderText _) rest

def isOrder (e : Exchange) : Bool :=
  e.request.header.messageType == MessageType.kBuyOrder ||
    e.request.header.messageType == MessageType.kSellOrder

theorem isOrder_iff {e : Exchange} : isOrder e = true ↔
    e.request.header.messageType = MessageType.kBuyOrder ∨
      e.request.header.messageType = MessageType.kSellOrder := by
  simp only [isOrder, Bool.or_eq_true, beq_iff_eq]

/-- The orders of all sessions, in the order in which they drew their ids. -/
def orders (s : Server World) : List (ℕ × Exchange) := s.log.filter fun e => isOrder e.2

structure Numbered (s : Server World) : Prop where
  counter : s.store.orderCounter = UInt64.ofNat ((orders s).length + 1)
  ids : (orders s).map (fun e => ackOrderId e.2) =
    (List.range (orders s).length).map fun n => orderText ((UInt64.ofNat (n + 1)).toNat)

section Runs
variable {D : Type*} {dbl : Doubles D} {host : HostOrder} {maxConnections : UInt64}
  {clock : ℕ → ℤ} {s s' : Server World}

theorem numbered_initial (maxConnections : UInt64) (clock : ℕ → ℤ) :
    Numbered (initial maxConnections (World.initial clock)) := ⟨rfl, rfl⟩

theorem ackOrderId_dispatch {req : Message} {w : World}
    (h : isOrder ⟨req, ((serverRouter dbl).dispatch req w).1⟩ = true) :
    ackOrderId ⟨req, ((serverRouter dbl).dispatch req w).1⟩ = orderText w.orderCounter.toNat := by
  simp only [ackOrderId, dispatch_payload]
  obtain hbuy | hsell := isOrder_iff.mp h
  · rw [responsePayload_buy w hbuy, extractString_orderAckText]
  · rw [responsePayload_sell w hsell, extractString_orderAckText]

theorem Numbered.dispatch (h : Numbered s) (k : ℕ) (slot : Slot) (req : Message) (n : ℕ) :
    Numbered (s.after k slot ⟨((serverRouter dbl).dispatch req s.store).2,
      [⟨req, ((serverRouter dbl).dispatch req s.store).1⟩], n⟩) := by
  have horders : orders (s.after k slot ⟨((serverRouter dbl).dispatch req s.store).2,
      [⟨req, ((serverRouter dbl).dispatch req s.store).1⟩], n⟩) = orders s ++
        [(k, ⟨req, ((serverRouter dbl).dispatch req s.store).1⟩)].filter fun e => isOrder e.2 := by
    simp only [orders, Server.after, List.filter_append, List.map_cons, List.map_nil]
  have hcounter := dispatch_orderCounter dbl req s.store
  by_cases horder : isOrder ⟨req, ((serverRouter dbl).dispatch req s.store).1⟩ = true
  · simp only [List.filter_singleton, horder, cond_true] at horders
    rw [if_pos (isOrder_iff.mp horder), h.counter] at hcounter
    refine ⟨?_, ?_⟩
    · rw [horders, List.length_append]
      refine Eq.trans hcounter ?_
      exact (UInt64.ofNat_add _ 1).symm
    · rw [horders, List.map_append, h.ids, List.length_append, List.length_singleton,
        List.range_succ, List.map_append, List.map_singleton, List.map_singleton,
        ackOrderId_dispatch horder, h.counter]
  · simp only [List.filter_singleton, horder, cond_false, List.append_nil] at horders
    rw [if_neg (fun hor => horder (isOrder_iff.mpr hor)), h.counter] at hcounter
    refine ⟨?_, ?_⟩
    · rw [horders]
      exact hcounter
    · rw [horders]
      exact h.ids

theorem reaches_numbered {ok : Action → Server World → Prop}
    (h : Reaches (step host (serverRouter dbl)) ok (initial maxConnections (World.initial clock))
      s) : Numbered s := by
  have accepting : ∀ {b c : Server World}, Numbered b → Accepting b c → Numbered c := by
    intro b c hb hs
    have horders : orders c = orders b := by simp only [orders, hs.log]
    exact ⟨by rw [horders, hs.store, hb.counter], by rw [horders, hb.ids]⟩
  refine h.invariant (numbered_initial maxConnections clock) ?_
  intro a b c hb _ hstep
  obtain ⟨ok, hs⟩ | ⟨i, optionOk, -, hs⟩ | ⟨k, c₁, c₂, alive, effect, -, rfl, hmoved, -⟩ :=
    step_cases hstep
  · exact accepting hb (acceptCompleted_accepting hs)
  · exact accepting hb (acceptStep_accepting hs)
  · cases effect with
    | mk store dispatched onCloseCalls =>
    obtain ⟨hstore, hnone⟩ | ⟨req, hstore, hone⟩ := hmoved.dispatches
    · subst hstore hnone
      have horders : orders (b.after k ⟨c₂, alive⟩ ⟨b.store, [], onCloseCalls⟩) = orders b := by
        simp only [orders, Server.after, List.map_nil, List.append_nil]
      exact ⟨by rw [horders]; exact hb.counter, by rw [horders, hb.ids]⟩
    · subst hstore hone
      exact hb.dispatch k ⟨c₂, alive⟩ req onCloseCalls

theorem Numbered.ids_eq (h : Numbered s) (hlt : (orders s).length < 2 ^ 64) :
    (orders s).map (fun e => ackOrderId e.2) =
      (List.range (orders s).length).map fun n => orderText (n + 1) := by
  rw [h.ids]
  refine List.map_congr_left ?_
  intro n hn
  rw [List.mem_range] at hn
  rw [UInt64.toNat_ofNat', Nat.mod_eq_of_lt (by omega)]

theorem orders_of_session (k : ℕ) (s : Server World) : (s.logOf k).filter isOrder =
    ((orders s).filter fun e => e.1 == k).map Prod.snd := by
  simp only [logOf, orders, List.filter_map, List.filter_filter, Function.comp_def, Bool.and_comm]

theorem order_identity
    (h : Reaches (step host (serverRouter dbl)) (fun _ _ => True)
      (initial maxConnections (World.initial clock)) s) (hlt : (orders s).length < 2 ^ 64) :
    ((orders s).map fun e => ackOrderId e.2).Nodup ∧
      (∀ id, id ∈ (orders s).map (fun e => ackOrderId e.2) ↔
        ∃ n, 1 ≤ n ∧ n ≤ (orders s).length ∧ id = orderText n) ∧
      ∀ (k : ℕ) (slot : Slot), s.slots[k]? = some slot →
        (∃ frames rest, List.Forall₂ (Carries host) frames ((s.logOf k).map Exchange.request) ∧
          slot.connection.arrived = concat frames ++ rest) ∧
        slot.connection.written <+: replies host (s.logOf k) ∧
        ∃ ns : List ℕ, ns.Pairwise (· < ·) ∧
          ((s.logOf k).filter isOrder).map ackOrderId = ns.map orderText := by
  have hids := (reaches_numbered h).ids_eq hlt
  refine ⟨?_, ?_, ?_⟩
  · rw [hids]
    refine List.Nodup.map ?_ List.nodup_range
    intro m n hmn
    exact Nat.succ_injective (orderText_injective hmn)
  · intro id
    rw [hids, List.mem_map]
    constructor
    · rintro ⟨n, hn, rfl⟩
      rw [List.mem_range] at hn
      exact ⟨n + 1, by omega, by omega, rfl⟩
    · rintro ⟨n, hpos, hle, rfl⟩
      exact ⟨n - 1, List.mem_range.mpr (by omega), by rw [Nat.sub_add_cancel hpos]⟩
  · intro k slot hk
    obtain ⟨hrequests, hwritten⟩ := requests_in_stream_order h hk
    refine ⟨hrequests, hwritten, ?_⟩
    have hsub := (List.filter_sublist (p := fun e : ℕ × Exchange => e.1 == k)
      (l := orders s)).map fun e => ackOrderId e.2
    rw [hids] at hsub
    obtain ⟨ns, hns, heq⟩ := List.sublist_map_iff.mp hsub
    refine ⟨ns.map (· + 1), ?_, ?_⟩
    · exact (List.pairwise_lt_range.sublist hns).map _ fun m n hmn => Nat.succ_lt_succ hmn
    · rw [orders_of_session, List.map_map, List.map_map]
      exact heq

end Runs

theorem order_identity_two_clients :
    ∃ s : Server World, Reaches (step .little (serverRouter exactDoubles)) (fun _ _ => True)
        (initial 50000 (World.initial fun _ => 0)) s ∧ (orders s).length = 3 ∧
      ((orders s).map fun e => ackOrderId e.2).Nodup ∧
      (∀ id, id ∈ (orders s).map (fun e => ackOrderId e.2) ↔
        ∃ n, 1 ≤ n ∧ n ≤ 3 ∧ id = orderText n) ∧
      ∃ ns : List ℕ, ns.Pairwise (· < ·) ∧
        ((s.logOf 0).filter isOrder).map ackOrderId = ns.map orderText := by
  let next := Action.acceptStep 0 true
  let buy := (Message.make MessageType.kBuyOrder (ascii "\x7b\x7d") 0).serialise .little
  let sell := (Message.make MessageType.kSellOrder (ascii "\x7b\x7d") 0).serialise .little
  let run := [.accepted, next, next, next, next, next, next, next, next,
    .accepted, next, next, next, next, next, next, next, next, .arrive 0 (buy ++ sell),
    .io 0, .io 0, .arrive 1 sell, .io 1, .io 1, .io 0, .io 0, .io 1, .io 0].foldlM
    (fun s a => if True then step .little (serverRouter exactDoubles) a s else none)
    (initial 50000 (World.initial fun _ => 0))
  have hrun : run.map (fun s => ((orders s).map Prod.fst, s.slots.length)) =
      some ([0, 1, 0], 2) := by decide +kernel
  obtain ⟨s, hs, hend⟩ := Option.map_eq_some_iff.mp hrun
  obtain ⟨horders, hslots⟩ := Prod.mk.inj hend
  have hlength : (orders s).length = 3 := by
    rw [← List.length_map (f := Prod.fst), horders]
    rfl
  have hreach := Reaches.of_foldlM hs
  obtain ⟨hnodup, hset, hsessions⟩ := order_identity hreach (by rw [hlength]; norm_num)
  obtain ⟨-, -, hns⟩ := hsessions 0 _ (List.getElem?_eq_getElem (by omega))
  rw [hlength] at hset
  exact ⟨s, hreach, hlength, hnodup, hset, hns⟩

end HSFinancialServices.Services
