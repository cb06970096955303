import HSFinancialServices.Services.Isolation
import HSFinancialServices.System.Linearizable

/-!
# What the clients may conclude from what they read

A response that a client has read is the services' answer to the request it has in mind, and
a good one. Order acknowledgements repeat the order and no two of them share an id.
-/

namespace HSFinancialServices.System
open Ascii AtomicCalls LoadGen Server Services Transitions

namespace Network

section General
variable {γ σ : Type*} {host : HostOrder} {router : ServiceRouter σ}
  {nextRequest : γ → Message × γ} {numClients : UInt32} {maxConnections : UInt64} {store : σ}
  {n : Network γ σ} {P : Message → Prop} {I : σ → Prop}

theorem Linked.exchanges_prefix (h : Linked host nextRequest numClients n)
    (hfits : Fits router nextRequest store P I)
    (hserver : ServerRun host router maxConnections store n.server) {i : ℕ} {c : AsyncClient γ}
    (hi : n.test.clients[i]? = some c) : c.exchanges <+: n.conversation i := by
  have hrequests := h.requests_prefix hfits i
  have hresponses := h.responses_prefix hfits hserver i
  rw [LoadTest.sentBy_eq hi] at hrequests
  rw [LoadTest.answersTo_eq hi] at hresponses
  rw [List.prefix_iff_getElem?]
  intro p hp
  have hlt : p < c.responses.length :=
    lt_of_lt_of_le hp (by rw [AsyncClient.exchanges, List.length_zipWith]; exact min_le_right _ _)
  have hle := hresponses.length_le
  rw [List.length_map] at hle
  have hmine : p < (n.conversation i).length := lt_of_lt_of_le hlt hle
  have hrequest := hrequests.getElem (by rwa [List.length_map])
  have hresponse := hresponses.getElem hlt
  rw [List.getElem_map] at hrequest hresponse
  rw [List.getElem?_eq_getElem hmine, Option.some.injEq]
  simp only [AsyncClient.exchanges, List.getElem_zipWith]
  rw [← hrequest, hresponse]

end General

section Orders
variable {s : Server World}

theorem nodup_orderIds (h : Numbered s) (hlt : (orders s).length < 2 ^ 64) :
    ((orders s).map fun e => ackOrderId e.2).Nodup := by
  rw [h.ids_eq hlt]
  apply List.Nodup.map
  · intro p q hpq
    exact Nat.succ_injective (orderText_injective hpq)
  · exact List.nodup_range

theorem logOf_pairwise (h : Numbered s) (hlt : (orders s).length < 2 ^ 64) (k : ℕ) :
    (s.logOf k).Pairwise fun e e' => isOrder e = true → isOrder e' = true →
      ackOrderId e ≠ ackOrderId e' := by
  have hnodup := nodup_orderIds h hlt
  rw [List.Nodup, List.pairwise_map, orders, List.pairwise_filter] at hnodup
  rw [logOf, List.pairwise_map]
  exact hnodup.filter _

theorem same_order (h : Numbered s) (hlt : (orders s).length < 2 ^ 64) {k k' p q : ℕ}
    {e e' : Exchange} (hp : (s.logOf k)[p]? = some e) (hq : (s.logOf k')[q]? = some e')
    (horder : isOrder e = true) (horder' : isOrder e' = true)
    (hid : ackOrderId e = ackOrderId e') : k = k' ∧ p = q := by
  have hmem : (k, e) ∈ orders s :=
    List.mem_filter.mpr ⟨mem_log_of_mem_logOf (List.mem_of_getElem? hp), horder⟩
  have hmem' : (k', e') ∈ orders s :=
    List.mem_filter.mpr ⟨mem_log_of_mem_logOf (List.mem_of_getElem? hq), horder'⟩
  obtain ⟨rfl, rfl⟩ := Prod.mk.inj (List.inj_on_of_nodup_map (nodup_orderIds h hlt) hmem hmem' hid)
  refine ⟨rfl, ?_⟩
  have hpairwise := List.pairwise_iff_getElem.mp (logOf_pairwise h hlt k)
  obtain ⟨hplt, hpe⟩ := List.getElem?_eq_some_iff.mp hp
  obtain ⟨hqlt, hqe⟩ := List.getElem?_eq_some_iff.mp hq
  by_contra hne
  obtain hlt' | hlt' := Nat.lt_or_gt_of_ne hne
  · have hapart := hpairwise p q hplt hqlt hlt'
    rw [hpe, hqe] at hapart
    exact hapart horder horder' rfl
  · have hapart := hpairwise q p hqlt hplt hlt'
    rw [hpe, hqe] at hapart
    exact hapart horder horder' rfl

end Orders

section Services
variable {D : Type*} {dbl : Doubles D} {clock : ℕ → ℤ} {printPrice : ℕ → Bytes}
  {scenario : ScenarioConfig} {host : HostOrder} {numClients : UInt32} {generator : ℕ → UInt64}
  {maxConnections : UInt64} {n : Network UInt64 World}

def Acknowledges (printPrice : ℕ → Bytes) (e : Exchange) : Prop :=
  ∃ (side : Side) (sym : Bytes) (qty : ℤ) (cents : ℕ) (orderId : UInt64),
    e.request.payload = LoadGen.orderPayload sym qty (printPrice cents) ∧
    e.request.header.messageType =
      (match side with
      | .buy => MessageType.kBuyOrder
      | .sell => MessageType.kSellOrder) ∧
    e.response.payload =
      orderAckText ⟨sym, decimalInt qty, printPrice cents, ascii "ACC-001"⟩ side orderId

theorem acknowledges_dispatch {m : Message} (h : Asked printPrice m)
    (hprint : PrintsNumbers printPrice) (w : World)
    (horder : isOrder ⟨m, ((serverRouter dbl).dispatch m w).1⟩ = true) :
    Acknowledges printPrice ⟨m, ((serverRouter dbl).dispatch m w).1⟩ := by
  cases h with
  | @buy sym qty cents hsym _ _ hcents =>
    refine ⟨.buy, sym, qty, cents, w.orderCounter, rfl, rfl, ?_⟩
    rw [dispatch_payload, responsePayload_buy w rfl, Message.make_payload,
      readOrder_loadGen hsym qty (hprint.number cents hcents)]
  | @sell sym qty cents hsym _ _ hcents =>
    refine ⟨.sell, sym, qty, cents, w.orderCounter, rfl, rfl, ?_⟩
    rw [dispatch_payload, responsePayload_sell w rfl, Message.make_payload,
      readOrder_loadGen hsym qty (hprint.number cents hcents)]
  | sql | position | history =>
    rw [isOrder_iff, Message.make_messageType] at horder
    obtain hbuy | hsell := horder
    · exact absurd hbuy (by decide)
    · exact absurd hsell (by decide)

theorem Linked.answered (h : Linked host (LoadGen.nextRequest printPrice scenario) numClients n)
    (hfits : Fits (serverRouter dbl) (LoadGen.nextRequest printPrice scenario) (World.initial clock)
      (Asked printPrice) (fun w => w.clock = clock))
    (hserver : ServerRun host (serverRouter dbl) maxConnections (World.initial clock) n.server)
    {i : ℕ} {e : Exchange} (he : e ∈ n.conversation i) :
    RightAnswer e = true ∧
      (PrintsNumbers printPrice → isOrder e = true → Acknowledges printPrice e) := by
  obtain ⟨hasked, w, -, hresponse⟩ := h.dispatched hfits hserver he
  obtain ⟨request, response⟩ := e
  simp only at hasked hresponse
  subst hresponse
  exact ⟨hasked.rightAnswer w, fun hprint => acknowledges_dispatch hasked hprint w⟩

/-- In the closed loop every client is told the truth: what it pairs with a request is what
the services gave for it, a positive answer of the right type, and its counts are the ones
that the report promises. The server has dispatched each of its requests at most once. -/
theorem answers_are_true (hdbl : dbl.Bounded) (hclock : ∀ k, (clock k).natAbs ≤ 2 ^ 63)
    (hprint : PrintsNumbers printPrice)
    (h : Reaches (step host (serverRouter dbl) (LoadGen.nextRequest printPrice scenario))
      (fun _ _ => True) (initial numClients generator maxConnections (World.initial clock)) n)
    {i : ℕ} {c : AsyncClient UInt64} (hi : n.test.clients[i]? = some c) :
    c.exchanges <+: n.conversation i ∧ (n.conversation i).map Exchange.request <+: c.sent ∧
      (∀ e ∈ c.exchanges, RightAnswer e = true ∧
        ∃ w, e.response = ((serverRouter dbl).dispatch e.request w).1) ∧
      (c.tasks = [] → c.CountsAnswers) := by
  have hlinked := reaches_linked h
  have hfits := loadGen_fits hdbl hclock hprint scenario
  have hserver : ServerRun host (serverRouter dbl) maxConnections (World.initial clock) n.server :=
    reaches_server (fun _ _ _ _ _ => trivial) h
  have hexchanges := hlinked.exchanges_prefix hfits hserver hi
  have hrequests := hlinked.requests_prefix hfits i
  rw [LoadTest.sentBy_eq hi] at hrequests
  have hright : ∀ e ∈ c.exchanges, RightAnswer e = true := fun e he =>
    (hlinked.answered hfits hserver (hexchanges.subset he)).1
  refine ⟨hexchanges, hrequests, ?_, ?_⟩
  · intro e he
    obtain ⟨-, w, -, hresponse⟩ := hlinked.dispatched hfits hserver (hexchanges.subset he)
    exact ⟨hright e he, w, hresponse⟩
  · intro hidle
    obtain ⟨stage, hstage⟩ := hlinked.accounted.stages c (List.mem_of_getElem? hi)
    obtain ⟨hsuccesses, herrors⟩ := hstage.successes_eq hidle
    exact (AsyncClient.countsAnswers_iff hsuccesses herrors).mpr hright

def answeredTurns (first second response response' : Message) : List Turn :=
  overlappingTurns first second response ++
  [.client (.complete 1 0 (some [])), .server 1 (.io 0),
    .client (.complete 1 0 (some (encodeHeader .little response'.header))),
    .client (.complete 1 0 (some response'.payload)), .client .raiseStop] ++
  [0, 1].flatMap fun i => List.replicate 4 (.client (.runTask i 0))

def answeredRun (scenario : ScenarioConfig) : Option (Network UInt64 World) :=
  let router := serverRouter shortDoubles
  let nextRequest := LoadGen.nextRequest priceText scenario
  let first := (nextRequest (seed 0)).1
  let second := (nextRequest (seed 1)).1
  let r' := router.dispatch second (World.initial fun _ => 0)
  let r := router.dispatch first r'.2
  (answeredTurns first second r.1 r'.1).foldlM
    (fun n turn => if True then step .little router nextRequest turn n else none)
    (initial 2 (fun i => seed (UInt32.ofNat i)) 50000 (World.initial fun _ => 0))

theorem answers_are_true_two_queries :
    ∃ (n : Network UInt64 World) (c d : AsyncClient UInt64),
      Reaches (step .little (serverRouter shortDoubles) (LoadGen.nextRequest priceText {}))
        (fun _ _ => True)
        (initial 2 (fun i => seed (UInt32.ofNat i)) 50000 (World.initial fun _ => 0)) n ∧
      n.test.clients = [c, d] ∧ c.exchanges.length = 1 ∧ d.exchanges.length = 1 ∧
      c.CountsAnswers ∧ d.CountsAnswers := by
  have hrun : (answeredRun {}).map (fun n => n.test.clients.map fun c =>
      (c.exchanges.length, c.tasks.isEmpty)) = some [(1, true), (1, true)] := by decide +kernel
  obtain ⟨n, hn, hend⟩ := Option.map_eq_some_iff.mp hrun
  have hreach := Reaches.of_foldlM hn
  have hclock : ∀ k : ℕ, ((fun _ => 0 : ℕ → ℤ) k).natAbs ≤ 2 ^ 63 := fun _ => Nat.zero_le _
  obtain ⟨c, rest, hclients, hc, hrest⟩ := List.map_eq_cons_iff.mp hend
  obtain ⟨d, rest, rfl, hd, hnil⟩ := List.map_eq_cons_iff.mp hrest
  obtain rfl := List.map_eq_nil_iff.mp hnil
  simp only [Prod.mk.injEq, List.isEmpty_iff] at hc hd
  obtain ⟨-, -, -, hcounts⟩ := answers_are_true (i := 0) shortDoubles_bounded hclock
    priceText_printsNumbers hreach (by rw [hclients]; rfl)
  obtain ⟨-, -, -, hcounts'⟩ := answers_are_true (i := 1) shortDoubles_bounded hclock
    priceText_printsNumbers hreach (by rw [hclients]; rfl)
  exact ⟨n, c, d, hreach, hclients, hc.1, hd.1, hcounts hc.2, hcounts' hd.2⟩

/-- Each acknowledgement that a client has read repeats its order, and no other one in the
whole test has its id. -/
theorem acks_tell_orders_apart (hdbl : dbl.Bounded) (hclock : ∀ k, (clock k).natAbs ≤ 2 ^ 63)
    (hprint : PrintsNumbers printPrice)
    (h : Reaches (step host (serverRouter dbl) (LoadGen.nextRequest printPrice scenario))
      (fun _ _ => True) (initial numClients generator maxConnections (World.initial clock)) n)
    (hlt : (orders n.server).length < 2 ^ 64) {i p : ℕ} {c : AsyncClient UInt64} {e : Exchange}
    (hi : n.test.clients[i]? = some c) (hp : c.exchanges[p]? = some e)
    (horder : isOrder e = true) :
    Acknowledges printPrice e ∧
      (∃ k, 1 ≤ k ∧ k ≤ (orders n.server).length ∧ ackOrderId e = orderText k) ∧
      ∀ (j q : ℕ) (d : AsyncClient UInt64) (e' : Exchange), n.test.clients[j]? = some d →
        d.exchanges[q]? = some e' → isOrder e' = true → ackOrderId e = ackOrderId e' →
          i = j ∧ p = q := by
  have hlinked := reaches_linked h
  have hfits := loadGen_fits hdbl hclock hprint scenario
  have hserver : ServerRun host (serverRouter dbl) maxConnections (World.initial clock) n.server :=
    reaches_server (fun _ _ _ _ _ => trivial) h
  have hnumbered := reaches_numbered hserver
  have hlogged : ∀ {j q : ℕ} {d : AsyncClient UInt64} {e' : Exchange},
      n.test.clients[j]? = some d → d.exchanges[q]? = some e' →
        (n.conversation j)[q]? = some e' := by
    intro j q d e' hj hq
    obtain ⟨rest, hrest⟩ := hlinked.exchanges_prefix hfits hserver hj
    rw [← hrest, List.getElem?_append_left (List.getElem?_eq_some_iff.mp hq).1]
    exact hq
  have he := hlogged hi hp
  refine ⟨(hlinked.answered hfits hserver (List.mem_of_getElem? he)).2 hprint horder, ?_, ?_⟩
  · have hmem : (n.peers.idxOf i, e) ∈ orders n.server :=
      List.mem_filter.mpr ⟨mem_log_of_mem_logOf (List.mem_of_getElem? he), horder⟩
    have hid := List.mem_map_of_mem (f := fun e : ℕ × Exchange => ackOrderId e.2) hmem
    rw [hnumbered.ids_eq hlt, List.mem_map] at hid
    obtain ⟨k, hk, hid⟩ := hid
    rw [List.mem_range] at hk
    exact ⟨k + 1, by omega, by omega, hid.symm⟩
  · intro j q d e' hj hq horder' hsame
    have he' := hlogged hj hq
    obtain ⟨hindex, hpq⟩ := same_order hnumbered hlt he he' horder horder' hsame
    refine ⟨?_, hpq⟩
    -- the session of an exchange has a client, and only one
    have hpeer : i ∈ n.peers := by
      by_contra hnot
      rw [hlinked.conversation_of_notMem hnot] at he
      cases he
    exact (List.idxOf_inj hpeer).mp hindex

theorem acks_tell_orders_apart_two_orders :
    ∃ (n : Network UInt64 World) (c d : AsyncClient UInt64) (e e' : Exchange),
      Reaches (step .little (serverRouter shortDoubles)
          (LoadGen.nextRequest priceText ⟨0, 1, 1, 0, 0⟩)) (fun _ _ => True)
        (initial 2 (fun i => seed (UInt32.ofNat i)) 50000 (World.initial fun _ => 0)) n ∧
      n.test.clients = [c, d] ∧ c.exchanges = [e] ∧ d.exchanges = [e'] ∧
      Acknowledges priceText e ∧ ackOrderId e ≠ ackOrderId e' := by
  have hrun : (answeredRun ⟨0, 1, 1, 0, 0⟩).map (fun n => (n.test.clients.map fun c =>
      c.exchanges.map isOrder, (orders n.server).length)) = some ([[true], [true]], 2) := by
    decide +kernel
  obtain ⟨n, hn, hend⟩ := Option.map_eq_some_iff.mp hrun
  obtain ⟨hend, hlength⟩ := Prod.mk.inj hend
  have hreach := Reaches.of_foldlM hn
  have hclock : ∀ k : ℕ, ((fun _ => 0 : ℕ → ℤ) k).natAbs ≤ 2 ^ 63 := fun _ => Nat.zero_le _
  have hone : ∀ {es : List Exchange}, es.map isOrder = [true] →
      ∃ e, es = [e] ∧ isOrder e = true := by
    intro es hes
    obtain ⟨e, rest, rfl, he, hnil⟩ := List.map_eq_cons_iff.mp hes
    exact ⟨e, by rw [List.map_eq_nil_iff.mp hnil], he⟩
  obtain ⟨c, rest, hclients, hc, hrest⟩ := List.map_eq_cons_iff.mp hend
  obtain ⟨d, rest, rfl, hd, hnil⟩ := List.map_eq_cons_iff.mp hrest
  obtain rfl := List.map_eq_nil_iff.mp hnil
  obtain ⟨e, he, horder⟩ := hone hc
  obtain ⟨e', he', horder'⟩ := hone hd
  obtain ⟨hack, -, hapart⟩ := acks_tell_orders_apart (i := 0) (p := 0) shortDoubles_bounded hclock
    priceText_printsNumbers hreach (by rw [hlength]; norm_num) (by rw [hclients]; rfl)
    (by rw [he]; rfl) horder
  refine ⟨n, c, d, e, e', hreach, hclients, he, he', hack, ?_⟩
  intro hsame
  obtain ⟨hzero, -⟩ := hapart 1 0 d e' (by rw [hclients]; rfl) (by rw [he']; rfl) horder' hsame
  cases hzero

inductive SaysWhatWasAsked (dbl : Doubles D) (clock : ℕ → ℤ) (printPrice : ℕ → Bytes) :
    Exchange → Prop
  | sql {sym : Bytes} {response : Message} : sym ∈ symbols →
      response.payload = sqlRows ++ sqlText sym ++ ascii "\"\x7d" →
      SaysWhatWasAsked dbl clock printPrice
        ⟨Message.make MessageType.kSqlQuery (LoadGen.sqlPayload sym) 0, response⟩
  | order {e : Exchange} : Acknowledges printPrice e → SaysWhatWasAsked dbl clock printPrice e
  | position {response : Message} :
      response.payload = ascii "\x7b\"account\":\"ACC-001\"," ++ positionRows →
      SaysWhatWasAsked dbl clock printPrice
        ⟨Message.make MessageType.kGetPosition positionPayload 0, response⟩
  | history {sym : Bytes} {days k : ℕ} {response : Message} : sym ∈ symbols → 7 ≤ days → days ≤ 30 →
      response.payload = ascii "\x7b\"symbol\":\"" ++ sym ++ ascii "\",\"history\":[" ++
        commaJoin (((List.range days).reverse.map
          (candle dbl (basePrice dbl sym) (clock k))).map (candleText dbl)) ++ ascii "]\x7d" →
      SaysWhatWasAsked dbl clock printPrice
        ⟨Message.make MessageType.kGetPriceHistory (historyPayload sym days) 0, response⟩

theorem handleSqlQuery_sqlPayload {sym : Bytes} (h : sym ∈ symbols) :
    handleSqlQuery (LoadGen.sqlPayload sym) = sqlRows ++ sqlText sym ++ ascii "\"\x7d" := by
  have hall : ∀ sym ∈ symbols, sqlText sym ≠ [] ∧ jsonEscape (sqlText sym) = sqlText sym := by decide
  obtain ⟨hne, hescape⟩ := hall sym h
  rw [handleSqlQuery, extractString_sqlPayload h, if_neg hne, hescape]

theorem handleGetPriceHistory_historyPayload {sym : Bytes} (h : sym ∈ symbols) {days : ℕ}
    (hlow : 1 ≤ days) (hhigh : days ≤ 365) (now : ℤ) :
    handleGetPriceHistory dbl (historyPayload sym days) now =
      ascii "\x7b\"symbol\":\"" ++ sym ++ ascii "\",\"history\":[" ++
        commaJoin (((List.range days).reverse.map
          (candle dbl (basePrice dbl sym) now)).map (candleText dbl)) ++ ascii "]\x7d" := by
  rw [handleGetPriceHistory, historyCandles, historySymbol_historyPayload h,
    effectiveDays_historyPayload (mem_symbols_text h).2.1 hlow hhigh]

theorem saysWhatWasAsked_dispatch {m : Message} (h : Asked printPrice m)
    (hprint : PrintsNumbers printPrice) {w : World} (hw : w.clock = clock) :
    SaysWhatWasAsked dbl clock printPrice ⟨m, ((serverRouter dbl).dispatch m w).1⟩ := by
  have hm := h
  cases h with
  | sql hsym =>
    refine .sql hsym ?_
    rw [dispatch_payload, responsePayload_sql w rfl, Message.make_payload,
      handleSqlQuery_sqlPayload hsym]
  | buy | sell => exact .order (acknowledges_dispatch hm hprint w rfl)
  | position =>
    refine .position ?_
    rw [dispatch_payload, responsePayload_position w rfl]
    rfl
  | history hsym hlow hhigh =>
    refine .history (k := w.clockReads) hsym hlow hhigh ?_
    rw [dispatch_payload, responsePayload_history w rfl, Message.make_payload,
      handleGetPriceHistory_historyPayload hsym (by omega) (by omega), World.time, hw]

/-- Every response that a client has read is made of the very values that it put into its
request, whatever the session, the network and the other clients did in between. -/
theorem answers_say_what_was_asked (hdbl : dbl.Bounded) (hclock : ∀ k, (clock k).natAbs ≤ 2 ^ 63)
    (hprint : PrintsNumbers printPrice)
    (h : Reaches (step host (serverRouter dbl) (LoadGen.nextRequest printPrice scenario))
      (fun _ _ => True) (initial numClients generator maxConnections (World.initial clock)) n)
    {i : ℕ} {c : AsyncClient UInt64} (hi : n.test.clients[i]? = some c) :
    ∀ e ∈ c.exchanges, SaysWhatWasAsked dbl clock printPrice e := by
  intro e he
  have hlinked := reaches_linked h
  have hfits := loadGen_fits hdbl hclock hprint scenario
  have hserver : ServerRun host (serverRouter dbl) maxConnections (World.initial clock) n.server :=
    reaches_server (fun _ _ _ _ _ => trivial) h
  have hmem := (hlinked.exchanges_prefix hfits hserver hi).subset he
  obtain ⟨hasked, w, hw, hresponse⟩ := hlinked.dispatched hfits hserver hmem
  obtain ⟨request, response⟩ := e
  simp only at hasked hresponse
  subst hresponse
  exact saysWhatWasAsked_dispatch hasked hprint hw

theorem answers_say_what_was_asked_position :
    ∃ (n : Network UInt64 World) (c d : AsyncClient UInt64) (e e' : Exchange),
      n.test.clients = [c, d] ∧ c.exchanges = [e] ∧ d.exchanges = [e'] ∧
      e.request.header.messageType = MessageType.kSellOrder ∧
      e'.request.header.messageType = MessageType.kGetPosition ∧
      SaysWhatWasAsked shortDoubles (fun _ => 0) priceText e ∧
      SaysWhatWasAsked shortDoubles (fun _ => 0) priceText e' := by
  have hrun : (answeredRun ⟨0, 0, 1, 1, 0⟩).map (fun n => n.test.clients.map fun c =>
      c.exchanges.map fun e => e.request.header.messageType) =
        some [[MessageType.kSellOrder], [MessageType.kGetPosition]] := by decide +kernel
  obtain ⟨n, hn, hend⟩ := Option.map_eq_some_iff.mp hrun
  have hreach := Reaches.of_foldlM hn
  have hclock : ∀ k : ℕ, ((fun _ => 0 : ℕ → ℤ) k).natAbs ≤ 2 ^ 63 := fun _ => Nat.zero_le _
  obtain ⟨c, rest, hclients, hc, hrest⟩ := List.map_eq_cons_iff.mp hend
  obtain ⟨d, rest, rfl, hd, hnil⟩ := List.map_eq_cons_iff.mp hrest
  obtain rfl := List.map_eq_nil_iff.mp hnil
  obtain ⟨e, rest, he, htype, hnil⟩ := List.map_eq_cons_iff.mp hc
  obtain rfl := List.map_eq_nil_iff.mp hnil
  obtain ⟨e', rest, he', htype', hnil⟩ := List.map_eq_cons_iff.mp hd
  obtain rfl := List.map_eq_nil_iff.mp hnil
  have hsays := answers_say_what_was_asked (i := 0) shortDoubles_bounded hclock
    priceText_printsNumbers hreach (by rw [hclients]; rfl) e (by rw [he]; exact List.mem_cons_self)
  have hsays' := answers_say_what_was_asked (i := 1) shortDoubles_bounded hclock
    priceText_printsNumbers hreach (by rw [hclients]; rfl) e' (by rw [he']; exact List.mem_cons_self)
  exact ⟨n, c, d, e, e', hclients, he, he', htype, htype', hsays, hsays'⟩

end Services

end Network

end HSFinancialServices.System
