import HSFinancialServices.LoadGen.RequestTexts
import HSFinancialServices.System.Conversations

/-!
# The services under load are linearizable

The order in which the server dispatches is the order in which the requests of all clients
take effect. It is one that could have been observed by using the services one request at a
time, and it never contradicts what the clients see of real time.
-/

namespace HSFinancialServices.System
open AtomicCalls LoadGen Services Transitions

namespace Network

variable {γ σ : Type*} {host : HostOrder} {router : ServiceRouter σ}
  {nextRequest : γ → Message × γ} {numClients : UInt32} {generator : ℕ → γ}
  {maxConnections : UInt64} {store : σ} {n n' : Network γ σ}

def order (n : Network γ σ) : List (Performed ℕ Message Message) :=
  n.server.log.map fun e => ⟨n.peers.getD e.1 0, e.2.request, e.2.response⟩

theorem Linked.peer_iff (h : Linked host nextRequest numClients n) {k : ℕ}
    (hk : k < n.server.slots.length) (i : ℕ) : n.peers.getD k 0 = i ↔ k = n.peers.idxOf i := by
  rw [← h.peers] at hk
  rw [List.getD_eq_getElem _ _ hk]
  constructor
  · rintro rfl
    exact (h.nodup.idxOf_getElem k hk).symm
  · rintro rfl
    exact List.getElem_idxOf hk

theorem Linked.performed_order (h : Linked host nextRequest numClients n) (i : ℕ) :
    performed i n.order = (n.conversation i).map fun e => ⟨i, e.request, e.response⟩ := by
  have hmine : ∀ e ∈ n.server.log,
      decide (n.peers.getD e.1 0 = i) = (e.1 == n.peers.idxOf i) := by
    intro e he
    rw [Bool.eq_iff_iff, decide_eq_true_iff, beq_iff_eq]
    exact h.peer_iff (h.streamed.created e he) i
  rw [performed, order, List.filter_map, conversation, Server.logOf, List.map_map]
  have hfilter := List.filter_congr hmine
  simp only [Function.comp_def] at hfilter ⊢
  rw [hfilter]
  apply List.map_congr_left
  intro e he
  have hindex := (List.mem_filter.mp he).2
  rw [beq_iff_eq] at hindex
  rw [(h.peer_iff (h.streamed.created e (List.mem_of_mem_filter he)) i).mpr hindex]

theorem Linked.performedQueries_order (h : Linked host nextRequest numClients n) (i : ℕ) :
    performedQueries i n.order = (n.conversation i).map Exchange.request := by
  rw [performedQueries, h.performed_order, List.map_map]
  rfl

theorem Linked.performedResults_order (h : Linked host nextRequest numClients n) (i : ℕ) :
    performedResults i n.order = (n.conversation i).map Exchange.response := by
  rw [performedResults, h.performed_order, List.map_map]
  rfl

/-- The services as one object that carries out each request at one moment, in the same
state and with the same history as the network -/
structure Behind (router : ServiceRouter σ) (store : σ) (n : Network γ σ)
    (m : Machine ℕ Message Message σ) : Prop where
  reachable : Reachable router.dispatch store m
  store : m.store = n.server.store
  history : m.history = n.history
  order : m.order = n.order

section Simulation
variable {P : Message → Prop} {I : σ → Prop} {m : Machine ℕ Message Message σ}

def ServerRun (host : HostOrder) (router : ServiceRouter σ) (maxConnections : UInt64) (store : σ)
    (s : Server σ) : Prop :=
  Reaches (Server.step host router) (fun _ _ => True) (Server.initial maxConnections store) s

theorem Behind.client (hbehind : Behind router store n m)
    (h : Linked host nextRequest numClients n) (hfits : Fits router nextRequest store P I)
    (hserver : ServerRun host router maxConnections store n.server) {a : LoadTest.Action}
    {t : LoadTest γ} (hoffers : n.Offers a)
    (hstep : LoadTest.step host nextRequest a n.test = some t) :
    ∃ m', Behind router store (n.clientStep a t) m' := by
  have hnext := h.client hoffers hstep
  obtain ⟨ha, rfl⟩ | ⟨i, c, c', metrics, ha, hi, rfl, hmoved⟩ := h.accounted.step_cases hstep
  · rw [clientStep_of_none ha]
    exact ⟨m, hbehind.reachable, hbehind.store, hbehind.history, hbehind.order⟩
  have hsound := hbehind.reachable.sound
  have hqueries : queries i m.history = c.sent := by
    rw [hbehind.history, h.queries, LoadTest.sentBy_eq hi]
  have hresults : results i m.history = c.responses := by
    rw [hbehind.history, h.results, LoadTest.answersTo_eq hi]
  have hanswers := hnext.responses_prefix hfits (by rwa [clientStep_server]) i
  have hconversation : (n.clientStep a (n.test.after i c' metrics)).conversation i =
      n.conversation i := by
    rw [conversation, clientStep_server, clientStep_peers, conversation]
  rw [hconversation, clientStep_test, LoadTest.answersTo_after hi, if_pos rfl] at hanswers
  rw [clientStep_of_some ha]
  obtain ⟨-, -, hevents⟩ | ⟨-, -, hlength, hevents⟩ | ⟨response, -, hresponses, hevents⟩ :=
    events_of_record (m := metrics) hi hmoved.record
  · refine ⟨m, hbehind.reachable, hbehind.store, ?_, hbehind.order⟩
    rw [hevents, List.append_nil, hbehind.history]
  · -- the client has read an answer to everything it had asked
    have hidle : m.status i = .idle := hsound.idle (by rw [hqueries, hresults, hlength])
    refine ⟨_, hbehind.reachable.tail (.call i (nextRequest c.generator).1 hidle), hbehind.store, ?_,
      hbehind.order⟩
    rw [hevents, hbehind.history]
  · -- what it reads to the end is the next response of its session
    have hdone : m.status i = .done response := by
      apply hsound.doneOf
      rw [hresults, hbehind.order, h.performedResults_order, ← hresponses]
      exact hanswers
    refine ⟨_, hbehind.reachable.tail (.reply i response hdone), hbehind.store, ?_, hbehind.order⟩
    rw [hevents, hbehind.history]

theorem order_serverStep {i : ℕ} {a : Action} {s : Server σ}
    (hlog : ∀ e ∈ s.log, e.1 < n.peers.length) : (n.serverStep i a s).order =
      s.log.map fun e => ⟨n.peers.getD e.1 0, e.2.request, e.2.response⟩ := by
  simp only [order, serverStep]
  apply List.map_congr_left
  intro e he
  split_ifs
  · rw [List.getD_append _ _ _ _ (hlog e he)]
  · rfl

theorem Behind.server (hbehind : Behind router store n m)
    (h : Linked host nextRequest numClients n) (hfits : Fits router nextRequest store P I) {i : ℕ}
    {a : Action} {s : Server σ} (hallows : n.Allows host i a)
    (hstep : Server.step host router a n.server = some s) :
    ∃ m', Behind router store (n.serverStep i a s) m' := by
  have hnext := h.server hallows hstep
  have hcreated : ∀ e ∈ n.server.log, e.1 < n.peers.length := by
    intro e he
    rw [h.peers]
    exact h.streamed.created e he
  have accepting : Server.Accepting n.server s → ∃ m', Behind router store (n.serverStep i a s) m' := by
    intro hs
    refine ⟨m, hbehind.reachable, hbehind.store.trans hs.store.symm, hbehind.history, ?_⟩
    rw [order_serverStep (by rw [hs.log]; exact hcreated), hs.log, hbehind.order, Network.order]
  obtain ⟨ok, hs⟩ | ⟨j, optionOk, -, hs⟩ | ⟨k, c, c', alive, effect, hk, rfl, hmoved, -⟩ :=
    Server.step_cases hstep
  · exact accepting (Server.acceptCompleted_accepting hs)
  · exact accepting (Server.acceptStep_accepting hs)
  have hlt : k < n.peers.length := h.peers ▸ (List.getElem?_eq_some_iff.mp hk).1
  have horder : (n.serverStep i a (n.server.after k ⟨c', alive⟩ effect)).order = n.order ++
      effect.dispatched.map fun e => ⟨n.peers.getD k 0, e.request, e.response⟩ := by
    rw [order_serverStep, Server.after, List.map_append, List.map_map, Network.order]
    · rfl
    · intro e he
      simp only [Server.after, List.mem_append, List.mem_map] at he
      obtain he | ⟨x, -, rfl⟩ := he
      · exact hcreated e he
      · exact hlt
  obtain ⟨hstore, hnone⟩ | ⟨request, hstore, hone⟩ := hmoved.dispatches
  · refine ⟨m, hbehind.reachable, hbehind.store.trans hstore.symm, hbehind.history, ?_⟩
    rw [horder, hnone, List.map_nil, List.append_nil, hbehind.order]
  -- the dispatch is the moment at which the request takes effect
  have hrequests := hnext.requests_prefix hfits (n.peers.getD k 0)
  have hcalled : m.status (n.peers.getD k 0) = .called request := by
    apply hbehind.reachable.sound.calledOf
    rw [hbehind.order, hbehind.history, h.queries]
    rw [← hnext.performedQueries_order, horder, hone, performedQueries_append, List.map_singleton,
      performedQueries_single, if_pos rfl] at hrequests
    exact hrequests
  refine ⟨_, hbehind.reachable.tail (.perform (n.peers.getD k 0) request hcalled), ?_,
    hbehind.history, ?_⟩
  · rw [hbehind.store]
    exact hstore.symm
  · rw [horder, hone, hbehind.store, hbehind.order]
    rfl

theorem reaches_behind {ok : Turn → Network γ σ → Prop}
    (hfits : Fits router nextRequest store P I)
    (h : Reaches (step host router nextRequest) ok
      (initial numClients generator maxConnections store) n) :
    ∃ m, Behind router store n m := by
  induction h with
  | refl => exact ⟨Machine.initial store, .refl, rfl, rfl, rfl⟩
  | @tail b c turn hreach _ hstep ih =>
    obtain ⟨m, hbehind⟩ := ih
    have hlinked := reaches_linked hreach
    cases turn with
    | client a =>
      obtain ⟨hoffers, hstep⟩ := Option.ite_none_right_eq_some.mp hstep
      obtain ⟨t, ht, rfl⟩ := Option.map_eq_some_iff.mp hstep
      have hserver : ServerRun host router maxConnections store b.server :=
        reaches_server (fun _ _ _ _ _ => trivial) hreach
      exact hbehind.client hlinked hfits hserver hoffers ht
    | server i a =>
      obtain ⟨hallows, hstep⟩ := Option.ite_none_right_eq_some.mp hstep
      obtain ⟨s, hs, rfl⟩ := Option.map_eq_some_iff.mp hstep
      exact hbehind.server hlinked hfits hallows hs

theorem linearizes {ok : Turn → Network γ σ → Prop} (hfits : Fits router nextRequest store P I)
    (h : Reaches (step host router nextRequest) ok
      (initial numClients generator maxConnections store) n) :
    Linearizes router.dispatch store n.server.store n.history n.order := by
  obtain ⟨m, hbehind⟩ := reaches_behind hfits h
  have hsound := hbehind.reachable.sound.linearizes
  rwa [hbehind.store, hbehind.history, hbehind.order] at hsound

end Simulation

theorem loadGen_fits {D : Type*} {dbl : Doubles D} (hdbl : dbl.Bounded) {clock : ℕ → ℤ}
    (hclock : ∀ k, (clock k).natAbs ≤ 2 ^ 63) {printPrice : ℕ → Bytes}
    (hprint : PrintsNumbers printPrice) (scenario : ScenarioConfig) :
    Fits (serverRouter dbl) (LoadGen.nextRequest printPrice scenario) (World.initial clock)
      (Asked printPrice) (fun w => w.clock = clock) where
  asked := nextRequest_asked printPrice scenario
  sized _ hm := hm.sized hprint
  store := rfl
  kept m w hw := by rw [dispatch_clock, hw]
  answered m w hm hw := hm.response_sized hprint (hw ▸ hdbl.shortPrints hclock)

/-- What the clients ask and read, in whatever order things happen and whatever fails, could
have come from services that carry out one request at a time, at a moment while it is open. -/
theorem services_linearizable {D : Type*} {dbl : Doubles D} (hdbl : dbl.Bounded) {clock : ℕ → ℤ}
    (hclock : ∀ k, (clock k).natAbs ≤ 2 ^ 63) {printPrice : ℕ → Bytes}
    (hprint : PrintsNumbers printPrice) {scenario : ScenarioConfig} {generator : ℕ → UInt64}
    {n : Network UInt64 World}
    (h : Reaches (step host (serverRouter dbl) (LoadGen.nextRequest printPrice scenario))
      (fun _ _ => True) (initial numClients generator maxConnections (World.initial clock)) n) :
    (∀ (i : ℕ) (c : AsyncClient UInt64), n.test.clients[i]? = some c →
      queries i n.history = c.sent ∧ results i n.history = c.responses) ∧
    Linearizes (serverRouter dbl).dispatch (World.initial clock) n.server.store n.history n.order ∧
    ∀ before after : List (Event ℕ Message Message), n.history = before ++ after →
      ∀ i j p q : ℕ, p < (results i before).length → (queries j before).length ≤ q →
        ∀ front, front <+: n.order → q < (performedQueries j front).length →
          p < (performedQueries i front).length := by
  have hlinked := reaches_linked h
  have hlinearizes := linearizes (loadGen_fits hdbl hclock hprint scenario) h
  refine ⟨?_, hlinearizes, ?_⟩
  · intro i c hc
    rw [hlinked.queries, hlinked.results, LoadTest.sentBy_eq hc, LoadTest.answersTo_eq hc]
    exact ⟨rfl, rfl⟩
  · intro before after hsplit i j p q hanswered hlater front hfront
    exact hlinearizes.realTime hsplit hanswered hlater hfront

def overlappingTurns (first second : Message) (response : Message) : List Turn :=
  let accept (i : ℕ) : List Turn := .server i .accepted ::
    List.replicate 8 (.server i (.acceptStep 0 true))
  [.client (.start 0), .client (.start 1), .client (.complete 0 0 (some [])),
    .client (.complete 1 0 (some []))] ++ accept 1 ++ accept 0 ++
  [.client (.complete 0 0 (some [])), .client (.complete 1 0 (some [])), .client (.runTask 0 0),
    .client (.runTask 1 0), .server 1 (.arrive 0 (second.serialise .little)), .server 1 (.io 0),
    .server 1 (.io 0), .server 0 (.arrive 1 (first.serialise .little)), .server 0 (.io 1),
    .server 0 (.io 1), .client (.complete 0 0 (some [])), .server 0 (.io 1),
    .client (.complete 0 0 (some (encodeHeader .little response.header))),
    .client (.complete 0 0 (some response.payload))]

theorem services_linearizable_overlapping :
    let scenario : ScenarioConfig := ⟨0, 1, 1, 0, 0⟩
    let nextRequest := LoadGen.nextRequest priceText scenario
    let start : Network UInt64 World :=
      initial 2 (fun i => seed (UInt32.ofNat i)) 50000 (World.initial fun _ => 0)
    ∃ n, Reaches (step .little (serverRouter shortDoubles) nextRequest) (fun _ _ => True) start n ∧
      n.order.map Performed.caller = [1, 0] ∧ n.history.length = 3 ∧
      Linearizes (serverRouter shortDoubles).dispatch (World.initial fun _ => 0) n.server.store
        n.history n.order := by
  intro scenario nextRequest start
  let first := (nextRequest (seed 0)).1
  let second := (nextRequest (seed 1)).1
  let w := ((serverRouter shortDoubles).dispatch second (World.initial fun _ => 0)).2
  let run := (overlappingTurns first second
    ((serverRouter shortDoubles).dispatch first w).1).foldlM
    (fun n turn => if True then step .little (serverRouter shortDoubles) nextRequest turn n
      else none) start
  have hrun : run.map (fun n => (n.order.map Performed.caller, n.history.length)) =
      some ([1, 0], 3) := by decide +kernel
  obtain ⟨n, hn, hend⟩ := Option.map_eq_some_iff.mp hrun
  obtain ⟨horder, hlength⟩ := Prod.mk.inj hend
  have hreach := Reaches.of_foldlM hn
  have hclock : ∀ k : ℕ, ((fun _ => 0 : ℕ → ℤ) k).natAbs ≤ 2 ^ 63 := fun _ => Nat.zero_le _
  exact ⟨n, hreach, horder, hlength, (services_linearizable shortDoubles_bounded hclock
    priceText_printsNumbers hreach).2.1⟩

end Network

end HSFinancialServices.System
