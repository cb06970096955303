import HSFinancialServices.System.Admission
import HSFinancialServices.System.Answers

/-!
# The books of a load test and the books of the server

Whatever fails on the way, what the clients have counted has been carried out, once, and
what has been carried out beyond that belongs to requests that are still open.
-/

namespace HSFinancialServices

namespace LoadGen

def AsyncClient.counted {γ : Type*} (c : AsyncClient γ) : List Message := c.sent.take c.successes

namespace AsyncClient
variable {γ : Type*} {c : AsyncClient γ} {stage : Stage}

theorem counted_prefix (c : AsyncClient γ) : c.counted <+: c.sent := List.take_prefix _ _

theorem At.counted_length (h : c.At stage) : c.counted.length = c.successes := by
  rw [counted, List.length_take, h.sent]
  omega

theorem At.countP_sent_le (h : c.At stage) (p : Message → Bool) :
    c.sent.countP p ≤ c.counted.countP p + 1 := by
  have hopen : (c.sent.drop c.successes).length ≤ 1 := by
    rw [List.length_drop, h.sent, Nat.add_sub_cancel_left]
    cases stage with
    | waiting op | failing op => exact Bool.toNat_le _
    | ending failure | ended failure => exact Bool.toNat_le _
    | constructed | counted | sending => exact Nat.zero_le 1
    | answered => exact le_rfl
  have hrest := List.countP_le_length (p := p) (l := c.sent.drop c.successes)
  calc
    c.sent.countP p = c.counted.countP p + (c.sent.drop c.successes).countP p := by
      rw [counted, ← List.countP_append, List.take_append_drop]
    _ ≤ c.counted.countP p + 1 := Nat.add_le_add_left (hrest.trans hopen) _

end AsyncClient

theorem LoadTest.Accounted.sum_eq {γ : Type*} {numClients : UInt32} {s : LoadTest γ}
    (h : s.Accounted numClients) (f : AsyncClient γ → ℕ) :
    s.sum f = ∑ i ∈ Finset.range numClients.toNat, (s.clients[i]?).elim 0 f := by
  have hmap : s.clients.map f =
      (List.range numClients.toNat).map fun i => (s.clients[i]?).elim 0 f := by
    apply List.ext_getElem
    · rw [List.length_map, List.length_map, List.length_range, h.length]
    · intro i hi _
      rw [List.length_map] at hi
      rw [List.getElem_map, List.getElem_map, List.getElem_range, List.getElem?_eq_getElem hi]
      rfl
  rw [LoadTest.sum, hmap]
  rfl

end LoadGen

namespace System
open AtomicCalls LoadGen Services Transitions

namespace Network

section General
variable {γ σ : Type*} {host : HostOrder} {router : ServiceRouter σ}
  {nextRequest : γ → Message × γ} {numClients : UInt32} {generator : ℕ → γ}
  {maxConnections : UInt64} {store : σ} {n n' : Network γ σ}

section Messages
variable {P : Message → Prop} {I : σ → Prop}

/-- What the server has carried out lies between what its clients have counted and what they
have sent. -/
theorem Linked.counted_conversation_sent (h : Linked host nextRequest numClients n)
    (hfits : Fits router nextRequest store P I)
    (hserver : ServerRun host router maxConnections store n.server) {i : ℕ} {c : AsyncClient γ}
    (hi : n.test.clients[i]? = some c) :
    c.counted <+: (n.conversation i).map Exchange.request ∧
      (n.conversation i).map Exchange.request <+: c.sent := by
  obtain ⟨stage, hstage⟩ := h.accounted.stages c (List.mem_of_getElem? hi)
  have hrequests := h.requests_prefix hfits i
  have hresponses := h.responses_prefix hfits hserver i
  rw [LoadTest.sentBy_eq hi] at hrequests
  rw [LoadTest.answersTo_eq hi] at hresponses
  refine ⟨?_, hrequests⟩
  have hlength := hresponses.length_le
  rw [List.length_map, hstage.responses] at hlength
  apply List.prefix_of_prefix_length_le c.counted_prefix hrequests
  rw [hstage.counted_length, List.length_map]
  omega

theorem Linked.countP_log (h : Linked host nextRequest numClients n)
    (hplaced : Placed numClients n) (p : Message → Bool) :
    ∑ i ∈ Finset.range numClients.toNat, ((n.conversation i).map Exchange.request).countP p =
      n.server.log.countP fun e => p e.2.request := by
  have hcallers : ∀ call ∈ n.order, call.caller ∈ Finset.range numClients.toNat := by
    intro call hcall
    obtain ⟨e, he, rfl⟩ := List.mem_map.mp hcall
    have hlt : e.1 < n.peers.length := h.peers ▸ h.streamed.created e he
    rw [Finset.mem_range]
    simp only [List.getD_eq_getElem _ _ hlt]
    exact hplaced.lt _ (List.mem_append_left _ (List.getElem_mem hlt))
  have hsum := sum_countP_performedQueries p hcallers
  simp only [h.performedQueries_order] at hsum
  rw [hsum, order, List.map_map, List.countP_map]
  rfl

theorem Linked.countP_log_bounds (h : Linked host nextRequest numClients n)
    (hfits : Fits router nextRequest store P I)
    (hserver : ServerRun host router maxConnections store n.server) (hplaced : Placed numClients n)
    (p : Message → Bool) :
    n.test.sum (fun c => c.counted.countP p) ≤ n.server.log.countP (fun e => p e.2.request) ∧
      n.server.log.countP (fun e => p e.2.request) ≤ n.test.sum fun c => c.sent.countP p := by
  have hclient : ∀ i ∈ Finset.range numClients.toNat, ∃ c, n.test.clients[i]? = some c := by
    intro i hi
    exact ⟨_, List.getElem?_eq_getElem (h.accounted.length ▸ Finset.mem_range.mp hi)⟩
  rw [← h.countP_log hplaced p, h.accounted.sum_eq, h.accounted.sum_eq]
  constructor
  · apply Finset.sum_le_sum
    intro i hi
    obtain ⟨c, hc⟩ := hclient i hi
    obtain ⟨hcounted, -⟩ := h.counted_conversation_sent hfits hserver hc
    rw [hc]
    exact hcounted.sublist.countP_le
  · apply Finset.sum_le_sum
    intro i hi
    obtain ⟨c, hc⟩ := hclient i hi
    obtain ⟨-, hsent⟩ := h.counted_conversation_sent hfits hserver hc
    rw [hc]
    exact hsent.sublist.countP_le

theorem Linked.unserved (h : Linked host nextRequest numClients n)
    (hfits : Fits router nextRequest store P I)
    (hserver : ServerRun host router maxConnections store n.server) {i : ℕ} (hi : i ∉ n.peers)
    {c : AsyncClient γ} (hc : n.test.clients[i]? = some c) :
    n.conversation i = [] ∧ c.responses = [] ∧ c.successes = 0 ∧ c.sent.length ≤ 1 := by
  have hnone := h.conversation_of_notMem hi
  obtain ⟨hcounted, -⟩ := h.counted_conversation_sent hfits hserver hc
  have hresponses := h.responses_prefix hfits hserver i
  rw [hnone, List.map_nil, List.prefix_nil] at hcounted
  rw [hnone, List.map_nil, List.prefix_nil, LoadTest.answersTo_eq hc] at hresponses
  obtain ⟨stage, hstage⟩ := h.accounted.stages c (List.mem_of_getElem? hc)
  have hzero : c.successes = 0 := by
    rw [← hstage.counted_length, hcounted]
    rfl
  have hle := hstage.countP_sent_le fun _ => true
  rw [hcounted, List.countP_true] at hle
  exact ⟨hnone, hresponses, hzero, hle⟩

end Messages

end General

/-- Of the requests of any kind the server has carried out all that the clients have counted,
and at most one more for each client; the orders among them are those that have an id. A
client that was turned away has had nothing carried out. -/
theorem books_balance {D : Type*} {dbl : Doubles D} (hdbl : dbl.Bounded) {clock : ℕ → ℤ}
    (hclock : ∀ k, (clock k).natAbs ≤ 2 ^ 63) {printPrice : ℕ → Bytes}
    (hprint : PrintsNumbers printPrice) {scenario : ScenarioConfig} {host : HostOrder}
    {numClients : UInt32} {generator : ℕ → UInt64} {maxConnections : UInt64}
    {n : Network UInt64 World}
    (h : Reaches (step host (serverRouter dbl) (LoadGen.nextRequest printPrice scenario))
      (fun _ _ => True) (initial numClients generator maxConnections (World.initial clock)) n)
    (p : Message → Bool) :
    n.test.sum (fun c => c.counted.countP p) ≤ n.server.log.countP (fun e => p e.2.request) ∧
      n.server.log.countP (fun e => p e.2.request) ≤ n.test.sum (fun c => c.sent.countP p) ∧
      (∀ c ∈ n.test.clients, c.sent.countP p ≤ c.counted.countP p + 1) ∧
      n.test.successes = UInt64.ofNat (n.test.sum fun c => c.counted.length) ∧
      n.server.store.orderCounter =
        UInt64.ofNat (n.server.log.countP (fun e => Services.isOrder e.2) + 1) ∧
      (n.peers ++ n.rejected).Nodup ∧
      ∀ (i : ℕ) (c : AsyncClient UInt64), i ∈ n.rejected → n.test.clients[i]? = some c →
        n.conversation i = [] ∧ c.responses = [] ∧ c.successes = 0 ∧ c.sent.length ≤ 1 := by
  have hfits := loadGen_fits hdbl hclock hprint scenario
  have hlinked := reaches_linked h
  have hplaced := reaches_placed h
  have hserver : ServerRun host (serverRouter dbl) maxConnections (World.initial clock) n.server :=
    reaches_server (fun _ _ _ _ _ => trivial) h
  obtain ⟨hcounted, hsent⟩ := hlinked.countP_log_bounds hfits hserver hplaced p
  refine ⟨hcounted, hsent, ?_, ?_, ?_, hplaced.nodup, ?_⟩
  · intro c hc
    obtain ⟨stage, hstage⟩ := hlinked.accounted.stages c hc
    exact hstage.countP_sent_le p
  · have hsums : n.test.sum (fun c => c.counted.length) = n.test.sum AsyncClient.successes := by
      apply congrArg List.sum
      apply List.map_congr_left
      intro c hc
      obtain ⟨stage, hstage⟩ := hlinked.accounted.stages c hc
      exact hstage.counted_length
    rw [hsums]
    exact hlinked.accounted.successes
  · have hnumbered := reaches_numbered hserver
    rw [hnumbered.counter, List.countP_eq_length_filter]
    rfl
  · intro i c hi hc
    have hnew : i ∉ n.peers := fun hpeer => List.disjoint_of_nodup_append hplaced.nodup hpeer hi
    exact hlinked.unserved hfits hserver hnew hc

theorem books_balance_lost_answer :
    let nextRequest := LoadGen.nextRequest priceText ⟨0, 1, 1, 0, 0⟩
    ∃ n : Network UInt64 World, Reaches (step .little (serverRouter shortDoubles) nextRequest)
        (fun _ _ => True)
        (initial 2 (fun i => seed (UInt32.ofNat i)) 1 (World.initial fun _ => 0)) n ∧
      n.test.clients.map AsyncClient.finished = [true, true] ∧ n.test.successes = 0 ∧
      n.server.store.orderCounter = 2 ∧ n.rejected = [1] ∧ n.conversation 1 = [] := by
  intro nextRequest
  let first := (nextRequest (seed 0)).1
  let connects (i : ℕ) : List Turn := [.client (.start i), .client (.complete i 0 (some []))]
  let accept (i n : ℕ) : List Turn := .server i .accepted ::
    List.replicate n (.server i (.acceptStep 0 true))
  let fails (i : ℕ) : List Turn :=
    [.client (.complete i 0 none), .client (.runTask i 0), .client (.runTask i 0)]
  let turns := connects 0 ++ connects 1 ++ accept 0 8 ++ accept 1 3 ++
    [.client (.complete 0 0 (some [])), .client (.runTask 0 0),
      .server 0 (.arrive 0 (first.serialise .little)), .server 0 (.io 0), .server 0 (.io 0),
      .server 0 (.fail 0 4), .client (.complete 0 0 (some []))] ++ fails 0 ++ fails 1
  let run := turns.foldlM (fun n turn => if True then step .little (serverRouter shortDoubles)
    nextRequest turn n else none)
    (initial 2 (fun i => seed (UInt32.ofNat i)) 1 (World.initial fun _ => 0))
  have hrun : run.map (fun n => (n.test.clients.map AsyncClient.finished, n.test.successes,
      n.server.log.countP (fun e => isOrder e.2), n.rejected)) = some ([true, true], 0, 1, [1]) := by
    decide +kernel
  obtain ⟨n, hn, hend⟩ := Option.map_eq_some_iff.mp hrun
  simp only [Prod.mk.injEq] at hend
  obtain ⟨hfinished, hsuccesses, horders, hrejected⟩ := hend
  have hreach := Reaches.of_foldlM hn
  have hclock : ∀ k : ℕ, ((fun _ => 0 : ℕ → ℤ) k).natAbs ≤ 2 ^ 63 := fun _ => Nat.zero_le _
  obtain ⟨-, -, -, -, hcounter, -, hturned⟩ := books_balance shortDoubles_bounded hclock
    priceText_printsNumbers hreach fun _ => true
  obtain ⟨c, rest, hclients, -, hrest⟩ := List.map_eq_cons_iff.mp hfinished
  obtain ⟨d, rest, rfl, -, -⟩ := List.map_eq_cons_iff.mp hrest
  obtain ⟨hnone, -⟩ := hturned 1 d (by rw [hrejected]; exact List.mem_singleton_self 1)
    (by rw [hclients]; rfl)
  rw [horders] at hcounter
  exact ⟨n, hreach, hfinished, hsuccesses, hcounter, hrejected, hnone⟩

end Network

end System

end HSFinancialServices
