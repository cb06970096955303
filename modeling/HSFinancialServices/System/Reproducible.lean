import HSFinancialServices.System.Linearizable

/-!
# The load of a test is reproducible

A client draws its requests from a generator of its own. Whatever the schedule, the answers
and the failures are, it sends the requests of its seed in their order, and its session
dispatches the first of them: two runs differ only in how far they come.
-/

namespace HSFinancialServices
open LoadGen Services Transitions

namespace LoadGen
variable {γ : Type*} {host : HostOrder} {nextRequest : γ → Message × γ}

def requests (nextRequest : γ → Message × γ) : ℕ → γ → List Message
  | 0, _ => []
  | n + 1, g => (nextRequest g).1 :: requests nextRequest n (nextRequest g).2

def generatorAfter (nextRequest : γ → Message × γ) (n : ℕ) (g : γ) : γ :=
  (fun g => (nextRequest g).2)^[n] g

theorem requests_succ (n : ℕ) (g : γ) : requests nextRequest (n + 1) g =
    requests nextRequest n g ++ [(nextRequest (generatorAfter nextRequest n g)).1] := by
  induction n generalizing g with
  | zero => rfl
  | succ n ih =>
    rw [requests, ih, requests, List.cons_append]
    rfl

theorem requests_mono {m n : ℕ} (h : m ≤ n) (g : γ) :
    requests nextRequest m g <+: requests nextRequest n g := by
  induction n, h using Nat.le_induction with
  | base => exact List.prefix_refl _
  | succ n _ ih =>
    rw [requests_succ]
    exact ih.trans (List.prefix_append _ _)

/-- The client has drawn from the generator `g` what it has sent, and nothing else. -/
structure AsyncClient.Drawn (nextRequest : γ → Message × γ) (g : γ) (c : AsyncClient γ) : Prop where
  sent : c.sent = requests nextRequest c.sent.length g
  generator : c.generator = generatorAfter nextRequest c.sent.length g

namespace AsyncClient
variable {c c' : AsyncClient γ} {g : γ}

theorem drawn_construct (g : γ) : (construct g).Drawn nextRequest g := ⟨rfl, rfl⟩

theorem Drawn.same (h : c.Drawn nextRequest g) (hsent : c'.sent = c.sent)
    (hgenerator : c'.generator = c.generator) : c'.Drawn nextRequest g := by
  refine ⟨?_, ?_⟩
  · rw [hsent]
    exact h.sent
  · rw [hsent, hgenerator]
    exact h.generator

theorem Drawn.complete (h : c.Drawn nextRequest g) {stage : Stage} (hstage : c.At stage)
    {completion : Option Bytes} (hstep : c.complete host 0 completion = some c') :
    c'.Drawn nextRequest g := by
  obtain ⟨op, -, hcase⟩ := hstage.complete_cases hstep
  cases hcase with
  | failed | resolved | connected | written | refused | emptyResponse | bodyFollows | response =>
    exact h.same rfl rfl

theorem Drawn.runTask (h : c.Drawn nextRequest g) {stopFlag : Bool} {us : ℤ} {m : Metrics}
    (hstep : c.runTask host nextRequest stopFlag us = some (c', m)) : c'.Drawn nextRequest g := by
  simp only [AsyncClient.runTask] at hstep
  split at hstep
  · cases hstep
  · cases hstep
    exact h.same rfl rfl
  · cases hstep
    exact h.same rfl rfl
  · cases hstep
    exact h.same rfl rfl
  · cases hstep
    exact h.same rfl rfl
  · split_ifs at hstep
    · cases hstep
      exact h.same rfl rfl
    · cases hstep
      refine ⟨?_, ?_⟩
      · simp only [initiate, List.length_append, List.length_singleton]
        rw [requests_succ, ← h.sent, h.generator]
      · simp only [initiate, List.length_append, List.length_singleton]
        rw [h.generator, generatorAfter, generatorAfter, Function.iterate_succ_apply']

end AsyncClient

namespace LoadTest
variable {numClients : UInt32} {generator : ℕ → γ} {s s' : LoadTest γ}

def Drawn (nextRequest : γ → Message × γ) (generator : ℕ → γ) (s : LoadTest γ) : Prop :=
  ∀ (i : ℕ) (c : AsyncClient γ), s.clients[i]? = some c → c.Drawn nextRequest (generator i)

theorem drawn_initial (numClients : UInt32) (generator : ℕ → γ) :
    (initial numClients generator).Drawn nextRequest generator := by
  intro i c hi
  simp only [initial, List.getElem?_map, Option.map_eq_some_iff] at hi
  obtain ⟨j, hj, rfl⟩ := hi
  obtain ⟨hlt, hget⟩ := List.getElem?_eq_some_iff.mp hj
  rw [List.getElem_range] at hget
  rw [hget]
  exact AsyncClient.drawn_construct _

theorem Drawn.after (h : s.Drawn nextRequest generator) {i : ℕ} {c c' : AsyncClient γ}
    (hi : s.clients[i]? = some c) (hc : c'.Drawn nextRequest (generator i)) (m : Metrics) :
    (s.after i c' m).Drawn nextRequest generator := by
  intro j d hj
  rw [clients_after hi] at hj
  split_ifs at hj with hij
  · rw [← Option.some.inj hj, ← hij]
    exact hc
  · exact h j d hj

theorem Drawn.step (h : s.Drawn nextRequest generator) (haccounted : Accounted numClients s)
    {a : Action} (hstep : LoadTest.step host nextRequest a s = some s') :
    s'.Drawn nextRequest generator := by
  cases a with
  | start i =>
    obtain ⟨c, hi, hstart⟩ := Option.bind_eq_some_iff.mp hstep
    obtain ⟨-, hs⟩ := Option.ite_none_left_eq_some.mp hstart
    obtain rfl := Option.some.inj hs
    have hstarted : c.start.Drawn nextRequest (generator i) := (h i c hi).same rfl rfl
    exact h.after hi hstarted {}
  | complete i k completion =>
    obtain ⟨c, hi, hcomplete⟩ := Option.bind_eq_some_iff.mp hstep
    obtain ⟨c', hc', rfl⟩ := Option.map_eq_some_iff.mp hcomplete
    obtain ⟨stage, hstage⟩ := haccounted.stages c (List.mem_of_getElem? hi)
    obtain rfl := hstage.complete_index hc'
    exact h.after hi ((h i c hi).complete hstage hc') {}
  | runTask i us =>
    obtain ⟨c, hi, hrun⟩ := Option.bind_eq_some_iff.mp hstep
    obtain ⟨⟨c', m⟩, hr, rfl⟩ := Option.map_eq_some_iff.mp hrun
    exact h.after hi ((h i c hi).runTask hr) m
  | raiseStop =>
    obtain rfl := Option.some.inj hstep
    exact h

theorem reaches_drawn {ok : Action → LoadTest γ → Prop}
    (h : Reaches (step host nextRequest) ok (initial numClients generator) s) :
    s.Drawn nextRequest generator := by
  induction h with
  | refl => exact drawn_initial numClients generator
  | tail a hreach _ hstep ih => exact ih.step (reaches_accounted hreach) hstep

theorem Drawn.sentBy (h : s.Drawn nextRequest generator) (i : ℕ) :
    s.sentBy i = requests nextRequest (s.sentBy i).length (generator i) := by
  cases hi : s.clients[i]? with
  | none => simp only [LoadTest.sentBy, hi, Option.elim_none, List.length_nil, requests]
  | some c =>
    rw [sentBy_eq hi]
    exact (h i c hi).sent

end LoadTest

end LoadGen

namespace System.Network
variable {γ σ τ : Type*} {nextRequest : γ → Message × γ} {generator : ℕ → γ}

def Comparable (ms ms' : List Message) : Prop := ms <+: ms' ∨ ms' <+: ms

theorem comparable_of_prefix {ms ms' ns ns' : List Message} (h : ms <+: ns) (h' : ms' <+: ns')
    (hlists : Comparable ns ns') : Comparable ms ms' := by
  obtain hle | hle := hlists
  · exact List.prefix_or_prefix_of_prefix (h.trans hle) h'
  · exact List.prefix_or_prefix_of_prefix h (h'.trans hle)

/-- What a client sends is in both runs what its seed gives, and its session dispatches in both
the same requests as far as it comes. -/
theorem load_is_reproducible {D : Type*} {dbl : Doubles D} (hdbl : dbl.Bounded) {clock clock' : ℕ → ℤ}
    (hclock : ∀ k, (clock k).natAbs ≤ 2 ^ 63) (hclock' : ∀ k, (clock' k).natAbs ≤ 2 ^ 63)
    {printPrice : ℕ → Bytes} (hprint : PrintsNumbers printPrice) {scenario : ScenarioConfig}
    {generator : ℕ → UInt64} {host host' : HostOrder} {numClients numClients' : UInt32}
    {maxConnections maxConnections' : UInt64} {n n' : Network UInt64 World}
    (h : Reaches (step host (serverRouter dbl) (LoadGen.nextRequest printPrice scenario))
      (fun _ _ => True) (initial numClients generator maxConnections (World.initial clock)) n)
    (h' : Reaches (step host' (serverRouter dbl) (LoadGen.nextRequest printPrice scenario))
      (fun _ _ => True) (initial numClients' generator maxConnections' (World.initial clock')) n')
    (i : ℕ) :
    (∃ k, n.test.sentBy i = requests (LoadGen.nextRequest printPrice scenario) k (generator i)) ∧
      Comparable (n.test.sentBy i) (n'.test.sentBy i) ∧
      Comparable ((n.conversation i).map Exchange.request)
        ((n'.conversation i).map Exchange.request) := by
  have hsent := (LoadTest.reaches_drawn (reaches_test h)).sentBy i
  have hsent' := (LoadTest.reaches_drawn (reaches_test h')).sentBy i
  have hcomparable : Comparable (n.test.sentBy i) (n'.test.sentBy i) := by
    rw [hsent, hsent']
    exact (le_total _ _).imp (fun hle => requests_mono hle _) fun hle => requests_mono hle _
  refine ⟨⟨_, hsent⟩, hcomparable, ?_⟩
  have hserved := Linked.requests_prefix (reaches_linked h)
    (loadGen_fits hdbl hclock hprint scenario) i
  have hserved' := Linked.requests_prefix (reaches_linked h')
    (loadGen_fits hdbl hclock' hprint scenario) i
  exact comparable_of_prefix hserved hserved' hcomparable

theorem load_is_reproducible_alone :
    ∃ n n' : Network UInt64 World,
      ((n.test.sentBy 0).length, (n.test.sentBy 1).length, (n.conversation 0).length) = (1, 1, 1) ∧
      ((n'.test.sentBy 0).length, (n'.conversation 0).length) = (1, 0) ∧
      n.test.sentBy 0 = n'.test.sentBy 0 := by
  let nextRequest := LoadGen.nextRequest priceText {}
  let first := (nextRequest (seed 0)).1
  let second := (nextRequest (seed 1)).1
  let w := ((serverRouter shortDoubles).dispatch second (World.initial fun _ => 0)).2
  let run := (overlappingTurns first second
    ((serverRouter shortDoubles).dispatch first w).1).foldlM
    (fun n turn => if True then step .little (serverRouter shortDoubles) nextRequest turn n
      else none)
    (initial 2 (fun i => seed (UInt32.ofNat i)) 50000 (World.initial fun _ => 0))
  let run' := [.client (.start 0), .client (.complete 0 0 (some [])),
    .client (.complete 0 0 (some [])), .client (.runTask 0 0)].foldlM
    (fun n turn => if True then step .big (serverRouter shortDoubles) nextRequest turn n
      else none)
    (initial 1 (fun i => seed (UInt32.ofNat i)) 50000 (World.initial fun _ => 0))
  have hrun : run.map (fun n => ((n.test.sentBy 0).length, (n.test.sentBy 1).length,
      (n.conversation 0).length)) = some (1, 1, 1) := by decide +kernel
  have hrun' : run'.map (fun n => ((n.test.sentBy 0).length, (n.conversation 0).length)) =
      some (1, 0) := by decide +kernel
  obtain ⟨n, hn, hend⟩ := Option.map_eq_some_iff.mp hrun
  obtain ⟨n', hn', hend'⟩ := Option.map_eq_some_iff.mp hrun'
  have hclock : ∀ k : ℕ, ((fun _ => 0 : ℕ → ℤ) k).natAbs ≤ 2 ^ 63 := fun _ => Nat.zero_le _
  obtain ⟨-, hcomparable, -⟩ := load_is_reproducible shortDoubles_bounded hclock hclock
    priceText_printsNumbers (Reaches.of_foldlM hn) (Reaches.of_foldlM hn') 0
  refine ⟨n, n', hend, hend', ?_⟩
  simp only [Prod.mk.injEq] at hend hend'
  obtain hle | hle := hcomparable
  · exact hle.eq_of_length (hend.1.trans hend'.1.symm)
  · exact (hle.eq_of_length (hend'.1.trans hend.1.symm)).symm

end System.Network

end HSFinancialServices
