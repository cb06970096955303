import HSFinancialServices.System.Network

/-!
# What the two ends of a connection know of each other

A session has dispatched the first requests of its client, and a client has read the first
responses of its session, each in their order. It holds in every state that any faults on
the way can lead to.
-/

namespace HSFinancialServices

section Streams
open Framing
variable {host : HostOrder}

theorem carried_split {frames : List (Frame UInt8)} {ms ms' : List Message} {tail : Bytes}
    (h : List.Forall₂ (Carries host) frames ms) (hsized : ∀ m ∈ ms', m.Sized)
    (hstart : concat frames ++ tail <+: serialiseAll host ms') :
    concat frames = serialiseAll host ms ∧
      ∃ more, ms' = ms ++ more ∧ tail <+: serialiseAll host more := by
  obtain ⟨rest, hrest⟩ := hstart
  have hstuck : (wireFormat host).Stuck [] := Or.inl (Nat.succ_pos _)
  rw [serialiseAll_eq_concat, List.append_assoc] at hrest
  have hframes : frames <+: ms'.map (Message.frame host) :=
    prefix_of_concat_append_eq (forall_wellFormed h)
      (forall_wellFormed (forall_carries hsized host)) hstuck (by rw [hrest, List.append_nil])
  have htake : frames = (ms'.take frames.length).map (Message.frame host) := by
    rw [List.map_take]
    exact List.prefix_iff_eq_take.mp hframes
  have hms : ms = ms'.take frames.length := by
    rw [htake] at h
    exact carries_unique h
      (forall_carries (fun m hm => hsized m (List.mem_of_mem_take hm)) host)
  refine ⟨?_, ms'.drop frames.length, ?_, ?_⟩
  · rw [serialiseAll_eq_concat, hms, ← htake]
  · rw [hms, List.take_append_drop]
  · have hsplit := congrArg (List.map (Message.frame host))
      (List.take_append_drop frames.length ms')
    rw [List.map_append, ← htake] at hsplit
    rw [← hsplit, concat_append] at hrest
    rw [serialiseAll_eq_concat]
    exact ⟨rest, List.append_cancel_left hrest⟩

theorem carried_prefix {frames : List (Frame UInt8)} {ms ms' : List Message} {tail : Bytes}
    (h : List.Forall₂ (Carries host) frames ms) (hsized : ∀ m ∈ ms', m.Sized)
    (hstart : concat frames ++ tail <+: serialiseAll host ms') : ms <+: ms' := by
  obtain ⟨-, more, hmore, -⟩ := carried_split h hsized hstart
  exact ⟨more, hmore.symm⟩

end Streams

namespace Server
variable {σ : Type*} {host : HostOrder} {router : ServiceRouter σ} {s s' : Server σ}

theorem initial_streamed (maxConnections : UInt64) (store : σ) :
    (initial maxConnections store).Streamed host := by
  refine ⟨?_, ?_⟩
  · intro k slot hslot
    rw [initial, List.getElem?_nil] at hslot
    cases hslot
  · intro e he
    exact absurd he List.not_mem_nil

theorem logOf_step {a : Action} (h : step host router a s = some s') (k : ℕ) :
    s.logOf k <+: s'.logOf k := by
  have accepting : Accepting s s' → s.logOf k <+: s'.logOf k := by
    intro hs
    simp only [logOf, hs.log, List.prefix_refl]
  obtain ⟨ok, hs⟩ | ⟨i, optionOk, -, hs⟩ | ⟨j, c, c', alive, effect, -, rfl, -, -⟩ := step_cases h
  · exact accepting (acceptCompleted_accepting hs)
  · exact accepting (acceptStep_accepting hs)
  · rw [logOf_after]
    exact List.prefix_append _ _

def Sealed (c : Connection) : Prop := c.session.closed = true → c.session.pending = none

structure SlotStep (a : Action) (k : ℕ) (c c' : Connection) : Prop where
  arrived : c'.arrived = c.arrived ∨ ∃ data, a = .arrive k data ∧ c'.arrived = c.arrived ++ data
  eof : c'.eof = c.eof ∨ a = .shutdown k
  sealed : a ≠ .stop k → Sealed c → Sealed c'

/-- The slots after a step that creates no session: at most one connection is another one. -/
def SlotMoved (a : Action) (s s' : Server σ) : Prop :=
  ∃ k slot', s'.slots = s.slots.set k slot' ∧
    ∀ slot, s.slots[k]? = some slot → SlotStep a k slot.connection slot'.connection

theorem SlotMoved.same {a : Action} (h : s'.slots = s.slots) : SlotMoved a s s' := by
  refine ⟨s.slots.length, ⟨Connection.accept 0, true⟩, ?_, ?_⟩
  · rw [h, List.set_eq_of_length_le le_rfl]
  · intro slot hslot
    rw [List.getElem?_eq_none le_rfl] at hslot
    cases hslot

theorem SlotMoved.after {a : Action} {k : ℕ} {c : Connection} {slot' : Slot} (effect : Effect σ)
    (hc : s.live k = some c) (hmoved : SlotStep a k c slot'.connection) :
    SlotMoved a s (s.after k slot' effect) := by
  refine ⟨k, slot', rfl, ?_⟩
  intro slot hslot
  rw [live_eq_some.mp hc, Option.some.injEq] at hslot
  rw [← hslot]
  exact hmoved

theorem sealed_of_handled {c c' : Connection} {store : σ} {effect : Effect σ} {op : PendingOp}
    (h : c.session.Handled router store (c'.session, effect)) (hop : c.session.pending = some op)
    (hsealed : Sealed c) : Sealed c' := by
  have hopen : c.session.closed = false := by
    by_contra hclosed
    rw [hsealed (by simpa using hclosed)] at hop
    cases hop
  intro hclosed
  generalize hr : (c'.session, effect) = r at h
  cases h with
  | closed hnone =>
    cases hr
    exact hnone
  | continued _ hsame | dispatched _ _ hsame =>
    cases hr
    rw [hsame, hopen] at hclosed
    cases hclosed

theorem slots_step {a : Action} (h : step host router a s = some s') :
    if s.adopts a then ∃ sessionId, s'.slots = s.slots ++ [⟨Connection.accept sessionId, true⟩]
    else SlotMoved a s s' := by
  cases a with
  | accepted | acceptFailed =>
    simp only [step, acceptCompleted] at h
    split at h <;> cases h
    exact .same rfl
  | acceptStep i optionOk =>
    simp only [step, acceptStep] at h
    split at h
    · cases h
    all_goals simp only [adopts, *]
    · split at h <;> cases h <;> exact .same rfl
    · split at h <;> cases h <;> exact .same rfl
    · cases h
      exact .same rfl
    · cases h
      exact .same rfl
    · split at h <;> cases h <;> exact .same rfl
    · cases h
      exact .same rfl
    · cases h
      exact ⟨_, rfl⟩
    · cases h
      exact .same rfl
  | arrive k data =>
    obtain ⟨c, hc, rfl⟩ := Option.map_eq_some_iff.mp h
    exact .after _ hc ⟨.inr ⟨data, rfl, rfl⟩, .inl rfl, fun _ hsealed => hsealed⟩
  | shutdown k =>
    obtain ⟨c, hc, rfl⟩ := Option.map_eq_some_iff.mp h
    exact .after _ hc ⟨.inl rfl, .inr rfl, fun _ hsealed => hsealed⟩
  | stop k =>
    obtain ⟨c, hc, rfl⟩ := Option.map_eq_some_iff.mp h
    exact .after _ hc ⟨.inl rfl, .inl rfl, fun hnot => absurd rfl hnot⟩
  | io k =>
    obtain ⟨c, hc, hio⟩ := Option.bind_eq_some_iff.mp h
    obtain ⟨r, hr, rfl⟩ := Option.map_eq_some_iff.mp hio
    obtain ⟨harrived, heof⟩ := Connection.io_stream hr
    obtain ⟨op, hop⟩ : ∃ op, c.session.pending = some op := by
      cases hp : c.session.pending with
      | none => simp only [Connection.io, hp, reduceCtorEq] at hr
      | some op => exact ⟨op, rfl⟩
    exact .after _ hc ⟨.inl harrived, .inl heof,
      fun _ => sealed_of_handled (Connection.io_handled hr) hop⟩
  | fail k m =>
    obtain ⟨c, hc, hfail⟩ := Option.bind_eq_some_iff.mp h
    obtain ⟨r, hr, rfl⟩ := Option.map_eq_some_iff.mp hfail
    have hhandled := Connection.fail_handled hr
    simp only [Connection.fail] at hr
    split at hr
    · cases hr
    · rename_i op hop
      cases hr
      exact .after _ hc ⟨.inl rfl, .inl rfl, fun _ => sealed_of_handled hhandled hop⟩
  | destroy k =>
    obtain ⟨c, hc, hdestroy⟩ := Option.bind_eq_some_iff.mp h
    obtain ⟨hnone, hdestroy⟩ := Option.ite_none_right_eq_some.mp hdestroy
    obtain rfl := Option.some.inj hdestroy
    refine .after _ hc ⟨.inl rfl, .inl rfl, fun _ _ _ => ?_⟩
    simp only [Connection.stop, Session.close_eq, hnone]

end Server

namespace System
open AtomicCalls LoadGen Transitions

namespace Network

variable {γ σ : Type*} {host : HostOrder} {router : ServiceRouter σ}
  {nextRequest : γ → Message × γ} {numClients : UInt32} {generator : ℕ → γ}
  {maxConnections : UInt64} {store : σ} {n n' : Network γ σ}

def conversation (i : ℕ) (n : Network γ σ) : List Exchange := n.server.logOf (n.peers.idxOf i)

structure Linked (host : HostOrder) (nextRequest : γ → Message × γ) (numClients : UInt32)
    (n : Network γ σ) : Prop where
  accounted : n.test.Accounted numClients
  streamed : n.server.Streamed host
  peers : n.peers.length = n.server.slots.length
  nodup : n.peers.Nodup
  arrived : ∀ (k i : ℕ) (slot : Slot), n.peers[k]? = some i → n.server.slots[k]? = some slot →
    slot.connection.arrived <+: serialiseAll host (n.test.sentBy i)
  reads : ∀ (i : ℕ) (c : AsyncClient γ), n.test.clients[i]? = some c →
    c.Reads host (n.consumed i)
  consumed : ∀ i, n.consumed i <+: replies host (n.conversation i)
  queries : ∀ i, AtomicCalls.queries i n.history = n.test.sentBy i
  results : ∀ i, AtomicCalls.results i n.history = n.test.answersTo i
  asked : ∀ i, ∀ m ∈ n.test.sentBy i, ∃ g, m = (nextRequest g).1

theorem initial_linked (numClients : UInt32) (generator : ℕ → γ) (maxConnections : UInt64)
    (store : σ) : Linked host nextRequest numClients
      (initial numClients generator maxConnections store) := by
  have hclient : ∀ (i : ℕ) (c : AsyncClient γ),
      (LoadTest.initial numClients generator).clients[i]? = some c →
        c = AsyncClient.construct (generator i) := by
    intro i c hc
    obtain ⟨j, hj, rfl⟩ := Option.map_eq_some_iff.mp (List.getElem?_map .. ▸ hc)
    obtain ⟨-, rfl⟩ := List.getElem?_eq_some_iff.mp hj
    rw [List.getElem_range]
  have hsent : ∀ i, (LoadTest.initial numClients generator).sentBy i = [] ∧
      (LoadTest.initial numClients generator).answersTo i = [] := by
    intro i
    simp only [LoadTest.sentBy, LoadTest.answersTo]
    cases hc : (LoadTest.initial numClients generator).clients[i]? with
    | none => exact ⟨rfl, rfl⟩
    | some c =>
      rw [hclient i c hc]
      exact ⟨rfl, rfl⟩
  refine ⟨LoadTest.initial_accounted numClients generator, Server.initial_streamed maxConnections store,
    rfl, List.nodup_nil, ?_, ?_, fun _ => List.nil_prefix, fun i => (hsent i).1.symm,
    fun i => (hsent i).2.symm, ?_⟩
  · intro k i slot hk _
    rw [initial, List.getElem?_nil] at hk
    cases hk
  · intro i c hc
    rw [hclient i c hc]
    exact AsyncClient.reads_construct host (generator i)
  · intro i m hm
    rw [show (initial numClients generator maxConnections store).test.sentBy i = [] from
      (hsent i).1] at hm
    cases hm

theorem taken_eq {a : LoadTest.Action} {i : ℕ} {c : AsyncClient γ} (ha : a.client = some i)
    (hi : n.test.clients[i]? = some c) : n.taken a = a.read c := by
  simp only [taken, ha, Option.bind_some, hi, Option.elim_some]

theorem Linked.inbound_replies (h : Linked host nextRequest numClients n) (i : ℕ) :
    n.inbound i <+: replies host (n.conversation i) := by
  rw [inbound, conversation]
  cases hslot : n.server.slots[n.peers.idxOf i]? with
  | none => exact List.nil_prefix
  | some slot => exact (h.streamed.tracks _ slot hslot).outbound_replies

theorem Linked.idxOf_eq (h : Linked host nextRequest numClients n) {k i : ℕ}
    (hk : n.peers[k]? = some i) : n.peers.idxOf i = k := by
  obtain ⟨hlt, rfl⟩ := List.getElem?_eq_some_iff.mp hk
  exact h.nodup.idxOf_getElem k hlt

theorem prefix_append_of_drop {α : Type*} {old front stream new : List α} (hold : old <+: stream)
    (hfront : front <+: stream) (hnew : new <+: front.drop old.length) : old ++ new <+: stream := by
  obtain hle | hle := le_total old.length front.length
  · obtain ⟨rest, rfl⟩ := List.prefix_of_prefix_length_le hold hfront hle
    rw [List.drop_left] at hnew
    exact ((List.prefix_append_right_inj old).mpr hnew).trans hfront
  · rw [List.drop_eq_nil_of_le hle, List.prefix_nil] at hnew
    rw [hnew, List.append_nil]
    exact hold

theorem queries_events (i j : ℕ) (t t' : LoadTest γ) :
    queries j (events i t t') = if i = j then (t'.sentBy i).drop (t.sentBy i).length else [] := by
  rw [events, queries_append, queries_map_call, queries_map_reply, List.append_nil]

theorem results_events (i j : ℕ) (t t' : LoadTest γ) :
    results j (events i t t') =
      if i = j then (t'.answersTo i).drop (t.answersTo i).length else [] := by
  rw [events, results_append, results_map_call, results_map_reply, List.nil_append]

section Events
variable {i : ℕ} {c c' : AsyncClient γ} {m : Metrics} {t : LoadTest γ}

theorem events_of_record (hi : t.clients[i]? = some c) (hrecord : c.Record nextRequest c') :
    (c'.sent = c.sent ∧ c'.responses = c.responses ∧ events i t (t.after i c' m) = []) ∨
    (c'.sent = c.sent ++ [(nextRequest c.generator).1] ∧ c'.responses = c.responses ∧
      c.sent.length = c.responses.length ∧
      events i t (t.after i c' m) = [.call i (nextRequest c.generator).1]) ∨
    ∃ response, c'.sent = c.sent ∧ c'.responses = c.responses ++ [response] ∧
      events i t (t.after i c' m) = [.reply i response] := by
  simp only [events, LoadTest.sentBy_after hi, LoadTest.answersTo_after hi, if_true,
    LoadTest.sentBy_eq hi, LoadTest.answersTo_eq hi]
  cases hrecord with
  | silent hsent hresponses => exact .inl ⟨hsent, hresponses, by simp [hsent, hresponses]⟩
  | calls hsent hresponses hlength =>
    exact .inr (.inl ⟨hsent, hresponses, hlength, by simp [hsent, hresponses]⟩)
  | answers response hsent hresponses =>
    exact .inr (.inr ⟨response, hsent, hresponses, by simp [hsent, hresponses]⟩)

end Events

theorem Linked.client (h : Linked host nextRequest numClients n) {a : LoadTest.Action}
    {t : LoadTest γ} (hoffers : n.Offers a)
    (hstep : LoadTest.step host nextRequest a n.test = some t) :
    Linked host nextRequest numClients (n.clientStep a t) := by
  have haccounted := h.accounted.step hstep
  obtain ⟨ha, rfl⟩ | ⟨i, c, c', m, ha, hi, rfl, hmoved⟩ := h.accounted.step_cases hstep
  · rw [clientStep_of_none ha]
    exact { h with accounted := haccounted }
  have hread : n.taken a = a.read c := taken_eq ha hi
  rw [Offers, ha] at hoffers
  rw [clientStep_of_some ha]
  refine { h with
    accounted := haccounted, arrived := ?_, reads := ?_, consumed := ?_, queries := ?_
    results := ?_, asked := ?_ }
  · intro k j slot hk hslot
    refine (h.arrived k j slot hk hslot).trans ?_
    rw [LoadTest.sentBy_after hi]
    split_ifs with hij
    · subst hij
      obtain ⟨more, hmore⟩ := hmoved.record.sent_prefix
      rw [LoadTest.sentBy_eq hi, ← hmore, serialiseAll, serialiseAll, List.flatMap_append]
      exact List.prefix_append _ _
    · exact List.prefix_refl _
  · intro j d hd
    rw [LoadTest.clients_after hi] at hd
    split_ifs at hd with hij
    · subst hij
      simp only [Function.update_self, hread, ← Option.some.inj hd]
      exact hmoved.reads _ (h.reads i c hi)
    · simp only [Function.update_of_ne (Ne.symm hij)]
      exact h.reads j d hd
  · intro j
    by_cases hij : i = j
    · subst hij
      simp only [Function.update_self]
      exact prefix_append_of_drop (h.consumed i) (h.inbound_replies i) hoffers
    · simp only [Function.update_of_ne (Ne.symm hij)]
      exact h.consumed j
  · intro j
    rw [queries_append, h.queries, queries_events, LoadTest.sentBy_after hi, if_pos rfl,
      LoadTest.sentBy_after hi]
    split_ifs with hij
    · rw [← hij, LoadTest.sentBy_eq hi]
      exact List.prefix_iff_eq_append.mp hmoved.record.sent_prefix
    · exact List.append_nil _
  · intro j
    rw [results_append, h.results, results_events, LoadTest.answersTo_after hi, if_pos rfl,
      LoadTest.answersTo_after hi]
    split_ifs with hij
    · rw [← hij, LoadTest.answersTo_eq hi]
      exact List.prefix_iff_eq_append.mp hmoved.record.responses_prefix
    · exact List.append_nil _
  · intro j m' hm'
    rw [LoadTest.sentBy_after hi] at hm'
    split_ifs at hm' with hij
    · subst hij
      have hasked := h.asked i
      rw [LoadTest.sentBy_eq hi] at hasked
      cases hmoved.record with
      | silent hsent | answers _ hsent => exact hasked m' (hsent ▸ hm')
      | calls hsent =>
        rw [hsent, List.mem_append, List.mem_singleton] at hm'
        obtain hm' | rfl := hm'
        · exact hasked m' hm'
        · exact ⟨_, rfl⟩
    · exact h.asked j m' hm'

theorem Linked.conversation_of_notMem (h : Linked host nextRequest numClients n) {i : ℕ}
    (hi : i ∉ n.peers) : n.conversation i = [] := by
  rw [conversation, List.idxOf_of_notMem hi, h.peers]
  exact h.streamed.logOf_length

theorem Linked.conversation_prefix (h : Linked host nextRequest numClients n) {i : ℕ} {a : Action}
    {s : Server σ} (hstep : Server.step host router a n.server = some s) (j : ℕ) :
    n.conversation j <+: (n.serverStep i a s).conversation j := by
  by_cases hj : j ∈ n.peers
  · have hindex : (n.serverStep i a s).peers.idxOf j = n.peers.idxOf j := by
      simp only [serverStep]
      split_ifs
      · exact List.idxOf_append_of_mem hj
      · rfl
    rw [conversation, conversation, hindex]
    exact Server.logOf_step hstep _
  · rw [h.conversation_of_notMem hj]
    exact List.nil_prefix

theorem Linked.server (h : Linked host nextRequest numClients n) {i : ℕ} {a : Action} {s : Server σ}
    (hallows : n.Allows host i a) (hstep : Server.step host router a n.server = some s) :
    Linked host nextRequest numClients (n.serverStep i a s) := by
  have hstreamed := h.streamed.step hstep
  have hconsumed : ∀ j, n.consumed j <+: replies host ((n.serverStep i a s).conversation j) := by
    intro j
    obtain ⟨more, hmore⟩ := h.conversation_prefix (i := i) hstep j
    refine (h.consumed j).trans ?_
    rw [← hmore, replies_append]
    exact List.prefix_append _ _
  have hslots := Server.slots_step hstep
  by_cases hadopts : n.server.adopts a = true
  · rw [if_pos hadopts] at hslots
    obtain ⟨sessionId, hslots⟩ := hslots
    have hpeers : (n.serverStep i a s).peers = n.peers ++ [i] := if_pos hadopts
    have hnew : i ∉ n.peers := (hallows.1 (.inr (.inr hadopts))).1
    refine { h with
      streamed := hstreamed, peers := ?_, nodup := ?_, arrived := ?_, consumed := hconsumed }
    · rw [hpeers, List.length_append, h.peers]
      simp only [serverStep, hslots, List.length_append, List.length_singleton]
    · rw [hpeers]
      exact h.nodup.append (List.nodup_singleton i) (List.disjoint_singleton.mpr hnew)
    · intro k j slot hk hslot
      simp only [serverStep, hslots, List.getElem?_append] at hslot
      rw [hpeers, List.getElem?_append, h.peers] at hk
      split_ifs at hk hslot
      · exact h.arrived k j slot hk hslot
      · obtain ⟨-, rfl⟩ := List.getElem?_eq_some_iff.mp hslot
        rw [List.getElem_singleton]
        exact List.nil_prefix
  · rw [if_neg hadopts] at hslots
    obtain ⟨k, slot', hslots, harrived⟩ := hslots
    have hpeers : (n.serverStep i a s).peers = n.peers := if_neg hadopts
    refine { h with
      streamed := hstreamed, peers := ?_, nodup := ?_, arrived := ?_, consumed := hconsumed }
    · rw [hpeers, h.peers]
      simp only [serverStep, hslots, List.length_set]
    · rw [hpeers]
      exact h.nodup
    · intro k' j slot hk hslot
      rw [hpeers] at hk
      simp only [serverStep, hslots, List.getElem?_set] at hslot
      split_ifs at hslot with hkk hlt
      · subst hkk
        obtain ⟨old, hold⟩ : ∃ old, n.server.slots[k]? = some old :=
          ⟨_, List.getElem?_eq_getElem hlt⟩
        have hfront := h.arrived k j old hk hold
        rw [← Option.some.inj hslot]
        obtain hsame | ⟨data, ha, hmore⟩ := (harrived old hold).arrived
        · rw [hsame]
          exact hfront
        · -- what arrives is the next part of what the client has written
          subst ha
          have hdata := hallows.2.2
          simp only [outgoing, hold, hk] at hdata
          rw [hmore]
          exact prefix_append_of_drop hfront (List.prefix_refl _) hdata
      · exact h.arrived k' j slot hk hslot

theorem Linked.turn (h : Linked host nextRequest numClients n) {turn : Turn}
    (hstep : step host router nextRequest turn n = some n') :
    Linked host nextRequest numClients n' := by
  cases turn with
  | client a =>
    obtain ⟨hoffers, hstep⟩ := Option.ite_none_right_eq_some.mp hstep
    obtain ⟨t, ht, rfl⟩ := Option.map_eq_some_iff.mp hstep
    exact h.client hoffers ht
  | server i a =>
    obtain ⟨hallows, hstep⟩ := Option.ite_none_right_eq_some.mp hstep
    obtain ⟨s, hs, rfl⟩ := Option.map_eq_some_iff.mp hstep
    exact h.server hallows hs

theorem reaches_linked {ok : Turn → Network γ σ → Prop}
    (h : Reaches (step host router nextRequest) ok
      (initial numClients generator maxConnections store) n) :
    Linked host nextRequest numClients n := by
  apply h.invariant (initial_linked numClients generator maxConnections store)
  intro turn b c hb _ hstep
  exact hb.turn hstep

/-- What every request and every state of the services is promised to have, so that all
messages between the two sides can be read. -/
structure Fits (router : ServiceRouter σ) (nextRequest : γ → Message × γ) (store : σ)
    (P : Message → Prop) (I : σ → Prop) : Prop where
  asked : ∀ g, P (nextRequest g).1
  sized : ∀ m, P m → m.Sized
  store : I store
  kept : ∀ m w, I w → I (router.dispatch m w).2
  answered : ∀ m w, P m → I w → (router.dispatch m w).1.Sized

section Messages
variable {P : Message → Prop} {I : σ → Prop}

theorem Linked.sized (h : Linked host nextRequest numClients n)
    (hfits : Fits router nextRequest store P I) (i : ℕ) : ∀ m ∈ n.test.sentBy i, m.Sized := by
  intro m hm
  obtain ⟨g, rfl⟩ := h.asked i m hm
  exact hfits.sized _ (hfits.asked g)

theorem Linked.requests_prefix (h : Linked host nextRequest numClients n)
    (hfits : Fits router nextRequest store P I) (i : ℕ) :
    (n.conversation i).map Exchange.request <+: n.test.sentBy i := by
  by_cases hi : i ∈ n.peers
  · have hlt : n.peers.idxOf i < n.server.slots.length := h.peers ▸ List.idxOf_lt_length_of_mem hi
    have hslot := List.getElem?_eq_getElem hlt
    have hpeer : n.peers[n.peers.idxOf i]? = some i := List.getElem?_idxOf hi
    obtain ⟨frames, tail, hat⟩ := h.streamed.tracks _ _ hslot
    have harrived := h.arrived _ _ _ hpeer hslot
    rw [hat.stream] at harrived
    exact carried_prefix hat.carries (h.sized hfits i) harrived
  · rw [h.conversation_of_notMem hi]
    exact List.nil_prefix

theorem Linked.dispatched (h : Linked host nextRequest numClients n)
    (hfits : Fits router nextRequest store P I) {ok : Action → Server σ → Prop}
    (hserver : Reaches (Server.step host router) ok (Server.initial maxConnections store) n.server)
    {i : ℕ} {e : Exchange} (he : e ∈ n.conversation i) :
    P e.request ∧ ∃ w, I w ∧ e.response = (router.dispatch e.request w).1 := by
  have hrequests := h.requests_prefix hfits i
  have hmem := hrequests.subset (List.mem_map_of_mem he)
  obtain ⟨g, hg⟩ := h.asked i _ hmem
  obtain ⟨-, hresponses⟩ := Server.reaches_dispatched hfits.store hfits.kept hserver
  exact ⟨hg ▸ hfits.asked g, hresponses _ (Server.mem_log_of_mem_logOf he)⟩

theorem Linked.responses_prefix (h : Linked host nextRequest numClients n)
    (hfits : Fits router nextRequest store P I) {ok : Action → Server σ → Prop}
    (hserver : Reaches (Server.step host router) ok (Server.initial maxConnections store) n.server)
    (i : ℕ) : n.test.answersTo i <+: (n.conversation i).map Exchange.response := by
  cases hi : n.test.clients[i]? with
  | none =>
    rw [LoadTest.answersTo, hi]
    exact List.nil_prefix
  | some c =>
    rw [LoadTest.answersTo_eq hi]
    obtain ⟨frames, tail, hreads⟩ := h.reads i c hi
    have hconsumed := h.consumed i
    rw [hreads.consumed] at hconsumed
    refine carried_prefix hreads.carries ?_ hconsumed
    intro m hm
    obtain ⟨e, he, rfl⟩ := List.mem_map.mp hm
    obtain ⟨hP, w, hw, hresponse⟩ := h.dispatched hfits hserver he
    rw [hresponse]
    exact hfits.answered _ w hP hw

end Messages

end Network

end System

end HSFinancialServices
