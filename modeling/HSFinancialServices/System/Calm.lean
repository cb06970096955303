import HSFinancialServices.System.Admission
import HSFinancialServices.System.Answers
import HSFinancialServices.UntroubledSession

/-!
# A network on which nothing fails

The connections hold and no socket option is refused. A client's read then fails only after
the server has closed the connection, and the server is told of the end of a connection only
after the client has closed it. With a place for every client none of them ever has an error.
-/

namespace HSFinancialServices

section Streams
open Framing
variable {host : HostOrder}

theorem exists_header {frames : List (Frame UInt8)} {ms ms' : List Message} {data : Bytes}
    (h : List.Forall₂ (Carries host) frames ms) (hsized : ∀ m ∈ ms', m.Sized)
    (hstart : concat frames ++ data <+: serialiseAll host ms') (hlength : kHeaderSize ≤ data.length) :
    ∃ m more, ms' = ms ++ m :: more ∧ data.take kHeaderSize = encodeHeader host m.header ∧
      decodeHeader host (data.take kHeaderSize) = .ok m.header ∧
      data.drop kHeaderSize <+: m.payload ++ serialiseAll host more := by
  obtain ⟨-, more, hmore, hdata⟩ := carried_split h hsized hstart
  cases more with
  | nil =>
    rw [serialiseAll, List.flatMap_nil, List.prefix_nil] at hdata
    rw [hdata] at hlength
    exact absurd hlength (by decide)
  | cons m more =>
    have hm : m.Sized := hsized m (by rw [hmore]; exact List.mem_append_right _ List.mem_cons_self)
    have hsize := encodeHeader_length host m.header
    obtain ⟨rest, hrest⟩ := hdata
    rw [serialiseAll, List.flatMap_cons, Message.serialise, List.append_assoc] at hrest
    have htake : data.take kHeaderSize = encodeHeader host m.header := by
      have hfront := congrArg (List.take kHeaderSize) hrest
      rw [List.take_append_of_le_length hlength, List.take_left' hsize] at hfront
      exact hfront
    refine ⟨m, more, hmore, htake, ?_, rest, ?_⟩
    · rw [htake]
      exact hm.decodeHeader_frame host
    · have hback := congrArg (List.drop kHeaderSize) hrest
      rw [List.drop_append_of_le_length hlength, List.drop_left' hsize] at hback
      exact hback

theorem not_refused {frames : List (Frame UInt8)} {ms ms' : List Message} {data : Bytes}
    (h : List.Forall₂ (Carries host) frames ms) (hsized : ∀ m ∈ ms', m.Sized)
    (hstart : concat frames ++ data <+: serialiseAll host ms') : ¬ Refused host data := by
  rintro ⟨hlength, e, herror⟩
  obtain ⟨m, more, -, -, hdecode, -⟩ := exists_header h hsized hstart hlength
  rw [hdecode] at herror
  cases herror

end Streams

namespace LoadGen.LoadTest
open Transitions
variable {γ : Type*} {host : HostOrder} {nextRequest : γ → Message × γ} {numClients : UInt32}
  {generator : ℕ → γ} {s : LoadTest γ}

theorem reaches_sawStop (h : Reaches (LoadTest.step host nextRequest) (fun _ _ => True)
    (initial numClients generator) s) : ∀ c ∈ s.clients, c.sawStop = true → s.stopFlag = true := by
  suffices hboth : Accounted numClients s ∧
      ∀ c ∈ s.clients, c.sawStop = true → s.stopFlag = true from hboth.2
  apply h.invariant (P := fun s => Accounted numClients s ∧
    ∀ c ∈ s.clients, c.sawStop = true → s.stopFlag = true)
  · refine ⟨initial_accounted numClients generator, ?_⟩
    intro c hc hsaw
    obtain ⟨i, -, rfl⟩ := List.mem_map.mp hc
    cases hsaw
  rintro a b d ⟨hb, hflag⟩ - hstep
  refine ⟨hb.step hstep, ?_⟩
  have moved : ∀ (i : ℕ) (c c' : AsyncClient γ) (m : Metrics), b.clients[i]? = some c →
      (c'.sawStop = true → c.sawStop = true ∨ b.stopFlag = true) →
        ∀ e ∈ (b.after i c' m).clients, e.sawStop = true → b.stopFlag = true := by
    intro i c c' m hi hc' e he hsaw
    obtain he | rfl := List.mem_or_eq_of_mem_set he
    · exact hflag e he hsaw
    · exact (hc' hsaw).elim (hflag c (List.mem_of_getElem? hi)) id
  cases a with
  | start i =>
    obtain ⟨c, hi, hstart⟩ := Option.bind_eq_some_iff.mp hstep
    obtain ⟨-, hs⟩ := Option.ite_none_left_eq_some.mp hstart
    rw [← Option.some.inj hs]
    exact moved i c c.start _ hi .inl
  | complete i k completion =>
    obtain ⟨c, hi, hcomplete⟩ := Option.bind_eq_some_iff.mp hstep
    obtain ⟨c', hc', rfl⟩ := Option.map_eq_some_iff.mp hcomplete
    obtain ⟨stage, hstage⟩ := hb.stages c (List.mem_of_getElem? hi)
    obtain rfl := hstage.complete_index hc'
    obtain ⟨op, -, hcase⟩ := hstage.complete_cases hc'
    apply moved i c c' _ hi
    cases hcase <;> exact .inl
  | runTask i us =>
    obtain ⟨c, hi, hrun⟩ := Option.bind_eq_some_iff.mp hstep
    obtain ⟨⟨c', m⟩, hr, rfl⟩ := Option.map_eq_some_iff.mp hrun
    apply moved i c c' m hi
    simp only [AsyncClient.runTask] at hr
    split at hr
    · cases hr
    · cases hr
      exact .inl
    · cases hr
      exact .inl
    · cases hr
      exact .inl
    · cases hr
      exact .inl
    · split_ifs at hr with hstop
      · exact fun _ => .inr hstop
      · cases hr
        exact .inl
  | raiseStop =>
    rw [← Option.some.inj hstep]
    exact fun _ _ _ => rfl

end LoadGen.LoadTest

namespace System
open LoadGen Services Transitions

namespace Network

variable {γ σ : Type*} {host : HostOrder} {router : ServiceRouter σ}
  {nextRequest : γ → Message × γ} {numClients : UInt32} {generator : ℕ → γ}
  {maxConnections : UInt64} {store : σ} {n n' : Network γ σ}

def sessionClosed (i : ℕ) (n : Network γ σ) : Bool :=
  (n.server.slots[n.peers.idxOf i]?).any fun slot => slot.connection.session.closed

def clientFinished (i : ℕ) (n : Network γ σ) : Bool :=
  (n.test.clients[i]?).any AsyncClient.finished

/-- No operation fails of itself. -/
def Calm (turn : Turn) (n : Network γ σ) : Prop :=
  match turn with
  | .client (.complete i _ none) => i ∈ n.rejected ∨ n.sessionClosed i = true
  | .client _ => True
  | .server _ .acceptFailed | .server _ (.fail _ _) | .server _ (.stop _) => False
  | .server _ (.acceptStep j false) => n.server.handlers[j]? ≠ some .activated
  | .server _ (.shutdown k) =>
    (n.server.slots[k]?).any (fun slot => !slot.connection.eof) = true ∧
      (n.peers[k]?).any (fun i => n.clientFinished i) = true
  | .server _ _ => True

instance (turn : Turn) (n : Network γ σ) : Decidable (Calm turn n) :=
  match turn with
  | .client (.complete _ _ none) => inferInstanceAs (Decidable (_ ∨ _))
  | .client (.complete _ _ (some _)) | .client (.start _) | .client (.runTask _ _)
  | .client .raiseStop => .isTrue trivial
  | .server _ .acceptFailed | .server _ (.fail _ _) | .server _ (.stop _) => .isFalse not_false
  | .server _ (.acceptStep _ false) => inferInstanceAs (Decidable (_ ≠ _))
  | .server _ (.shutdown _) => inferInstanceAs (Decidable (_ ∧ _))
  | .server _ (.acceptStep _ true) | .server _ .accepted | .server _ (.arrive _ _)
  | .server _ (.io _) | .server _ (.destroy _) => .isTrue trivial

structure Healthy (host : HostOrder) (nextRequest : γ → Message × γ) (numClients : UInt32)
    (maxConnections : UInt64) (n : Network γ σ) : Prop where
  linked : Linked host nextRequest numClients n
  accounted : n.server.Accounted maxConnections
  undisturbed : ∀ k, Server.HoldsAt k (Connection.Undisturbed host) n.server
  sealed : ∀ slot ∈ n.server.slots, Server.Sealed slot.connection
  closedBy : ∀ (k i : ℕ) (slot : Slot), n.peers[k]? = some i → n.server.slots[k]? = some slot →
    slot.connection.eof = true → n.clientFinished i = true
  peersLt : ∀ i ∈ n.peers, i < numClients.toNat
  rejected : n.rejected = []
  failedIn : ∀ c ∈ n.test.clients, c.failedIn = none

theorem initial_healthy (numClients : UInt32) (generator : ℕ → γ) (maxConnections : UInt64)
    (store : σ) : Healthy host nextRequest numClients maxConnections
      (initial numClients generator maxConnections store) := by
  refine ⟨initial_linked numClients generator maxConnections store,
    Server.initial_accounted maxConnections store, nofun, nofun, nofun, nofun, rfl, ?_⟩
  intro c hc
  obtain ⟨i, -, rfl⟩ := List.mem_map.mp hc
  rfl

section Steps
variable {P : Message → Prop} {I : σ → Prop}

theorem Healthy.tracks (h : Healthy host nextRequest numClients maxConnections n)
    (hfits : Fits router nextRequest store P I) {k i : ℕ} {slot : Slot}
    (hk : n.peers[k]? = some i) (hslot : n.server.slots[k]? = some slot) :
    ∃ frames tail, slot.connection.At host True (n.server.logOf k) frames tail ∧
      (slot.connection.session.pending = none → slot.connection.eof = true) := by
  obtain ⟨frames, tail, hat, hrefused⟩ := h.undisturbed k slot hslot
  refine ⟨frames, tail, hat, ?_⟩
  intro hnone
  by_contra heof
  have harrived := h.linked.arrived k i slot hk hslot
  rw [hat.stream] at harrived
  exact not_refused hat.carries (h.linked.sized hfits i) harrived
    (hrefused hnone (by simpa using heof))

theorem Healthy.open (h : Healthy host nextRequest numClients maxConnections n)
    (hfits : Fits router nextRequest store P I) {k i : ℕ} {slot : Slot}
    (hk : n.peers[k]? = some i) (hslot : n.server.slots[k]? = some slot)
    (hunfinished : n.clientFinished i = false) :
    slot.connection.eof = false ∧ slot.connection.session.pending ≠ none ∧
      slot.connection.session.closed = false ∧ slot.alive = true := by
  have heof : slot.connection.eof = false := by
    by_contra heof
    rw [h.closedBy k i slot hk hslot (by simpa using heof)] at hunfinished
    cases hunfinished
  obtain ⟨frames, tail, -, hends⟩ := h.tracks hfits hk hslot
  have hpending : slot.connection.session.pending ≠ none := by
    intro hnone
    rw [hends hnone] at heof
    cases heof
  have hclosed : slot.connection.session.closed = false := by
    by_contra hclosed
    exact hpending (h.sealed slot (List.mem_of_getElem? hslot) (by simpa using hclosed))
  refine ⟨heof, hpending, hclosed, ?_⟩
  by_contra hdead
  rw [h.accounted.destroyed slot (List.mem_of_getElem? hslot) (by simpa using hdead)] at hclosed
  cases hclosed

theorem Healthy.sessionClosed (h : Healthy host nextRequest numClients maxConnections n)
    (hfits : Fits router nextRequest store P I) {i : ℕ} (hclosed : n.sessionClosed i = true) :
    n.clientFinished i = true := by
  obtain ⟨slot, hslot, hclosed⟩ := (Option.any_eq_true _ _).mp hclosed
  by_contra hunfinished
  have hlt : n.peers.idxOf i < n.peers.length :=
    h.linked.peers ▸ (List.getElem?_eq_some_iff.mp hslot).1
  have hk : n.peers[n.peers.idxOf i]? = some i :=
    List.getElem?_idxOf (List.idxOf_lt_length_iff.mp hlt)
  obtain ⟨-, -, hopen, -⟩ := h.open hfits hk hslot (by simpa using hunfinished)
  rw [hopen] at hclosed
  cases hclosed

theorem Linked.responses_sized (h : Linked host nextRequest numClients n)
    (hfits : Fits router nextRequest store P I)
    (hserver : ServerRun host router maxConnections store n.server) (i : ℕ) :
    ∀ m ∈ (n.conversation i).map Exchange.response, m.Sized := by
  intro m hm
  obtain ⟨e, he, rfl⟩ := List.mem_map.mp hm
  obtain ⟨hP, w, hw, hresponse⟩ := h.dispatched hfits hserver he
  rw [hresponse]
  exact hfits.answered _ w hP hw

theorem Healthy.completes (h : Healthy host nextRequest numClients maxConnections n)
    (hfits : Fits router nextRequest store P I)
    (hserver : ServerRun host router maxConnections store n.server) {i : ℕ} {c c' : AsyncClient γ}
    {completion : Option Bytes} (hi : n.test.clients[i]? = some c)
    (hcalm : Calm (.client (.complete i 0 completion)) n)
    (hoffers : n.Offers (.complete i 0 completion))
    (hstep : c.complete host 0 completion = some c') : c'.failedIn = none := by
  obtain ⟨stage, hstage⟩ := h.linked.accounted.stages c (List.mem_of_getElem? hi)
  obtain ⟨op, rfl, hcase⟩ := hstage.complete_cases hstep
  have hhealthy := h.failedIn c (List.mem_of_getElem? hi)
  cases hcase with
  | resolved | connected | written | emptyResponse | bodyFollows | response => exact hhealthy
  | failed hop =>
    -- the server closes a connection only after its client has
    have hfinished : n.clientFinished i = true := by
      obtain hrejected | hclosed := hcalm
      · rw [h.rejected] at hrejected
        cases hrejected
      · exact h.sessionClosed hfits hclosed
    rw [clientFinished, hi, Option.any_some, hstage.finished] at hfinished
    cases hfinished
  | @refused data e hop hlength hdecode =>
    -- no response has a header that the client refuses
    obtain ⟨frames, tail, hreads⟩ := h.linked.reads i c hi
    have hphase := hreads.phase
    simp only [AsyncClient.ReadPhase, hop] at hphase
    obtain rfl : tail = [] := hphase hhealthy
    have htaken : n.taken (.complete i 0 (some data)) = data := by
      simp only [taken_eq (a := .complete i 0 (some data)) rfl hi, LoadTest.Action.read,
        AsyncClient.readBy, hop, List.head?_cons]
    simp only [Offers, LoadTest.Action.client, htaken] at hoffers
    have hconsumed := prefix_append_of_drop (h.linked.consumed i) (h.linked.inbound_replies i) hoffers
    rw [hreads.consumed, List.append_nil] at hconsumed
    have hsize : data.length = kHeaderSize := hlength.trans hreads.headerBuf
    obtain ⟨m, more, -, -, hok, -⟩ := exists_header hreads.carries
      (h.linked.responses_sized hfits hserver i) hconsumed hsize.ge
    rw [List.take_of_length_le hsize.le, hdecode] at hok
    cases hok

theorem Linked.clientFinished_step (h : Linked host nextRequest numClients n)
    {a : LoadTest.Action} {t : LoadTest γ}
    (hstep : LoadTest.step host nextRequest a n.test = some t) {j : ℕ}
    (hj : n.clientFinished j = true) : (n.clientStep a t).clientFinished j = true := by
  rw [clientFinished, clientStep_test]
  obtain ⟨-, rfl⟩ | ⟨i, c, c', m, -, hi, rfl, hmoved⟩ := h.accounted.step_cases hstep
  · exact hj
  · rw [LoadTest.clients_after hi]
    split_ifs with hij
    · subst hij
      rw [clientFinished, hi, Option.any_some, hmoved.unfinished] at hj
      cases hj
    · exact hj

theorem Healthy.failedIn_step (h : Healthy host nextRequest numClients maxConnections n)
    (hfits : Fits router nextRequest store P I)
    (hserver : ServerRun host router maxConnections store n.server) {a : LoadTest.Action}
    {t : LoadTest γ} (hcalm : Calm (.client a) n) (hoffers : n.Offers a)
    (hstep : LoadTest.step host nextRequest a n.test = some t) :
    ∀ c ∈ t.clients, c.failedIn = none := by
  have moved : ∀ (i : ℕ) (c c' : AsyncClient γ) (m : Metrics), n.test.clients[i]? = some c →
      c'.failedIn = none → ∀ d ∈ (n.test.after i c' m).clients, d.failedIn = none := by
    intro i c c' m hi hc' d hd
    obtain hd | rfl := List.mem_or_eq_of_mem_set hd
    · exact h.failedIn d hd
    · exact hc'
  cases a with
  | start i =>
    obtain ⟨c, hi, hstart⟩ := Option.bind_eq_some_iff.mp hstep
    obtain ⟨-, hs⟩ := Option.ite_none_left_eq_some.mp hstart
    rw [← Option.some.inj hs]
    exact moved i c _ _ hi (h.failedIn c (List.mem_of_getElem? hi))
  | complete i k completion =>
    obtain ⟨c, hi, hcomplete⟩ := Option.bind_eq_some_iff.mp hstep
    obtain ⟨c', hc', rfl⟩ := Option.map_eq_some_iff.mp hcomplete
    obtain ⟨stage, hstage⟩ := h.linked.accounted.stages c (List.mem_of_getElem? hi)
    obtain rfl := hstage.complete_index hc'
    exact moved i c c' _ hi (h.completes hfits hserver hi hcalm hoffers hc')
  | runTask i us =>
    obtain ⟨c, hi, hrun⟩ := Option.bind_eq_some_iff.mp hstep
    obtain ⟨r, hr, rfl⟩ := Option.map_eq_some_iff.mp hrun
    obtain ⟨stage, hstage⟩ := h.linked.accounted.stages c (List.mem_of_getElem? hi)
    have hhealthy := h.failedIn c (List.mem_of_getElem? hi)
    refine moved i c r.1 _ hi ?_
    obtain hquiet | ⟨-, -, hsends⟩ := hstage.runTask_cases hr
    · rw [hquiet.failedIn, hhealthy]
    · rw [hsends]
      exact hhealthy
  | raiseStop =>
    rw [← Option.some.inj hstep]
    exact h.failedIn

theorem Healthy.client (h : Healthy host nextRequest numClients maxConnections n)
    (hfits : Fits router nextRequest store P I)
    (hserver : ServerRun host router maxConnections store n.server) {a : LoadTest.Action}
    {t : LoadTest γ} (hcalm : Calm (.client a) n) (hoffers : n.Offers a)
    (hstep : LoadTest.step host nextRequest a n.test = some t) :
    Healthy host nextRequest numClients maxConnections (n.clientStep a t) := by
  refine ⟨h.linked.client hoffers hstep, ?_, ?_, ?_, ?_, ?_, ?_, ?_⟩
  · rw [clientStep_server]
    exact h.accounted
  · rw [clientStep_server]
    exact h.undisturbed
  · rw [clientStep_server]
    exact h.sealed
  · rw [clientStep_server, clientStep_peers]
    intro k i slot hk hslot heof
    exact h.linked.clientFinished_step hstep (h.closedBy k i slot hk hslot heof)
  · rw [clientStep_peers]
    exact h.peersLt
  · rw [clientStep_rejected]
    exact h.rejected
  · rw [clientStep_test]
    exact h.failedIn_step hfits hserver hcalm hoffers hstep

theorem Healthy.errors_eq (h : Healthy host nextRequest numClients maxConnections n) :
    n.test.errors = 0 ∧ ∀ c ∈ n.test.clients, c.errors = 0 ∧
      (c.finished = true → c.sawStop = true ∧ c.sent.length = c.responses.length) := by
  have hclients : ∀ c ∈ n.test.clients, c.errors = 0 ∧
      (c.finished = true → c.sawStop = true ∧ c.sent.length = c.responses.length) := by
    intro c hc
    obtain ⟨stage, hstage⟩ := h.linked.accounted.stages c hc
    have hfailed := h.failedIn c hc
    rw [hstage.failedIn] at hfailed
    rw [hstage.errors, hstage.finished, hstage.sawStop, hstage.sent, hstage.responses]
    cases stage with
    | constructed | waiting | answered | counted | sending => exact ⟨rfl, nofun⟩
    | failing op => cases hfailed
    | ending failure =>
      obtain rfl : failure = none := hfailed
      exact ⟨rfl, nofun⟩
    | ended failure =>
      obtain rfl : failure = none := hfailed
      exact ⟨rfl, fun _ => ⟨rfl, rfl⟩⟩
  refine ⟨?_, hclients⟩
  have hzero : n.test.sum AsyncClient.errors = 0 := by
    apply List.sum_eq_zero
    intro e he
    obtain ⟨c, hc, rfl⟩ := List.mem_map.mp he
    exact (hclients c hc).1
  rw [h.linked.accounted.errors, hzero]
  rfl

theorem Healthy.served_of_finished (h : Healthy host nextRequest numClients maxConnections n)
    (hfits : Fits router nextRequest store P I)
    (hserver : ServerRun host router maxConnections store n.server) {i : ℕ} {c : AsyncClient γ}
    (hi : n.test.clients[i]? = some c) (hfinished : c.finished = true) :
    c.sent = (n.conversation i).map Exchange.request ∧
      c.responses = (n.conversation i).map Exchange.response := by
  obtain ⟨-, hanswered⟩ := (h.errors_eq.2 c (List.mem_of_getElem? hi)).2 hfinished
  have hrequests := h.linked.requests_prefix hfits i
  have hresponses := h.linked.responses_prefix hfits hserver i
  rw [LoadTest.sentBy_eq hi] at hrequests
  rw [LoadTest.answersTo_eq hi] at hresponses
  have hge := hrequests.length_le
  have hle := hresponses.length_le
  rw [List.length_map] at hge hle
  constructor
  · apply (hrequests.eq_of_length _).symm
    rw [List.length_map]
    omega
  · apply hresponses.eq_of_length
    rw [List.length_map]
    omega

theorem Healthy.outgoing_of_finished (h : Healthy host nextRequest numClients maxConnections n)
    (hfits : Fits router nextRequest store P I)
    (hserver : ServerRun host router maxConnections store n.server) {k i : ℕ} {slot : Slot}
    (hk : n.peers[k]? = some i) (hslot : n.server.slots[k]? = some slot)
    (hfinished : n.clientFinished i = true) : n.outgoing host k = [] := by
  obtain ⟨c, hi, hfinished⟩ := (Option.any_eq_true _ _).mp hfinished
  obtain ⟨hall, -⟩ := h.served_of_finished hfits hserver hi hfinished
  rw [← LoadTest.sentBy_eq hi, conversation, h.linked.idxOf_eq hk] at hall
  obtain ⟨frames, tail, hat, -⟩ := h.tracks hfits hk hslot
  have harrived := h.linked.arrived k i slot hk hslot
  rw [hat.stream] at harrived
  obtain ⟨hconcat, more, hmore, htail⟩ :=
    carried_split hat.carries (h.linked.sized hfits i) harrived
  rw [← hall, List.self_eq_append_right] at hmore
  rw [hmore, serialiseAll, List.flatMap_nil, List.prefix_nil] at htail
  simp only [outgoing, hslot, hk]
  rw [hat.stream, htail, List.append_nil, hconcat, ← hall, List.drop_length]

theorem Calm.optionSucceeds {i : ℕ} {a : Action} (h : Calm (.server i a) n) :
    Server.OptionSucceeds a n.server := by
  cases a with
  | acceptStep j optionOk =>
    cases optionOk with
    | true => trivial
    | false => exact h
  | accepted | acceptFailed | arrive | shutdown | io | fail | stop | destroy => trivial

theorem Healthy.not_rejects (h : Healthy host nextRequest numClients maxConnections n)
    (hroom : numClients.toNat ≤ maxConnections.toNat) {i : ℕ} {a : Action}
    (hcalm : Calm (.server i a) n) (hallows : n.Allows host i a) : n.server.rejects a = false := by
  by_contra hrejects
  have hrejects : n.server.rejects a = true := by simpa using hrejects
  have hfull := h.accounted.full_of_rejects hcalm.optionSucceeds hrejects
  obtain ⟨hnew, -, hdialled⟩ := hallows.1 (.inr (.inl hrejects))
  -- the waiting client is not among those that have a session
  have hplaces : (i :: n.peers).length ≤ numClients.toNat := by
    have hsub : i :: n.peers ⊆ List.range numClients.toNat := by
      intro j hj
      rw [List.mem_range]
      obtain rfl | hj := List.mem_cons.mp hj
      · exact h.linked.accounted.length ▸ LoadTest.lt_of_dialled hdialled
      · exact h.peersLt j hj
    have hle := (List.subperm_of_subset (List.nodup_cons.mpr ⟨hnew, h.linked.nodup⟩) hsub).length_le
    rwa [List.length_range] at hle
  have hunclosed : n.server.unclosed ≤ n.server.slots.length := List.countP_le_length
  have hpeers := h.linked.peers
  rw [List.length_cons] at hplaces
  omega

theorem Healthy.untroubled (h : Healthy host nextRequest numClients maxConnections n)
    (hfits : Fits router nextRequest store P I)
    (hserver : ServerRun host router maxConnections store n.server) {i : ℕ} {a : Action}
    (hcalm : Calm (.server i a) n) (hallows : n.Allows host i a) (k : ℕ) :
    Server.Untroubled k a n.server := by
  cases a with
  | fail => exact hcalm.elim
  | arrive j data =>
    intro hjk c hc
    subst hjk
    by_contra heof
    -- the client that has sent more has not finished
    have hslot := Server.live_eq_some.mp hc
    have hlt : j < n.peers.length := h.linked.peers ▸ (List.getElem?_eq_some_iff.mp hslot).1
    have hk := List.getElem?_eq_getElem hlt
    have hfinished := h.closedBy j _ _ hk hslot (by simpa using heof)
    obtain ⟨hne, hdata⟩ := hallows.2
    rw [h.outgoing_of_finished hfits hserver hk hslot hfinished, List.prefix_nil] at hdata
    exact hne hdata
  | accepted | acceptFailed | acceptStep | shutdown | io | stop | destroy => trivial

theorem Healthy.sealed_step (h : Healthy host nextRequest numClients maxConnections n) {i : ℕ}
    {a : Action} {s : Server σ} (hcalm : Calm (.server i a) n)
    (hstep : Server.step host router a n.server = some s) :
    ∀ slot ∈ s.slots, Server.Sealed slot.connection := by
  intro slot hslot
  have hslots := Server.slots_step hstep
  split_ifs at hslots with hadopts
  · obtain ⟨sessionId, hslots⟩ := hslots
    rw [hslots] at hslot
    obtain hslot | hslot := List.mem_append.mp hslot
    · exact h.sealed slot hslot
    · rw [List.mem_singleton.mp hslot]
      exact nofun
  · obtain ⟨k, slot', hslots, hmoved⟩ := hslots
    rw [hslots] at hslot
    obtain ⟨j, hj⟩ := List.mem_iff_getElem?.mp hslot
    rw [List.getElem?_set] at hj
    split_ifs at hj with hkj hlt
    · obtain rfl := Option.some.inj hj
      refine (hmoved _ (List.getElem?_eq_getElem hlt)).sealed ?_ (h.sealed _ (List.getElem_mem hlt))
      rintro rfl
      exact hcalm.elim
    · exact h.sealed slot (List.mem_of_getElem? hj)

/-- A session learns of the end from its client alone. -/
theorem Healthy.closedBy_step (h : Healthy host nextRequest numClients maxConnections n) {i : ℕ}
    {a : Action} {s : Server σ} (hcalm : Calm (.server i a) n)
    (hstep : Server.step host router a n.server = some s) {k j : ℕ} {slot : Slot}
    (hk : (n.serverStep i a s).peers[k]? = some j) (hslot : s.slots[k]? = some slot)
    (heof : slot.connection.eof = true) : n.clientFinished j = true := by
  have hpeers : (n.serverStep i a s).peers =
      if n.server.adopts a then n.peers ++ [i] else n.peers := rfl
  have hslots := Server.slots_step hstep
  rw [hpeers] at hk
  split_ifs at hslots hk with hadopts
  · obtain ⟨sessionId, hslots⟩ := hslots
    rw [hslots, List.getElem?_append] at hslot
    rw [List.getElem?_append, h.linked.peers] at hk
    split_ifs at hk hslot
    · exact h.closedBy k j slot hk hslot heof
    · obtain ⟨_, hnew⟩ := List.getElem?_eq_some_iff.mp hslot
      rw [← hnew, List.getElem_singleton] at heof
      cases heof
  · obtain ⟨k', slot', hslots, hmoved⟩ := hslots
    rw [hslots, List.getElem?_set] at hslot
    split_ifs at hslot with hkk hlt
    · subst hkk
      obtain rfl := Option.some.inj hslot
      obtain hsame | ha := (hmoved _ (List.getElem?_eq_getElem hlt)).eof
      · exact h.closedBy k' j _ hk (List.getElem?_eq_getElem hlt) (hsame.symm.trans heof)
      · subst ha
        obtain ⟨-, hfinished⟩ := hcalm
        rw [hk, Option.any_some] at hfinished
        exact hfinished
    · exact h.closedBy k j slot hk hslot heof

theorem Healthy.server (h : Healthy host nextRequest numClients maxConnections n)
    (hfits : Fits router nextRequest store P I)
    (hserver : ServerRun host router maxConnections store n.server)
    (hroom : numClients.toNat ≤ maxConnections.toNat) {i : ℕ} {a : Action} {s : Server σ}
    (hcalm : Calm (.server i a) n) (hallows : n.Allows host i a)
    (hstep : Server.step host router a n.server = some s) :
    Healthy host nextRequest numClients maxConnections (n.serverStep i a s) := by
  have hrejects := h.not_rejects hroom hcalm hallows
  refine ⟨h.linked.server hallows hstep, ?_, ?_, h.sealed_step hcalm hstep, ?_, ?_, ?_, h.failedIn⟩
  · have hoption := hcalm.optionSucceeds
    obtain ⟨ok, hs⟩ | ⟨j, optionOk, rfl, hs⟩ | ⟨k, c, c', alive, effect, hk, rfl, hmoved, halive⟩ :=
      Server.step_cases hstep
    · exact h.accounted.accept_completed hs
    · exact h.accounted.accept_step (fun hfails => by subst hfails; exact hoption) hs
    · exact h.accounted.after hk hmoved halive
  · intro k
    exact Server.undisturbed_step (h.undisturbed k) h.linked.streamed
      (h.untroubled hfits hserver hcalm hallows k) hstep
  · intro k j slot hk hslot heof
    exact h.closedBy_step hcalm hstep hk hslot heof
  · intro j hj
    have hpeers : (n.serverStep i a s).peers =
        if n.server.adopts a then n.peers ++ [i] else n.peers := rfl
    rw [hpeers] at hj
    split_ifs at hj with hadopts
    · obtain hj | hj := List.mem_append.mp hj
      · exact h.peersLt j hj
      · obtain ⟨-, -, hdialled⟩ := hallows.1 (.inr (.inr hadopts))
        rw [List.mem_singleton.mp hj]
        exact h.linked.accounted.length ▸ LoadTest.lt_of_dialled hdialled
    · exact h.peersLt j hj
  · simp only [serverStep, hrejects, Bool.false_eq_true, if_false]
    exact h.rejected

theorem reaches_healthy (hfits : Fits router nextRequest store P I)
    (hroom : numClients.toNat ≤ maxConnections.toNat)
    (h : Reaches (step host router nextRequest) Calm
      (initial numClients generator maxConnections store) n) :
    Healthy host nextRequest numClients maxConnections n := by
  induction h with
  | refl => exact initial_healthy numClients generator maxConnections store
  | @tail b c turn hreach hcalm hstep ih =>
    have hserver : ServerRun host router maxConnections store b.server :=
      reaches_server (fun _ _ _ _ _ => trivial) hreach
    cases turn with
    | client a =>
      obtain ⟨hoffers, hstep⟩ := Option.ite_none_right_eq_some.mp hstep
      obtain ⟨t, ht, rfl⟩ := Option.map_eq_some_iff.mp hstep
      exact ih.client hfits hserver hcalm hoffers ht
    | server i a =>
      obtain ⟨hallows, hstep⟩ := Option.ite_none_right_eq_some.mp hstep
      obtain ⟨s, hs, rfl⟩ := Option.map_eq_some_iff.mp hstep
      exact ih.server hfits hserver hroom hcalm hallows hs

end Steps

/-- In a calm test with a place for every client nobody has an error: no connection is turned
away, the clients stop only when the time is up, each with an answer to everything it sent,
and a session ends only after its client has. -/
theorem no_errors_when_calm {D : Type*} {dbl : Doubles D} (hdbl : dbl.Bounded) {clock : ℕ → ℤ}
    (hclock : ∀ k, (clock k).natAbs ≤ 2 ^ 63) {printPrice : ℕ → Bytes}
    (hprint : PrintsNumbers printPrice) {scenario : ScenarioConfig} {generator : ℕ → UInt64}
    {n : Network UInt64 World} (hroom : numClients.toNat ≤ maxConnections.toNat)
    (h : Reaches (step host (serverRouter dbl) (LoadGen.nextRequest printPrice scenario)) Calm
      (initial numClients generator maxConnections (World.initial clock)) n) :
    n.rejected = [] ∧ n.test.errors = 0 ∧
      (∀ c ∈ n.test.clients, c.errors = 0 ∧
        (c.finished = true → n.test.stopFlag = true ∧ c.sent.length = c.responses.length)) ∧
      ∀ (k i : ℕ) (slot : Slot), n.peers[k]? = some i → n.server.slots[k]? = some slot →
        slot.connection.session.closed = true → n.clientFinished i = true := by
  have hfits := loadGen_fits hdbl hclock hprint scenario
  have hhealthy := reaches_healthy hfits hroom h
  obtain ⟨herrors, hclients⟩ := hhealthy.errors_eq
  refine ⟨hhealthy.rejected, herrors, ?_, ?_⟩
  · intro c hc
    refine ⟨(hclients c hc).1, ?_⟩
    intro hfinished
    obtain ⟨hsaw, hanswered⟩ := (hclients c hc).2 hfinished
    exact ⟨LoadTest.reaches_sawStop (reaches_test h) c hc hsaw, hanswered⟩
  · intro k i slot hk hslot hclosed
    by_contra hunfinished
    obtain ⟨-, -, hopen, -⟩ := hhealthy.open hfits hk hslot (by simpa using hunfinished)
    rw [hopen] at hclosed
    cases hclosed

theorem no_errors_when_calm_two_clients :
    ∃ n : Network UInt64 World,
      Reaches (step .little (serverRouter shortDoubles) (LoadGen.nextRequest priceText {})) Calm
        (initial 2 (fun i => seed (UInt32.ofNat i)) 2 (World.initial fun _ => 0)) n ∧
      n.test.clients.map AsyncClient.finished = [true, true] ∧ n.server.activeConnections = 1 ∧
      n.test.errors = 0 ∧ n.test.stopFlag = true := by
  let router := serverRouter shortDoubles
  let nextRequest := LoadGen.nextRequest priceText {}
  let first := (nextRequest (seed 0)).1
  let second := (nextRequest (seed 1)).1
  let r' := router.dispatch second (World.initial fun _ => 0)
  let r := router.dispatch first r'.2
  let turns := answeredTurns first second r.1 r'.1 ++
    [.server 1 (.shutdown 0), .server 1 (.io 0), .server 1 (.destroy 0)]
  let run := turns.foldlM
    (fun n turn => if Calm turn n then step .little router nextRequest turn n else none)
    (initial 2 (fun i => seed (UInt32.ofNat i)) 2 (World.initial fun _ => 0))
  have hrun : run.map (fun n => (n.test.clients.map AsyncClient.finished,
      n.server.activeConnections)) = some ([true, true], 1) := by decide +kernel
  obtain ⟨n, hn, hend⟩ := Option.map_eq_some_iff.mp hrun
  obtain ⟨hfinished, hactive⟩ := Prod.mk.inj hend
  have hreach := Reaches.of_foldlM hn
  have hclock : ∀ k : ℕ, ((fun _ => 0 : ℕ → ℤ) k).natAbs ≤ 2 ^ 63 := fun _ => Nat.zero_le _
  obtain ⟨-, herrors, hclients, -⟩ := no_errors_when_calm shortDoubles_bounded hclock
    priceText_printsNumbers (by decide) hreach
  obtain ⟨c, rest, hcs, hc, -⟩ := List.map_eq_cons_iff.mp hfinished
  obtain ⟨hstop, -⟩ := (hclients c (by rw [hcs]; exact List.mem_cons_self)).2 hc
  exact ⟨n, hreach, hfinished, hactive, herrors, hstop⟩

end Network

end System

end HSFinancialServices
