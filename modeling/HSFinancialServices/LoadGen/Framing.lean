import HSFinancialServices.LoadGen.ClientSession

/-!
# Framing over whole sessions

What the load generator's clients write is read back by the server's session as the
same requests, and the other way round for the responses, over sessions of any length.
-/

namespace HSFinancialServices
open Ascii

variable {σ : Type*}

theorem ServiceRouter.mem_serve {router : ServiceRouter σ} {reqs : List Message} {store : σ}
    {e : Exchange} (h : e ∈ (router.serve reqs store).1) :
    e.request ∈ reqs ∧ ∃ store', e.response = (router.dispatch e.request store').1 := by
  induction reqs generalizing store with
  | nil => cases h
  | cons r rs ih =>
    simp only [serve, List.mem_cons] at h
    cases h with
    | inl heq =>
      subst heq
      exact ⟨List.mem_cons_self .., store, rfl⟩
    | inr hmem =>
      obtain ⟨hreq, hresp⟩ := ih hmem
      exact ⟨List.mem_cons_of_mem _ hreq, hresp⟩

theorem ServiceRouter.dispatch_sized (router : ServiceRouter σ) (request : Message) (store : σ)
    (h : (router.dispatch request store).1.payload.length ≤ kMaxPayloadSize.toNat) :
    (router.dispatch request store).1.Sized := by
  obtain ⟨type, payload, heq⟩ := router.dispatch_make request store
  rw [heq] at h ⊢
  exact Message.make_sized h type 0

namespace LoadGen

theorem sessions_frame_exactly (host : HostOrder) (router : ServiceRouter σ)
    (hrouter : ∀ (request : Message) (store : σ),
      request.payload.length ≤ kMaxPayloadSize.toNat →
        (router.dispatch request store).1.payload.length ≤ kMaxPayloadSize.toNat)
    (sessionId : UInt64) (store : σ) (reqs : List Message)
    (hreqs : ∀ r ∈ reqs, ∃ type payload, r = Message.make type payload 0 ∧
      payload.length ≤ kMaxPayloadSize.toNat)
    (rest : Bytes) (hrest : (wireFormat host).Stuck rest) :
    ∃ final ∈ StateTransition.eval (Line.io host router)
        (Line.start sessionId (serialiseAll host reqs ++ rest) store),
      final.log = (router.serve reqs store).1 ∧
        final.log.map Exchange.request = reqs ∧
        final.connection.written = serialiseAll host (final.log.map Exchange.response) ∧
        final.connection.session.closed = true ∧ final.onCloseCalls = 1 ∧
        ∃ client ∈ StateTransition.eval (ClientLine.run host)
            (ClientLine.start reqs final.connection.written),
          client.received = final.log.map Exchange.response ∧
            client.written = serialiseAll host reqs ∧ client.errors = 0 ∧
            client.client.finished = true ∧ client.onDoneCalls = 1 := by
  have hpayload : ∀ r ∈ reqs, r.payload.length ≤ kMaxPayloadSize.toNat := by
    intro r hr
    obtain ⟨type, payload, rfl, hlen⟩ := hreqs r hr
    exact hlen
  have hsized : ∀ r ∈ reqs, r.Sized := by
    intro r hr
    obtain ⟨type, payload, rfl, hlen⟩ := hreqs r hr
    exact Message.make_sized hlen type 0
  obtain ⟨final, heval, hlog, hwritten, hclosed, hcalls⟩ :=
    session_serves host router sessionId store hsized hrest
  have hrequests : final.log.map Exchange.request = reqs := by
    rw [hlog, router.serve_requests]
  have hresp : ∀ e ∈ final.log, e.response.Sized := by
    intro e he
    obtain ⟨hmem, store', hresp⟩ := ServiceRouter.mem_serve (hlog ▸ he)
    rw [hresp]
    exact router.dispatch_sized _ _ (hrouter _ _ (hpayload _ hmem))
  have hclient := client_recovers host hresp
  rw [hrequests] at hclient
  exact ⟨final, heval, hlog, hrequests, hwritten, hclosed, hcalls, hwritten ▸ hclient⟩

theorem sessions_frame_exactly_pings :
    let router : ServiceRouter Unit :=
      ⟨fun type => if type = MessageType.kPing then some fun _ s => (.ok (ascii "pong"), s)
        else none⟩
    let reqs := [Message.make MessageType.kPing (ascii "1") 0, Message.make MessageType.kPing [] 0]
    ∃ final ∈ StateTransition.eval (Line.io .little router)
        (Line.start 1 (serialiseAll .little reqs ++ [9, 0, 0]) ()),
      final.log = (router.serve reqs ()).1 ∧
        final.log.map Exchange.request = reqs ∧
        final.connection.written = serialiseAll .little (final.log.map Exchange.response) ∧
        final.connection.session.closed = true ∧ final.onCloseCalls = 1 ∧
        ∃ client ∈ StateTransition.eval (ClientLine.run .little)
            (ClientLine.start reqs final.connection.written),
          client.received = final.log.map Exchange.response ∧
            client.written = serialiseAll .little reqs ∧ client.errors = 0 ∧
            client.client.finished = true ∧ client.onDoneCalls = 1 := by
  refine sessions_frame_exactly .little _ ?_ 1 () _ ?_ [9, 0, 0] (Or.inl (by decide))
  · intro request store _
    simp only [ServiceRouter.dispatch]
    split_ifs
    · have hpong : (ascii "pong").length ≤ kMaxPayloadSize.toNat := by decide
      exact hpong
    · have hunknown : unknownMessageType.length ≤ kMaxPayloadSize.toNat := by decide
      exact hunknown
  · intro r hr
    simp only [List.mem_cons, List.not_mem_nil, or_false] at hr
    cases hr with
    | inl h => exact ⟨_, _, h, by decide⟩
    | inr h => exact ⟨_, _, h, by decide⟩

end LoadGen

end HSFinancialServices
