import HSFinancialServices.ServerStreams
import HSFinancialServices.Services.OrderIdentity

/-!
# The types of the server's responses

`dispatch` sets a bit on the type of the request instead of taking the type of the response
from the enumeration, which has no value for the answer to a sell order.
-/

namespace HSFinancialServices

def MessageType.requests : List MessageType :=
  [kSqlQuery, kBuyOrder, kSellOrder, kGetPosition, kGetPriceHistory, kPing]

def MessageType.responses : List MessageType :=
  [kSqlResult, kOrderAck, kPositionResult, kPriceHistResult, kPong, kError]

namespace Services
open Ascii Framing Transitions Server

/-- The response has a type of the enumeration, that of an acknowledgement if it is one: the
handlers acknowledge every order. -/
structure Declared (e : Exchange) : Prop where
  response : e.response.header.messageType ∈ MessageType.responses
  acknowledgement : isOrder e = true → e.response.header.messageType = MessageType.kOrderAck

variable {D : Type*}

theorem dispatch_messageType (dbl : Doubles D) (request : Message) (w : World) :
    ((serverRouter dbl).dispatch request w).1.header.messageType =
      if request.header.messageType ∈ MessageType.requests then
        request.header.messageType ||| 0x8000
      else MessageType.kError := by
  split_ifs with h
  · simp only [MessageType.requests, List.mem_cons, List.not_mem_nil, or_false] at h
    obtain h | h | h | h | h | h := h
    all_goals
      simp only [ServiceRouter.dispatch, serverRouter, h]
      rfl
  · rw [dispatch_unknown dbl w (handlers_unknown dbl h)]
    rfl

/-- Among the client's enumerators only the sell order's has no counterpart. -/
theorem requests_declared {type : MessageType} (h : type ∈ MessageType.requests) :
    type ≠ MessageType.kSellOrder ↔ type ||| 0x8000 ∈ MessageType.responses := by
  simp only [MessageType.requests, List.mem_cons, List.not_mem_nil, or_false] at h
  obtain rfl | rfl | rfl | rfl | rfl | rfl := h <;> decide

variable {dbl : Doubles D}

theorem declared_iff {e : Exchange} {w : World}
    (h : e.response = ((serverRouter dbl).dispatch e.request w).1) :
    Declared e ↔ e.request.header.messageType ≠ MessageType.kSellOrder := by
  have htype := dispatch_messageType dbl e.request w
  rw [← h] at htype
  by_cases hknown : e.request.header.messageType ∈ MessageType.requests
  · rw [if_pos hknown] at htype
    rw [requests_declared hknown, ← htype]
    constructor
    · exact Declared.response
    · intro hdeclared
      refine ⟨hdeclared, ?_⟩
      intro horder
      obtain hbuy | hsell := isOrder_iff.mp horder
      · rw [htype, hbuy]
        rfl
      · rw [htype, ← requests_declared hknown] at hdeclared
        exact absurd hsell hdeclared
  · rw [if_neg hknown] at htype
    have hother : ∀ type ∈ MessageType.requests, e.request.header.messageType ≠ type := by
      intro type hmem heq
      exact hknown (heq ▸ hmem)
    refine iff_of_true ⟨?_, ?_⟩ (hother _ (by decide))
    · rw [htype]
      decide
    · intro horder
      obtain hbuy | hsell := isOrder_iff.mp horder
      · exact absurd hbuy (hother _ (by decide))
      · exact absurd hsell (hother _ (by decide))

section Runs
variable {host : HostOrder} {maxConnections : UInt64} {clock : ℕ → ℤ} {s : Server World}

/-- What a session has begun to write answers the first frames of its stream, and its types
are declared exactly as long as none of these frames is a sell order. -/
theorem response_types_declared_iff {ok : Action → Server World → Prop}
    (h : Reaches (step host (serverRouter dbl)) ok (initial maxConnections (World.initial clock))
      s) {k : ℕ} {slot : Slot} (hk : s.slots[k]? = some slot) :
    let answered := begun host slot.connection.written.length (s.logOf k)
    (∃ frames rest, List.Forall₂ (Carries host) frames (answered.map Exchange.request) ∧
        slot.connection.arrived = concat frames ++ rest) ∧
      slot.connection.written <+: replies host answered ∧
      ((∀ e ∈ answered, Declared e) ↔
        ∀ e ∈ answered, e.request.header.messageType ≠ MessageType.kSellOrder) := by
  intro answered
  obtain ⟨⟨frames, rest, hcarries, harrived⟩, hwritten⟩ := requests_in_stream_order h hk
  obtain ⟨-, hdispatched⟩ := reaches_dispatched (I := fun _ => True) trivial
    (fun _ _ _ => trivial) h
  have hfront : answered <+: s.logOf k := begun_prefix host _ _
  refine ⟨?_, prefix_replies_begun hwritten, ?_⟩
  · obtain ⟨more, hmore⟩ := hfront
    rw [← hmore, List.map_append] at hcarries
    have hfirst := List.forall₂_take_append frames _ _ hcarries
    refine ⟨_, concat (frames.drop (answered.map Exchange.request).length) ++ rest, hfirst, ?_⟩
    rw [harrived, ← List.append_assoc, ← concat_append, List.take_append_drop]
  · refine forall₂_congr ?_
    intro e he
    obtain ⟨w, -, hw⟩ := hdispatched (k, e) (mem_log_of_mem_logOf (hfront.subset he))
    exact declared_iff hw

end Runs

def answeredTypes (host : HostOrder) (s : Server World) : List (MessageType × MessageType) :=
  match s.slots[0]? with
  | none => []
  | some slot => (begun host slot.connection.written.length (s.logOf 0)).map fun e =>
      (e.request.header.messageType, e.response.header.messageType)

def oneRequest (request : Message) : Option (Server World) :=
  let next := Action.acceptStep 0 true
  [.accepted, next, next, next, next, next, next, next, next,
    .arrive 0 (request.serialise .little), .io 0, .io 0, .io 0].foldlM
    (fun s a => if True then step .little (serverRouter exactDoubles) a s else none)
    (initial 50000 (World.initial fun _ => 0))

theorem response_types_declared_buy :
    ∃ (s : Server World) (slot : Slot),
      Reaches (step .little (serverRouter exactDoubles)) (fun _ _ => True)
        (initial 50000 (World.initial fun _ => 0)) s ∧ s.slots[0]? = some slot ∧
      (begun .little slot.connection.written.length (s.logOf 0)).length = 1 ∧
      ∀ e ∈ begun .little slot.connection.written.length (s.logOf 0), Declared e := by
  have hrun : (oneRequest (Message.make MessageType.kBuyOrder (ascii "\x7b\x7d") 0)).map
      (answeredTypes .little) = some [(MessageType.kBuyOrder, MessageType.kOrderAck)] := by
    decide +kernel
  obtain ⟨s, hs, hend⟩ := Option.map_eq_some_iff.mp hrun
  have hreach : Reaches (step .little (serverRouter exactDoubles)) (fun _ _ => True) _ s :=
    Reaches.of_foldlM hs
  cases hk : s.slots[0]? with
  | none => simp [answeredTypes, hk] at hend
  | some slot =>
    simp only [answeredTypes, hk] at hend
    have hlength := congrArg List.length hend
    rw [List.length_map] at hlength
    refine ⟨s, slot, hreach, hk, hlength, ?_⟩
    refine (response_types_declared_iff hreach hk).2.2.mpr ?_
    intro e he hsell
    have hmem := List.mem_map_of_mem (f := fun e : Exchange =>
      (e.request.header.messageType, e.response.header.messageType)) he
    rw [hend, hsell] at hmem
    revert hmem
    simp [MessageType.kSellOrder, MessageType.kBuyOrder]

theorem response_type_undeclared_sell :
    ¬ ∀ (s : Server World) (slot : Slot),
      Reaches (step .little (serverRouter exactDoubles)) (fun _ _ => True)
        (initial 50000 (World.initial fun _ => 0)) s → s.slots[0]? = some slot →
      ∀ e ∈ begun .little slot.connection.written.length (s.logOf 0), Declared e := by
  intro h
  have hrun : (oneRequest (Message.make MessageType.kSellOrder (ascii "\x7b\x7d") 0)).map
      (answeredTypes .little) = some [(MessageType.kSellOrder, 0x8003)] := by
    decide +kernel
  obtain ⟨s, hs, hend⟩ := Option.map_eq_some_iff.mp hrun
  cases hk : s.slots[0]? with
  | none => simp [answeredTypes, hk] at hend
  | some slot =>
    simp only [answeredTypes, hk] at hend
    have hmem : (MessageType.kSellOrder, (0x8003 : MessageType)) ∈
        (begun .little slot.connection.written.length (s.logOf 0)).map fun e =>
          (e.request.header.messageType, e.response.header.messageType) := by
      rw [hend]
      exact List.mem_singleton_self _
    obtain ⟨e, he, htypes⟩ := List.mem_map.mp hmem
    have hdeclared := (h s slot (Reaches.of_foldlM hs) hk e he).response
    rw [(Prod.mk.inj htypes).2] at hdeclared
    exact absurd hdeclared (by decide)

end Services
end HSFinancialServices
