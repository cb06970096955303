import HSFinancialServices.Services.ResponseBound
import HSFinancialServices.Ui.Commands

/-!
# Which response a command takes for its own

As long as every command on a connection has either sent nothing or received its whole
response, the next message that the server writes answers the next request. A command
that fails in between leaves a response behind for its successor.
-/

namespace HSFinancialServices.Ui
open Ascii Framing Services WordBytes

variable {σ : Type*} {host : HostOrder} {router : ServiceRouter σ} {P : σ → Prop}

/-- The server has answered every byte it got, and the client has received every answer. -/
structure Settled (host : HostOrder) (router : ServiceRouter σ) (P : σ → Prop) (link : Link σ) :
    Prop where
  sound : link.line.Sound host router P
  stream : ∃ frames, List.Forall₂ (Carries host) frames (link.line.log.map Exchange.request) ∧
    link.line.connection.arrived = concat frames
  written : replies host link.line.log <+: link.line.connection.written
  received : link.received = (replies host link.line.log).length

theorem Settled.receive {link link' : Link σ} (h : Settled host router P link) {data : Bytes}
    (hevolves : link.line.Evolves host router P data link'.line) {e : Exchange} {f : Frame UInt8}
    (hlog : link'.line.log = link.line.log ++ [e]) (hf : Carries host f e.request)
    (hdata : data = f.bytes)
    (hreceived : link'.received = link.received + (e.response.serialise host).length)
    (hfront : e.response.serialise host <+:
      link'.line.connection.written.drop link.received) : Settled host router P link' := by
  refine ⟨hevolves.sound h.sound, ?_, ?_, ?_⟩
  · obtain ⟨old, hold, harrived⟩ := h.stream
    refine ⟨old ++ [f], ?_, ?_⟩
    · rw [hlog, List.map_append]
      exact List.rel_append hold (.cons hf .nil)
    · rw [hevolves.arrived, harrived, hdata, concat_append, concat_cons, concat_nil,
        List.append_nil]
  · obtain ⟨more, hmore⟩ := h.written.trans hevolves.written
    rw [← hmore, h.received, List.drop_left] at hfront
    rw [hlog, replies_append, replies_singleton, ← hmore]
    exact (List.prefix_append_right_inj _).mpr hfront
  · rw [hlog, replies_append, replies_singleton, hreceived, h.received, List.length_append]

theorem Settled.dispatched {link : Link σ} (h : Settled host router P link) {data : Bytes}
    {l : Line σ} (hevolves : link.line.Evolves host router P data l) :
    ∃ new frames rest, l.log = link.line.log ++ new ∧
      List.Forall₂ (Carries host) frames (new.map Exchange.request) ∧
      data = concat frames ++ rest := by
  obtain ⟨old, hold, harrived⟩ := h.stream
  obtain ⟨new, hnew⟩ := hevolves.log
  obtain ⟨frames, tail, hat⟩ := (hevolves.sound h.sound).tracks
  have hcarries := hat.carries
  rw [← hnew, List.map_append] at hcarries
  have hfirst := List.forall₂_take_append _ _ _ hcarries
  have hsecond := List.forall₂_drop_append _ _ _ hcarries
  rw [List.length_map] at hfirst hsecond
  have hstream := hat.stream
  rw [hevolves.arrived, harrived, ← List.take_append_drop link.line.log.length frames,
    concat_append, List.append_assoc] at hstream
  obtain ⟨-, hdata⟩ := concat_append_inj_of_length (forall_wellFormed hold)
    (forall_wellFormed hfirst) (hold.length_eq.trans hfirst.length_eq.symm) hstream
  exact ⟨new, _, _, hnew.symm, hsecond, hdata⟩

theorem eq_nil_of_concat {frames : List (Frame UInt8)} {ms : List Message} {rest : Bytes}
    (h : List.Forall₂ (Carries host) frames ms) (hnil : [] = concat frames ++ rest) :
    ms = [] := by
  cases h with
  | nil => rfl
  | cons hf _ =>
    have hlength := congrArg List.length hnil
    have hsize := hf.size
    simp only [concat_cons, Frame.bytes, List.length_append, List.length_nil, kHeaderSize]
      at hlength hsize
    omega

theorem Settled.undisturbed {link link' : Link σ} (h : Settled host router P link)
    (hevolves : link.line.Evolves host router P [] link'.line)
    (hreceived : link'.received = link.received) : Settled host router P link' := by
  obtain ⟨new, frames, rest, hlog, hcarries, hdata⟩ := h.dispatched hevolves
  have hnew : new = [] := List.map_eq_nil_iff.mp (eq_nil_of_concat hcarries hdata)
  rw [hnew, List.append_nil] at hlog
  obtain ⟨old, hold, harrived⟩ := h.stream
  refine ⟨hevolves.sound h.sound, ⟨old, ?_, ?_⟩, ?_, ?_⟩
  · rw [hlog]
    exact hold
  · rw [hevolves.arrived, harrived, List.append_nil]
  · rw [hlog]
    exact h.written.trans hevolves.written
  · rw [hlog, hreceived]
    exact h.received

theorem carries_requestBytes {f : Frame UInt8} {m : Message} (h : Carries host f m)
    {type : UInt16} {payload rest : Bytes} (hbytes : requestBytes type payload = f.bytes ++ rest) :
    m.header = ⟨ntohl host (UInt32.ofNat payload.length), ntohs host type, 0, 0⟩ ∧
      payload = f.body ++ rest := by
  rw [requestBytes, Frame.bytes, List.append_assoc] at hbytes
  obtain ⟨hheader, hbody⟩ := List.append_inj hbytes (by rw [h.size, encodeHeader_length])
  refine ⟨?_, hbody⟩
  have hdecode := h.header
  rw [← hheader, server_decodes_client] at hdecode
  split at hdecode
  · cases hdecode
  · exact (Except.ok.inj hdecode).symm

theorem carries_requestBytes_big {f : Frame UInt8} {m : Message} (h : Carries .big f m)
    {type : UInt16} {payload rest : Bytes} (hpayload : payload.length < 2 ^ 32)
    (hbytes : requestBytes type payload = f.bytes ++ rest) :
    m.header.messageType = type ∧ m.payload = payload ∧ rest = [] := by
  obtain ⟨hheader, hbody⟩ := carries_requestBytes h hbytes
  have hlength : f.body.length = payload.length := by
    rw [h.body, h.length, hheader]
    exact UInt32.toNat_ofNat_of_lt' hpayload
  have hrest : rest = [] := by
    have := congrArg List.length hbody
    rw [List.length_append] at this
    exact List.length_eq_zero_iff.mp (by omega)
  rw [hrest, List.append_nil] at hbody
  exact ⟨by rw [hheader]; rfl, by rw [← h.body, hbody], hrest⟩

theorem received_front {header body more payload : Bytes} {type : MessageType}
    (hheader : header.length = kHeaderSize)
    (hfront : header ++ body <+: (Message.make type payload 0).serialise host ++ more) :
    header = HSFinancialServices.encodeHeader host (Message.make type payload 0).header ∧
      body <+: payload ++ more := by
  obtain ⟨rest, hrest⟩ := hfront
  rw [Message.serialise, List.append_assoc, List.append_assoc] at hrest
  obtain ⟨h, hbody⟩ := List.append_inj hrest (by rw [hheader, HSFinancialServices.encodeHeader_length])
  exact ⟨h, rest, hbody⟩

/-- No type of a request from the UI client is known to the server with its bytes swapped. -/
def Unswappable {D : Type*} (dbl : Doubles D) (type : UInt16) : Prop :=
  (serverRouter dbl).handlers (swap16 type) = none

/-- The server has dispatched `served`, the frames that arrived before the attempt, and next
the attempt's own frame, to which `message` is the response. -/
structure Answers (host : HostOrder) (x : Attempt) (served : List Exchange) (e : Exchange)
    (message : UInt16 × Bytes) : Prop where
  log : ∃ rest, x.log = served ++ e :: rest
  earlier : ∃ frames, List.Forall₂ (Carries host) frames (served.map Exchange.request) ∧
    concat frames = x.arrivedBefore
  own : ∃ f, Carries host f e.request ∧ f.bytes = requestBytes x.type x.payload
  type : e.request.header.messageType = x.type
  payload : e.request.payload = x.payload
  message : message = (e.response.header.messageType, e.response.payload)

section Server
variable {D : Type*} {dbl : Doubles D}

def ClockBounded (w : World) : Prop := ∀ n, (w.clock n).natAbs ≤ 2 ^ 63

theorem clockBounded_dispatch (request : Message) (w : World) (h : ClockBounded w) :
    ClockBounded ((serverRouter dbl).dispatch request w).2 := by
  intro n
  rw [dispatch_clock]
  exact h n

theorem Settled.exchange (hdbl : dbl.Bounded) {link link' : Link World}
    (h : Settled host (serverRouter dbl) ClockBounded link) {type : UInt16} {payload : Bytes}
    (hpayload : payload.length < 2 ^ 32) (htype : Unswappable dbl type)
    (hevolves : link.line.Evolves host (serverRouter dbl) ClockBounded (requestBytes type payload)
      link'.line) {header body : Bytes} (hheader : header.length = kHeaderSize)
    (hmax : (decodeHeader header).1 ≤ kMaxPayload)
    (hbody : body.length = (decodeHeader header).1.toNat)
    (hreceived : link'.received = link.received + (header ++ body).length)
    (hfront : header ++ body <+: link'.line.connection.written.drop link.received) :
    Settled host (serverRouter dbl) ClockBounded link' ∧
      ∃ e, link'.line.log = link.line.log ++ [e] ∧
        (∃ f, Carries host f e.request ∧ f.bytes = requestBytes type payload) ∧
        e.request.header.messageType = type ∧ e.request.payload = payload ∧
        ((decodeHeader header).2, body) = (e.response.header.messageType, e.response.payload) := by
  obtain ⟨new, frames, rest, hlog, hcarries, hdata⟩ := h.dispatched hevolves
  have hsound := hevolves.sound h.sound
  obtain ⟨_, _, hat⟩ := hsound.tracks
  -- what the client has received beyond the old replies is a part of the new ones
  have hnew : header ++ body <+: replies host new := by
    have hwritten := (h.written.trans hevolves.written).trans hat.written_prefix
    have hprefix := hfront.trans (hat.written_prefix.drop link.received)
    rw [hlog, replies_append, h.received, List.drop_left] at hprefix
    exact hprefix
  cases new with
  | nil =>
    have hlength := hnew.length_le
    simp only [List.length_append, hheader, replies, serialiseAll, List.map_nil, List.flatMap_nil,
      List.length_nil, kHeaderSize] at hlength
    omega
  | cons e new =>
    cases hcarries with
    | cons hf hrest =>
    rename_i f frames
    rw [concat_cons, List.append_assoc] at hdata
    obtain ⟨store, hclock, hresponse⟩ := hsound.answers e (by rw [hlog]; simp)
    obtain ⟨type', payload', hmake⟩ := (serverRouter dbl).dispatch_make e.request store
    have hserialise : header ++ body <+: (Message.make type' payload' 0).serialise host ++
        replies host new := by
      rw [← hmake, ← hresponse, ← replies_singleton, ← replies_append]
      exact hnew
    obtain ⟨hheader', hbody'⟩ := received_front hheader hserialise
    have hdecode := client_decodes_server host (Message.make type' payload' 0).header
    rw [← hheader'] at hdecode
    cases host with
    | little =>
      -- the server has read the type with its bytes swapped, and answers with a 404 whose
      -- length the client reads as more than the largest payload
      exfalso
      have hunknown : (serverRouter dbl).handlers e.request.header.messageType = none := by
        rw [(carries_requestBytes hf hdata).1]
        exact htype
      rw [dispatch_unknown dbl store hunknown] at hmake
      rw [hdecode, ← hmake] at hmax
      revert hmax
      decide
    | big =>
      obtain ⟨htype', hpayload', hnone⟩ := carries_requestBytes_big hf hpayload hdata
      have hnew : new = [] := List.map_eq_nil_iff.mp (eq_nil_of_concat hrest hnone.symm)
      subst hnew
      have hshort : payload'.length < 2 ^ 32 := by
        have hrequest : e.request.payload.length ≤ kMaxPayloadSize.toNat := by
          rw [hf.length]
          exact UInt32.le_iff_toNat_le.mp (payloadLength_le hf.header)
        have hlt := length_responsePayload_lt e.request (hdbl.shortPrints hclock) hrequest
        rw [← dispatch_payload, hmake] at hlt
        exact hlt
      have hlength : body.length = payload'.length := by
        rw [hbody, hdecode]
        exact UInt32.toNat_ofNat_of_lt' hshort
      have hbodyEq : body = payload' := by
        simp only [replies, serialiseAll, List.map_nil, List.flatMap_nil, List.append_nil] at hbody'
        exact hbody'.eq_of_length hlength
      have hwire : e.response.serialise .big = header ++ body := by
        rw [hresponse, hmake, Message.serialise, ← hheader', hbodyEq]
        rfl
      have hbytes : requestBytes type payload = f.bytes := by
        rw [hdata, hnone, List.append_nil]
      rw [← hwire] at hreceived hfront
      refine ⟨h.receive hevolves hlog hf hbytes hreceived hfront, e, hlog, ⟨f, hf, hbytes.symm⟩,
        htype', hpayload', ?_⟩
      rw [hdecode, hbodyEq, hresponse, hmake]
      rfl

def Attempt.Clean (x : Attempt) : Prop :=
  x.delivered.isSome = true ∨ x.arrivedAfter = x.arrivedBefore

instance (x : Attempt) : Decidable x.Clean :=
  inferInstanceAs (Decidable (x.delivered.isSome = true ∨ x.arrivedAfter = x.arrivedBefore))

structure Truthful (host : HostOrder) (dbl : Doubles D) (c : Client World) : Prop where
  answered : ∀ earlier x later, c.attempts = earlier ++ x :: later →
    (∀ y ∈ earlier, y.Clean) → ∀ message, x.delivered = some message →
      ∃ served e, Answers host x served e message
  settled : c.connected = true → (∀ y ∈ c.attempts, y.Clean) →
    Settled host (serverRouter dbl) ClockBounded c.link

theorem Truthful.record {c : Client World} (h : Truthful host dbl c) (request : UInt16 × Bytes)
    (delivered : Option (UInt16 × Bytes)) (calls : List Call) (link : Link World)
    {x : Attempt} (hx : x = ⟨request.1, request.2, c.link.line.connection.arrived,
      link.line.connection.arrived, delivered, link.line.log⟩)
    (hanswers : (∀ y ∈ c.attempts, y.Clean) → ∀ message, delivered = some message →
      ∃ served e, Answers host x served e message)
    (hsettled : (∀ y ∈ c.attempts, y.Clean) → x.Clean →
      Settled host (serverRouter dbl) ClockBounded link) :
    Truthful host dbl (c.record request delivered calls link) := by
  subst hx
  refine ⟨?_, ?_⟩
  · intro earlier x later hsplit hclean message hmessage
    simp only [Client.record] at hsplit
    cases List.eq_nil_or_concat later with
    | inl hnil =>
      subst hnil
      obtain ⟨rfl, hx⟩ := List.append_inj' hsplit rfl
      obtain rfl := List.singleton_inj.mp hx
      exact hanswers hclean message hmessage
    | inr hconcat =>
      obtain ⟨init, last, rfl⟩ := hconcat
      rw [List.concat_eq_append, ← List.cons_append, ← List.append_assoc] at hsplit
      obtain ⟨hattempts, -⟩ := List.append_inj' hsplit rfl
      exact h.answered earlier x init hattempts hclean message hmessage
  · intro _ hclean
    simp only [Client.record, List.mem_append, List.mem_singleton] at hclean ⊢
    exact hsettled (fun y hy => hclean y (.inl hy)) (hclean _ (.inr rfl))

structure Admissible (dbl : Doubles D) (request : UInt16 × Bytes) : Prop where
  type : Unswappable dbl request.1
  length : request.2.length < 2 ^ 32

theorem Truthful.unanswered {c : Client World} (h : Truthful host dbl c)
    (hconnected : c.connected = true) (request : UInt16 × Bytes) {ok : Bool} {calls : List Call}
    {link : Link World}
    (hsend : sendMsg host (serverRouter dbl) request.1 request.2 c.calls c.link =
      (ok, calls, link)) : Truthful host dbl (c.record request none calls link) := by
  obtain ⟨sent, hevolves, hreceived, -⟩ :=
    sendMsg_spec clockBounded_dispatch request.1 request.2 c.calls c.link hsend
  refine h.record request none calls link rfl (fun _ => nofun) ?_
  intro hclean hx
  have hnothing : sent = [] := by
    obtain hdelivered | harrived := hx
    · cases hdelivered
    · rw [hevolves.arrived] at harrived
      exact List.append_right_eq_self.mp harrived
  rw [hnothing] at hevolves
  exact (h.settled hconnected hclean).undisturbed hevolves hreceived

theorem Truthful.exchange (hdbl : dbl.Bounded) {c : Client World} (h : Truthful host dbl c)
    (hconnected : c.connected = true) {request : UInt16 × Bytes}
    (hrequest : Admissible dbl request) :
    Truthful host dbl (c.exchange host (serverRouter dbl) request) := by
  simp only [Client.exchange]
  generalize hsend : sendMsg host (serverRouter dbl) request.1 request.2 c.calls c.link = r
  obtain ⟨ok, calls, link⟩ := r
  obtain ⟨sent, hevolves, hreceived, hall⟩ :=
    sendMsg_spec clockBounded_dispatch request.1 request.2 c.calls c.link hsend
  cases ok with
  | false => exact h.unanswered hconnected request hsend
  | true =>
    obtain rfl := hall rfl
    simp only
    generalize hrecv : recvMsg host (serverRouter dbl) calls link = r
    obtain ⟨delivered, calls', link'⟩ := r
    cases delivered with
    | none =>
      refine h.record request none calls' link' rfl (fun _ => nofun) ?_
      intro hclean hx
      exfalso
      obtain ⟨hevolves', -⟩ := recvMsg_spec clockBounded_dispatch calls link hrecv
      obtain hdelivered | harrived := hx
      · cases hdelivered
      · rw [(hevolves.trans hevolves').arrived, List.append_nil] at harrived
        have hnil := List.append_right_eq_self.mp harrived
        have hlength := congrArg List.length hnil
        simp only [requestBytes, List.length_append, encodeHeader_length, kHeaderSize,
          List.length_nil] at hlength
        omega
    | some message =>
      obtain ⟨type, payload⟩ := message
      obtain ⟨hevolves', hmessage⟩ := recvMsg_spec clockBounded_dispatch calls link hrecv
      obtain ⟨header, hheader, htype, hmax, hbody, hreceived', hfront⟩ := hmessage type payload rfl
      rw [hreceived] at hreceived' hfront
      have hall := hevolves.trans hevolves'
      rw [List.append_nil] at hall
      have hexchange : (∀ y ∈ c.attempts, y.Clean) → _ := fun hclean =>
        (h.settled hconnected hclean).exchange hdbl hrequest.length hrequest.type hall hheader hmax
          hbody hreceived' hfront
      refine h.record request _ calls' link' rfl ?_ ?_
      · intro hclean message hdelivered
        obtain rfl := Option.some.inj hdelivered
        obtain ⟨-, e, hlog, hown, htype', hpayload', hresponse⟩ := hexchange hclean
        obtain ⟨old, hold, harrived⟩ := (h.settled hconnected hclean).stream
        refine ⟨c.link.line.log, e, ⟨⟨[], hlog⟩, ⟨old, hold, harrived.symm⟩, hown, htype',
          hpayload', ?_⟩⟩
        rw [← hresponse, htype]
      · intro hclean _
        exact (hexchange hclean).1

theorem unswappable_request (command : Command) (seq : ℤ) :
    Unswappable dbl (command.request seq).1 := by
  have htype : (command.request seq).1 ∈ [kMsgSqlQuery, kMsgBuyOrder, kMsgSellOrder, kMsgGetPos,
      kMsgPriceHist, kMsgPing] := by
    cases command <;> simp [Command.request]
  have hswapped : ([kMsgSqlQuery, kMsgBuyOrder, kMsgSellOrder, kMsgGetPos, kMsgPriceHist,
      kMsgPing].all fun type => swap16 type ∉ [MessageType.kSqlQuery, MessageType.kBuyOrder,
      MessageType.kSellOrder, MessageType.kGetPosition, MessageType.kGetPriceHistory,
      MessageType.kPing]) = true := by decide
  exact handlers_unknown dbl (of_decide_eq_true (List.all_eq_true.mp hswapped _ htype))

theorem request_seq {command : Command} (h : command ≠ .ping) (seq : ℤ) :
    command.request seq = command.request 0 := by
  cases command with
  | ping => exact absurd rfl h
  | _ => rfl

theorem length_request_le (id : CmdId) :
    ∀ command ∈ id.commands, (command.request 0).2.length ≤ 100 := by
  cases id <;> decide

theorem admissible_request {id : CmdId} {command : Command} (h : command ∈ id.commands) {seq : ℤ}
    (hseq : command = .ping → seq.natAbs ≤ 2 ^ 31) : Admissible dbl (command.request seq) := by
  refine ⟨unswappable_request command seq, ?_⟩
  by_cases hping : command = .ping
  · subst hping
    have hint : (decimalInt seq).length ≤ 10 + 1 :=
      length_decimalInt_le (by norm_num) (by have := hseq rfl; omega)
    have hstart : (ascii "\x7b\"seq\":").length = 7 := rfl
    have hend : (ascii "\x7d").length = 1 := rfl
    simp only [Command.request, List.length_append, hstart, hend]
    omega
  · have hle := length_request_le id command h
    rw [request_seq hping]
    omega

theorem natAbs_wrapInt_le (z : ℤ) : (wrapInt z).natAbs ≤ 2 ^ 31 := by
  have hle := Int.le_bmod (x := z) (m := 2 ^ 32) (by norm_num)
  have hlt := Int.bmod_lt (x := z) (m := 2 ^ 32) (by norm_num)
  simp only [wrapInt]
  omega

theorem Truthful.runCommand (hdbl : dbl.Bounded) {c : Client World} (h : Truthful host dbl c)
    {id : CmdId} {command : Command} (hcommand : command ∈ id.commands) :
    Truthful host dbl (c.runCommand host (serverRouter dbl) command) := by
  simp only [Client.runCommand]
  split
  · rename_i hconnected
    cases command with
    | logout =>
      have hrecord := h.unanswered hconnected (Command.logout.request c.seq) rfl
      exact ⟨hrecord.answered, nofun⟩
    | ping =>
      have hseq : Truthful host dbl { c with seq := wrapInt (c.seq + 1) } :=
        ⟨h.answered, h.settled⟩
      exact hseq.exchange hdbl hconnected
        (admissible_request hcommand fun _ => natAbs_wrapInt_le (c.seq + 1))
    | _ => exact h.exchange hdbl hconnected (admissible_request hcommand nofun)
  · exact h

theorem Truthful.run (hdbl : dbl.Bounded) {c : Client World} (h : Truthful host dbl c)
    (ids : List CmdId) : Truthful host dbl (c.run host (serverRouter dbl) ids) := by
  simp only [Client.run]
  have hids : ∀ command ∈ ids.flatMap CmdId.commands, ∃ id : CmdId, command ∈ id.commands := by
    intro command hcommand
    obtain ⟨id, -, hid⟩ := List.mem_flatMap.mp hcommand
    exact ⟨id, hid⟩
  generalize ids.flatMap CmdId.commands = commands at hids
  induction commands generalizing c with
  | nil => exact h
  | cons command commands ih =>
    obtain ⟨id, hid⟩ := hids command (by simp)
    exact ih (h.runCommand hdbl hid) fun other hother => hids other (by simp [hother])

theorem truthful_connect (host : HostOrder) (sessionId : UInt64) {w : World} (hclock : ClockBounded w)
    (seq : ℤ) (calls : List Call) : Truthful host dbl (Client.connect sessionId w seq calls) where
  answered := by
    intro earlier x later hsplit
    cases earlier <;> cases hsplit
  settled := by
    intro _ _
    have htracks := Connection.tracks_accept host False sessionId [] false
    exact ⟨⟨htracks, hclock, nofun⟩, ⟨[], .nil, rfl⟩, List.prefix_refl _, rfl⟩

/-- Whatever the calls meet, a command that follows clean commands only takes no response
but its own. -/
theorem delivers_own_response (hdbl : dbl.Bounded) {w : World} (hclock : ClockBounded w)
    (host : HostOrder) (sessionId : UInt64) (seq : ℤ) (calls : List Call) (ids : List CmdId)
    {earlier later : List Attempt} {x : Attempt}
    (hx : ((Client.connect sessionId w seq calls).run host (serverRouter dbl) ids).attempts =
      earlier ++ x :: later)
    (hclean : ∀ y ∈ earlier, y.Clean) {message : UInt16 × Bytes}
    (hmessage : x.delivered = some message) : ∃ served e, Answers host x served e message :=
  ((truthful_connect host sessionId hclock seq calls).run hdbl ids).answered earlier x later hx
    hclean message hmessage

end Server

def piecemeal : List Call :=
  [⟨[], true, 0⟩, ⟨[], false, 8⟩, ⟨[], false, 1000⟩, ⟨[.io, .io, .io], false, 8⟩,
    ⟨[], false, 1000⟩, ⟨[.io], false, 3⟩, ⟨[], false, 5⟩, ⟨[.io], false, 40⟩, ⟨[], false, 1000⟩,
    ⟨[.io, .io], false, 3⟩, ⟨[], false, 5⟩, ⟨[], false, 10⟩, ⟨[], false, 1000⟩]

theorem delivers_own_response_sell :
    ∃ x y z message, ((Client.connect 1 (World.initial fun _ => 0) 100 piecemeal).run .big
        (serverRouter shortDoubles) [.ping, .buyAapl, .sellTsla]).attempts = [x, y, z] ∧
      z.payload = (sellTsla.request 0).2 ∧ z.delivered = some message ∧
      ∃ served e, Answers .big z served e message := by
  have hrun : ((Client.connect 1 (World.initial fun _ => 0) 100 piecemeal).run .big
      (serverRouter shortDoubles) [.ping, .buyAapl, .sellTsla]).attempts.map (fun a =>
        (decide a.Clean, decide (a.payload = (sellTsla.request 0).2), a.delivered.isSome)) =
      [(true, false, false), (true, false, true), (true, true, true)] := by decide +kernel
  obtain ⟨x, y, z, hattempts⟩ := List.length_eq_three.mp
    ((List.length_map _).symm.trans (congrArg List.length hrun))
  rw [hattempts] at hrun
  simp only [List.map_cons, List.map_nil, List.cons.injEq, Prod.mk.injEq, and_true,
    decide_eq_true_eq] at hrun
  obtain ⟨⟨hx, -⟩, ⟨hy, -⟩, -, hpayload, hsome⟩ := hrun
  obtain ⟨message, hmessage⟩ := Option.isSome_iff_exists.mp hsome
  have hclock : ClockBounded (World.initial fun _ => 0) := fun _ => Nat.zero_le _
  have hclean : ∀ a ∈ [x, y], a.Clean := by
    intro a ha
    simp only [List.mem_cons, List.not_mem_nil, or_false] at ha
    obtain rfl | rfl := ha
    · exact hx
    · exact hy
  exact ⟨x, y, z, message, hattempts, hpayload, hmessage,
    delivers_own_response shortDoubles_bounded hclock .big 1 100 piecemeal _ hattempts hclean
      hmessage⟩

def lateResponse : List Call :=
  [⟨[], false, 8⟩, ⟨[], false, 11⟩, ⟨[], true, 0⟩, ⟨[.io, .io, .io], false, 8⟩, ⟨[], false, 11⟩,
    ⟨[], false, 8⟩, ⟨[], false, 11⟩]

theorem takes_anothers_response :
    ∃ x y, ((Client.connect 1 (World.initial fun _ => 0) 100 lateResponse).run .big
        (serverRouter exactDoubles) [.ping, .ping]).attempts = [x, y] ∧ x.delivered = none ∧
      y.payload = ascii "\x7b\"seq\":102\x7d" ∧
      y.delivered = some (0x8006, ascii "\x7b\"seq\":101\x7d") ∧
      ¬ ∃ served e, Answers .big y served e (0x8006, ascii "\x7b\"seq\":101\x7d") := by
  have hrun : ((Client.connect 1 (World.initial fun _ => 0) 100 lateResponse).run .big
      (serverRouter exactDoubles) [.ping, .ping]).attempts.map (fun a => (a.payload, a.delivered,
        a.log.map fun e => e.request.payload)) =
      [(ascii "\x7b\"seq\":101\x7d", none, []),
        (ascii "\x7b\"seq\":102\x7d", some (0x8006, ascii "\x7b\"seq\":101\x7d"),
          [ascii "\x7b\"seq\":101\x7d"])] := by decide +kernel
  generalize ((Client.connect 1 (World.initial fun _ => 0) 100 lateResponse).run .big
    (serverRouter exactDoubles) [.ping, .ping]).attempts = attempts at hrun ⊢
  obtain ⟨x, y, rfl⟩ : ∃ x y, attempts = [x, y] := by
    have hlength := congrArg List.length hrun
    rw [List.length_map] at hlength
    exact List.length_eq_two.mp hlength
  simp only [List.map_cons, List.map_nil, List.cons.injEq, Prod.mk.injEq, and_true] at hrun
  obtain ⟨⟨-, hnone, -⟩, hpayload, hdelivered, hlog⟩ := hrun
  refine ⟨x, y, rfl, hnone, hpayload, hdelivered, ?_⟩
  rintro ⟨served, e, hanswers⟩
  obtain ⟨rest, hrest⟩ := hanswers.log
  have hmem : e.request.payload ∈ y.log.map fun e => e.request.payload := by
    rw [hrest]
    simp
  rw [hlog, List.mem_singleton, hanswers.payload, hpayload] at hmem
  revert hmem
  decide

end HSFinancialServices.Ui
