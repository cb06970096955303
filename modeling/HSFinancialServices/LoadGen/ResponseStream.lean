import HSFinancialServices.LoadGen.Accounting

/-!
# What a client of the load generator reads

The bytes that a client has taken from its socket are the frames of the responses it has
read to the end, in their order, and at most one header after them.
-/

namespace HSFinancialServices.LoadGen
open Framing

namespace AsyncClient

variable {γ : Type*} {host : HostOrder} {nextRequest : γ → Message × γ} {c c' : AsyncClient γ}

def readBy (c : AsyncClient γ) (completion : Option Bytes) : Bytes :=
  match c.outstanding.head?, completion with
  | some .readHeader, some data | some .readBody, some data => data
  | _, _ => []

/-- All that the completion of the outstanding operation can come to -/
inductive CompleteCase (host : HostOrder) (c : AsyncClient γ) : Option Bytes → AsyncClient γ → Prop
  | failed {op : ClientOp} : c.outstanding = [op] →
      CompleteCase host c none ({ c with outstanding := [] }.failed op)
  | resolved {data : Bytes} : c.outstanding = [.resolve] →
      CompleteCase host c (some data) { c with outstanding := [.connect] }
  | connected {data : Bytes} : c.outstanding = [.connect] →
      CompleteCase host c (some data)
        { c with outstanding := [], tasks := c.tasks ++ [.sendRequest] }
  | written {data : Bytes} : c.outstanding = [.write] →
      CompleteCase host c (some data) { c with outstanding := [.readHeader] }
  | refused {data : Bytes} {e : String} : c.outstanding = [.readHeader] →
      data.length = c.headerBuf.length → decodeHeader host data = .error e →
      CompleteCase host c (some data)
        ({ c with outstanding := [], headerBuf := data }.failed .readHeader)
  | emptyResponse {data : Bytes} {hdr : MessageHeader} : c.outstanding = [.readHeader] →
      data.length = c.headerBuf.length → decodeHeader host data = .ok hdr →
      hdr.payloadLength = 0 →
      CompleteCase host c (some data)
        ({ c with outstanding := [], headerBuf := data, respHeader := hdr }.answered ⟨hdr, []⟩)
  | bodyFollows {data : Bytes} {hdr : MessageHeader} : c.outstanding = [.readHeader] →
      data.length = c.headerBuf.length → decodeHeader host data = .ok hdr →
      hdr.payloadLength ≠ 0 →
      CompleteCase host c (some data)
        { c with
          outstanding := [.readBody]
          headerBuf := data
          respHeader := hdr
          bodyBuf := Session.resize c.bodyBuf hdr.payloadLength.toNat }
  | response {data : Bytes} : c.outstanding = [.readBody] → data.length = c.bodyBuf.length →
      CompleteCase host c (some data)
        ({ c with outstanding := [], bodyBuf := data }.answered ⟨c.respHeader, data⟩)

theorem complete_cases {op : ClientOp} {completion : Option Bytes} (hop : c.outstanding = [op])
    (hstep : c.complete host 0 completion = some c') : CompleteCase host c completion c' := by
  simp only [complete, hop, List.getElem?_cons_zero, List.eraseIdx_zero, List.tail_cons] at hstep
  obtain ⟨hfits, hstep⟩ := Option.ite_none_right_eq_some.mp hstep
  obtain rfl := Option.some.inj hstep
  cases completion with
  | none => exact .failed hop
  | some data =>
    cases op with
    | resolve => exact .resolved hop
    | connect => exact .connected hop
    | write => exact .written hop
    | readBody => exact .response hop (beq_iff_eq.mp hfits)
    | readHeader =>
      have hlength : data.length = c.headerBuf.length := beq_iff_eq.mp hfits
      simp only [onComplete, onResponseHeader]
      cases hdecode : decodeHeader host data with
      | error e => exact .refused hop hlength hdecode
      | ok hdr =>
        by_cases hempty : hdr.payloadLength = 0
        · simp only [hempty, if_true]
          exact .emptyResponse hop hlength hdecode hempty
        · simp only [hempty, if_false]
          exact .bodyFollows hop hlength hdecode hempty

theorem At.complete_cases {stage : Stage} (h : c.At stage) {completion : Option Bytes}
    (hstep : c.complete host 0 completion = some c') :
    ∃ op, stage = .waiting op ∧ CompleteCase host c completion c' := by
  have hsome : c.outstanding[0]? ≠ none := by
    intro hnone
    simp only [AsyncClient.complete, hnone, reduceCtorEq] at hstep
  have houtstanding := h.outstanding
  cases stage with
  | waiting op => exact ⟨op, rfl, AsyncClient.complete_cases houtstanding hstep⟩
  | constructed | answered | counted | sending | failing | ending | ended =>
    rw [houtstanding] at hsome
    exact absurd rfl hsome

theorem At.complete_index {stage : Stage} (h : c.At stage) {k : ℕ} {completion : Option Bytes}
    (hstep : c.complete host k completion = some c') : k = 0 := by
  by_contra hk
  have hlength : c.outstanding.length ≤ 1 := by
    rw [h.outstanding]
    cases stage <;> simp [Stage.outstanding]
  have hnone : c.outstanding[k]? = none := List.getElem?_eq_none (by omega)
  simp only [AsyncClient.complete, hnone, reduceCtorEq] at hstep

theorem At.of_not_started {stage : Stage} (h : c.At stage) (hnot : ¬ c.started = true) :
    c.At .constructed := by
  have hconstructed : stage = .constructed := by
    have hstarted := h.started
    by_contra hne
    rw [decide_eq_true hne] at hstarted
    exact hnot hstarted
  rwa [hconstructed] at h

structure Quiet (c c' : AsyncClient γ) : Prop where
  outstanding : c'.outstanding = c.outstanding
  headerBuf : c'.headerBuf = c.headerBuf
  bodyBuf : c'.bodyBuf = c.bodyBuf
  respHeader : c'.respHeader = c.respHeader
  failedIn : c'.failedIn = c.failedIn
  sent : c'.sent = c.sent
  responses : c'.responses = c.responses

theorem At.runTask_cases {stage : Stage} (h : c.At stage) {stopFlag : Bool} {us : ℤ} {m : Metrics}
    (hstep : c.runTask host nextRequest stopFlag us = some (c', m)) :
    Quiet c c' ∨ (stage = .sending ∧ stopFlag = false ∧ c' = { c with
      tasks := []
      generator := (nextRequest c.generator).2
      writeBuf := (nextRequest c.generator).1.serialise host
      sent := c.sent ++ [(nextRequest c.generator).1]
      outstanding := [.write] }) := by
  cases stage with
  | constructed | waiting | ended =>
    simp only [AsyncClient.runTask, h.tasks, Stage.tasks, reduceCtorEq] at hstep
  | answered | counted | failing | ending =>
    simp only [AsyncClient.runTask, h.tasks, Stage.tasks, Option.some.injEq, Prod.mk.injEq] at hstep
    rw [← hstep.1]
    exact .inl ⟨rfl, rfl, rfl, rfl, rfl, rfl, rfl⟩
  | sending =>
    simp only [AsyncClient.runTask, h.tasks, Stage.tasks] at hstep
    split_ifs at hstep with hstop
    · simp only [Option.some.injEq, Prod.mk.injEq] at hstep
      rw [← hstep.1]
      exact .inl ⟨rfl, rfl, rfl, rfl, rfl, rfl, rfl⟩
    · simp only [Option.some.injEq, Prod.mk.injEq] at hstep
      rw [← hstep.1]
      refine .inr ⟨rfl, Bool.eq_false_iff.mpr hstop, ?_⟩
      simp only [initiate, h.outstanding, Stage.outstanding, List.nil_append]

/-- Where the client stands after its last complete response: `tail` is what it has read
since. A client that waits for no body has read nothing more, unless it has failed. -/
def ReadPhase (host : HostOrder) (c : AsyncClient γ) (tail : Bytes) : Prop :=
  if c.outstanding = [.readBody] then
    tail = c.headerBuf ∧ decodeHeader host c.headerBuf = .ok c.respHeader ∧
      c.bodyBuf.length = c.respHeader.payloadLength.toNat
  else c.failedIn = none → tail = []

structure ReadsAt (host : HostOrder) (c : AsyncClient γ) (consumed : Bytes)
    (frames : List (Frame UInt8)) (tail : Bytes) : Prop where
  carries : List.Forall₂ (Carries host) frames c.responses
  consumed : consumed = concat frames ++ tail
  headerBuf : c.headerBuf.length = kHeaderSize
  phase : c.ReadPhase host tail

def Reads (host : HostOrder) (c : AsyncClient γ) (consumed : Bytes) : Prop :=
  ∃ frames tail, c.ReadsAt host consumed frames tail

theorem reads_construct (host : HostOrder) (generator : γ) :
    (construct generator).Reads host [] :=
  ⟨[], [], .nil, rfl, rfl, fun _ => rfl⟩

theorem Reads.start {consumed : Bytes} (h : c.Reads host consumed)
    (hconstructed : c.At .constructed) : c.start.Reads host consumed := by
  obtain ⟨frames, tail, hreads⟩ := h
  refine ⟨frames, tail, hreads.carries, hreads.consumed, hreads.headerBuf, ?_⟩
  have hphase := hreads.phase
  have hnone := hconstructed.outstanding
  simp only [ReadPhase, AsyncClient.start, initiate, hnone, Stage.outstanding] at hphase ⊢
  exact hphase

theorem Reads.quiet {consumed : Bytes} (h : c.Reads host consumed) (hquiet : Quiet c c') :
    c'.Reads host consumed := by
  obtain ⟨frames, tail, hreads⟩ := h
  refine ⟨frames, tail, ?_, hreads.consumed, ?_, ?_⟩
  · rw [hquiet.responses]
    exact hreads.carries
  · rw [hquiet.headerBuf]
    exact hreads.headerBuf
  · simp only [ReadPhase, hquiet.outstanding, hquiet.headerBuf, hquiet.bodyBuf, hquiet.respHeader,
      hquiet.failedIn]
    exact hreads.phase

theorem Reads.runTask {stage : Stage} (hstage : c.At stage) {consumed : Bytes}
    (h : c.Reads host consumed) {stopFlag : Bool} {us : ℤ} {m : Metrics}
    (hstep : c.runTask host nextRequest stopFlag us = some (c', m)) : c'.Reads host consumed := by
  obtain hquiet | ⟨rfl, -, rfl⟩ := hstage.runTask_cases hstep
  · exact h.quiet hquiet
  · obtain ⟨frames, tail, hreads⟩ := h
    refine ⟨frames, tail, hreads.carries, hreads.consumed, hreads.headerBuf, ?_⟩
    have hphase := hreads.phase
    simp only [ReadPhase, hstage.outstanding, Stage.outstanding] at hphase ⊢
    exact hphase

theorem ReadsAt.answered {consumed data tail : Bytes} {frames : List (Frame UInt8)}
    {f : Frame UInt8} {response : Message} (h : c.ReadsAt host consumed frames tail)
    (hf : Carries host f response) (hbytes : tail ++ data = f.bytes)
    (hc' : c'.responses = c.responses ++ [response]) (hbuf : c'.headerBuf.length = kHeaderSize)
    (hout : c'.outstanding = []) : c'.Reads host (consumed ++ data) := by
  refine ⟨frames ++ [f], [], ?_, ?_, hbuf, ?_⟩
  · rw [hc']
    exact List.rel_append h.carries (.cons hf .nil)
  · rw [h.consumed, List.append_assoc, hbytes, concat_append, concat_cons, concat_nil]
    simp only [List.append_nil]
  · simp only [ReadPhase, hout]
    exact fun _ => trivial

theorem Reads.complete {stage : Stage} (hstage : c.At stage) {consumed : Bytes}
    (h : c.Reads host consumed) {completion : Option Bytes}
    (hstep : c.complete host 0 completion = some c') :
    c'.Reads host (consumed ++ c.readBy completion) := by
  obtain ⟨op, rfl, hcase⟩ := hstage.complete_cases hstep
  obtain ⟨frames, tail, hreads⟩ := h
  have hphase := hreads.phase
  have hnone : c.failedIn = none := hstage.failedIn
  cases hcase with
  | failed hop =>
    have hread : c.readBy none = [] := by
      simp only [readBy]
      split
      · contradiction
      · contradiction
      · rfl
    rw [hread, List.append_nil]
    refine ⟨frames, tail, hreads.carries, hreads.consumed, hreads.headerBuf, ?_⟩
    simp only [ReadPhase, AsyncClient.failed]
    exact fun hsome => absurd hsome (Option.some_ne_none _)
  | resolved hop | connected hop | written hop =>
    simp only [ReadPhase, hop] at hphase
    have hread : ∀ data, c.readBy (some data) = [] := by
      intro data
      simp only [readBy, hop, List.head?_cons]
    rw [hread, List.append_nil]
    refine ⟨frames, tail, hreads.carries, hreads.consumed, hreads.headerBuf, ?_⟩
    simp only [ReadPhase]
    exact hphase
  | @refused data e hop hlength hdecode =>
    simp only [readBy, hop, List.head?_cons]
    refine ⟨frames, tail ++ data, hreads.carries, ?_, hlength.trans hreads.headerBuf, ?_⟩
    · rw [hreads.consumed, List.append_assoc]
    · simp only [ReadPhase, AsyncClient.failed]
      exact fun hsome => absurd hsome (Option.some_ne_none _)
  | @emptyResponse data hdr hop hlength hdecode hempty =>
    simp only [ReadPhase, hop] at hphase
    obtain rfl : tail = [] := hphase hnone
    have hsize : data.length = kHeaderSize := hlength.trans hreads.headerBuf
    have hcarries : Carries host ⟨data, []⟩ ⟨hdr, []⟩ := ⟨hsize, hdecode, rfl, by simp [hempty]⟩
    simp only [readBy, hop, List.head?_cons]
    refine hreads.answered hcarries ?_ rfl hsize rfl
    simp [Frame.bytes]
  | @bodyFollows data hdr hop hlength hdecode hne =>
    simp only [ReadPhase, hop] at hphase
    obtain rfl : tail = [] := hphase hnone
    simp only [readBy, hop, List.head?_cons]
    refine ⟨frames, data, hreads.carries, ?_, hlength.trans hreads.headerBuf, ?_⟩
    · rw [hreads.consumed, List.append_nil]
    · simp only [ReadPhase, if_true]
      exact ⟨trivial, hdecode, Session.length_resize _ _⟩
  | @response data hop hlength =>
    simp only [ReadPhase, hop, if_true] at hphase
    obtain ⟨rfl, hdecode, hbody⟩ := hphase
    have hcarries : Carries host ⟨c.headerBuf, data⟩ ⟨c.respHeader, data⟩ :=
      ⟨hreads.headerBuf, hdecode, rfl, hlength.trans hbody⟩
    simp only [readBy, hop, List.head?_cons]
    exact hreads.answered hcarries rfl rfl hreads.headerBuf rfl

/-- What one step adds to the requests and the responses. The next request is the one that
the generator gives, and none of those before it is unanswered. -/
inductive Record (nextRequest : γ → Message × γ) (c c' : AsyncClient γ) : Prop
  | silent : c'.sent = c.sent → c'.responses = c.responses → Record nextRequest c c'
  | calls : c'.sent = c.sent ++ [(nextRequest c.generator).1] → c'.responses = c.responses →
      c.sent.length = c.responses.length → Record nextRequest c c'
  | answers (response : Message) : c'.sent = c.sent →
      c'.responses = c.responses ++ [response] → Record nextRequest c c'

theorem Record.sent_prefix (h : Record nextRequest c c') : c.sent <+: c'.sent := by
  cases h with
  | silent hsent | answers _ hsent => rw [hsent]
  | calls hsent =>
    rw [hsent]
    exact List.prefix_append _ _

theorem Record.responses_prefix (h : Record nextRequest c c') : c.responses <+: c'.responses := by
  cases h with
  | silent _ hresponses | calls _ hresponses => rw [hresponses]
  | answers response _ hresponses =>
    rw [hresponses]
    exact List.prefix_append _ _

theorem At.complete_record {stage : Stage} (h : c.At stage) {completion : Option Bytes}
    (hstep : c.complete host 0 completion = some c') : Record nextRequest c c' := by
  obtain ⟨op, -, hcase⟩ := h.complete_cases hstep
  cases hcase with
  | failed | resolved | connected | written | refused | bodyFollows => exact .silent rfl rfl
  | emptyResponse | response => exact .answers _ rfl rfl

theorem At.runTask_record {stage : Stage} (h : c.At stage) {stopFlag : Bool} {us : ℤ} {m : Metrics}
    (hstep : c.runTask host nextRequest stopFlag us = some (c', m)) : Record nextRequest c c' := by
  obtain hquiet | ⟨rfl, -, rfl⟩ := h.runTask_cases hstep
  · exact .silent hquiet.sent hquiet.responses
  · exact .calls rfl rfl (h.sent.trans h.responses.symm)

end AsyncClient

namespace LoadTest

variable {γ : Type*} {s : LoadTest γ} {i : ℕ} {c : AsyncClient γ}

def sentBy (i : ℕ) (s : LoadTest γ) : List Message := (s.clients[i]?).elim [] AsyncClient.sent

def answersTo (i : ℕ) (s : LoadTest γ) : List Message :=
  (s.clients[i]?).elim [] AsyncClient.responses

theorem clients_after (hi : s.clients[i]? = some c) (c' : AsyncClient γ) (m : Metrics) (j : ℕ) :
    (s.after i c' m).clients[j]? = if i = j then some c' else s.clients[j]? := by
  obtain ⟨hlt, -⟩ := List.getElem?_eq_some_iff.mp hi
  simp only [after, List.getElem?_set, hlt, if_true]

theorem client_after (hi : s.clients[i]? = some c) (c' : AsyncClient γ) (m : Metrics) :
    (s.after i c' m).clients[i]? = some c' := by
  rw [clients_after hi, if_pos rfl]

theorem sentBy_eq (hi : s.clients[i]? = some c) : s.sentBy i = c.sent := by
  rw [sentBy, hi]
  rfl

theorem answersTo_eq (hi : s.clients[i]? = some c) : s.answersTo i = c.responses := by
  rw [answersTo, hi]
  rfl

theorem sentBy_after (hi : s.clients[i]? = some c) (c' : AsyncClient γ) (m : Metrics) (j : ℕ) :
    (s.after i c' m).sentBy j = if i = j then c'.sent else s.sentBy j := by
  rw [sentBy, clients_after hi]
  split_ifs <;> rfl

theorem answersTo_after (hi : s.clients[i]? = some c) (c' : AsyncClient γ) (m : Metrics) (j : ℕ) :
    (s.after i c' m).answersTo j = if i = j then c'.responses else s.answersTo j := by
  rw [answersTo, clients_after hi]
  split_ifs <;> rfl

end LoadTest

namespace LoadTest

variable {γ : Type*} {host : HostOrder} {nextRequest : γ → Message × γ} {numClients : UInt32}
  {s s' : LoadTest γ}

def Action.client : Action → Option ℕ
  | start i | complete i _ _ | runTask i _ => some i
  | raiseStop => none

def Action.read (c : AsyncClient γ) : Action → Bytes
  | complete _ _ completion => c.readBy completion
  | start _ | runTask _ _ | raiseStop => []

/-- A step of one client: what it has read and what its records gain. A client that has
finished takes none. -/
structure Moved (host : HostOrder) (nextRequest : γ → Message × γ) (c c' : AsyncClient γ)
    (data : Bytes) : Prop where
  unfinished : c.finished = false
  reads : ∀ consumed, c.Reads host consumed → c'.Reads host (consumed ++ data)
  record : AsyncClient.Record nextRequest c c'

theorem Accounted.step_cases (h : Accounted numClients s) {a : Action}
    (hstep : LoadTest.step host nextRequest a s = some s') :
    (a.client = none ∧ s' = { s with stopFlag := true }) ∨
      ∃ i c c' m, a.client = some i ∧ s.clients[i]? = some c ∧ s' = s.after i c' m ∧
        Moved host nextRequest c c' (a.read c) := by
  cases a with
  | start i =>
    obtain ⟨c, hi, hstart⟩ := Option.bind_eq_some_iff.mp hstep
    obtain ⟨hnot, hs⟩ := Option.ite_none_left_eq_some.mp hstart
    obtain ⟨stage, hstage⟩ := h.stages c (List.mem_of_getElem? hi)
    replace hstage := hstage.of_not_started hnot
    refine .inr ⟨i, c, c.start, {}, rfl, hi, (Option.some.inj hs).symm, hstage.finished, ?_,
      .silent rfl rfl⟩
    intro consumed hreads
    rw [Action.read, List.append_nil]
    exact hreads.start hstage
  | complete i k completion =>
    obtain ⟨c, hi, hcomplete⟩ := Option.bind_eq_some_iff.mp hstep
    obtain ⟨c', hc', rfl⟩ := Option.map_eq_some_iff.mp hcomplete
    obtain ⟨stage, hstage⟩ := h.stages c (List.mem_of_getElem? hi)
    obtain rfl := hstage.complete_index hc'
    obtain ⟨op, rfl, -⟩ := hstage.complete_cases hc'
    exact .inr ⟨i, c, c', {}, rfl, hi, rfl, hstage.finished,
      fun _ hreads => hreads.complete hstage hc', hstage.complete_record hc'⟩
  | runTask i us =>
    obtain ⟨c, hi, hrun⟩ := Option.bind_eq_some_iff.mp hstep
    obtain ⟨r, hr, rfl⟩ := Option.map_eq_some_iff.mp hrun
    obtain ⟨stage, hstage⟩ := h.stages c (List.mem_of_getElem? hi)
    have hunfinished : c.finished = false := by
      rw [hstage.finished]
      cases stage with
      | ended => simp only [AsyncClient.runTask, hstage.tasks, Stage.tasks, reduceCtorEq] at hr
      | constructed | waiting | answered | counted | sending | failing | ending => rfl
    refine .inr ⟨i, c, r.1, r.2, rfl, hi, rfl, hunfinished, ?_, hstage.runTask_record hr⟩
    intro consumed hreads
    rw [Action.read, List.append_nil]
    exact hreads.runTask hstage hr
  | raiseStop => exact .inl ⟨rfl, (Option.some.inj hstep).symm⟩

end LoadTest

end HSFinancialServices.LoadGen
