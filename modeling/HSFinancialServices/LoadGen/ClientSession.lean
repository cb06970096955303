import HSFinancialServices.SessionRun

/-!
# One simulated client of the load generator

The client writes a request, reads the response header and, unless the response is
empty, its body, and then writes the next request. Which requests it builds and
when it sees the stop flag are inputs of the model.
-/

namespace HSFinancialServices.LoadGen
open Transitions

inductive ClientOp
  | resolve
  | connect
  | write
  | readHeader
  | readBody
  deriving DecidableEq, Repr

structure ClientSession (γ : Type*) where
  generator : γ
  headerBuf : Bytes
  bodyBuf : Bytes
  writeBuf : Bytes
  respHeader : MessageHeader
  finished : Bool
  pending : Option ClientOp

/-- Calls of the metrics collector and of `on_done`, and the responses taken as complete. -/
structure ClientEffect where
  received : List Message
  errors : ℕ
  onDoneCalls : ℕ

def ClientEffect.nothing : ClientEffect := ⟨[], 0, 0⟩

namespace ClientSession

variable {γ : Type*}

def construct (generator : γ) : ClientSession γ :=
  { generator := generator
    headerBuf := List.replicate kHeaderSize 0
    bodyBuf := []
    writeBuf := []
    respHeader := {}
    finished := false
    pending := none }

def doConnect (c : ClientSession γ) : ClientSession γ := { c with pending := some .resolve }

def start (c : ClientSession γ) : ClientSession γ := c.doConnect

def finish (c : ClientSession γ) : ClientSession γ × ClientEffect :=
  ({ c with finished := true }, ⟨[], 0, 1⟩)

def failed (c : ClientSession γ) : ClientSession γ × ClientEffect :=
  ({ c with finished := true }, ⟨[], 1, 1⟩)

def doReadResponseHeader (c : ClientSession γ) : ClientSession γ :=
  { c with pending := some .readHeader }

section Handlers
variable (host : HostOrder) (nextRequest : γ → Message × γ)

def doSendRequest (stopFlag : Bool) (c : ClientSession γ) : ClientSession γ × ClientEffect :=
  if stopFlag then c.finish
  else
    let (req, generator) := nextRequest c.generator
    ({ c with
        generator := generator
        writeBuf := req.serialise host
        pending := some .write }, .nothing)

def succeeded (stopFlag : Bool) (response : Message) (c : ClientSession γ) :
    ClientSession γ × ClientEffect :=
  let r := c.doSendRequest host nextRequest stopFlag
  (r.1, { r.2 with received := response :: r.2.received })

def onResponseHeader (stopFlag : Bool) (data : Bytes) (c : ClientSession γ) :
    ClientSession γ × ClientEffect :=
  let c := { c with headerBuf := data }
  match decodeHeader host c.headerBuf with
  | .error _ => c.failed
  | .ok hdr =>
    let c := { c with respHeader := hdr }
    if hdr.payloadLength = 0 then c.succeeded host nextRequest stopFlag ⟨hdr, []⟩
    else
      ({ c with
          bodyBuf := Session.resize c.bodyBuf hdr.payloadLength.toNat
          pending := some .readBody }, .nothing)

def onResponseBody (stopFlag : Bool) (data : Bytes) (c : ClientSession γ) :
    ClientSession γ × ClientEffect :=
  let c := { c with bodyBuf := data }
  c.succeeded host nextRequest stopFlag ⟨c.respHeader, c.bodyBuf⟩

/-- The pending operation completes, with an error (`none`) or with the bytes read. -/
def complete (stopFlag : Bool) (completion : Option Bytes) (c : ClientSession γ) :
    ClientSession γ × ClientEffect :=
  let waiting := { c with pending := none }
  match c.pending, completion with
  | none, _ => (c, .nothing)
  | some _, none => waiting.failed
  | some .resolve, some _ => ({ waiting with pending := some .connect }, .nothing)
  | some .connect, some _ => waiting.doSendRequest host nextRequest stopFlag
  | some .write, some _ => (waiting.doReadResponseHeader, .nothing)
  | some .readHeader, some data => waiting.onResponseHeader host nextRequest stopFlag data
  | some .readBody, some data => waiting.onResponseBody host nextRequest stopFlag data

end Handlers

end ClientSession

structure ClientLine (γ : Type*) where
  client : ClientSession γ
  arrived : Bytes
  readPos : ℕ
  written : Bytes
  received : List Message
  errors : ℕ
  onDoneCalls : ℕ

namespace ClientLine

variable {γ : Type*}

def unread (l : ClientLine γ) : Bytes := l.arrived.drop l.readPos

def after (l : ClientLine γ) (r : ClientSession γ × ClientEffect) : ClientLine γ :=
  { l with
    client := r.1
    received := l.received ++ r.2.received
    errors := l.errors + r.2.errors
    onDoneCalls := l.onDoneCalls + r.2.onDoneCalls }

/-- One completion without an I/O error before the end of the server's stream. The stop
flag is the one the handler would see. -/
def io (host : HostOrder) (nextRequest : γ → Message × γ) (stopFlag : γ → Bool)
    (l : ClientLine γ) : Option (ClientLine γ) :=
  let stop := stopFlag l.client.generator
  let read (n : ℕ) : ClientLine γ :=
    if n ≤ l.unread.length then
      { l.after (l.client.complete host nextRequest stop (some (l.unread.take n))) with
        readPos := l.readPos + n }
    else l.after (l.client.complete host nextRequest stop none)
  match l.client.pending with
  | none => none
  | some .resolve | some .connect =>
    some (l.after (l.client.complete host nextRequest stop (some [])))
  | some .write =>
    some { l.after (l.client.complete host nextRequest stop (some [])) with
      written := l.written ++ l.client.writeBuf }
  | some .readHeader => some (read l.client.headerBuf.length)
  | some .readBody => some (read l.client.bodyBuf.length)

def start (generator : γ) (stream : Bytes) : ClientLine γ :=
  { client := (ClientSession.construct generator).start
    arrived := stream
    readPos := 0
    written := []
    received := []
    errors := 0
    onDoneCalls := 0 }

end ClientLine

/-- Requests that were decided beforehand; the stop flag is raised after the last one. -/
def popRequest : List Message → Message × List Message
  | [] => (Message.make MessageType.kPing [] 0, [])
  | r :: rs => (r, rs)

def ClientLine.run (host : HostOrder) (l : ClientLine (List Message)) :
    Option (ClientLine (List Message)) :=
  l.io host popRequest List.isEmpty

structure ClientLine.Ready (host : HostOrder) (l : ClientLine (List Message))
    (reqs : List Message) : Prop where
  headerBuf : l.client.headerBuf.length = kHeaderSize
  errors : l.errors = 0
  next : match reqs with
    | [] => l.client.pending = none ∧ l.client.finished = true ∧ l.onDoneCalls = 1
    | r :: rs => l.client.pending = some .write ∧ l.client.writeBuf = r.serialise host ∧
        l.client.generator = rs ∧ l.onDoneCalls = 0

variable {host : HostOrder}

@[simp] theorem ClientSession.doSendRequest_received {γ : Type*} (host : HostOrder)
    (nextRequest : γ → Message × γ) (stopFlag : Bool) (c : ClientSession γ) :
    (c.doSendRequest host nextRequest stopFlag).2.received = [] := by
  simp only [doSendRequest]
  split_ifs
  · rfl
  · rfl

theorem ClientLine.ready_send (host : HostOrder) {l : ClientLine (List Message)}
    {c : ClientSession (List Message)}
    (hpending : c.pending = none) (hbuf : c.headerBuf.length = kHeaderSize)
    (herrors : l.errors = 0) (hcalls : l.onDoneCalls = 0) :
    (l.after (c.doSendRequest host popRequest c.generator.isEmpty)).Ready host c.generator := by
  cases hreqs : c.generator with
  | nil =>
    simp only [ClientSession.doSendRequest, List.isEmpty_nil, if_true, ClientSession.finish]
    exact ⟨hbuf, herrors, hpending, rfl, by simp [after, hcalls]⟩
  | cons r rs =>
    simp only [ClientSession.doSendRequest, List.isEmpty_cons, hreqs, popRequest,
      Bool.false_eq_true, if_false]
    exact ⟨hbuf, herrors, rfl, rfl, rfl, hcalls⟩

namespace ClientLine

theorem run_write {l : ClientLine (List Message)} (h : l.client.pending = some .write) :
    l.run host = some { l with
      client := l.client.doReadResponseHeader, written := l.written ++ l.client.writeBuf } := by
  simp [run, io, h, ClientSession.complete, ClientSession.doReadResponseHeader, after,
    ClientEffect.nothing]

theorem run_header_empty {l : ClientLine (List Message)} {header rest : Bytes} {hdr : MessageHeader}
    (h : l.client.pending = some .readHeader) (hbuf : l.client.headerBuf.length = kHeaderSize)
    (hunread : l.unread = header ++ rest) (hsize : header.length = kHeaderSize)
    (hdecode : decodeHeader host header = .ok hdr) (hlen : hdr.payloadLength = 0) :
    l.run host = some
      { l.after (ClientSession.succeeded host popRequest l.client.generator.isEmpty ⟨hdr, []⟩
          { l.client with headerBuf := header, respHeader := hdr, pending := none }) with
        readPos := l.readPos + kHeaderSize } := by
  have hle : kHeaderSize ≤ l.unread.length := by simp [hunread, hsize]
  have htake : l.unread.take kHeaderSize = header := by rw [hunread, ← hsize, List.take_left]
  simp only [run, io, h, hbuf, hle, if_true, htake, ClientSession.complete,
    ClientSession.onResponseHeader, hdecode, hlen]

theorem run_header_body {l : ClientLine (List Message)} {header rest : Bytes} {hdr : MessageHeader}
    (h : l.client.pending = some .readHeader) (hbuf : l.client.headerBuf.length = kHeaderSize)
    (hunread : l.unread = header ++ rest) (hsize : header.length = kHeaderSize)
    (hdecode : decodeHeader host header = .ok hdr) (hlen : hdr.payloadLength ≠ 0) :
    l.run host = some { l with
      client := { l.client with
        headerBuf := header
        respHeader := hdr
        bodyBuf := Session.resize l.client.bodyBuf hdr.payloadLength.toNat
        pending := some .readBody }
      readPos := l.readPos + kHeaderSize } := by
  have hle : kHeaderSize ≤ l.unread.length := by simp [hunread, hsize]
  have htake : l.unread.take kHeaderSize = header := by rw [hunread, ← hsize, List.take_left]
  simp [run, io, h, hbuf, hle, htake, ClientSession.complete, ClientSession.onResponseHeader,
    hdecode, hlen, after, ClientEffect.nothing]

theorem run_body (host : HostOrder) {l : ClientLine (List Message)} {body rest : Bytes}
    (h : l.client.pending = some .readBody) (hbuf : l.client.bodyBuf.length = body.length)
    (hunread : l.unread = body ++ rest) :
    l.run host = some
      { l.after (ClientSession.succeeded host popRequest l.client.generator.isEmpty
          ⟨l.client.respHeader, body⟩ { l.client with bodyBuf := body, pending := none }) with
        readPos := l.readPos + body.length } := by
  have hle : body.length ≤ l.unread.length := by simp [hunread]
  have htake : l.unread.take body.length = body := by rw [hunread, List.take_left]
  simp only [run, io, h, hbuf, hle, if_true, htake, ClientSession.complete,
    ClientSession.onResponseBody]

theorem unread_add {l l' : ClientLine (List Message)} {read rest : Bytes}
    (hunread : l.unread = read ++ rest) (harrived : l'.arrived = l.arrived)
    (hpos : l'.readPos = l.readPos + read.length) : l'.unread = rest := by
  rw [unread, harrived, hpos, ← List.drop_drop]
  exact (congrArg (List.drop read.length) hunread).trans List.drop_left

theorem ready_succeeded (host : HostOrder) {l : ClientLine (List Message)}
    {c : ClientSession (List Message)}
    {n : ℕ} (response : Message) (hpending : c.pending = none)
    (hbuf : c.headerBuf.length = kHeaderSize) (herrors : l.errors = 0)
    (hcalls : l.onDoneCalls = 0) :
    let l' := { l.after (c.succeeded host popRequest c.generator.isEmpty response) with
      readPos := l.readPos + n }
    l'.Ready host c.generator ∧ l'.received = l.received ++ [response] := by
  obtain ⟨h₁, h₂, h₃⟩ := ready_send host hpending hbuf herrors hcalls
  refine ⟨⟨h₁, h₂, h₃⟩, ?_⟩
  simp [after, ClientSession.succeeded]

theorem Ready.exchange {l : ClientLine (List Message)} {req resp : Message} {reqs : List Message}
    {rest : Bytes} (h : l.Ready host (req :: reqs)) (hresp : resp.Sized)
    (hunread : l.unread = resp.serialise host ++ rest) :
    ∃ l', StateTransition.Reaches (run host) l l' ∧ l'.Ready host reqs ∧ l'.unread = rest ∧
      l'.received = l.received ++ [resp] ∧ l'.written = l.written ++ req.serialise host := by
  obtain ⟨hpending, hwrite, rfl, hcalls⟩ := h.next
  have hcarries := hresp.carries host
  let l₁ : ClientLine (List Message) := { l with
    client := l.client.doReadResponseHeader, written := l.written ++ req.serialise host }
  have hstep₁ : l.run host = some l₁ := by rw [run_write hpending, hwrite]
  have hreach₁ : StateTransition.Reaches (run host) l l₁ := Relation.ReflTransGen.single hstep₁
  have hunread₁ : l₁.unread = encodeHeader host resp.header ++ (resp.payload ++ rest) := by
    rw [← List.append_assoc]
    exact hunread
  by_cases hlen : resp.header.payloadLength = 0
  · have hpayload : resp.payload = [] := List.length_eq_zero_iff.mp (by simp [hresp.length, hlen])
    obtain ⟨hready, hreceived⟩ := ready_succeeded host (l := l₁) (n := kHeaderSize)
      (c := { l₁.client with
        headerBuf := encodeHeader host resp.header, respHeader := resp.header, pending := none })
      ⟨resp.header, []⟩ rfl (encodeHeader_length host _) h.errors hcalls
    have hstep₂ := run_header_empty (l := l₁) rfl h.headerBuf hunread₁
      (encodeHeader_length host _) hcarries.header hlen
    refine ⟨_, hreach₁.tail hstep₂, hready, ?_, ?_, rfl⟩
    · rw [hpayload, List.nil_append] at hunread₁
      exact unread_add hunread₁ rfl rfl
    · have hempty : (⟨resp.header, []⟩ : Message) = resp := by rw [← hpayload]
      exact hreceived.trans (congrArg (fun m => l.received ++ [m]) hempty)
  · let l₂ : ClientLine (List Message) := { l₁ with
      client := { l₁.client with
        headerBuf := encodeHeader host resp.header
        respHeader := resp.header
        bodyBuf := Session.resize l₁.client.bodyBuf resp.header.payloadLength.toNat
        pending := some .readBody }
      readPos := l₁.readPos + kHeaderSize }
    have hstep₂ : l₁.run host = some l₂ := run_header_body rfl h.headerBuf hunread₁
      (encodeHeader_length host _) hcarries.header hlen
    have hreach₂ : StateTransition.Reaches (run host) l l₂ := hreach₁.tail hstep₂
    have hunread₂ : l₂.unread = resp.payload ++ rest := unread_add hunread₁ rfl rfl
    obtain ⟨hready, hreceived⟩ := ready_succeeded host (l := l₂)
      (n := resp.payload.length) (c := { l₂.client with bodyBuf := resp.payload, pending := none })
      resp rfl (encodeHeader_length host _) h.errors hcalls
    have hstep₃ := run_body host (l := l₂) rfl
      ((Session.length_resize _ _).trans hresp.length.symm) hunread₂
    exact ⟨_, hreach₂.tail hstep₃, hready, unread_add hunread₂ rfl rfl, hreceived, rfl⟩

theorem Ready.exchanges {l : ClientLine (List Message)} {log : List Exchange} {rest : Bytes}
    (h : l.Ready host (log.map Exchange.request)) (hresp : ∀ e ∈ log, e.response.Sized)
    (hunread : l.unread = replies host log ++ rest) :
    ∃ l', StateTransition.Reaches (run host) l l' ∧ l'.Ready host [] ∧
      l'.received = l.received ++ log.map Exchange.response ∧
      l'.written = l.written ++ serialiseAll host (log.map Exchange.request) := by
  induction log generalizing l with
  | nil => exact ⟨l, .refl, h, by simp, by simp [serialiseAll]⟩
  | cons e log ih =>
    have hunread' : l.unread = e.response.serialise host ++ (replies host log ++ rest) := by
      rw [hunread, ← List.append_assoc]
      rfl
    obtain ⟨l₁, hreach, hready, hrest, hreceived, hwritten⟩ :=
      h.exchange (hresp e (by simp)) hunread'
    obtain ⟨l₂, hreach', hready', hreceived', hwritten'⟩ :=
      ih hready (List.forall_mem_of_forall_mem_cons hresp) hrest
    refine ⟨l₂, hreach.trans hreach', hready', ?_, ?_⟩
    · rw [hreceived', hreceived, List.append_assoc]
      rfl
    · rw [hwritten', hwritten, List.append_assoc]
      rfl

theorem ready_start (host : HostOrder) (reqs : List Message) (stream : Bytes) :
    ∃ l, StateTransition.Reaches (run host) (start reqs stream) l ∧ l.Ready host reqs ∧
      l.unread = stream ∧ l.received = [] ∧ l.written = [] := by
  let l₀ : ClientLine (List Message) := start reqs stream
  let l₁ : ClientLine (List Message) := { l₀ with
    client := { l₀.client with pending := some .connect } }
  have hreach₁ : StateTransition.Reaches (run host) l₀ l₁ := Relation.ReflTransGen.single rfl
  let c : ClientSession (List Message) := { l₁.client with pending := none }
  have hready := ready_send host (l := l₁) (c := c) rfl rfl rfl rfl
  refine ⟨_, hreach₁.tail rfl, hready, rfl, ?_, ?_⟩
  · exact ClientSession.doSendRequest_received host _ _ c
  · rfl

end ClientLine

/-- A client that sends a list of requests and hears one sized response to each recovers
exactly these responses, without an error. -/
theorem client_recovers (host : HostOrder) {log : List Exchange}
    (hresp : ∀ e ∈ log, e.response.Sized) :
    ∃ final ∈ StateTransition.eval (ClientLine.run host)
        (ClientLine.start (log.map Exchange.request) (replies host log)),
      final.received = log.map Exchange.response ∧
        final.written = serialiseAll host (log.map Exchange.request) ∧ final.errors = 0 ∧
        final.client.finished = true ∧ final.onDoneCalls = 1 := by
  obtain ⟨l, hreach, hready, hunread, hreceived, hwritten⟩ :=
    ClientLine.ready_start host (log.map Exchange.request) (replies host log)
  obtain ⟨final, hreach', hready', hreceived', hwritten'⟩ :=
    hready.exchanges hresp (hunread.trans (List.append_nil _).symm)
  obtain ⟨hpending, hfinished, hcalls⟩ := hready'.next
  have hstop : final.run host = none := by
    simp only [ClientLine.run, ClientLine.io, hpending]
  refine ⟨final, StateTransition.mem_eval.mpr ⟨hreach.trans hreach', hstop⟩, ?_, ?_,
    hready'.errors, hfinished, hcalls⟩
  · rw [hreceived', hreceived, List.nil_append]
  · rw [hwritten', hwritten, List.nil_append]

end HSFinancialServices.LoadGen
