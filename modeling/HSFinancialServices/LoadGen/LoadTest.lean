import HSFinancialServices.Lib.Transitions
import HSFinancialServices.LoadGen.ClientSession

/-!
# The load generator: all its clients at once

The handlers of different clients run on several threads, so a handler is a list of tasks
here, each atomic, with anything else in between. The metrics and the count of clients in
flight are shared. Everything a client does is also written into a history of its own.
-/

namespace HSFinancialServices.LoadGen
open Transitions

inductive Task
  | recordSuccess
  | storeSample
  /-- `do_send_request`, which begins with the load of the stop flag -/
  | sendRequest
  | recordError
  | finish
  deriving DecidableEq, Repr

structure AsyncClient (γ : Type*) where
  generator : γ
  headerBuf : Bytes
  bodyBuf : Bytes
  writeBuf : Bytes
  respHeader : MessageHeader
  started : Bool
  outstanding : List ClientOp
  tasks : List Task
  finished : Bool
  /-- The stop flag was set when the client looked at it. -/
  sawStop : Bool
  /-- The operation whose completion the client could not go on from. -/
  failedIn : Option ClientOp
  sent : List Message
  responses : List Message
  successes : ℕ
  samples : ℕ
  errors : ℕ
  onDoneCalls : ℕ

structure Metrics where
  successes : ℕ := 0
  samples : List ℤ := []
  errors : ℕ := 0
  onDoneCalls : ℕ := 0

namespace AsyncClient

variable {γ : Type*}

def construct (generator : γ) : AsyncClient γ :=
  { generator := generator
    headerBuf := List.replicate kHeaderSize 0
    bodyBuf := []
    writeBuf := []
    respHeader := {}
    started := false
    outstanding := []
    tasks := []
    finished := false
    sawStop := false
    failedIn := none
    sent := []
    responses := []
    successes := 0
    samples := 0
    errors := 0
    onDoneCalls := 0 }

def initiate (op : ClientOp) (c : AsyncClient γ) : AsyncClient γ :=
  { c with outstanding := c.outstanding ++ [op] }

def start (c : AsyncClient γ) : AsyncClient γ := { c with started := true }.initiate .resolve

def failed (op : ClientOp) (c : AsyncClient γ) : AsyncClient γ :=
  { c with tasks := c.tasks ++ [.recordError, .finish], failedIn := some op }

def answered (response : Message) (c : AsyncClient γ) : AsyncClient γ :=
  { c with
    tasks := c.tasks ++ [.recordSuccess, .storeSample, .sendRequest]
    responses := c.responses ++ [response] }

section Handlers
variable (host : HostOrder) (nextRequest : γ → Message × γ)

def onResponseHeader (data : Bytes) (c : AsyncClient γ) : AsyncClient γ :=
  let c := { c with headerBuf := data }
  match decodeHeader host c.headerBuf with
  | .error _ => c.failed .readHeader
  | .ok hdr =>
    let c := { c with respHeader := hdr }
    if hdr.payloadLength = 0 then c.answered ⟨hdr, []⟩
    else
      let c := { c with bodyBuf := Session.resize c.bodyBuf hdr.payloadLength.toNat }
      c.initiate .readBody

def onResponseBody (data : Bytes) (c : AsyncClient γ) : AsyncClient γ :=
  let c := { c with bodyBuf := data }
  c.answered ⟨c.respHeader, c.bodyBuf⟩

/-- The handler of an operation, up to the tasks that other threads can see. -/
def onComplete (op : ClientOp) (completion : Option Bytes) (c : AsyncClient γ) : AsyncClient γ :=
  match op, completion with
  | op, none => c.failed op
  | .resolve, some _ => c.initiate .connect
  -- `set_option` is taken to succeed
  | .connect, some _ => { c with tasks := c.tasks ++ [.sendRequest] }
  | .write, some _ => c.initiate .readHeader
  | .readHeader, some data => c.onResponseHeader host data
  | .readBody, some data => c.onResponseBody data

def fits (op : ClientOp) (completion : Option Bytes) (c : AsyncClient γ) : Bool :=
  match op, completion with
  | .readHeader, some data => data.length == c.headerBuf.length
  | .readBody, some data => data.length == c.bodyBuf.length
  | _, _ => true

def complete (k : ℕ) (completion : Option Bytes) (c : AsyncClient γ) : Option (AsyncClient γ) :=
  match c.outstanding[k]? with
  | none => none
  | some op =>
    if c.fits op completion then
      some ({ c with outstanding := c.outstanding.eraseIdx k }.onComplete host op completion)
    else none

/-- The next task of the running handler; `us` is the latency that a sample records. -/
def runTask (stopFlag : Bool) (us : ℤ) (c : AsyncClient γ) : Option (AsyncClient γ × Metrics) :=
  match c.tasks with
  | [] => none
  | .recordSuccess :: tasks =>
    some ({ c with tasks := tasks, successes := c.successes + 1 }, { successes := 1 })
  | .storeSample :: tasks =>
    some ({ c with tasks := tasks, samples := c.samples + 1 }, { samples := [us] })
  | .recordError :: tasks =>
    some ({ c with tasks := tasks, errors := c.errors + 1 }, { errors := 1 })
  | .finish :: tasks =>
    some ({ c with tasks := tasks, finished := true, onDoneCalls := c.onDoneCalls + 1 },
      { onDoneCalls := 1 })
  | .sendRequest :: tasks =>
    if stopFlag then some ({ c with tasks := .finish :: tasks, sawStop := true }, {})
    else
      let (req, generator) := nextRequest c.generator
      let c := { c with
        tasks := tasks
        generator := generator
        writeBuf := req.serialise host
        sent := c.sent ++ [req] }
      some (c.initiate .write, {})

end Handlers

end AsyncClient

structure LoadTest (γ : Type*) where
  clients : List (AsyncClient γ)
  stopFlag : Bool
  inFlight : UInt32
  successes : UInt64
  errors : UInt64
  samples : List ℤ

namespace LoadTest

variable {γ : Type*}

def initial (numClients : UInt32) (generator : ℕ → γ) : LoadTest γ :=
  { clients := (List.range numClients.toNat).map fun i => AsyncClient.construct (generator i)
    stopFlag := false
    inFlight := numClients
    successes := 0
    errors := 0
    samples := [] }

inductive Action
  | start (i : ℕ)
  | complete (i k : ℕ) (completion : Option Bytes)
  | runTask (i : ℕ) (us : ℤ)
  | raiseStop
  deriving DecidableEq, Repr

def after (i : ℕ) (c : AsyncClient γ) (m : Metrics) (s : LoadTest γ) : LoadTest γ :=
  { s with
    clients := s.clients.set i c
    inFlight := s.inFlight - UInt32.ofNat m.onDoneCalls
    successes := s.successes + UInt64.ofNat m.successes
    errors := s.errors + UInt64.ofNat m.errors
    samples := s.samples ++ m.samples }

def step (host : HostOrder) (nextRequest : γ → Message × γ) (action : Action) (s : LoadTest γ) :
    Option (LoadTest γ) :=
  match action with
  | .start i =>
    (s.clients[i]?).bind fun c => if c.started then none else some (s.after i c.start {})
  | .complete i k completion =>
    (s.clients[i]?).bind fun c => (c.complete host k completion).map fun c' => s.after i c' {}
  | .runTask i us =>
    (s.clients[i]?).bind fun c =>
      (c.runTask host nextRequest s.stopFlag us).map fun r => s.after i r.1 r.2
  | .raiseStop => some { s with stopFlag := true }

end LoadTest

namespace AsyncClient

variable {γ : Type*} {host : HostOrder} {nextRequest : γ → Message × γ} {c c' : AsyncClient γ}

def session (c : AsyncClient γ) : ClientSession γ :=
  { generator := c.generator
    headerBuf := c.headerBuf
    bodyBuf := c.bodyBuf
    writeBuf := c.writeBuf
    respHeader := c.respHeader
    finished := c.finished
    pending := c.outstanding.head? }

def RunsTasks (host : HostOrder) (nextRequest : γ → Message × γ) (stopFlag : Bool) :
    AsyncClient γ → AsyncClient γ → Prop :=
  Relation.ReflTransGen fun c c' => ∃ us m, c.runTask host nextRequest stopFlag us = some (c', m)

structure Simulates (c c' : AsyncClient γ) (r : ClientSession γ × ClientEffect) : Prop where
  tasks : c'.tasks = []
  session : c'.session = r.1
  responses : c'.responses = c.responses ++ r.2.received
  successes : c'.successes = c.successes + r.2.received.length
  errors : c'.errors = c.errors + r.2.errors
  onDoneCalls : c'.onDoneCalls = c.onDoneCalls + r.2.onDoneCalls

theorem Simulates.of_counts {c₀ : AsyncClient γ} {r : ClientSession γ × ClientEffect}
    (hsim : Simulates c₀ c' r) (hresponses : c.responses = c₀.responses)
    (hsuccesses : c.successes = c₀.successes) (herrors : c.errors = c₀.errors)
    (honDone : c.onDoneCalls = c₀.onDoneCalls) : Simulates c c' r where
  tasks := hsim.tasks
  session := hsim.session
  responses := by rw [hsim.responses, hresponses]
  successes := by rw [hsim.successes, hsuccesses]
  errors := by rw [hsim.errors, herrors]
  onDoneCalls := by rw [hsim.onDoneCalls, honDone]

theorem exists_runsTasks_failed (host : HostOrder) (nextRequest : γ → Message × γ)
    (stopFlag : Bool) (op : ClientOp) (htasks : c.tasks = []) (houtstanding : c.outstanding = []) :
    ∃ c', RunsTasks host nextRequest stopFlag (c.failed op) c' ∧
      Simulates c c' c.session.failed := by
  let c₁ : AsyncClient γ := { c with
    failedIn := some op, tasks := [.finish], errors := c.errors + 1 }
  let c₂ : AsyncClient γ := { c₁ with
    tasks := [], finished := true, onDoneCalls := c.onDoneCalls + 1 }
  have hfirst : (c.failed op).runTask host nextRequest stopFlag 0 = some (c₁, { errors := 1 }) := by
    simp only [runTask, failed, htasks, List.nil_append, c₁]
  have hrun : RunsTasks host nextRequest stopFlag (c.failed op) c₂ :=
    (Relation.ReflTransGen.single ⟨0, _, hfirst⟩).tail ⟨0, _, rfl⟩
  refine ⟨c₂, hrun, rfl, ?_, (List.append_nil _).symm, rfl, rfl, rfl⟩
  simp only [session, ClientSession.failed, houtstanding, c₂, c₁]

theorem exists_runsTasks_send (host : HostOrder) (nextRequest : γ → Message × γ)
    (stopFlag : Bool) (htasks : c.tasks = [.sendRequest]) (houtstanding : c.outstanding = []) :
    ∃ c', RunsTasks host nextRequest stopFlag c c' ∧
      Simulates c c' (c.session.doSendRequest host nextRequest stopFlag) := by
  cases stopFlag with
  | true =>
    let c₁ : AsyncClient γ := { c with tasks := [.finish], sawStop := true }
    let c₂ : AsyncClient γ := { c₁ with
      tasks := [], finished := true, onDoneCalls := c.onDoneCalls + 1 }
    have hfirst : c.runTask host nextRequest true 0 = some (c₁, {}) := by
      simp only [runTask, htasks, if_true, c₁]
    have hrun : RunsTasks host nextRequest true c c₂ :=
      (Relation.ReflTransGen.single ⟨0, _, hfirst⟩).tail ⟨0, _, rfl⟩
    exact ⟨c₂, hrun, rfl, rfl, (List.append_nil _).symm, rfl, rfl, rfl⟩
  | false =>
    let c₁ : AsyncClient γ := { c with
      tasks := []
      generator := (nextRequest c.generator).2
      writeBuf := (nextRequest c.generator).1.serialise host
      sent := c.sent ++ [(nextRequest c.generator).1] }
    have hfirst : c.runTask host nextRequest false 0 = some (c₁.initiate .write, {}) := by
      simp only [runTask, htasks, Bool.false_eq_true, if_false, c₁]
    refine ⟨c₁.initiate .write, Relation.ReflTransGen.single ⟨0, _, hfirst⟩, rfl, ?_,
      (List.append_nil _).symm, rfl, rfl, rfl⟩
    simp only [session, initiate, houtstanding, List.nil_append, List.head?_cons, c₁,
      ClientSession.doSendRequest, Bool.false_eq_true, if_false]

theorem exists_runsTasks_answered (host : HostOrder) (nextRequest : γ → Message × γ)
    (stopFlag : Bool) (response : Message) (htasks : c.tasks = [])
    (houtstanding : c.outstanding = []) :
    ∃ c', RunsTasks host nextRequest stopFlag (c.answered response) c' ∧
      Simulates c c' (c.session.succeeded host nextRequest stopFlag response) := by
  let c₁ : AsyncClient γ := { c with
    responses := c.responses ++ [response], tasks := [.storeSample, .sendRequest]
    successes := c.successes + 1 }
  let c₂ : AsyncClient γ := { c₁ with tasks := [.sendRequest], samples := c.samples + 1 }
  have hfirst : (c.answered response).runTask host nextRequest stopFlag 0 =
      some (c₁, { successes := 1 }) := by
    simp only [runTask, answered, htasks, List.nil_append, c₁]
  have hrun : RunsTasks host nextRequest stopFlag (c.answered response) c₂ :=
    (Relation.ReflTransGen.single ⟨0, _, hfirst⟩).tail ⟨0, _, rfl⟩
  obtain ⟨c', hsend, hsim⟩ :=
    exists_runsTasks_send (c := c₂) host nextRequest stopFlag rfl houtstanding
  have hnone := ClientSession.doSendRequest_received host nextRequest stopFlag c₂.session
  have hresponses := hsim.responses
  have hsuccesses := hsim.successes
  rw [hnone] at hresponses hsuccesses
  refine ⟨c', hrun.trans hsend, hsim.tasks, hsim.session, ?_, ?_, hsim.errors, hsim.onDoneCalls⟩
  · rw [hresponses, List.append_nil]
    simp only [ClientSession.succeeded, ClientSession.doSendRequest_received, c₂, c₁]
  · rw [hsuccesses]
    simp only [ClientSession.succeeded, ClientSession.doSendRequest_received, List.length_cons,
      List.length_nil, c₂, c₁]

/-- A completion whose handler is not interrupted is the one of a client session. -/
theorem exists_runsTasks_complete (nextRequest : γ → Message × γ) (stopFlag : Bool) {op : ClientOp}
    {completion : Option Bytes} (htasks : c.tasks = []) (houtstanding : c.outstanding = [op])
    (hstep : c.complete host 0 completion = some c') :
    ∃ c'', RunsTasks host nextRequest stopFlag c' c'' ∧
      Simulates c c'' (c.session.complete host nextRequest stopFlag completion) := by
  have hpending : c.session.pending = some op := by rw [session, houtstanding, List.head?_cons]
  have hc' : { c with outstanding := [] }.onComplete host op completion = c' := by
    simp only [complete, houtstanding, List.getElem?_cons_zero, List.eraseIdx_zero,
      List.tail_cons] at hstep
    exact Option.some.inj (Option.ite_none_right_eq_some.mp hstep).2
  rw [← hc']
  cases completion with
  | none =>
    obtain ⟨c'', hrun, hsim⟩ := exists_runsTasks_failed (c := { c with outstanding := [] }) host
      nextRequest stopFlag op htasks rfl
    refine ⟨c'', ?_, ?_⟩
    · cases op <;> exact hrun
    · simp only [ClientSession.complete, hpending]
      exact hsim.of_counts rfl rfl rfl rfl
  | some data =>
    cases op with
    | resolve | write =>
      refine ⟨_, .refl, htasks, ?_, ?_, ?_, ?_, ?_⟩
      all_goals simp only [ClientSession.complete, hpending, ClientEffect.nothing, List.append_nil]
      all_goals rfl
    | connect =>
      obtain ⟨c'', hrun, hsim⟩ := exists_runsTasks_send
        (c := { c with outstanding := [], tasks := [.sendRequest] }) host nextRequest stopFlag rfl rfl
      refine ⟨c'', ?_, ?_⟩
      · simp only [onComplete, htasks, List.nil_append]
        exact hrun
      · simp only [ClientSession.complete, hpending]
        exact hsim.of_counts rfl rfl rfl rfl
    | readHeader =>
      simp only [ClientSession.complete, hpending, onComplete, onResponseHeader,
        ClientSession.onResponseHeader]
      cases hdecode : decodeHeader host data with
      | error e =>
        obtain ⟨c'', hrun, hsim⟩ := exists_runsTasks_failed
          (c := { c with outstanding := [], headerBuf := data }) host nextRequest stopFlag .readHeader
          htasks rfl
        exact ⟨c'', hrun, hsim.of_counts rfl rfl rfl rfl⟩
      | ok hdr =>
        by_cases hlen : hdr.payloadLength = 0
        · obtain ⟨c'', hrun, hsim⟩ := exists_runsTasks_answered
            (c := { c with outstanding := [], headerBuf := data, respHeader := hdr }) host
            nextRequest stopFlag ⟨hdr, []⟩ htasks rfl
          simp only [hlen, if_true]
          exact ⟨c'', hrun, hsim.of_counts rfl rfl rfl rfl⟩
        · simp only [hlen, if_false]
          refine ⟨_, .refl, htasks, ?_, ?_, ?_, ?_, ?_⟩
          all_goals simp only [ClientEffect.nothing, List.append_nil]
          all_goals rfl
    | readBody =>
      obtain ⟨c'', hrun, hsim⟩ := exists_runsTasks_answered
        (c := { c with outstanding := [], bodyBuf := data }) host nextRequest stopFlag
        ⟨c.respHeader, data⟩ htasks rfl
      refine ⟨c'', hrun, ?_⟩
      simp only [ClientSession.complete, hpending, ClientSession.onResponseBody]
      exact hsim.of_counts rfl rfl rfl rfl

end AsyncClient

end HSFinancialServices.LoadGen
