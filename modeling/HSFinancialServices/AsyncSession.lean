import HSFinancialServices.Lib.Transitions
import HSFinancialServices.Session

/-!
# The asynchronous operations of a session

Here a handler does not say which operation it waits for: it initiates operations, and
whatever has been initiated is outstanding until its completion. That there is never more
than one of them, that its buffer is left alone and that the close callback is called once
is what has to be proved. A session that only remembers its last operation simulates it.
-/

namespace HSFinancialServices
open Transitions

variable {σ : Type*}

/-- An initiated operation, with what its buffer held at that moment. -/
structure Operation where
  kind : PendingOp
  snapshot : Bytes
  deriving DecidableEq, Repr

structure AsyncSession (σ : Type*) where
  sessionId : UInt64
  headerBuf : Bytes
  bodyBuf : Bytes
  writeBuf : Bytes
  currentHeader : MessageHeader
  closed : Bool
  started : Bool
  outstanding : List Operation
  /-- The handlers that `stop` has posted and that have not run yet. -/
  postedCloses : ℕ
  destroyed : Bool
  onCloseCalls : ℕ
  store : σ
  dispatched : List Exchange

namespace AsyncSession

def construct (sessionId : UInt64) (store : σ) : AsyncSession σ :=
  { sessionId := sessionId
    headerBuf := List.replicate kHeaderSize 0
    bodyBuf := []
    writeBuf := []
    currentHeader := {}
    closed := false
    started := false
    outstanding := []
    postedCloses := 0
    destroyed := false
    onCloseCalls := 0
    store := store
    dispatched := [] }

def buffer (s : AsyncSession σ) : PendingOp → Bytes
  | .readHeader => s.headerBuf
  | .readBody => s.bodyBuf
  | .write => s.writeBuf

def initiate (kind : PendingOp) (s : AsyncSession σ) : AsyncSession σ :=
  { s with outstanding := s.outstanding ++ [⟨kind, s.buffer kind⟩] }

def doReadHeader (s : AsyncSession σ) : AsyncSession σ := s.initiate .readHeader

def close (s : AsyncSession σ) : AsyncSession σ :=
  if s.closed then s else { s with closed := true, onCloseCalls := s.onCloseCalls + 1 }

section Handlers
variable (host : HostOrder) (router : ServiceRouter σ)

def doWrite (response : Message) (s : AsyncSession σ) : AsyncSession σ :=
  let s := { s with writeBuf := response.serialise host }
  s.initiate .write

def dispatchAndWrite (s : AsyncSession σ) : AsyncSession σ :=
  let req : Message := ⟨s.currentHeader, s.bodyBuf⟩
  let (resp, store) := router.dispatch req s.store
  let s := { s with store := store, dispatched := s.dispatched ++ [Exchange.mk req resp] }
  s.doWrite host resp

def doReadBody (s : AsyncSession σ) : AsyncSession σ :=
  if s.currentHeader.payloadLength = 0 then s.dispatchAndWrite host router
  else s.initiate .readBody

def onHeaderRead (error : Bool) (s : AsyncSession σ) : AsyncSession σ :=
  if error then s.close
  else
    match decodeHeader host s.headerBuf with
    | .error _ => s.close
    | .ok hdr =>
      let s := { s with currentHeader := hdr }
      if hdr.payloadLength = 0 then { s with bodyBuf := [] }.doReadBody host router
      else
        { s with bodyBuf := Session.resize s.bodyBuf hdr.payloadLength.toNat }.doReadBody host router

def onBodyRead (error : Bool) (s : AsyncSession σ) : AsyncSession σ :=
  if error then s.close else s.dispatchAndWrite host router

def onWritten (error : Bool) (s : AsyncSession σ) : AsyncSession σ :=
  if error then s.close else s.doReadHeader

/-- A read puts what it got at the front of its buffer, all of it unless it failed. -/
def deliver (kind : PendingOp) (data : Bytes) (s : AsyncSession σ) : AsyncSession σ :=
  match kind with
  | .readHeader => { s with headerBuf := data ++ s.headerBuf.drop data.length }
  | .readBody => { s with bodyBuf := data ++ s.bodyBuf.drop data.length }
  | .write => s

def handler (kind : PendingOp) (error : Bool) (s : AsyncSession σ) : AsyncSession σ :=
  match kind with
  | .readHeader => s.onHeaderRead host router error
  | .readBody => s.onBodyRead host router error
  | .write => s.onWritten error

inductive Action
  | start
  | complete (i : ℕ) (error : Bool) (data : Bytes)
  | stop
  | runPosted
  | destroy
  deriving DecidableEq, Repr

/-- What can happen to a session that exists. The server starts it once; handlers hold it, so
it is destroyed when none is left to run. -/
def act (action : Action) (s : AsyncSession σ) : Option (AsyncSession σ) :=
  match action with
  | .start => if s.started then none else some { s with started := true }.doReadHeader
  | .complete i error data =>
    match s.outstanding[i]? with
    | none => none
    | some op =>
      if data.length ≤ op.snapshot.length ∧ (error = false → data.length = op.snapshot.length) then
        some (({ s with outstanding := s.outstanding.eraseIdx i }.deliver op.kind data).handler host
          router op.kind error)
      else none
  | .stop => some { s with postedCloses := s.postedCloses + 1 }
  | .runPosted =>
    match s.postedCloses with
    | 0 => none
    | n + 1 => some { s with postedCloses := n }.close
  | .destroy =>
    if s.outstanding = [] ∧ s.postedCloses = 0 then some { s.close with destroyed := true }
    else none

def step (action : Action) (s : AsyncSession σ) : Option (AsyncSession σ) :=
  if s.destroyed then none else s.act host router action

end Handlers

structure Disciplined (s : AsyncSession σ) : Prop where
  one : s.started = true → s.closed = false → s.outstanding.length = 1
  atMostOne : s.outstanding.length ≤ 1
  notStarted : s.started = false → s.outstanding = []
  buffers : ∀ op ∈ s.outstanding, s.buffer op.kind = op.snapshot
  body : ∀ op ∈ s.outstanding, op.kind = .readBody →
    s.bodyBuf.length = s.currentHeader.payloadLength.toNat ∧
      s.currentHeader.payloadLength ≤ kMaxPayloadSize
  bodyBuf : s.bodyBuf.length ≤ kMaxPayloadSize.toNat
  onClose : s.onCloseCalls = if s.closed then 1 else 0
  destroyed : s.destroyed = true → s.closed = true ∧ s.outstanding = []

structure Running (s : AsyncSession σ) : Prop where
  started : s.started = true
  outstanding : s.outstanding = []
  bodyBuf : s.bodyBuf.length ≤ kMaxPayloadSize.toNat
  onClose : s.onCloseCalls = if s.closed then 1 else 0
  alive : s.destroyed = false

section Discipline
variable {host : HostOrder} {router : ServiceRouter σ} {s s' : AsyncSession σ}

theorem construct_disciplined (sessionId : UInt64) (store : σ) :
    (construct sessionId store).Disciplined where
  one := nofun
  atMostOne := Nat.zero_le _
  notStarted := fun _ => rfl
  buffers := nofun
  body := nofun
  bodyBuf := Nat.zero_le _
  onClose := rfl
  destroyed := nofun

theorem Running.initiate (h : s.Running) {kind : PendingOp}
    (hbody : kind = .readBody → s.bodyBuf.length = s.currentHeader.payloadLength.toNat ∧
      s.currentHeader.payloadLength ≤ kMaxPayloadSize) : (s.initiate kind).Disciplined := by
  have houtstanding : (s.initiate kind).outstanding = [⟨kind, s.buffer kind⟩] := by
    simp only [AsyncSession.initiate, h.outstanding, List.nil_append]
  refine ⟨?_, ?_, ?_, ?_, ?_, h.bodyBuf, h.onClose, ?_⟩
  · intro _ _
    rw [houtstanding, List.length_singleton]
  · rw [houtstanding, List.length_singleton]
  · intro hstarted
    exact absurd (h.started.symm.trans hstarted) (by decide)
  · intro op hop
    rw [houtstanding, List.mem_singleton] at hop
    rw [hop]
    cases kind <;> rfl
  · intro op hop hkind
    rw [houtstanding, List.mem_singleton] at hop
    rw [hop] at hkind
    exact hbody hkind
  · intro hdestroyed
    exact absurd (h.alive.symm.trans hdestroyed) (by decide)

theorem close_closed (s : AsyncSession σ) : s.close.closed = true := by
  by_cases h : s.closed = true
  · rw [close, if_pos h, h]
  · rw [close, if_neg h]

theorem close_onCloseCalls (h : s.onCloseCalls = if s.closed then 1 else 0) :
    s.close.onCloseCalls = 1 := by
  by_cases hclosed : s.closed = true
  · rw [close, if_pos hclosed, h, if_pos hclosed]
  · rw [close, if_neg hclosed]
    simp only [h, hclosed, if_false, Bool.false_eq_true]

theorem close_keeps (s : AsyncSession σ) : s.close = { s with
    closed := true, onCloseCalls := s.close.onCloseCalls } := by
  by_cases h : s.closed = true
  · rw [close, if_pos h, ← h]
  · simp only [close, if_neg h]

theorem Disciplined.close (h : s.Disciplined) : s.close.Disciplined := by
  have hcalls := close_onCloseCalls h.onClose
  rw [close_keeps]
  refine ⟨?_, h.atMostOne, h.notStarted, h.buffers, h.body, h.bodyBuf, hcalls, ?_⟩
  · intro _ hopen
    cases hopen
  · intro hdestroyed
    exact ⟨rfl, (h.destroyed hdestroyed).2⟩

theorem Running.close (h : s.Running) : s.close.Disciplined := by
  have hcalls := close_onCloseCalls h.onClose
  rw [close_keeps]
  refine ⟨?_, ?_, fun _ => h.outstanding, ?_, ?_, h.bodyBuf, hcalls, fun _ => ⟨rfl, h.outstanding⟩⟩
  · intro _ hopen
    cases hopen
  · simp only [h.outstanding, List.length_nil, Nat.zero_le]
  · simp only [h.outstanding, List.not_mem_nil, false_imp_iff, implies_true]
  · simp only [h.outstanding, List.not_mem_nil, false_imp_iff, implies_true]

theorem Running.initiate_write (h : s.Running) : (s.initiate .write).Disciplined :=
  h.initiate nofun

theorem Running.initiate_readHeader (h : s.Running) : (s.initiate .readHeader).Disciplined :=
  h.initiate nofun

theorem Running.dispatchAndWrite (h : s.Running) (host : HostOrder) (router : ServiceRouter σ) :
    (s.dispatchAndWrite host router).Disciplined := by
  have hbefore : Running { s with
      store := (router.dispatch ⟨s.currentHeader, s.bodyBuf⟩ s.store).2
      dispatched := s.dispatched ++ [⟨⟨s.currentHeader, s.bodyBuf⟩,
        (router.dispatch ⟨s.currentHeader, s.bodyBuf⟩ s.store).1⟩]
      writeBuf := (router.dispatch ⟨s.currentHeader, s.bodyBuf⟩ s.store).1.serialise host } :=
    ⟨h.started, h.outstanding, h.bodyBuf, h.onClose, h.alive⟩
  exact hbefore.initiate_write

theorem Running.onHeaderRead (h : s.Running) (error : Bool) :
    (s.onHeaderRead host router error).Disciplined := by
  simp only [AsyncSession.onHeaderRead]
  split_ifs
  · exact h.close
  split
  · exact h.close
  · rename_i hdr hdecode
    have hle := payloadLength_le hdecode
    by_cases hlen : hdr.payloadLength = 0
    · have hempty : Running { s with currentHeader := hdr, bodyBuf := [] } :=
        ⟨h.started, h.outstanding, Nat.zero_le _, h.onClose, h.alive⟩
      simp only [hlen, if_true, doReadBody]
      exact hempty.dispatchAndWrite host router
    · have hsized : Running { s with
          currentHeader := hdr, bodyBuf := Session.resize s.bodyBuf hdr.payloadLength.toNat } := by
        refine ⟨h.started, h.outstanding, ?_, h.onClose, h.alive⟩
        rw [Session.length_resize]
        exact UInt32.le_iff_toNat_le.mp hle
      simp only [hlen, if_false, doReadBody]
      exact hsized.initiate fun _ => ⟨Session.length_resize _ _, hle⟩

theorem Running.handler (h : s.Running) (kind : PendingOp) (error : Bool) :
    (s.handler host router kind error).Disciplined := by
  cases kind with
  | readHeader => exact h.onHeaderRead error
  | readBody =>
    simp only [AsyncSession.handler, onBodyRead]
    split_ifs
    · exact h.close
    · exact h.dispatchAndWrite host router
  | write =>
    simp only [AsyncSession.handler, onWritten]
    split_ifs
    · exact h.close
    · exact h.initiate nofun

theorem Disciplined.outstanding_eq (h : s.Disciplined) {op : Operation} {i : ℕ}
    (hop : s.outstanding[i]? = some op) : s.outstanding = [op] := by
  have hmem : op ∈ s.outstanding := List.mem_of_getElem? hop
  have hpos := List.length_pos_of_mem hmem
  have hle := h.atMostOne
  obtain ⟨x, hx⟩ := List.length_eq_one_iff.mp (by omega : s.outstanding.length = 1)
  rw [hx, List.mem_singleton] at hmem
  rw [hx, hmem]

theorem Disciplined.eraseIdx_eq_nil (h : s.Disciplined) {op : Operation} {i : ℕ}
    (hop : s.outstanding[i]? = some op) : s.outstanding.eraseIdx i = [] := by
  obtain ⟨hlt, -⟩ := List.getElem?_eq_some_iff.mp hop
  rw [h.outstanding_eq hop, List.length_singleton] at hlt
  rw [h.outstanding_eq hop, Nat.lt_one_iff.mp hlt, List.eraseIdx_zero, List.tail_cons]

theorem Disciplined.deliver (h : s.Disciplined) {op : Operation} {data : Bytes} {i : ℕ}
    (hop : s.outstanding[i]? = some op) (hdata : data.length ≤ op.snapshot.length) :
    ({ s with outstanding := s.outstanding.eraseIdx i }.deliver op.kind data).Running := by
  have hmem : op ∈ s.outstanding := List.mem_of_getElem? hop
  have hnil := h.eraseIdx_eq_nil hop
  have hstarted : s.started = true := by
    by_contra hnot
    rw [h.notStarted (by simpa using hnot)] at hmem
    cases hmem
  have halive : s.destroyed = false := by
    by_contra hnot
    rw [(h.destroyed (by simpa using hnot)).2] at hmem
    cases hmem
  have hbuffer := h.buffers op hmem
  cases hkind : op.kind with
  | readHeader => exact ⟨hstarted, hnil, h.bodyBuf, h.onClose, halive⟩
  | write => exact ⟨hstarted, hnil, h.bodyBuf, h.onClose, halive⟩
  | readBody =>
    refine ⟨hstarted, hnil, ?_, h.onClose, halive⟩
    rw [hkind] at hbuffer
    have hsize := congrArg List.length hbuffer
    have hbody := h.bodyBuf
    simp only [AsyncSession.buffer] at hsize
    simp only [AsyncSession.deliver, List.length_append, List.length_drop]
    omega

theorem Disciplined.act (h : s.Disciplined) (halive : s.destroyed = false) {a : Action}
    (hstep : s.act host router a = some s') : s'.Disciplined := by
  cases a with
  | start =>
    obtain ⟨hstarted, hs⟩ := Option.ite_none_left_eq_some.mp hstep
    rw [Option.some.injEq] at hs
    have hrunning : Running { s with started := true } :=
      ⟨rfl, h.notStarted (by simpa using hstarted), h.bodyBuf, h.onClose, halive⟩
    rw [← hs]
    exact hrunning.initiate_readHeader
  | complete i error data =>
    simp only [AsyncSession.act] at hstep
    split at hstep
    · cases hstep
    · rename_i op hop
      obtain ⟨hdata, hs⟩ := Option.ite_none_right_eq_some.mp hstep
      rw [Option.some.injEq] at hs
      rw [← hs]
      exact (h.deliver hop hdata.1).handler op.kind error
  | stop =>
    rw [← Option.some.inj hstep]
    exact ⟨h.one, h.atMostOne, h.notStarted, h.buffers, h.body, h.bodyBuf, h.onClose, h.destroyed⟩
  | runPosted =>
    simp only [AsyncSession.act] at hstep
    split at hstep
    · cases hstep
    · rename_i n hn
      have hrest : Disciplined { s with postedCloses := n } :=
        ⟨h.one, h.atMostOne, h.notStarted, h.buffers, h.body, h.bodyBuf, h.onClose, h.destroyed⟩
      rw [Option.some.injEq] at hstep
      rw [← hstep]
      exact hrest.close
  | destroy =>
    obtain ⟨hidle, hs⟩ := Option.ite_none_right_eq_some.mp hstep
    rw [Option.some.injEq] at hs
    have hclosed := h.close
    rw [← hs]
    refine ⟨hclosed.one, hclosed.atMostOne, hclosed.notStarted, hclosed.buffers, hclosed.body,
      hclosed.bodyBuf, hclosed.onClose, fun _ => ⟨close_closed s, ?_⟩⟩
    rw [close_keeps]
    exact hidle.1

theorem Disciplined.step (h : s.Disciplined) {a : Action}
    (hstep : s.step host router a = some s') : s'.Disciplined := by
  obtain ⟨halive, hact⟩ := Option.ite_none_left_eq_some.mp hstep
  exact h.act (by simpa using halive) hact

end Discipline

def session (s : AsyncSession σ) : Session :=
  { sessionId := s.sessionId
    headerBuf := s.headerBuf
    bodyBuf := s.bodyBuf
    writeBuf := s.writeBuf
    currentHeader := s.currentHeader
    closed := s.closed
    pending := s.outstanding.head?.map Operation.kind }

/-- The handler did here what it does there. -/
structure Simulates (s s' : AsyncSession σ) (r : Session × Effect σ) : Prop where
  session : s'.session = r.1
  store : s'.store = r.2.store
  dispatched : s'.dispatched = s.dispatched ++ r.2.dispatched
  onClose : s'.onCloseCalls = s.onCloseCalls + r.2.onCloseCalls

section Simulation
variable {host : HostOrder} {router : ServiceRouter σ} {s : AsyncSession σ}

theorem session_initiate (h : s.outstanding = []) (kind : PendingOp) :
    (s.initiate kind).session = { s.session with pending := some kind } := by
  simp only [initiate, session, h, List.nil_append, List.head?_cons, Option.map_some]

theorem handler_error (kind : PendingOp) (s : AsyncSession σ) :
    s.handler host router kind true = s.close := by
  cases kind with
  | readHeader | readBody | write => rfl

theorem simulates_close (s : AsyncSession σ) : Simulates s s.close (s.session.close s.store) := by
  have hclosed : s.session.closed = s.closed := rfl
  by_cases h : s.closed = true
  · rw [Session.close, close, hclosed, if_pos h, if_pos h]
    exact ⟨rfl, rfl, (List.append_nil _).symm, rfl⟩
  · rw [Session.close, close, hclosed, if_neg h, if_neg h]
    exact ⟨rfl, rfl, (List.append_nil _).symm, rfl⟩

theorem simulates_initiate (h : s.outstanding = []) (kind : PendingOp) :
    Simulates s (s.initiate kind) ({ s.session with pending := some kind }, .nothing s.store) :=
  ⟨session_initiate h kind, rfl, (List.append_nil _).symm, rfl⟩

theorem simulates_dispatchAndWrite (host : HostOrder) (router : ServiceRouter σ)
    (h : s.outstanding = []) :
    Simulates s (s.dispatchAndWrite host router)
      (s.session.dispatchAndWrite host router s.store) := by
  refine ⟨?_, rfl, rfl, rfl⟩
  simp only [dispatchAndWrite, doWrite, initiate, session, h, List.nil_append, List.head?_cons,
    Option.map_some]
  rfl

theorem simulates_onHeaderRead (host : HostOrder) (router : ServiceRouter σ)
    (h : s.outstanding = []) :
    Simulates s (s.onHeaderRead host router false)
      (s.session.onHeaderRead host router (some s.headerBuf) s.store) := by
  simp only [onHeaderRead, Session.onHeaderRead, Bool.false_eq_true, if_false]
  cases hdecode : decodeHeader host s.headerBuf with
  | error e => exact simulates_close s
  | ok hdr =>
    by_cases hlen : hdr.payloadLength = 0
    · simp only [hlen, if_true, doReadBody, Session.doReadBody]
      let t : AsyncSession σ := { s with currentHeader := hdr, bodyBuf := [] }
      obtain ⟨hsession, hstore, hdispatched, hcalls⟩ :=
        simulates_dispatchAndWrite (s := t) host router h
      exact ⟨hsession, hstore, hdispatched, hcalls⟩
    · simp only [hlen, if_false, doReadBody, Session.doReadBody]
      let t : AsyncSession σ := { s with
        currentHeader := hdr, bodyBuf := Session.resize s.bodyBuf hdr.payloadLength.toNat }
      obtain ⟨hsession, hstore, hdispatched, hcalls⟩ := simulates_initiate (s := t) h .readBody
      exact ⟨hsession, hstore, hdispatched, hcalls⟩

theorem simulates_complete (h : s.Disciplined) {op : Operation} {i : ℕ} {data : Bytes}
    (hop : s.outstanding[i]? = some op) (hdata : data.length = op.snapshot.length) :
    Simulates s (({ s with outstanding := s.outstanding.eraseIdx i }.deliver op.kind data).handler
      host router op.kind false) (s.session.complete host router (some data) s.store) := by
  have hpending : s.session.pending = some op.kind := by
    rw [session, h.outstanding_eq hop, List.head?_cons, Option.map_some]
  have hnil : s.outstanding.eraseIdx i = [] := h.eraseIdx_eq_nil hop
  have hbuffer := congrArg List.length (h.buffers op (List.mem_of_getElem? hop))
  -- the whole buffer is replaced
  have hdrop : (s.buffer op.kind).drop data.length = [] :=
    List.drop_eq_nil_of_le (hbuffer.trans hdata.symm).le
  cases hkind : op.kind with
  | readHeader =>
    rw [hkind] at hpending hdrop
    rw [buffer] at hdrop
    obtain ⟨hsession, hstore, hdispatched, hcalls⟩ := simulates_onHeaderRead
      (s := { s with outstanding := [], headerBuf := data }) host router rfl
    simp only [deliver, handler, hnil, hdrop, List.append_nil, Session.complete, hpending]
    exact ⟨hsession, hstore, hdispatched, hcalls⟩
  | readBody =>
    rw [hkind] at hpending hdrop
    rw [buffer] at hdrop
    obtain ⟨hsession, hstore, hdispatched, hcalls⟩ := simulates_dispatchAndWrite
      (s := { s with outstanding := [], bodyBuf := data }) host router rfl
    simp only [deliver, handler, hnil, hdrop, List.append_nil, Session.complete, hpending,
      onBodyRead, Bool.false_eq_true, if_false, Session.onBodyRead]
    exact ⟨hsession, hstore, hdispatched, hcalls⟩
  | write =>
    rw [hkind] at hpending
    obtain ⟨hsession, hstore, hdispatched, hcalls⟩ :=
      simulates_initiate (s := { s with outstanding := [] }) rfl .readHeader
    simp only [deliver, handler, hnil, Session.complete, hpending, onWritten, Bool.false_eq_true,
      if_false, Session.onWritten]
    exact ⟨hsession, hstore, hdispatched, hcalls⟩

/-- So is a failed one, up to what a failed read leaves in its buffer, which is not read again. -/
theorem simulates_complete_error (h : s.Disciplined) {op : Operation} {i : ℕ} (data : Bytes)
    (hop : s.outstanding[i]? = some op) :
    let s' := ({ s with outstanding := s.outstanding.eraseIdx i }.deliver op.kind data).handler
      host router op.kind true
    let r := s.session.complete host router none s.store
    Simulates s s' ({ r.1 with headerBuf := s'.headerBuf, bodyBuf := s'.bodyBuf }, r.2) := by
  have hpending : s.session.pending = some op.kind := by
    rw [session, h.outstanding_eq hop, List.head?_cons, Option.map_some]
  have hnil : s.outstanding.eraseIdx i = [] := h.eraseIdx_eq_nil hop
  intro s' r
  let t : AsyncSession σ := { s with outstanding := [] }.deliver op.kind data
  have hs' : s' = t.close := by
    simp only [s', hnil, handler_error, t]
  have hheader : t.close.headerBuf = t.headerBuf := by rw [close_keeps]
  have hbody : t.close.bodyBuf = t.bodyBuf := by rw [close_keeps]
  have hsim := simulates_close t
  rw [Session.close_eq] at hsim
  simp only [r, Session.complete_none hpending, hs', hheader, hbody]
  obtain ⟨hsession, hstore, hdispatched, hcalls⟩ := hsim
  cases hkind : op.kind <;> simp only [t, hkind] at hsession hstore hdispatched hcalls ⊢ <;>
    exact ⟨hsession, hstore, hdispatched, hcalls⟩

end Simulation

theorem reaches_disciplined {host : HostOrder} {router : ServiceRouter σ} {sessionId : UInt64}
    {store : σ} {s : AsyncSession σ}
    (h : Reaches (step host router) (fun _ _ => True) (construct sessionId store) s) :
    s.Disciplined := by
  apply h.invariant (construct_disciplined sessionId store)
  intro a b c hb _ hstep
  exact hb.step hstep

theorem reaches_disciplined_stopped :
    ∃ s, Reaches (step .little (⟨fun _ => none⟩ : ServiceRouter Unit)) (fun _ _ => True)
        (construct 1 ()) s ∧ s.destroyed = true ∧ s.Disciplined := by
  let header := encodeHeader .little ⟨3, MessageType.kPing, 0, 0⟩
  let run := [.start, .complete 0 false header, .stop, .runPosted, .complete 0 true [7],
    .destroy].foldlM
    (fun s a => if True then step .little (⟨fun _ => none⟩ : ServiceRouter Unit) a s else none)
    (construct 1 ())
  have hrun : run.map (fun s => s.destroyed) = some true := by decide +kernel
  obtain ⟨s, hs, hdestroyed⟩ := Option.map_eq_some_iff.mp hrun
  have hreach := Reaches.of_foldlM hs
  exact ⟨s, hreach, hdestroyed, reaches_disciplined hreach⟩

end AsyncSession

end HSFinancialServices
