import HSFinancialServices.Router

/-!
# One server session

A session waits for at most one asynchronous operation at a time. Its completion
handlers are functions from the session and the service store to the session, the
store, the requests it dispatched and the calls of its close callback.
-/

namespace HSFinancialServices

variable {σ : Type*}

inductive PendingOp
  | readHeader
  | readBody
  | write
  deriving DecidableEq, Repr

structure Session where
  sessionId : UInt64
  headerBuf : Bytes
  bodyBuf : Bytes
  writeBuf : Bytes
  currentHeader : MessageHeader
  closed : Bool
  /-- The operation whose handler holds the session's shared pointer. -/
  pending : Option PendingOp
  deriving DecidableEq, Repr

structure Effect (σ : Type*) where
  store : σ
  dispatched : List Exchange
  onCloseCalls : ℕ

def Effect.nothing (store : σ) : Effect σ := ⟨store, [], 0⟩

namespace Session

def construct (sessionId : UInt64) : Session :=
  { sessionId := sessionId
    headerBuf := List.replicate kHeaderSize 0
    bodyBuf := []
    writeBuf := []
    currentHeader := {}
    closed := false
    pending := none }

def doReadHeader (s : Session) : Session := { s with pending := some .readHeader }

def start (s : Session) : Session := s.doReadHeader

/-- Operations of the closed socket still complete, each in its own handler. -/
def close (s : Session) (store : σ) : Session × Effect σ :=
  if s.closed then (s, .nothing store)
  else ({ s with closed := true }, ⟨store, [], 1⟩)

/-- `std::vector::resize`, which keeps what fits and fills with zeros. -/
def resize (buf : Bytes) (n : ℕ) : Bytes := buf.take n ++ List.replicate (n - buf.length) 0

@[simp] theorem length_resize (buf : Bytes) (n : ℕ) : (resize buf n).length = n := by
  simp only [resize, List.length_append, List.length_take, List.length_replicate]
  omega

section Handlers
variable (host : HostOrder) (router : ServiceRouter σ)

def doWrite (s : Session) (response : Message) : Session :=
  { s with writeBuf := response.serialise host, pending := some .write }

def dispatchAndWrite (s : Session) (store : σ) : Session × Effect σ :=
  let req : Message := ⟨s.currentHeader, s.bodyBuf⟩
  let (resp, store') := router.dispatch req store
  (s.doWrite host resp, ⟨store', [⟨req, resp⟩], 0⟩)

def doReadBody (s : Session) (store : σ) : Session × Effect σ :=
  if s.currentHeader.payloadLength = 0 then s.dispatchAndWrite host router store
  else ({ s with pending := some .readBody }, .nothing store)

def onHeaderRead (completion : Option Bytes) (s : Session) (store : σ) : Session × Effect σ :=
  match completion with
  | none => s.close store
  | some data =>
    let s := { s with headerBuf := data }
    match decodeHeader host s.headerBuf with
    | .error _ => s.close store
    | .ok hdr =>
      let s := { s with currentHeader := hdr }
      if hdr.payloadLength = 0 then { s with bodyBuf := [] }.doReadBody host router store
      else { s with bodyBuf := resize s.bodyBuf hdr.payloadLength.toNat }.doReadBody host router store

def onBodyRead (completion : Option Bytes) (s : Session) (store : σ) : Session × Effect σ :=
  match completion with
  | none => s.close store
  | some data => { s with bodyBuf := data }.dispatchAndWrite host router store

def onWritten (completion : Option Bytes) (s : Session) (store : σ) : Session × Effect σ :=
  match completion with
  | none => s.close store
  | some _ => (s.doReadHeader, .nothing store)

/-- The pending operation completes; its handler runs to the end. -/
def complete (completion : Option Bytes) (s : Session) (store : σ) : Session × Effect σ :=
  match s.pending with
  | none => (s, .nothing store)
  | some .readHeader => onHeaderRead host router completion { s with pending := none } store
  | some .readBody => onBodyRead host router completion { s with pending := none } store
  | some .write => onWritten completion { s with pending := none } store

theorem close_eq (s : Session) (store : σ) :
    s.close store = ({ s with closed := true }, ⟨store, [], if s.closed then 0 else 1⟩) := by
  cases s with
  | mk sessionId headerBuf bodyBuf writeBuf currentHeader closed pending => cases closed <;> rfl

variable {s : Session} {host router}

theorem complete_none {op : PendingOp} (h : s.pending = some op) (store : σ) :
    s.complete host router none store =
      ({ s with pending := none, closed := true }, ⟨store, [], if s.closed then 0 else 1⟩) := by
  cases op <;> simp only [complete, h, onHeaderRead, onBodyRead, onWritten, close_eq]

theorem complete_write (h : s.pending = some .write) (data : Bytes) (store : σ) :
    s.complete host router (some data) store = (s.doReadHeader, .nothing store) := by
  simp only [complete, h, onWritten, doReadHeader]

theorem complete_readBody (h : s.pending = some .readBody) (data : Bytes) (store : σ) :
    s.complete host router (some data) store =
      dispatchAndWrite host router { s with pending := none, bodyBuf := data } store := by
  simp only [complete, h, onBodyRead]

theorem complete_readHeader_error (h : s.pending = some .readHeader) {data : Bytes} {e : String}
    (hdecode : decodeHeader host data = .error e) (store : σ) :
    s.complete host router (some data) store =
      ({ s with pending := none, headerBuf := data, closed := true },
        ⟨store, [], if s.closed then 0 else 1⟩) := by
  simp only [complete, h, onHeaderRead, hdecode, close_eq]

theorem complete_readHeader_empty (h : s.pending = some .readHeader) {data : Bytes}
    {hdr : MessageHeader} (hdecode : decodeHeader host data = .ok hdr)
    (hlen : hdr.payloadLength = 0) (store : σ) :
    s.complete host router (some data) store =
      dispatchAndWrite host router
        { s with pending := none, headerBuf := data, currentHeader := hdr, bodyBuf := [] } store := by
  simp only [complete, h, onHeaderRead, hdecode, hlen, if_true, doReadBody]

theorem complete_readHeader_body (h : s.pending = some .readHeader) {data : Bytes}
    {hdr : MessageHeader} (hdecode : decodeHeader host data = .ok hdr)
    (hlen : hdr.payloadLength ≠ 0) (store : σ) :
    s.complete host router (some data) store =
      ({ s with
          headerBuf := data
          currentHeader := hdr
          bodyBuf := resize s.bodyBuf hdr.payloadLength.toNat
          pending := some .readBody }, .nothing store) := by
  simp only [complete, h, onHeaderRead, hdecode, hlen, if_false, doReadBody]

variable (host router)

/-- All a completion can come to: the session closes, or goes on to its next operation,
at most with one dispatched request. -/
inductive Handled (s : Session) (store : σ) : Session × Effect σ → Prop
  | closed {s' : Session} : s'.pending = none → s'.closed = true → s'.sessionId = s.sessionId →
      Handled s store (s', ⟨store, [], if s.closed then 0 else 1⟩)
  | continued {s' : Session} : s'.pending ≠ none → s'.closed = s.closed →
      s'.sessionId = s.sessionId → Handled s store (s', .nothing store)
  | dispatched {s' : Session} (req : Message) : s'.pending ≠ none → s'.closed = s.closed →
      s'.sessionId = s.sessionId → Handled s store (s', ⟨(router.dispatch req store).2,
        [⟨req, (router.dispatch req store).1⟩], 0⟩)

variable {host router}

theorem dispatchAndWrite_handled {s t : Session} (hclosed : t.closed = s.closed)
    (hid : t.sessionId = s.sessionId) (store : σ) :
    Handled router s store (t.dispatchAndWrite host router store) :=
  .dispatched ⟨t.currentHeader, t.bodyBuf⟩ (Option.some_ne_none _) hclosed hid

theorem complete_handled {op : PendingOp} (h : s.pending = some op) (completion : Option Bytes)
    (store : σ) : Handled router s store (s.complete host router completion store) := by
  cases completion with
  | none =>
    rw [complete_none h]
    exact .closed rfl rfl rfl
  | some data =>
    cases op with
    | write =>
      rw [complete_write h]
      exact .continued (Option.some_ne_none _) rfl rfl
    | readBody =>
      rw [complete_readBody h]
      exact dispatchAndWrite_handled (by rfl) (by rfl) store
    | readHeader =>
      cases hdecode : decodeHeader host data with
      | error e =>
        rw [complete_readHeader_error h hdecode]
        exact .closed rfl rfl rfl
      | ok hdr =>
        by_cases hlen : hdr.payloadLength = 0
        · rw [complete_readHeader_empty h hdecode hlen]
          exact dispatchAndWrite_handled (by rfl) (by rfl) store
        · rw [complete_readHeader_body h hdecode hlen]
          exact .continued (Option.some_ne_none _) rfl rfl

end Handlers

def requested (s : Session) : ℕ :=
  match s.pending with
  | some .readHeader => s.headerBuf.length
  | some .readBody => s.bodyBuf.length
  | _ => 0

end Session

structure Connection where
  session : Session
  arrived : Bytes
  eof : Bool
  readPos : ℕ
  written : Bytes
  deriving DecidableEq, Repr

namespace Connection

def unread (c : Connection) : Bytes := c.arrived.drop c.readPos

section Completions
variable (host : HostOrder) (router : ServiceRouter σ)

/-- The pending operation ends without an I/O error: a write is carried out, a read takes
the bytes it asked for, and a read that the end of the stream cuts short fails. -/
def io (c : Connection) (store : σ) : Option (Connection × Effect σ) :=
  match c.session.pending with
  | none => none
  | some .write =>
    let r := c.session.complete host router (some []) store
    some ({ c with session := r.1, written := c.written ++ c.session.writeBuf }, r.2)
  | some _ =>
    let n := c.session.requested
    if n ≤ c.unread.length then
      let r := c.session.complete host router (some (c.unread.take n)) store
      some ({ c with session := r.1, readPos := c.readPos + n }, r.2)
    else if c.eof then
      let r := c.session.complete host router none store
      some ({ c with session := r.1 }, r.2)
    else none

def fail (n : ℕ) (c : Connection) (store : σ) : Option (Connection × Effect σ) :=
  match c.session.pending with
  | none => none
  | some op =>
    let r := c.session.complete host router none store
    let bytes := if op = .write then c.session.writeBuf.take n else []
    some ({ c with session := r.1, written := c.written ++ bytes }, r.2)

variable {host router}

theorem io_handled {c c' : Connection} {store : σ} {effect : Effect σ}
    (h : c.io host router store = some (c', effect)) :
    c.session.Handled router store (c'.session, effect) := by
  match hp : c.session.pending with
  | none => simp only [io, hp, reduceCtorEq] at h
  | some .write =>
    simp only [io, hp, Option.some.injEq, Prod.mk.injEq] at h
    obtain ⟨rfl, rfl⟩ := h
    exact Session.complete_handled hp _ store
  | some .readHeader | some .readBody =>
    simp only [io, hp] at h
    split_ifs at h
    · simp only [Option.some.injEq, Prod.mk.injEq] at h
      obtain ⟨rfl, rfl⟩ := h
      exact Session.complete_handled hp _ store
    · simp only [Option.some.injEq, Prod.mk.injEq] at h
      obtain ⟨rfl, rfl⟩ := h
      exact Session.complete_handled hp _ store

def received (c : Connection) (hdr : MessageHeader) (header body : Bytes) : Session :=
  { c.session with pending := none, headerBuf := header, currentHeader := hdr, bodyBuf := body }

variable (host router) in
inductive IoCase (c : Connection) (store : σ) : Connection → Effect σ → Prop
  | written : c.session.pending = some .write →
      IoCase c store
        { c with session := c.session.doReadHeader, written := c.written ++ c.session.writeBuf }
        (.nothing store)
  | cutShort {op : PendingOp} : c.session.pending = some op → op ≠ .write →
      c.unread.length < c.session.requested → c.eof = true →
      IoCase c store { c with session := { c.session with pending := none, closed := true } }
        ⟨store, [], if c.session.closed then 0 else 1⟩
  | refused {e : String} : c.session.pending = some .readHeader →
      c.session.headerBuf.length ≤ c.unread.length →
      decodeHeader host (c.unread.take c.session.headerBuf.length) = .error e →
      IoCase c store
        { c with
          session :=
            { c.session with
              pending := none
              headerBuf := c.unread.take c.session.headerBuf.length
              closed := true }
          readPos := c.readPos + c.session.headerBuf.length }
        ⟨store, [], if c.session.closed then 0 else 1⟩
  | bodyFollows {hdr : MessageHeader} : c.session.pending = some .readHeader →
      c.session.headerBuf.length ≤ c.unread.length →
      decodeHeader host (c.unread.take c.session.headerBuf.length) = .ok hdr →
      hdr.payloadLength ≠ 0 →
      IoCase c store
        { c with
          session :=
            { c.session with
              headerBuf := c.unread.take c.session.headerBuf.length
              currentHeader := hdr
              bodyBuf := Session.resize c.session.bodyBuf hdr.payloadLength.toNat
              pending := some .readBody }
          readPos := c.readPos + c.session.headerBuf.length }
        (.nothing store)
  | emptyRequest {hdr : MessageHeader} : c.session.pending = some .readHeader →
      c.session.headerBuf.length ≤ c.unread.length →
      decodeHeader host (c.unread.take c.session.headerBuf.length) = .ok hdr →
      hdr.payloadLength = 0 →
      IoCase c store
        { c with
          session := ((c.received hdr (c.unread.take c.session.headerBuf.length)
            []).dispatchAndWrite host router store).1
          readPos := c.readPos + c.session.headerBuf.length }
        ((c.received hdr (c.unread.take c.session.headerBuf.length) []).dispatchAndWrite host
          router store).2
  | request : c.session.pending = some .readBody → c.session.bodyBuf.length ≤ c.unread.length →
      IoCase c store
        { c with
          session := ((c.received c.session.currentHeader c.session.headerBuf
            (c.unread.take c.session.bodyBuf.length)).dispatchAndWrite host router store).1
          readPos := c.readPos + c.session.bodyBuf.length }
        ((c.received c.session.currentHeader c.session.headerBuf
          (c.unread.take c.session.bodyBuf.length)).dispatchAndWrite host router store).2

theorem io_cases {c c' : Connection} {store : σ} {effect : Effect σ}
    (h : c.io host router store = some (c', effect)) : IoCase host router c store c' effect := by
  match hp : c.session.pending with
  | none => simp only [io, hp, reduceCtorEq] at h
  | some .write =>
    simp only [io, hp, Session.complete_write hp, Option.some.injEq, Prod.mk.injEq] at h
    obtain ⟨rfl, rfl⟩ := h
    exact .written hp
  | some .readBody =>
    simp only [io, hp, Session.requested] at h
    split_ifs at h with hn heof
    · simp only [Session.complete_readBody hp, Option.some.injEq, Prod.mk.injEq] at h
      obtain ⟨rfl, rfl⟩ := h
      exact .request hp hn
    · simp only [Session.complete_none hp, Option.some.injEq, Prod.mk.injEq] at h
      obtain ⟨rfl, rfl⟩ := h
      refine .cutShort hp nofun ?_ heof
      simpa only [Session.requested, hp] using not_le.mp hn
  | some .readHeader =>
    simp only [io, hp, Session.requested] at h
    split_ifs at h with hn heof
    · cases hdecode : decodeHeader host (c.unread.take c.session.headerBuf.length) with
      | error e =>
        simp only [Session.complete_readHeader_error hp hdecode, Option.some.injEq,
          Prod.mk.injEq] at h
        obtain ⟨rfl, rfl⟩ := h
        exact .refused hp hn hdecode
      | ok hdr =>
        by_cases hlen : hdr.payloadLength = 0
        · simp only [Session.complete_readHeader_empty hp hdecode hlen, Option.some.injEq,
            Prod.mk.injEq] at h
          obtain ⟨rfl, rfl⟩ := h
          exact .emptyRequest hp hn hdecode hlen
        · simp only [Session.complete_readHeader_body hp hdecode hlen, Option.some.injEq,
            Prod.mk.injEq] at h
          obtain ⟨rfl, rfl⟩ := h
          exact .bodyFollows hp hn hdecode hlen
    · simp only [Session.complete_none hp, Option.some.injEq, Prod.mk.injEq] at h
      obtain ⟨rfl, rfl⟩ := h
      refine .cutShort hp nofun ?_ heof
      simpa only [Session.requested, hp] using not_le.mp hn

theorem fail_handled {c c' : Connection} {n : ℕ} {store : σ} {effect : Effect σ}
    (h : c.fail host router n store = some (c', effect)) :
    c.session.Handled router store (c'.session, effect) := by
  cases hp : c.session.pending with
  | none => simp only [fail, hp, reduceCtorEq] at h
  | some op =>
    simp only [fail, hp, Option.some.injEq, Prod.mk.injEq] at h
    obtain ⟨rfl, rfl⟩ := h
    exact Session.complete_handled hp _ store

end Completions

def stop (c : Connection) (store : σ) : Connection × Effect σ :=
  let r := c.session.close store
  ({ c with session := r.1 }, r.2)

def arrive (c : Connection) (data : Bytes) : Connection := { c with arrived := c.arrived ++ data }

def accept (sessionId : UInt64) : Connection :=
  { session := (Session.construct sessionId).start
    arrived := []
    eof := false
    readPos := 0
    written := [] }

end Connection

end HSFinancialServices
