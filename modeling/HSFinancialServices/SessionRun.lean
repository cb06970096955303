import HSFinancialServices.Lib.Transitions
import HSFinancialServices.SessionStream

/-!
# A session run to the end of its stream

The peer has sent everything it will send and no operation fails before the stream
ends. The run then stops after finitely many completions, and the frames it
dispatched are the frames the stream starts with, no more and no fewer.
-/

namespace HSFinancialServices
open Framing Transitions

variable {σ : Type*}

structure Line (σ : Type*) where
  connection : Connection
  store : σ
  log : List Exchange
  onCloseCalls : ℕ

namespace Line

def after (l : Line σ) (r : Connection × Effect σ) : Line σ :=
  ⟨r.1, r.2.store, l.log ++ r.2.dispatched, l.onCloseCalls + r.2.onCloseCalls⟩

def io (host : HostOrder) (router : ServiceRouter σ) (l : Line σ) : Option (Line σ) :=
  (l.connection.io host router l.store).map l.after

def start (sessionId : UInt64) (stream : Bytes) (store : σ) : Line σ :=
  ⟨{ Connection.accept sessionId with arrived := stream, eof := true }, store, [], 0⟩

end Line

theorem ServiceRouter.serve_append (router : ServiceRouter σ) (rs : List Message) (r : Message)
    (store : σ) : router.serve (rs ++ [r]) store =
      let (log, store') := router.serve rs store
      (log ++ [⟨r, (router.dispatch r store').1⟩], (router.dispatch r store').2) := by
  induction rs generalizing store with
  | nil => rfl
  | cons r' rs ih => simp only [List.cons_append, serve, ih]

variable {host : HostOrder} {router : ServiceRouter σ}

/-- Without I/O errors the session is closed exactly when it waits for nothing, and its
callback has run once then. -/
structure Line.Calm (host : HostOrder) (router : ServiceRouter σ) (stream : Bytes) (store₀ : σ)
    (l : Line σ) : Prop where
  tracks : l.connection.Tracks host True l.log
  arrived : l.connection.arrived = stream
  eof : l.connection.eof = true
  served : router.serve (l.log.map Exchange.request) store₀ = (l.log, l.store)
  running : l.connection.session.pending ≠ none →
    l.connection.session.closed = false ∧ l.onCloseCalls = 0
  ended : l.connection.session.pending = none →
    l.connection.session.closed = true ∧ l.onCloseCalls = 1

theorem Line.calm_start (host : HostOrder) (router : ServiceRouter σ) (sessionId : UInt64)
    (stream : Bytes) (store : σ) :
    (Line.start sessionId stream store).Calm host router stream store where
  tracks := Connection.tracks_accept host True sessionId stream true
  arrived := rfl
  eof := rfl
  served := rfl
  running := fun _ => ⟨rfl, rfl⟩
  ended := fun h => absurd h (Option.some_ne_none _)

theorem Connection.io_stream {c c' : Connection} {store : σ} {effect : Effect σ}
    (h : c.io host router store = some (c', effect)) :
    c'.arrived = c.arrived ∧ c'.eof = c.eof := by
  cases io_cases h <;> exact ⟨rfl, rfl⟩

theorem Line.Calm.io {stream : Bytes} {store₀ : σ} {l l' : Line σ}
    (h : l.Calm host router stream store₀) (hio : l.io host router = some l') :
    l'.Calm host router stream store₀ := by
  obtain ⟨⟨c', effect⟩, hstep, rfl⟩ := Option.map_eq_some_iff.mp hio
  have hpending : l.connection.session.pending ≠ none := by
    intro hp
    simp only [Connection.io, hp, reduceCtorEq] at hstep
  obtain ⟨hopen, hcalls⟩ := h.running hpending
  obtain ⟨harrived, heof⟩ := Connection.io_stream hstep
  have htracks := h.tracks.io hstep
  have hhandled := Connection.io_handled hstep
  generalize hs : c'.session = s' at hhandled
  cases hhandled with
  | closed hnone hclosed _ =>
    refine ⟨htracks, harrived.trans h.arrived, heof.trans h.eof, ?_, ?_, ?_⟩
    · simpa [Line.after] using h.served
    · intro hsome
      exact absurd (hs ▸ hnone) hsome
    · intro _
      simp [Line.after, hs, hclosed, hopen, hcalls]
  | continued hsome hclosed _ =>
    refine ⟨htracks, harrived.trans h.arrived, heof.trans h.eof, ?_, ?_, ?_⟩
    · simpa [Line.after, Effect.nothing] using h.served
    · intro _
      simp [Line.after, Effect.nothing, hs, hclosed, hopen, hcalls]
    · intro hnone
      exact absurd (hs ▸ hnone) hsome
  | dispatched req hsome hclosed _ =>
    refine ⟨htracks, harrived.trans h.arrived, heof.trans h.eof, ?_, ?_, ?_⟩
    · simp only [Line.after, List.map_append, List.map_cons, List.map_nil,
        ServiceRouter.serve_append, h.served]
    · intro _
      simp [Line.after, hs, hclosed, hopen, hcalls]
    · intro hnone
      exact absurd (hs ▸ hnone) hsome

/-- Operations that one frame can still need, by the one the session waits for. -/
def opsLeft : Option PendingOp → ℕ
  | some .readBody => 3
  | some .write => 2
  | some .readHeader => 1
  | none => 0

def Connection.workLeft (c : Connection) : ℕ :=
  3 * c.unread.length + opsLeft c.session.pending

theorem Connection.io_workLeft {c c' : Connection} {store : σ} {effect : Effect σ}
    (hbuf : c.session.headerBuf.length = kHeaderSize)
    (h : c.io host router store = some (c', effect)) : c'.workLeft < c.workLeft := by
  cases io_cases h with
  | written hp => simp [workLeft, unread, Session.doReadHeader, opsLeft, hp]
  | @cutShort op hp hop =>
    cases op with
    | write => exact absurd rfl hop
    | readHeader | readBody => simp [workLeft, unread, opsLeft, hp]
  | refused hp hn | bodyFollows hp hn | emptyRequest hp hn =>
    simp only [hbuf, unread, List.length_drop, kHeaderSize] at hn
    simp only [workLeft, unread, List.length_drop, hp, opsLeft, hbuf, kHeaderSize,
      Session.dispatchAndWrite, Session.doWrite]
    omega
  | request hp hn =>
    simp only [workLeft, unread, List.length_drop, hp, opsLeft, Session.dispatchAndWrite,
      Session.doWrite]
    omega

theorem Line.Calm.stopped {stream : Bytes} {store₀ : σ} {l : Line σ}
    (h : l.Calm host router stream store₀) (hstop : l.io host router = none) :
    l.connection.session.pending = none := by
  have hio : l.connection.io host router l.store = none := by
    simpa [Line.io] using hstop
  match hp : l.connection.session.pending with
  | none => rfl
  | some .write => simp only [Connection.io, hp, reduceCtorEq] at hio
  | some .readHeader | some .readBody =>
    simp only [Connection.io, hp, h.eof, if_true] at hio
    split_ifs at hio

/-- Every stream is a list of frames and a rest without a complete acceptable frame. The
session dispatches the former, in order, and answers nothing else. -/
theorem session_reads_stream (host : HostOrder) (router : ServiceRouter σ) (sessionId : UInt64)
    (stream : Bytes) (store : σ) :
    ∃ final ∈ StateTransition.eval (Line.io host router) (Line.start sessionId stream store),
      ∃ frames rest, stream = concat frames ++ rest ∧ (wireFormat host).Stuck rest ∧
        List.Forall₂ (Carries host) frames (final.log.map Exchange.request) ∧
        router.serve (final.log.map Exchange.request) store = (final.log, final.store) ∧
        final.connection.written = replies host final.log ∧
        final.connection.session.closed = true ∧ final.onCloseCalls = 1 := by
  have hstep : ∀ l l' : Line σ, l.Calm host router stream store → l.io host router = some l' →
      l'.Calm host router stream store ∧ l'.connection.workLeft < l.connection.workLeft := by
    intro l l' hl hio
    refine ⟨hl.io hio, ?_⟩
    obtain ⟨r, hr, rfl⟩ := Option.map_eq_some_iff.mp hio
    obtain ⟨frames, tail, hat⟩ := hl.tracks
    exact Connection.io_workLeft hat.headerBuf hr
  obtain ⟨final, heval, hcalm, hstop⟩ := exists_mem_eval (fun l => l.connection.workLeft) hstep
    (Line.calm_start host router sessionId stream store)
  have hpending := hcalm.stopped hstop
  obtain ⟨hclosed, hcalls⟩ := hcalm.ended hpending
  obtain ⟨frames, tail, hat⟩ := hcalm.tracks
  have hphase := hat.phase
  rw [Connection.phase_none hpending] at hphase
  obtain ⟨hwritten, hstuck⟩ := hphase.2 trivial
  exact ⟨final, heval, frames, _, hcalm.arrived ▸ hat.stream, hstuck, hat.carries, hcalm.served,
    hwritten, hclosed, hcalls⟩

theorem session_serves (host : HostOrder) (router : ServiceRouter σ) (sessionId : UInt64)
    (store : σ) {reqs : List Message} (hreqs : ∀ r ∈ reqs, r.Sized) {rest : Bytes}
    (hrest : (wireFormat host).Stuck rest) :
    ∃ final ∈ StateTransition.eval (Line.io host router)
        (Line.start sessionId (serialiseAll host reqs ++ rest) store),
      final.log = (router.serve reqs store).1 ∧
        final.connection.written = replies host final.log ∧
        final.connection.session.closed = true ∧ final.onCloseCalls = 1 := by
  obtain ⟨final, heval, frames, rest', hstream, hstuck, hcarries, hserved, hwritten, hclosed,
    hcalls⟩ := session_reads_stream host router sessionId (serialiseAll host reqs ++ rest) store
  rw [serialiseAll_eq_concat] at hstream
  have hsent := forall_carries hreqs host
  obtain ⟨rfl, _⟩ := concat_append_inj (forall_wellFormed hsent) (forall_wellFormed hcarries)
    hrest hstuck hstream
  have hrequests := carries_unique hsent hcarries
  refine ⟨final, heval, ?_, hwritten, hclosed, hcalls⟩
  rw [hrequests, hserved]

end HSFinancialServices
