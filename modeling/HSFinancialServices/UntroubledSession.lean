import HSFinancialServices.ServerStreams
import HSFinancialServices.SessionRun

/-!
# A session on a socket without I/O errors

Whatever the rest of the server does, a session whose own operations do not fail
dispatches every frame of its stream. Once none of its operations can complete, all of
the responses are written.
-/

namespace HSFinancialServices
open Framing Transitions

variable {σ : Type*} {host : HostOrder} {router : ServiceRouter σ}

def Refused (host : HostOrder) (stream : Bytes) : Prop :=
  kHeaderSize ≤ stream.length ∧ ∃ e, decodeHeader host (stream.take kHeaderSize) = .error e

theorem Refused.stuck {stream : Bytes} (h : Refused host stream) :
    (wireFormat host).Stuck stream := by
  obtain ⟨-, e, herror⟩ := h
  exact Connection.stuck_of_refused herror

theorem Refused.append {stream : Bytes} (h : Refused host stream) (data : Bytes) :
    Refused host (stream ++ data) := by
  obtain ⟨hle, e, herror⟩ := h
  refine ⟨?_, e, ?_⟩
  · rw [List.length_append]
    omega
  · rwa [List.take_append_of_le_length hle]

namespace Connection

/-- A session ends on its own for one of two reasons: its stream is over or stands before
a header that is refused. -/
def Undisturbed (host : HostOrder) (c : Connection) (log : List Exchange) : Prop :=
  ∃ frames tail, c.At host True log frames tail ∧
    (c.session.pending = none → c.eof = false → Refused host (tail ++ c.unread))

section Reading
variable {calm calm' : Prop} {c c' : Connection} {log log' : List Exchange}
  {frames frames' : List (Frame UInt8)} {tail tail' : Bytes}

theorem At.rest_unique (h : c.At host calm log frames tail)
    (h' : c'.At host calm' log frames' tail') (hstream : c.arrived = c'.arrived) :
    tail ++ c.unread = tail' ++ c'.unread := by
  have hlength : frames.length = frames'.length := h.carries.length_eq.trans h'.carries.length_eq.symm
  have hread : concat frames ++ (tail ++ c.unread) = concat frames' ++ (tail' ++ c'.unread) := by
    rw [← h.stream, ← h'.stream, hstream]
  exact (concat_append_inj_of_length (forall_wellFormed h.carries) (forall_wellFormed h'.carries)
    hlength hread).2

theorem exists_carries {ms : List Message} (h : List.Forall₂ (Carries host) frames ms) {i : ℕ}
    {m : Message} (hi : ms[i]? = some m) : ∃ f, frames[i]? = some f ∧ Carries host f m := by
  induction h generalizing i with
  | nil => cases hi
  | @cons f m' frames ms hf _ ih =>
    cases i with
    | zero =>
      obtain rfl := Option.some.inj hi
      exact ⟨f, rfl, hf⟩
    | succ i => exact ih hi

theorem requests_getElem? {log : List Exchange} {i : ℕ} {e : Exchange} (h : log[i]? = some e) :
    (log.map Exchange.request)[i]? = some e.request := by
  rw [List.getElem?_map, h, Option.map_some]

theorem At.request_unique (h : c.At host calm log frames tail)
    (h' : c'.At host calm' log' frames' tail') {stream : Bytes} (hstream : c.arrived <+: stream)
    (hstream' : c'.arrived <+: stream) {i : ℕ} {e e' : Exchange} (hi : log[i]? = some e)
    (hi' : log'[i]? = some e') : e.request = e'.request := by
  obtain ⟨more, rfl⟩ := hstream
  obtain ⟨more', hmore⟩ := hstream'
  obtain ⟨f, hf, hcarries⟩ := exists_carries h.carries (requests_getElem? hi)
  obtain ⟨f', hf', hcarries'⟩ := exists_carries h'.carries (requests_getElem? hi')
  have hread : concat frames ++ (tail ++ c.unread ++ more) =
      concat frames' ++ (tail' ++ c'.unread ++ more') := by
    rw [← List.append_assoc, ← h.stream, ← List.append_assoc, ← h'.stream, hmore]
  obtain rfl := frame_unique (forall_wellFormed h.carries) (forall_wellFormed h'.carries) hread
    hf hf'
  exact hcarries.unique hcarries'

end Reading

section Steps
variable {c c' : Connection} {log : List Exchange}

theorem undisturbed_accept (host : HostOrder) (sessionId : UInt64) :
    (accept sessionId).Undisturbed host [] := by
  obtain ⟨frames, tail, hat⟩ := tracks_accept host True sessionId [] false
  exact ⟨frames, tail, hat, fun hnone => absurd hnone (Option.some_ne_none _)⟩

theorem Undisturbed.io (h : c.Undisturbed host log) {store : σ} {effect : Effect σ}
    (hio : c.io host router store = some (c', effect)) :
    c'.Undisturbed host (log ++ effect.dispatched) := by
  obtain ⟨frames, tail, hat, -⟩ := h
  obtain ⟨frames', tail', hat'⟩ := Tracks.io ⟨frames, tail, hat⟩ hio
  obtain ⟨harrived, -⟩ := io_stream hio
  refine ⟨frames', tail', hat', ?_⟩
  intro hnone hopen
  -- without an end of the stream only a refused header ends the session
  cases io_cases hio with
  | written | bodyFollows | emptyRequest | request => cases hnone
  | cutShort _ _ _ heof => exact absurd (hopen.symm.trans heof) (by decide)
  | @refused e hp hn herror =>
    have hphase := hat.phase
    rw [phase_readHeader hp] at hphase
    rw [List.append_nil] at hat'
    rw [hat.headerBuf] at hn herror
    rw [← hat.rest_unique hat' harrived.symm, hphase.1, List.nil_append]
    exact ⟨hn, e, herror⟩

theorem Undisturbed.stop (h : c.Undisturbed host log) (store : σ) :
    (c.stop store).1.Undisturbed host log := by
  obtain ⟨frames, tail, hat, hrefused⟩ := h
  simp only [Connection.stop, Session.close_eq]
  exact ⟨frames, tail, { hat with }, hrefused⟩

theorem Undisturbed.shutdown (h : c.Undisturbed host log) :
    ({ c with eof := true } : Connection).Undisturbed host log := by
  obtain ⟨frames, tail, hat, -⟩ := h
  exact ⟨frames, tail, { hat with }, nofun⟩

theorem Undisturbed.arrive (h : c.Undisturbed host log) (heof : c.eof = false) (data : Bytes) :
    (c.arrive data).Undisturbed host log := by
  obtain ⟨frames, tail, hat, hrefused⟩ := h
  have hmore : c.session.pending = none → Refused host (tail ++ (c.arrive data).unread) := by
    intro hnone
    rw [unread_arrive hat.readPos_le, ← List.append_assoc]
    exact (hrefused hnone heof).append data
  exact ⟨frames, tail, hat.arrive data fun hnone _ => (hmore hnone).stuck, fun hnone _ => hmore hnone⟩

theorem Undisturbed.settled (h : c.Undisturbed host log) {store : σ}
    (hio : c.io host router store = none) :
    c.written = replies host log ∧ ∃ frames tail, c.At host True log frames tail ∧
      (wireFormat host).Stuck (tail ++ c.unread) := by
  obtain ⟨frames, tail, hat, -⟩ := h
  have hphase := hat.phase
  cases hp : c.session.pending with
  | none =>
    rw [phase_none hp] at hphase
    obtain ⟨hwritten, hstuck⟩ := hphase.2 trivial
    exact ⟨hwritten, frames, tail, hat, hstuck⟩
  | some op =>
    cases op with
    | write => simp only [Connection.io, hp, reduceCtorEq] at hio
    | readHeader | readBody =>
      simp only [Connection.io, hp] at hio
      split_ifs at hio with hn
      obtain ⟨hwritten, hstuck⟩ := hat.cutShort hp (by decide) (not_le.mp hn)
      exact ⟨hwritten, frames, tail, hat, hstuck⟩

end Steps

end Connection

namespace Server

variable {maxConnections : UInt64} {store : σ} {s s' : Server σ} {k : ℕ}

/-- No operation of session `k` fails, and its peer sends nothing after its end of stream. -/
def Untroubled (k : ℕ) (a : Action) (s : Server σ) : Prop :=
  match a with
  | .fail j _ => j ≠ k
  | .arrive j _ => j = k → ∀ c ∈ s.live k, c.eof = false
  | _ => True

instance (k : ℕ) (a : Action) (s : Server σ) : Decidable (Untroubled k a s) :=
  match a with
  | .fail j _ => inferInstanceAs (Decidable (j ≠ k))
  | .arrive j _ => inferInstanceAs (Decidable (j = k → ∀ c ∈ s.live k, c.eof = false))
  | .accepted | .acceptFailed | .acceptStep _ _ | .shutdown _ | .io _ | .stop _ | .destroy _ =>
    inferInstanceAs (Decidable True)

theorem undisturbed_step {a : Action} (h : HoldsAt k (Connection.Undisturbed host) s)
    (hstreamed : Streamed host s) (ha : Untroubled k a s)
    (hstep : step host router a s = some s') : HoldsAt k (Connection.Undisturbed host) s' := by
  cases a with
  | accepted =>
    exact h.accepting (acceptCompleted_accepting hstep) hstreamed.logOf_length
      (Connection.undisturbed_accept host)
  | acceptFailed =>
    exact h.accepting (acceptCompleted_accepting hstep) hstreamed.logOf_length
      (Connection.undisturbed_accept host)
  | acceptStep i optionOk =>
    exact h.accepting (acceptStep_accepting hstep) hstreamed.logOf_length
      (Connection.undisturbed_accept host)
  | arrive j data =>
    obtain ⟨c, hc, rfl⟩ := Option.map_eq_some_iff.mp hstep
    apply h.after (live_eq_some.mp hc)
    intro hjk hlog
    rw [Effect.nothing, List.append_nil]
    exact hlog.arrive (ha hjk c (hjk ▸ hc)) data
  | shutdown j =>
    obtain ⟨c, hc, rfl⟩ := Option.map_eq_some_iff.mp hstep
    apply h.after (live_eq_some.mp hc)
    intro _ hlog
    rw [Effect.nothing, List.append_nil]
    exact hlog.shutdown
  | io j =>
    obtain ⟨c, hc, hio⟩ := Option.bind_eq_some_iff.mp hstep
    obtain ⟨r, hr, rfl⟩ := Option.map_eq_some_iff.mp hio
    exact h.after (live_eq_some.mp hc) fun _ hlog => hlog.io hr
  | fail j n =>
    obtain ⟨c, hc, hfail⟩ := Option.bind_eq_some_iff.mp hstep
    obtain ⟨r, hr, rfl⟩ := Option.map_eq_some_iff.mp hfail
    exact h.after (live_eq_some.mp hc) fun hjk => absurd hjk ha
  | stop j =>
    obtain ⟨c, hc, rfl⟩ := Option.map_eq_some_iff.mp hstep
    apply h.after (live_eq_some.mp hc)
    intro _ hlog
    rw [stop_dispatched, List.append_nil]
    exact hlog.stop s.store
  | destroy j =>
    obtain ⟨c, hc, hdestroy⟩ := Option.bind_eq_some_iff.mp hstep
    obtain ⟨-, hdestroy⟩ := Option.ite_none_right_eq_some.mp hdestroy
    obtain rfl := Option.some.inj hdestroy
    apply h.after (live_eq_some.mp hc)
    intro _ hlog
    rw [stop_dispatched, List.append_nil]
    exact hlog.stop s.store

theorem reaches_undisturbed
    (h : Reaches (step host router) (Untroubled k) (initial maxConnections store) s) :
    HoldsAt k (Connection.Undisturbed host) s := by
  suffices hboth : HoldsAt k (Connection.Undisturbed host) s ∧ Streamed host s from hboth.1
  refine h.invariant (P := fun s => HoldsAt k (Connection.Undisturbed host) s ∧ Streamed host s)
    ⟨nofun, nofun, nofun⟩ ?_
  intro a b c hb ha hstep
  exact ⟨undisturbed_step hb.1 hb.2 ha hstep, hb.2.step hstep⟩

end Server

end HSFinancialServices
