import HSFinancialServices.Lib.Transitions
import HSFinancialServices.Services.Registry
import HSFinancialServices.Server

/-!
# The count of requests served

`total_requests_` keeps the value it starts with, so it is the number of dispatched
requests exactly in the runs that dispatch none.
-/

namespace HSFinancialServices
open Services Transitions

variable {σ : Type*} {host : HostOrder} {router : ServiceRouter σ}

/-- The bytes that the pending read asks for are there, and are the last of a request. -/
def Connection.CompletesRequest (host : HostOrder) (c : Connection) : Prop :=
  match c.session.pending with
  | some .readHeader => c.session.headerBuf.length ≤ c.unread.length ∧
      ∃ hdr, decodeHeader host (c.unread.take c.session.headerBuf.length) = .ok hdr ∧
        hdr.payloadLength = 0
  | some .readBody => c.session.bodyBuf.length ≤ c.unread.length
  | _ => False

theorem Connection.io_dispatched_iff {c c' : Connection} {store : σ} {effect : Effect σ}
    (h : c.io host router store = some (c', effect)) :
    effect.dispatched = [] ↔ ¬ c.CompletesRequest host := by
  cases io_cases h with
  | written hp => simp only [CompletesRequest, hp, Effect.nothing, not_false_eq_true]
  | @cutShort op hp hop hlt =>
    cases op with
    | write => exact absurd rfl hop
    | readHeader =>
      simp only [Session.requested, hp] at hlt
      simp only [CompletesRequest, hp, not_le.mpr hlt, false_and, not_false_eq_true]
    | readBody =>
      simp only [Session.requested, hp] at hlt
      simp only [CompletesRequest, hp, not_le.mpr hlt, not_false_eq_true]
  | refused hp hn hdecode =>
    simp only [CompletesRequest, hp, hdecode, reduceCtorEq, false_and, exists_false, and_false,
      not_false_eq_true]
  | bodyFollows hp hn hdecode hlen =>
    simp only [CompletesRequest, hp, hdecode, Except.ok.injEq, exists_eq_left', hlen, and_false,
      Effect.nothing, not_false_eq_true]
  | emptyRequest hp hn hdecode hlen =>
    simp only [CompletesRequest, hp, hn, hdecode, Except.ok.injEq, exists_eq_left', hlen,
      and_self, Session.dispatchAndWrite, not_true_eq_false, reduceCtorEq]
  | request hp hn =>
    simp only [CompletesRequest, hp, hn, Session.dispatchAndWrite, not_true_eq_false,
      reduceCtorEq]

namespace Server

variable {maxConnections : UInt64} {store : σ} {s s' : Server σ}

def Quiet (host : HostOrder) (a : Action) (s : Server σ) : Prop :=
  match a with
  | .io k => ∀ c, s.live k = some c → ¬ c.CompletesRequest host
  | _ => True

theorem step_totalRequests {a : Action} (h : step host router a s = some s') :
    s'.totalRequests = s.totalRequests := by
  obtain ⟨ok, hs⟩ | ⟨i, optionOk, -, hs⟩ | ⟨k, c, c', alive, effect, -, rfl, -, -⟩ := step_cases h
  · exact (acceptCompleted_accepting hs).totalRequests
  · exact (acceptStep_accepting hs).totalRequests
  · rfl

theorem log_after_eq_nil (k : ℕ) (slot : Slot) (effect : Effect σ) (s : Server σ) :
    (s.after k slot effect).log = [] ↔ s.log = [] ∧ effect.dispatched = [] := by
  simp only [after, List.append_eq_nil_iff, List.map_eq_nil_iff]

theorem step_log_eq_nil {a : Action} (h : step host router a s = some s') :
    s'.log = [] ↔ s.log = [] ∧ Quiet host a s := by
  cases a with
  | accepted => simp only [(acceptCompleted_accepting h).log, Quiet, and_true]
  | acceptFailed => simp only [(acceptCompleted_accepting h).log, Quiet, and_true]
  | acceptStep i optionOk => simp only [(acceptStep_accepting h).log, Quiet, and_true]
  | arrive k data =>
    obtain ⟨c, -, rfl⟩ := Option.map_eq_some_iff.mp h
    simp only [log_after_eq_nil, Effect.nothing, Quiet]
  | shutdown k =>
    obtain ⟨c, -, rfl⟩ := Option.map_eq_some_iff.mp h
    simp only [log_after_eq_nil, Effect.nothing, Quiet]
  | io k =>
    obtain ⟨c, hc, hio⟩ := Option.bind_eq_some_iff.mp h
    obtain ⟨r, hr, rfl⟩ := Option.map_eq_some_iff.mp hio
    simp only [log_after_eq_nil, Connection.io_dispatched_iff hr, Quiet, hc, Option.some.injEq,
      forall_eq']
  | fail k n =>
    obtain ⟨c, -, hfail⟩ := Option.bind_eq_some_iff.mp h
    obtain ⟨r, hr, rfl⟩ := Option.map_eq_some_iff.mp hfail
    have hnone : r.2.dispatched = [] := by
      cases hp : c.session.pending with
      | none => simp only [Connection.fail, hp, reduceCtorEq] at hr
      | some op =>
        simp only [Connection.fail, hp, Session.complete_none hp, Option.some.injEq] at hr
        rw [← hr]
    simp only [log_after_eq_nil, hnone, Quiet]
  | stop k =>
    obtain ⟨c, -, rfl⟩ := Option.map_eq_some_iff.mp h
    simp only [log_after_eq_nil, Connection.stop, Session.close_eq, Quiet]
  | destroy k =>
    obtain ⟨c, -, hdestroy⟩ := Option.bind_eq_some_iff.mp h
    split at hdestroy
    · cases hdestroy
      simp only [log_after_eq_nil, Connection.stop, Session.close_eq, Quiet]
    · cases hdestroy

theorem reaches_totalRequests {ok : Action → Server σ → Prop}
    (h : Reaches (step host router) ok (initial maxConnections store) s) :
    s.totalRequests = 0 := by
  apply h.invariant (by rfl)
  intro a b c hb _ hstep
  rw [step_totalRequests hstep, hb]

theorem reaches_log_eq_nil_iff
    (h : Reaches (step host router) (fun _ _ => True) (initial maxConnections store) s) :
    s.log = [] ↔ Reaches (step host router) (Quiet host) (initial maxConnections store) s := by
  constructor
  · intro hlog
    induction h with
    | refl => exact .refl
    | tail a _ _ hstep ih =>
      obtain ⟨hbefore, hquiet⟩ := (step_log_eq_nil hstep).mp hlog
      exact (ih hbefore).tail a hquiet hstep
  · intro hquiet
    apply hquiet.invariant (by rfl)
    intro a b c hb hok hstep
    exact (step_log_eq_nil hstep).mpr ⟨hb, hok⟩

theorem requests_counted_iff
    (h : Reaches (step host router) (fun _ _ => True) (initial maxConnections store) s) :
    s.totalRequests.toNat = s.log.length ↔
      Reaches (step host router) (Quiet host) (initial maxConnections store) s := by
  rw [reaches_totalRequests h, ← reaches_log_eq_nil_iff h]
  exact eq_comm.trans List.length_eq_zero_iff

theorem requests_counted_half_header :
    ∃ s : Server World, s.slots.length = 1 ∧
      Reaches (step .little (serverRouter exactDoubles)) (Quiet .little)
        (initial 50000 (World.initial fun _ => 0)) s := by
  let next := Action.acceptStep 0 true
  let run := [.accepted, next, next, next, next, next, next, next, next,
    .arrive 0 [0, 1, 0, 0], .shutdown 0, .io 0].foldlM
    (fun s a => if True then step .little (serverRouter exactDoubles) a s else none)
    (initial 50000 (World.initial fun _ => 0))
  have hrun : run.map (fun s => (s.slots.length, s.totalRequests.toNat, s.log.length)) =
      some (1, 0, 0) := by decide +kernel
  obtain ⟨s, hs, hend⟩ := Option.map_eq_some_iff.mp hrun
  obtain ⟨hslots, hcounts⟩ := Prod.mk.inj hend
  obtain ⟨htotal, hlog⟩ := Prod.mk.inj hcounts
  exact ⟨s, hslots, (requests_counted_iff (Reaches.of_foldlM hs)).mp (htotal.trans hlog.symm)⟩

theorem ping_not_counted :
    ¬ ∀ s : Server World, Reaches (step .little (serverRouter exactDoubles)) (fun _ _ => True)
        (initial 50000 (World.initial fun _ => 0)) s → s.totalRequests.toNat = s.log.length := by
  intro hcounted
  let next := Action.acceptStep 0 true
  let ping := (Message.make MessageType.kPing [] 0).serialise .little
  let run := [.accepted, next, next, next, next, next, next, next, next,
    .arrive 0 ping, .io 0].foldlM
    (fun s a => if True then step .little (serverRouter exactDoubles) a s else none)
    (initial 50000 (World.initial fun _ => 0))
  have hrun : run.map (fun s => (s.totalRequests.toNat, s.log.length)) = some (0, 1) := by
    decide +kernel
  obtain ⟨s, hs, hend⟩ := Option.map_eq_some_iff.mp hrun
  obtain ⟨htotal, hlog⟩ := Prod.mk.inj hend
  have heq := hcounted s (Reaches.of_foldlM hs)
  omega

end Server

end HSFinancialServices
