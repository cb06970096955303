import HSFinancialServices.SessionStream

/-!
# The server: its accept loop and all its sessions

One accept handler runs through its atomic operations one at a time, with anything
else the server does in between. A session's completion handlers, its stop and its
destructor are single actions. The schedule decides what happens next, and the peers
decide what arrives and which operations fail.
-/

namespace HSFinancialServices

variable {σ : Type*}

/-- The next operation of a running accept handler: `is_open` (the completion carried no error
code if `ok`), the load of `active_connections_`, `fetch_add` on `total_connections_` and then on
`active_connections_`, `set_option`, `fetch_add` on `next_session_id_`, the construction of the
session, and the next `async_accept`. -/
inductive AcceptStep
  | entered (ok : Bool)
  | loading
  | admitted
  | counted
  | activated
  | optioned
  | numbered (sessionId : UInt64)
  | rearming
  deriving DecidableEq, Repr

structure Slot where
  connection : Connection
  alive : Bool

structure Server (σ : Type*) where
  maxConnections : UInt64
  acceptorOpen : Bool
  outstandingAccepts : ℕ
  handlers : List AcceptStep
  /-- An exception has left a handler and `io_context::run` with it. -/
  escaped : Bool
  totalConnections : UInt64
  activeConnections : UInt64
  /-- Only `on_request` adds to it, and nothing calls `on_request`. -/
  totalRequests : UInt64
  nextSessionId : UInt64
  slots : List Slot
  store : σ
  log : List (ℕ × Exchange)

inductive Action
  | accepted
  | acceptFailed
  | acceptStep (i : ℕ) (optionOk : Bool)
  | arrive (k : ℕ) (data : Bytes)
  | shutdown (k : ℕ)
  | io (k : ℕ)
  | fail (k n : ℕ)
  | stop (k : ℕ)
  | destroy (k : ℕ)
  deriving DecidableEq, Repr

namespace Server

def initial (maxConnections : UInt64) (store : σ) : Server σ :=
  { maxConnections := maxConnections
    acceptorOpen := true
    outstandingAccepts := 1
    handlers := []
    escaped := false
    totalConnections := 0
    activeConnections := 0
    totalRequests := 0
    nextSessionId := 1
    slots := []
    store := store
    log := [] }

def acceptCompleted (ok : Bool) (s : Server σ) : Option (Server σ) :=
  match s.outstandingAccepts with
  | 0 => none
  | n + 1 => some { s with outstandingAccepts := n, handlers := s.handlers ++ [.entered ok] }

def acceptStep (i : ℕ) (optionOk : Bool) (s : Server σ) : Option (Server σ) :=
  let goto (next : AcceptStep) (s : Server σ) : Server σ := { s with handlers := s.handlers.set i next }
  let leave (s : Server σ) : Server σ := { s with handlers := s.handlers.eraseIdx i }
  match s.handlers[i]? with
  | none => none
  | some (.entered ok) =>
    if s.acceptorOpen then some (goto (if ok then .loading else .rearming) s) else some (leave s)
  | some .loading =>
    if s.activeConnections < s.maxConnections then some (goto .admitted s)
    else some (goto .rearming s)
  | some .admitted =>
    some (goto .counted { s with totalConnections := s.totalConnections + 1 })
  | some .counted =>
    some (goto .activated { s with activeConnections := s.activeConnections + 1 })
  | some .activated =>
    -- the throwing overload: nothing in the handler catches, so it is left here
    if optionOk then some (goto .optioned s) else some { leave s with escaped := true }
  | some .optioned =>
    some (goto (.numbered s.nextSessionId) { s with nextSessionId := s.nextSessionId + 1 })
  | some (.numbered sessionId) =>
    some (goto .rearming { s with slots := s.slots ++ [⟨Connection.accept sessionId, true⟩] })
  | some .rearming =>
    some { leave s with outstandingAccepts := s.outstandingAccepts + 1 }

/-- What a handler of session `k` changes outside its session: the close callback subtracts
from `active_connections_`, and dispatched requests change the store. -/
def after (k : ℕ) (slot : Slot) (effect : Effect σ) (s : Server σ) : Server σ :=
  { s with
    slots := s.slots.set k slot
    activeConnections := s.activeConnections - UInt64.ofNat effect.onCloseCalls
    store := effect.store
    log := s.log ++ effect.dispatched.map fun e => (k, e) }

def live (k : ℕ) (s : Server σ) : Option Connection :=
  match s.slots[k]? with
  | some ⟨c, true⟩ => some c
  | _ => none

/-- Every action of the server. A session is destroyed when no operation holds it. -/
def step (host : HostOrder) (router : ServiceRouter σ) (action : Action) (s : Server σ) :
    Option (Server σ) :=
  match action with
  | .accepted => s.acceptCompleted true
  | .acceptFailed => s.acceptCompleted false
  | .acceptStep i optionOk => s.acceptStep i optionOk
  | .arrive k data =>
    (s.live k).map fun c => s.after k ⟨c.arrive data, true⟩ (.nothing s.store)
  | .shutdown k =>
    (s.live k).map fun c => s.after k ⟨{ c with eof := true }, true⟩ (.nothing s.store)
  | .io k =>
    (s.live k).bind fun c => (c.io host router s.store).map fun r => s.after k ⟨r.1, true⟩ r.2
  | .fail k n =>
    (s.live k).bind fun c => (c.fail host router n s.store).map fun r => s.after k ⟨r.1, true⟩ r.2
  | .stop k =>
    (s.live k).map fun c => s.after k ⟨(c.stop s.store).1, true⟩ (c.stop s.store).2
  | .destroy k =>
    (s.live k).bind fun c =>
      if c.session.pending = none then
        some (s.after k ⟨(c.stop s.store).1, false⟩ (c.stop s.store).2)
      else none

structure Moved (host : HostOrder) (router : ServiceRouter σ) (store : σ) (c c' : Connection)
    (effect : Effect σ) : Prop where
  sessionId : c'.session.sessionId = c.session.sessionId
  closes : effect.onCloseCalls + c.session.closed.toNat = c'.session.closed.toNat
  dispatches : (effect.store = store ∧ effect.dispatched = []) ∨
    ∃ req, effect.store = (router.dispatch req store).2 ∧
      effect.dispatched = [⟨req, (router.dispatch req store).1⟩]
  tracks : ∀ log, c.Tracks host False log → c'.Tracks host False (log ++ effect.dispatched)

section Steps
variable {host : HostOrder} {router : ServiceRouter σ}

theorem moved_of_handled {c c' : Connection} {store : σ} {effect : Effect σ}
    (h : c.session.Handled router store (c'.session, effect))
    (htracks : ∀ log, c.Tracks host False log → c'.Tracks host False (log ++ effect.dispatched)) :
    Moved host router store c c' effect := by
  generalize hr : (c'.session, effect) = r at h
  cases h with
  | closed _ hclosed hid =>
    cases hr
    refine ⟨hid, ?_, .inl ⟨rfl, rfl⟩, htracks⟩
    rw [hclosed]
    cases c.session.closed <;> rfl
  | continued _ hclosed hid =>
    cases hr
    exact ⟨hid, by simp only [Effect.nothing, hclosed, Nat.zero_add], .inl ⟨rfl, rfl⟩, htracks⟩
  | dispatched req _ hclosed hid =>
    cases hr
    exact ⟨hid, by simp only [hclosed, Nat.zero_add], .inr ⟨req, rfl, rfl⟩, htracks⟩

theorem moved_quietly {c c' : Connection} (h : c'.session = c.session)
    (htracks : ∀ log, c.Tracks host False log → c'.Tracks host False log) (store : σ) :
    Moved host router store c c' (.nothing store) := by
  refine ⟨by rw [h], by simp only [Effect.nothing, h, Nat.zero_add], .inl ⟨rfl, rfl⟩, ?_⟩
  intro log hlog
  rw [Effect.nothing, List.append_nil]
  exact htracks log hlog

theorem stop_closed (c : Connection) (store : σ) : (c.stop store).1.session.closed = true := by
  simp only [Connection.stop, Session.close_eq]

theorem stop_dispatched (c : Connection) (store : σ) : (c.stop store).2.dispatched = [] := by
  simp only [Connection.stop, Session.close_eq]

theorem moved_stop (c : Connection) (store : σ) :
    Moved host router store c (c.stop store).1 (c.stop store).2 := by
  refine ⟨?_, ?_, .inl ?_, ?_⟩
  · simp only [Connection.stop, Session.close_eq]
  · simp only [Connection.stop, Session.close_eq]
    cases c.session.closed <;> rfl
  · simp only [Connection.stop, Session.close_eq, and_self]
  · intro log hlog
    rw [stop_dispatched, List.append_nil]
    exact hlog.stop store

theorem live_eq_some {s : Server σ} {k : ℕ} {c : Connection} :
    s.live k = some c ↔ s.slots[k]? = some ⟨c, true⟩ := by
  simp only [live]
  split <;> simp_all

/-- An action starts an accept handler, takes it one operation further, or moves one session. -/
theorem step_cases {s s' : Server σ} {a : Action} (h : step host router a s = some s') :
    (∃ ok, s.acceptCompleted ok = some s') ∨
    (∃ i optionOk, a = .acceptStep i optionOk ∧ s.acceptStep i optionOk = some s') ∨
    ∃ k c c' alive effect, s.slots[k]? = some ⟨c, true⟩ ∧ s' = s.after k ⟨c', alive⟩ effect ∧
      Moved host router s.store c c' effect ∧ (alive = false → c'.session.closed = true) := by
  cases a with
  | accepted => exact .inl ⟨true, h⟩
  | acceptFailed => exact .inl ⟨false, h⟩
  | acceptStep i optionOk => exact .inr (.inl ⟨i, optionOk, rfl, h⟩)
  | arrive k data =>
    obtain ⟨c, hc, rfl⟩ := Option.map_eq_some_iff.mp h
    have hmoved : Moved host router s.store c (c.arrive data) (.nothing s.store) :=
      moved_quietly (by rfl) (fun _ hlog => hlog.arrive data) s.store
    exact .inr (.inr ⟨k, c, _, true, _, live_eq_some.mp hc, rfl, hmoved, nofun⟩)
  | shutdown k =>
    obtain ⟨c, hc, rfl⟩ := Option.map_eq_some_iff.mp h
    have hmoved : Moved host router s.store c { c with eof := true } (.nothing s.store) :=
      moved_quietly (by rfl) (fun _ ⟨frames, tail, hat⟩ => ⟨frames, tail, { hat with }⟩) s.store
    exact .inr (.inr ⟨k, c, _, true, _, live_eq_some.mp hc, rfl, hmoved, nofun⟩)
  | io k =>
    obtain ⟨c, hc, hio⟩ := Option.bind_eq_some_iff.mp h
    obtain ⟨r, hr, rfl⟩ := Option.map_eq_some_iff.mp hio
    exact .inr (.inr ⟨k, c, r.1, true, r.2, live_eq_some.mp hc, rfl,
      moved_of_handled (Connection.io_handled hr) fun _ hlog => hlog.io hr, nofun⟩)
  | fail k n =>
    obtain ⟨c, hc, hfail⟩ := Option.bind_eq_some_iff.mp h
    obtain ⟨r, hr, rfl⟩ := Option.map_eq_some_iff.mp hfail
    exact .inr (.inr ⟨k, c, r.1, true, r.2, live_eq_some.mp hc, rfl,
      moved_of_handled (Connection.fail_handled hr) fun _ hlog => hlog.fail hr, nofun⟩)
  | stop k =>
    obtain ⟨c, hc, rfl⟩ := Option.map_eq_some_iff.mp h
    exact .inr (.inr ⟨k, c, _, true, _, live_eq_some.mp hc, rfl, moved_stop c s.store, nofun⟩)
  | destroy k =>
    obtain ⟨c, hc, hdestroy⟩ := Option.bind_eq_some_iff.mp h
    split at hdestroy
    · cases hdestroy
      exact .inr (.inr ⟨k, c, _, false, _, live_eq_some.mp hc, rfl, moved_stop c s.store,
        fun _ => stop_closed c s.store⟩)
    · cases hdestroy

structure Accepting (s s' : Server σ) : Prop where
  store : s'.store = s.store
  log : s'.log = s.log
  totalRequests : s'.totalRequests = s.totalRequests
  slots : s'.slots = s.slots ∨
    ∃ sessionId, s'.slots = s.slots ++ [⟨Connection.accept sessionId, true⟩]

theorem acceptCompleted_accepting {s s' : Server σ} {ok : Bool}
    (h : s.acceptCompleted ok = some s') : Accepting s s' := by
  simp only [acceptCompleted] at h
  split at h
  · cases h
  · cases h
    exact ⟨rfl, rfl, rfl, .inl rfl⟩

theorem acceptStep_accepting {s s' : Server σ} {i : ℕ} {optionOk : Bool}
    (h : s.acceptStep i optionOk = some s') : Accepting s s' := by
  simp only [acceptStep] at h
  split at h
  · cases h
  · split at h <;> cases h <;> exact ⟨rfl, rfl, rfl, .inl rfl⟩
  · split at h <;> cases h <;> exact ⟨rfl, rfl, rfl, .inl rfl⟩
  · cases h
    exact ⟨rfl, rfl, rfl, .inl rfl⟩
  · cases h
    exact ⟨rfl, rfl, rfl, .inl rfl⟩
  · split at h <;> cases h <;> exact ⟨rfl, rfl, rfl, .inl rfl⟩
  · cases h
    exact ⟨rfl, rfl, rfl, .inl rfl⟩
  · cases h
    exact ⟨rfl, rfl, rfl, .inr ⟨_, rfl⟩⟩
  · cases h
    exact ⟨rfl, rfl, rfl, .inl rfl⟩

end Steps

end Server

end HSFinancialServices
