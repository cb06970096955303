import HSFinancialServices.Lib.AtomicCalls
import HSFinancialServices.LoadGen.ResponseStream
import HSFinancialServices.ServerStreams

/-!
# The load generator and the server together

Every client has one connection to the server. The network holds bytes back as long as it
likes and cuts them anywhere, and connections fail on either side at any time, but a socket
delivers nothing that the other end has not written. Whose connection a session got shows
when the session is created.
-/

namespace HSFinancialServices

def Connection.outbound (c : Connection) : Bytes :=
  match c.session.pending with
  | some .write => c.written ++ c.session.writeBuf
  | some .readHeader | some .readBody | none => c.written

theorem Connection.Tracks.outbound_replies {host : HostOrder} {calm : Prop} {c : Connection}
    {log : List Exchange} (h : c.Tracks host calm log) : c.outbound <+: replies host log := by
  obtain ⟨frames, tail, hat⟩ := h
  have hphase := hat.phase
  rw [Connection.outbound]
  split
  · rename_i hp
    rw [phase_write hp] at hphase
    rw [hphase.2]
  all_goals exact hat.written_prefix

/-- The connection of the handler is closed again, and no session gets it. -/
def Server.rejects {σ : Type*} (a : Action) (s : Server σ) : Bool :=
  match a with
  | .acceptStep i optionOk =>
    match s.handlers[i]? with
    | some (.entered ok) => ok && !s.acceptorOpen
    | some .loading => !decide (s.activeConnections < s.maxConnections)
    | some .activated => !optionOk
    | _ => false
  | _ => false

def Server.adopts {σ : Type*} (a : Action) (s : Server σ) : Bool :=
  match a with
  | .acceptStep i _ =>
    match s.handlers[i]? with
    | some (.numbered _) => true
    | _ => false
  | _ => false

namespace LoadGen

def AsyncClient.dialled {γ : Type*} (c : AsyncClient γ) : Bool :=
  c.started && c.outstanding != [.resolve] && c.failedIn != some .resolve

namespace LoadTest
variable {γ : Type*}

def dialled (i : ℕ) (s : LoadTest γ) : Bool := (s.clients[i]?).elim false AsyncClient.dialled

end LoadTest

end LoadGen

namespace System
open AtomicCalls LoadGen Transitions

structure Network (γ σ : Type*) where
  test : LoadTest γ
  server : Server σ
  /-- The clients of the sessions, in the order in which the sessions were created -/
  peers : List ℕ
  rejected : List ℕ
  consumed : ℕ → Bytes
  history : List (Event ℕ Message Message)

inductive Turn
  | client (a : LoadTest.Action)
  /-- Client `i` is the one that is accepted or rejected, if any is. -/
  | server (i : ℕ) (a : HSFinancialServices.Action)
  deriving DecidableEq, Repr

namespace Network

variable {γ σ : Type*}

def initial (numClients : UInt32) (generator : ℕ → γ) (maxConnections : UInt64) (store : σ) :
    Network γ σ :=
  { test := LoadTest.initial numClients generator
    server := Server.initial maxConnections store
    peers := []
    rejected := []
    consumed := fun _ => []
    history := [] }

def inbound (i : ℕ) (n : Network γ σ) : Bytes :=
  (n.server.slots[n.peers.idxOf i]?).elim [] fun slot => slot.connection.outbound

/-- What the client of session `k` has written or is about to write and the server has not
received yet -/
def outgoing (host : HostOrder) (k : ℕ) (n : Network γ σ) : Bytes :=
  match n.server.slots[k]?, n.peers[k]? with
  | some slot, some i =>
    (serialiseAll host (n.test.sentBy i)).drop slot.connection.arrived.length
  | _, _ => []

def Waiting (i : ℕ) (n : Network γ σ) : Prop :=
  i ∉ n.peers ∧ i ∉ n.rejected ∧ n.test.dialled i = true

instance (i : ℕ) (n : Network γ σ) : Decidable (n.Waiting i) := inferInstanceAs (Decidable (_ ∧ _))

def taken (a : LoadTest.Action) (n : Network γ σ) : Bytes :=
  (a.client.bind fun i => n.test.clients[i]?).elim [] fun c => a.read c

def Offers (a : LoadTest.Action) (n : Network γ σ) : Prop :=
  match a.client with
  | some i => n.taken a <+: (n.inbound i).drop (n.consumed i).length
  | none => True

instance (a : LoadTest.Action) (n : Network γ σ) : Decidable (n.Offers a) :=
  match h : a.client with
  | some i => decidable_of_iff (n.taken a <+: (n.inbound i).drop (n.consumed i).length)
      (by rw [Offers, h])
  | none => .isTrue (by rw [Offers, h]; trivial)

/-- An accept completes for a client that has asked, and a session receives what its client
has written. -/
def Allows (host : HostOrder) (i : ℕ) (a : Action) (n : Network γ σ) : Prop :=
  (a = .accepted ∨ n.server.rejects a = true ∨ n.server.adopts a = true → n.Waiting i) ∧
    match a with
    | .arrive k data => data ≠ [] ∧ data <+: n.outgoing host k
    | _ => True

instance (host : HostOrder) (i : ℕ) (a : Action) (n : Network γ σ) :
    Decidable (n.Allows host i a) :=
  match a with
  | .arrive _ _ => inferInstanceAs (Decidable (_ ∧ _ ∧ _))
  | .accepted | .acceptFailed | .acceptStep _ _ | .shutdown _ | .io _ | .fail _ _ | .stop _
  | .destroy _ => inferInstanceAs (Decidable (_ ∧ True))

def events (i : ℕ) (t t' : LoadTest γ) : List (Event ℕ Message Message) :=
  ((t'.sentBy i).drop (t.sentBy i).length).map (.call i) ++
    ((t'.answersTo i).drop (t.answersTo i).length).map (.reply i)

def clientStep (a : LoadTest.Action) (t : LoadTest γ) (n : Network γ σ) : Network γ σ :=
  match a.client with
  | none => { n with test := t }
  | some i => { n with
      test := t
      consumed := Function.update n.consumed i (n.consumed i ++ n.taken a)
      history := n.history ++ events i n.test t }

def serverStep (i : ℕ) (a : Action) (s : Server σ) (n : Network γ σ) : Network γ σ :=
  { n with
    server := s
    peers := if n.server.adopts a then n.peers ++ [i] else n.peers
    rejected := if n.server.rejects a then n.rejected ++ [i] else n.rejected }

def step (host : HostOrder) (router : ServiceRouter σ) (nextRequest : γ → Message × γ)
    (turn : Turn) (n : Network γ σ) : Option (Network γ σ) :=
  match turn with
  | .client a =>
    if n.Offers a then (LoadTest.step host nextRequest a n.test).map fun t => n.clientStep a t
    else none
  | .server i a =>
    if n.Allows host i a then (Server.step host router a n.server).map fun s => n.serverStep i a s
    else none

section Projections
variable {host : HostOrder} {router : ServiceRouter σ} {nextRequest : γ → Message × γ}
  {numClients : UInt32} {generator : ℕ → γ} {maxConnections : UInt64} {store : σ}
  {n n' : Network γ σ}

theorem clientStep_of_none {a : LoadTest.Action} (ha : a.client = none) (t : LoadTest γ)
    (n : Network γ σ) : n.clientStep a t = { n with test := t } := by
  simp only [clientStep, ha]

theorem clientStep_of_some {a : LoadTest.Action} {i : ℕ} (ha : a.client = some i) (t : LoadTest γ)
    (n : Network γ σ) : n.clientStep a t = { n with
      test := t
      consumed := Function.update n.consumed i (n.consumed i ++ n.taken a)
      history := n.history ++ events i n.test t } := by
  simp only [clientStep, ha]

@[simp] theorem clientStep_test (a : LoadTest.Action) (t : LoadTest γ) (n : Network γ σ) :
    (n.clientStep a t).test = t := by
  simp only [clientStep]
  split <;> rfl

@[simp] theorem clientStep_server (a : LoadTest.Action) (t : LoadTest γ) (n : Network γ σ) :
    (n.clientStep a t).server = n.server := by
  simp only [clientStep]
  split <;> rfl

@[simp] theorem clientStep_peers (a : LoadTest.Action) (t : LoadTest γ) (n : Network γ σ) :
    (n.clientStep a t).peers = n.peers := by
  simp only [clientStep]
  split <;> rfl

@[simp] theorem clientStep_rejected (a : LoadTest.Action) (t : LoadTest γ) (n : Network γ σ) :
    (n.clientStep a t).rejected = n.rejected := by
  simp only [clientStep]
  split <;> rfl

theorem reaches_test {ok : Turn → Network γ σ → Prop}
    (h : Reaches (step host router nextRequest) ok
      (initial numClients generator maxConnections store) n) :
    Reaches (LoadTest.step host nextRequest) (fun _ _ => True)
      (LoadTest.initial numClients generator) n.test := by
  apply h.project Network.test
  intro turn b c _ hstep
  cases turn with
  | client a =>
    obtain ⟨-, hstep⟩ := Option.ite_none_right_eq_some.mp hstep
    obtain ⟨t, ht, rfl⟩ := Option.map_eq_some_iff.mp hstep
    rw [clientStep_test]
    exact .inr ⟨a, trivial, ht⟩
  | server i a =>
    obtain ⟨-, hstep⟩ := Option.ite_none_right_eq_some.mp hstep
    obtain ⟨s, -, rfl⟩ := Option.map_eq_some_iff.mp hstep
    exact .inl rfl

theorem reaches_server {ok : Turn → Network γ σ → Prop}
    {ok' : Action → Server σ → Prop}
    (hok : ∀ i a (n : Network γ σ), ok (.server i a) n → n.Allows host i a → ok' a n.server)
    (h : Reaches (step host router nextRequest) ok
      (initial numClients generator maxConnections store) n) :
    Reaches (Server.step host router) ok' (Server.initial maxConnections store) n.server := by
  apply h.project Network.server
  intro turn b c hb hstep
  cases turn with
  | client a =>
    obtain ⟨-, hstep⟩ := Option.ite_none_right_eq_some.mp hstep
    obtain ⟨t, -, rfl⟩ := Option.map_eq_some_iff.mp hstep
    exact .inl (clientStep_server a t b)
  | server i a =>
    obtain ⟨hallows, hstep⟩ := Option.ite_none_right_eq_some.mp hstep
    obtain ⟨s, hs, rfl⟩ := Option.map_eq_some_iff.mp hstep
    exact .inr ⟨a, hok i a b hb hallows, hs⟩

end Projections

end Network

end System

end HSFinancialServices
