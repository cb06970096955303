import HSFinancialServices.Ui.Protocol
import HSFinancialServices.Server
import HSFinancialServices.SessionRun

/-!
# The UI client's blocking socket calls

Every call of `send` and `recv` follows a script: what the server does until the call
returns, whether it returns `SOCKET_ERROR`, and how many bytes it moves. The scripts
range over all timings, short transfers, timeouts and disconnections.
-/

namespace HSFinancialServices

variable {σ : Type*}

/-- What the server does on its own: on this connection, or for another client. -/
inductive ServerTurn
  | io
  | fail (n : ℕ)
  | stop
  | other (request : Message)
  deriving DecidableEq, Repr

namespace Line

def turn (host : HostOrder) (router : ServiceRouter σ) (l : Line σ) : ServerTurn → Line σ
  | .io => (l.io host router).getD l
  | .fail n => ((l.connection.fail host router n l.store).map l.after).getD l
  | .stop => l.after (l.connection.stop l.store)
  | .other request => { l with store := (router.dispatch request l.store).2 }

end Line

section Turns
variable {host : HostOrder} {router : ServiceRouter σ} {P : σ → Prop}

structure Line.Sound (host : HostOrder) (router : ServiceRouter σ) (P : σ → Prop) (l : Line σ) :
    Prop where
  tracks : l.connection.Tracks host False l.log
  store : P l.store
  answers : ∀ e ∈ l.log, ∃ store, P store ∧ e.response = (router.dispatch e.request store).1

structure Line.Evolves (host : HostOrder) (router : ServiceRouter σ) (P : σ → Prop) (data : Bytes)
    (l l' : Line σ) : Prop where
  sound : l.Sound host router P → l'.Sound host router P
  log : l.log <+: l'.log
  arrived : l'.connection.arrived = l.connection.arrived ++ data
  written : l.connection.written <+: l'.connection.written

theorem Line.Evolves.refl (l : Line σ) : l.Evolves host router P [] l :=
  ⟨id, List.prefix_refl _, (List.append_nil _).symm, List.prefix_refl _⟩

theorem Line.Evolves.trans {data data' : Bytes} {l l' l'' : Line σ}
    (h : l.Evolves host router P data l') (h' : l'.Evolves host router P data' l'') :
    l.Evolves host router P (data ++ data') l'' where
  sound := h'.sound ∘ h.sound
  log := h.log.trans h'.log
  arrived := by rw [h'.arrived, h.arrived, List.append_assoc]
  written := h.written.trans h'.written

theorem Line.evolves_arrive (l : Line σ) (data : Bytes) :
    l.Evolves host router P data { l with connection := l.connection.arrive data } where
  sound h := ⟨h.tracks.arrive data, h.store, h.answers⟩
  log := List.prefix_refl _
  arrived := rfl
  written := List.prefix_refl _

theorem Connection.io_written {c c' : Connection} {store : σ} {effect : Effect σ}
    (h : c.io host router store = some (c', effect)) : c.written <+: c'.written := by
  match hp : c.session.pending with
  | none => simp only [Connection.io, hp, reduceCtorEq] at h
  | some .write =>
    simp only [Connection.io, hp, Option.some.injEq, Prod.mk.injEq] at h
    obtain ⟨rfl, -⟩ := h
    exact List.prefix_append _ _
  | some .readHeader | some .readBody =>
    simp only [Connection.io, hp] at h
    split_ifs at h
    · simp only [Option.some.injEq, Prod.mk.injEq] at h
      obtain ⟨rfl, -⟩ := h
      exact List.prefix_refl _
    · simp only [Option.some.injEq, Prod.mk.injEq] at h
      obtain ⟨rfl, -⟩ := h
      exact List.prefix_refl _

theorem Connection.fail_stream {c c' : Connection} {n : ℕ} {store : σ} {effect : Effect σ}
    (h : c.fail host router n store = some (c', effect)) :
    c'.arrived = c.arrived ∧ c.written <+: c'.written := by
  cases hp : c.session.pending with
  | none => simp only [Connection.fail, hp, reduceCtorEq] at h
  | some op =>
    simp only [Connection.fail, hp, Option.some.injEq, Prod.mk.injEq] at h
    obtain ⟨rfl, -⟩ := h
    exact ⟨rfl, List.prefix_append _ _⟩

theorem Line.evolves_after (hP : ∀ request store, P store → P (router.dispatch request store).2)
    {l : Line σ} {c' : Connection} {effect : Effect σ}
    (hmoved : Server.Moved host router l.store l.connection c' effect)
    (harrived : c'.arrived = l.connection.arrived)
    (hwritten : l.connection.written <+: c'.written) :
    l.Evolves host router P [] (l.after (c', effect)) := by
  refine ⟨?_, List.prefix_append _ _, by rw [List.append_nil]; exact harrived, hwritten⟩
  intro h
  obtain ⟨hstore, hnone⟩ | ⟨request, hstore, hone⟩ := hmoved.dispatches
  · refine ⟨hmoved.tracks l.log h.tracks, ?_, ?_⟩
    · simp only [Line.after, hstore]
      exact h.store
    · simp only [Line.after, hnone, List.append_nil]
      exact h.answers
  · refine ⟨hmoved.tracks l.log h.tracks, ?_, ?_⟩
    · simp only [Line.after, hstore]
      exact hP request l.store h.store
    · intro e he
      simp only [Line.after, hone, List.mem_append, List.mem_singleton] at he
      obtain he | rfl := he
      · exact h.answers e he
      · exact ⟨l.store, h.store, rfl⟩

theorem Line.evolves_turn (hP : ∀ request store, P store → P (router.dispatch request store).2)
    (l : Line σ) (t : ServerTurn) : l.Evolves host router P [] (l.turn host router t) := by
  cases t with
  | io =>
    simp only [Line.turn, Line.io]
    cases hio : l.connection.io host router l.store with
    | none => exact .refl l
    | some r =>
      have hmoved := Server.moved_of_handled (Connection.io_handled hio) fun _ hlog => hlog.io hio
      exact Line.evolves_after hP hmoved (Connection.io_stream hio).1 (Connection.io_written hio)
  | fail n =>
    simp only [Line.turn]
    cases hfail : l.connection.fail host router n l.store with
    | none => exact .refl l
    | some r =>
      have hmoved := Server.moved_of_handled (Connection.fail_handled hfail)
        fun _ hlog => hlog.fail hfail
      obtain ⟨harrived, hwritten⟩ := Connection.fail_stream hfail
      exact Line.evolves_after hP hmoved harrived hwritten
  | stop =>
    exact Line.evolves_after hP (Server.moved_stop l.connection l.store) rfl (List.prefix_refl _)
  | other request =>
    exact ⟨fun h => ⟨h.tracks, hP request l.store h.store, h.answers⟩, List.prefix_refl _,
      (List.append_nil _).symm, List.prefix_refl _⟩

theorem Line.evolves_turns (hP : ∀ request store, P store → P (router.dispatch request store).2)
    (turns : List ServerTurn) (l : Line σ) :
    l.Evolves host router P [] (turns.foldl (Line.turn host router) l) := by
  induction turns generalizing l with
  | nil => exact .refl l
  | cons t turns ih => exact (l.evolves_turn hP t).trans (ih (l.turn host router t))

end Turns

namespace Ui

/-- One call of `send` or `recv`. A `send` that fails may have moved bytes before. -/
structure Call where
  turns : List ServerTurn
  error : Bool
  count : ℕ
  deriving DecidableEq, Repr

structure Link (σ : Type*) where
  line : Line σ
  received : ℕ

section Calls
variable (host : HostOrder) (router : ServiceRouter σ)

def Link.elapse (link : Link σ) (turns : List ServerTurn) : Link σ :=
  { link with line := turns.foldl (Line.turn host router) link.line }

/-- `none` is `SOCKET_ERROR`. -/
def Link.send (link : Link σ) (data : Bytes) (call : Call) : Option ℕ × Link σ :=
  let link := link.elapse host router call.turns
  let n := min call.count data.length
  let connection := link.line.connection.arrive (data.take n)
  let link := { link with line := { link.line with connection := connection } }
  (if call.error then none else some n, link)

def Link.recv (link : Link σ) (len : ℕ) (call : Call) : Option Bytes × Link σ :=
  let link := link.elapse host router call.turns
  if call.error then (none, link)
  else
    let data := (link.line.connection.written.drop link.received).take (min call.count len)
    (some data, { link with received := link.received + data.length })

/-- The loop of `SendAll`. After the last call of the script the socket is lost. -/
def sendAll : List Call → Bytes → Link σ → Bool × List Call × Link σ
  | [], data, link => (data.isEmpty, [], link)
  | call :: calls, data, link =>
    if data = [] then (true, call :: calls, link)
    else
      match link.send host router data call with
      | (none, link) => (false, calls, link)
      | (some 0, link) => (false, calls, link)
      | (some n, link) => sendAll calls (data.drop n) link

def recvAll : List Call → ℕ → Bytes → Link σ → Option Bytes × List Call × Link σ
  | [], len, data, link => (if len = 0 then some data else none, [], link)
  | call :: calls, len, data, link =>
    if len = 0 then (some data, call :: calls, link)
    else
      match link.recv host router len call with
      | (none, link) => (none, calls, link)
      | (some [], link) => (none, calls, link)
      | (some more, link) => recvAll calls (len - more.length) (data ++ more) link

def sendMsg (type : UInt16) (payload : Bytes) (calls : List Call) (link : Link σ) :
    Bool × List Call × Link σ :=
  let header := encodeHeader (UInt32.ofNat payload.length) type 0
  match sendAll host router calls header link with
  | (false, calls, link) => (false, calls, link)
  | (true, calls, link) =>
    if payload = [] then (true, calls, link) else sendAll host router calls payload link

def recvMsg (calls : List Call) (link : Link σ) :
    Option (UInt16 × Bytes) × List Call × Link σ :=
  match recvAll host router calls kHeaderSize [] link with
  | (none, calls, link) => (none, calls, link)
  | (some header, calls, link) =>
    let (payloadLen, type) := decodeHeader header
    if payloadLen > kMaxPayload then (none, calls, link)
    else if payloadLen = 0 then (some (type, []), calls, link)
    else
      match recvAll host router calls payloadLen.toNat [] link with
      | (none, calls, link) => (none, calls, link)
      | (some payload, calls, link) => (some (type, payload), calls, link)

variable {host router} {P : σ → Prop}
  (hP : ∀ request store, P store → P (router.dispatch request store).2)
include hP

theorem elapse_evolves (link : Link σ) (turns : List ServerTurn) :
    link.line.Evolves host router P [] (link.elapse host router turns).line :=
  Line.evolves_turns hP turns link.line

theorem send_spec (link : Link σ) (data : Bytes) (call : Call) {sent : Option ℕ}
    {link' : Link σ} (h : link.send host router data call = (sent, link')) :
    ∃ n, link.line.Evolves host router P (data.take n) link'.line ∧
      link'.received = link.received ∧ (∀ m, sent = some m → m = n) := by
  simp only [Link.send, Prod.mk.injEq] at h
  obtain ⟨rfl, rfl⟩ := h
  refine ⟨min call.count data.length, ?_, rfl, ?_⟩
  · exact (elapse_evolves hP link call.turns).trans (Line.evolves_arrive _ _)
  · intro m hm
    split at hm
    · cases hm
    · exact (Option.some.inj hm).symm

theorem sendAll_spec (calls : List Call) (data : Bytes) (link : Link σ) {ok : Bool}
    {calls' : List Call} {link' : Link σ}
    (h : sendAll host router calls data link = (ok, calls', link')) :
    ∃ sent, sent <+: data ∧ link.line.Evolves host router P sent link'.line ∧
      link'.received = link.received ∧ (ok = true → sent = data) := by
  induction calls generalizing data link with
  | nil =>
    simp only [sendAll, Prod.mk.injEq] at h
    obtain ⟨rfl, -, rfl⟩ := h
    refine ⟨[], List.nil_prefix, .refl _, rfl, ?_⟩
    intro hempty
    exact (List.isEmpty_iff.mp hempty).symm
  | cons call calls ih =>
    rw [sendAll] at h
    split at h
    · rename_i hempty
      subst hempty
      obtain ⟨-, -, rfl⟩ := h
      exact ⟨[], List.nil_prefix, .refl _, rfl, fun _ => rfl⟩
    · generalize hsend : link.send host router data call = r at h
      obtain ⟨result, link₁⟩ := r
      obtain ⟨n, hn, hreceived, hresult⟩ := send_spec hP link data call hsend
      match result with
      | none =>
        simp only [Prod.mk.injEq] at h
        obtain ⟨rfl, -, rfl⟩ := h
        exact ⟨data.take n, List.take_prefix _ _, hn, hreceived, nofun⟩
      | some 0 =>
        simp only [Prod.mk.injEq] at h
        obtain ⟨rfl, -, rfl⟩ := h
        exact ⟨data.take n, List.take_prefix _ _, hn, hreceived, nofun⟩
      | some (m + 1) =>
        obtain rfl := hresult (m + 1) rfl
        obtain ⟨sent, hsent, hrest, hreceived', hall⟩ := ih _ _ h
        refine ⟨data.take (m + 1) ++ sent, ?_, hn.trans hrest, hreceived'.trans hreceived, ?_⟩
        · have hprefix := (List.prefix_append_right_inj (data.take (m + 1))).mpr hsent
          rwa [List.take_append_drop] at hprefix
        · intro hok
          rw [hall hok, List.take_append_drop]

theorem recv_spec (link : Link σ) (len : ℕ) (call : Call) {got : Option Bytes} {link' : Link σ}
    (h : link.recv host router len call = (got, link')) :
    link.line.Evolves host router P [] link'.line ∧
      ∀ data, got = some data → data.length ≤ len ∧
        link'.received = link.received + data.length ∧
        data <+: link'.line.connection.written.drop link.received := by
  have hevolves : link.line.Evolves host router P [] (link.elapse host router call.turns).line :=
    elapse_evolves hP link call.turns
  simp only [Link.recv] at h
  split at h
  · simp only [Prod.mk.injEq] at h
    obtain ⟨rfl, rfl⟩ := h
    exact ⟨hevolves, nofun⟩
  · simp only [Prod.mk.injEq] at h
    obtain ⟨rfl, rfl⟩ := h
    refine ⟨hevolves, ?_⟩
    intro data hdata
    obtain rfl := Option.some.inj hdata
    refine ⟨?_, rfl, List.take_prefix _ _⟩
    rw [List.length_take]
    omega

theorem recvAll_spec (calls : List Call) (len : ℕ) (data : Bytes) (link : Link σ)
    {result : Option Bytes} {calls' : List Call} {link' : Link σ}
    (h : recvAll host router calls len data link = (result, calls', link')) :
    link.line.Evolves host router P [] link'.line ∧
      ∀ all, result = some all → ∃ got, all = data ++ got ∧ got.length = len ∧
        link'.received = link.received + len ∧
        got <+: link'.line.connection.written.drop link.received := by
  induction calls generalizing len data link with
  | nil =>
    simp only [recvAll, Prod.mk.injEq] at h
    obtain ⟨rfl, -, rfl⟩ := h
    refine ⟨.refl _, ?_⟩
    intro all hall
    split at hall
    · rename_i hlen
      subst hlen
      exact ⟨[], by simpa using hall.symm, rfl, rfl, List.nil_prefix⟩
    · cases hall
  | cons call calls ih =>
    rw [recvAll] at h
    split at h
    · rename_i hlen
      subst hlen
      simp only [Prod.mk.injEq] at h
      obtain ⟨rfl, -, rfl⟩ := h
      refine ⟨.refl _, ?_⟩
      intro all hall
      exact ⟨[], by simpa using hall.symm, rfl, rfl, List.nil_prefix⟩
    · generalize hrecv : link.recv host router len call = r at h
      obtain ⟨got, link₁⟩ := r
      obtain ⟨hevolves, hgot⟩ := recv_spec hP link len call hrecv
      match got with
      | none =>
        simp only [Prod.mk.injEq] at h
        obtain ⟨rfl, -, rfl⟩ := h
        exact ⟨hevolves, nofun⟩
      | some [] =>
        simp only [Prod.mk.injEq] at h
        obtain ⟨rfl, -, rfl⟩ := h
        exact ⟨hevolves, nofun⟩
      | some (b :: bs) =>
        obtain ⟨hle, hreceived, hfront⟩ := hgot _ rfl
        obtain ⟨hrest, hall⟩ := ih _ _ _ h
        refine ⟨hevolves.trans hrest, ?_⟩
        intro all hresult
        obtain ⟨got, rfl, hlength, hreceived', hgot⟩ := hall all hresult
        refine ⟨b :: bs ++ got, by rw [List.append_assoc], ?_, by omega, ?_⟩
        · rw [List.length_append]
          omega
        · have hwritten := hfront.trans (hrest.written.drop link.received)
          rw [hreceived, ← List.drop_drop] at hgot
          obtain ⟨rest, hrest⟩ := hwritten
          rw [← hrest, List.drop_left] at hgot
          rw [← hrest]
          exact (List.prefix_append_right_inj _).mpr hgot

def requestBytes (type : UInt16) (payload : Bytes) : Bytes :=
  encodeHeader (UInt32.ofNat payload.length) type 0 ++ payload

theorem sendMsg_spec (type : UInt16) (payload : Bytes) (calls : List Call) (link : Link σ)
    {ok : Bool} {calls' : List Call} {link' : Link σ}
    (h : sendMsg host router type payload calls link = (ok, calls', link')) :
    ∃ sent, link.line.Evolves host router P sent link'.line ∧
      link'.received = link.received ∧ (ok = true → sent = requestBytes type payload) := by
  simp only [sendMsg] at h
  generalize hheader : sendAll host router calls
    (encodeHeader (UInt32.ofNat payload.length) type 0) link = r at h
  obtain ⟨ok₁, calls₁, link₁⟩ := r
  obtain ⟨sent, -, hevolves, hreceived, hall⟩ := sendAll_spec hP calls _ link hheader
  cases ok₁ with
  | false =>
    simp only [Prod.mk.injEq] at h
    obtain ⟨rfl, -, rfl⟩ := h
    exact ⟨sent, hevolves, hreceived, nofun⟩
  | true =>
    obtain rfl := hall rfl
    simp only at h
    split at h
    · rename_i hempty
      simp only [Prod.mk.injEq] at h
      obtain ⟨-, -, rfl⟩ := h
      refine ⟨_, hevolves, hreceived, fun _ => ?_⟩
      rw [requestBytes, hempty, List.append_nil]
    · obtain ⟨sent', -, hevolves', hreceived', hall'⟩ := sendAll_spec hP calls₁ payload link₁ h
      refine ⟨_, hevolves.trans hevolves', hreceived'.trans hreceived, ?_⟩
      intro hok
      rw [hall' hok, requestBytes]

theorem recvMsg_spec (calls : List Call) (link : Link σ) {result : Option (UInt16 × Bytes)}
    {calls' : List Call} {link' : Link σ}
    (h : recvMsg host router calls link = (result, calls', link')) :
    link.line.Evolves host router P [] link'.line ∧
      ∀ type payload, result = some (type, payload) → ∃ header, header.length = kHeaderSize ∧
        (decodeHeader header).2 = type ∧ (decodeHeader header).1 ≤ kMaxPayload ∧
        payload.length = (decodeHeader header).1.toNat ∧
        link'.received = link.received + (header ++ payload).length ∧
        header ++ payload <+: link'.line.connection.written.drop link.received := by
  simp only [recvMsg] at h
  generalize hheader : recvAll host router calls kHeaderSize [] link = r at h
  obtain ⟨header, calls₁, link₁⟩ := r
  obtain ⟨hevolves, hgot⟩ := recvAll_spec hP calls kHeaderSize [] link hheader
  cases header with
  | none =>
    simp only [Prod.mk.injEq] at h
    obtain ⟨rfl, -, rfl⟩ := h
    exact ⟨hevolves, nofun⟩
  | some header =>
    obtain ⟨got, hnil, hlength, hreceived, hfront⟩ := hgot header rfl
    rw [List.nil_append] at hnil
    subst hnil
    simp only at h
    split at h
    · simp only [Prod.mk.injEq] at h
      obtain ⟨rfl, -, rfl⟩ := h
      exact ⟨hevolves, nofun⟩
    rename_i hmax
    split at h
    · rename_i hzero
      simp only [Prod.mk.injEq] at h
      obtain ⟨rfl, -, rfl⟩ := h
      refine ⟨hevolves, ?_⟩
      intro type payload hresult
      simp only [Option.some.injEq, Prod.mk.injEq] at hresult
      obtain ⟨rfl, rfl⟩ := hresult
      refine ⟨header, hlength, rfl, UInt32.not_lt.mp hmax, by rw [hzero]; rfl, ?_, ?_⟩
      · rw [List.append_nil, hreceived, hlength]
      · rw [List.append_nil]
        exact hfront
    · generalize hbody : recvAll host router calls₁ (decodeHeader header).1.toNat [] link₁ = r at h
      obtain ⟨body, calls₂, link₂⟩ := r
      obtain ⟨hevolves', hgot'⟩ := recvAll_spec hP calls₁ _ [] link₁ hbody
      cases body with
      | none =>
        simp only [Prod.mk.injEq] at h
        obtain ⟨rfl, -, rfl⟩ := h
        exact ⟨hevolves.trans hevolves', nofun⟩
      | some body =>
        simp only [Prod.mk.injEq] at h
        obtain ⟨rfl, -, rfl⟩ := h
        refine ⟨hevolves.trans hevolves', ?_⟩
        intro type payload hresult
        simp only [Option.some.injEq, Prod.mk.injEq] at hresult
        obtain ⟨rfl, rfl⟩ := hresult
        obtain ⟨got', hnil', hlength', hreceived', hfront'⟩ := hgot' body rfl
        rw [List.nil_append] at hnil'
        subst hnil'
        refine ⟨header, hlength, rfl, UInt32.not_lt.mp hmax, hlength', ?_, ?_⟩
        · rw [List.length_append]
          omega
        · rw [hreceived, ← List.drop_drop, ← hlength] at hfront'
          obtain ⟨rest, hrest⟩ := hfront.trans (hevolves'.written.drop link.received)
          rw [← hrest, List.drop_left] at hfront'
          rw [← hrest]
          exact (List.prefix_append_right_inj _).mpr hfront'

end Calls

end Ui

end HSFinancialServices
