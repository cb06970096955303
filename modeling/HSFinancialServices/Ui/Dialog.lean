import HSFinancialServices.Lib.Transitions
import HSFinancialServices.Ui.Commands

/-!
# The dialog of the UI client

The handlers of the buttons run one after the other on the thread of the dialog. A worker
takes its steps between them, may drop the connection and ends with a message to the dialog.
-/

namespace HSFinancialServices.Ui
open Ascii Transitions

structure Sockets where
  connected : Bool
  /-- `m_socket`; a socket is named by the number of `socket` calls before its own. -/
  socket : Option ℕ
  opened : ℕ
  closed : List ℕ
  deriving DecidableEq, Repr

/-- What `socket` and `connect` return for one resolved address. -/
inductive AddressResult
  | noSocket
  | refused
  | accepted
  deriving DecidableEq, Repr

namespace Sockets

def connectAddresses : List AddressResult → Sockets → Bool × Sockets
  | [], s => (false, s)
  | .noSocket :: rest, s => connectAddresses rest s
  | .refused :: rest, s =>
    connectAddresses rest { s with opened := s.opened + 1, closed := s.closed ++ [s.opened] }
  | .accepted :: _, s =>
    (true, { s with connected := true, socket := some s.opened, opened := s.opened + 1 })

/-- `resolved` is what `getaddrinfo` finds, if it succeeds. -/
def doConnect (resolved : Option (List AddressResult)) (s : Sockets) : Bool × Sockets :=
  match resolved with
  | none => (false, s)
  | some addresses => connectAddresses addresses s

def doDisconnect (s : Sockets) : Sockets :=
  match s.socket with
  | none => s
  | some socket => { s with connected := false, socket := none, closed := s.closed ++ [socket] }

end Sockets

inductive WorkerStep
  | enter (command : Command)
  | exchange (command : Command)
  | doDisconnect
  deriving DecidableEq, Repr

structure Dialog where
  sockets : Sockets
  connectEnabled : Bool
  disconnectEnabled : Bool
  runEnabled : Bool
  workers : List (List WorkerStep)
  posted : ℕ
  deriving DecidableEq, Repr

def kCommands : List (Option CmdId) :=
  [some .login, some .logout, none, some .ping, none, some .sqlQueryAapl, some .sqlQueryMsft,
    some .sqlQueryAll, none, some .buyAapl, some .buyMsft, some .sellAapl, some .sellTsla, none,
    some .getPositionAcc001, some .getPositionAcc002, none, some .priceHistAapl30,
    some .priceHistMsft7, some .priceHistGoogl14, none, some .batchTest]

/-- What a `Run` function does once it has seen the connection: the logout closes it. -/
def Command.connectedSteps : Command → List WorkerStep
  | .logout => [.exchange .logout, .doDisconnect]
  | command => [.exchange command]

namespace Dialog

def onInitDialog : Dialog :=
  { sockets := ⟨false, none, 0, []⟩
    connectEnabled := true
    disconnectEnabled := false
    runEnabled := false
    workers := []
    posted := 0 }

def onBnClickedConnect (host : Bytes) (resolved : Option (List AddressResult)) (d : Dialog) :
    Dialog :=
  if host = [] then d
  else
    match d.sockets.doConnect resolved with
    | (true, sockets) =>
      { d with
        sockets := sockets
        connectEnabled := false
        disconnectEnabled := true
        runEnabled := true }
    | (false, sockets) => { d with sockets := sockets }

def onBnClickedDisconnect (d : Dialog) : Dialog :=
  { d with
    sockets := d.sockets.doDisconnect
    connectEnabled := true
    disconnectEnabled := false
    runEnabled := false }

def onBnClickedRun (sel : Option ℕ) (d : Dialog) : Dialog :=
  match sel.bind (kCommands[·]?) with
  | none | some none => d
  | some (some cmdId) =>
    { d with
      runEnabled := false
      disconnectEnabled := false
      workers := d.workers ++ [cmdId.commands.map .enter] }

def onWorkerDone (d : Dialog) : Dialog :=
  if d.sockets.connected then { d with runEnabled := true, disconnectEnabled := true }
  else { d with connectEnabled := true, disconnectEnabled := false, runEnabled := false }

/-- One step of the worker `i`; when nothing is left to do it posts its message and ends. -/
def workerStep (i : ℕ) (d : Dialog) : List WorkerStep → Dialog
  | [] => { d with workers := d.workers.eraseIdx i, posted := d.posted + 1 }
  | .enter command :: rest =>
    let steps := if d.sockets.connected then command.connectedSteps else []
    { d with workers := d.workers.set i (steps ++ rest) }
  | .exchange _ :: rest => { d with workers := d.workers.set i rest }
  | .doDisconnect :: rest =>
    { d with sockets := d.sockets.doDisconnect, workers := d.workers.set i rest }

inductive Event
  | connect (host : Bytes) (resolved : Option (List AddressResult))
  | disconnect
  | run (sel : Option ℕ)
  | worker (i : ℕ)
  | workerDone
  deriving DecidableEq, Repr

/-- A disabled button cannot be clicked. -/
def step (event : Event) (d : Dialog) : Option Dialog :=
  match event with
  | .connect host resolved =>
    if d.connectEnabled then some (d.onBnClickedConnect host resolved) else none
  | .disconnect => if d.disconnectEnabled then some d.onBnClickedDisconnect else none
  | .run sel => if d.runEnabled then some (d.onBnClickedRun sel) else none
  | .worker i => d.workers[i]?.map (d.workerStep i)
  | .workerDone =>
    if d.posted = 0 then none else some { d with posted := d.posted - 1 }.onWorkerDone

def Reachable (d : Dialog) : Prop := Reaches step (fun _ _ => True) onInitDialog d

def outstanding (d : Dialog) : ℕ := d.workers.length + d.posted

end Dialog

structure Sockets.Consistent (s : Sockets) : Prop where
  connected_iff : s.connected = true ↔ s.socket ≠ none
  accounted : ∀ socket < s.opened, s.socket = some socket ∨ socket ∈ s.closed

structure Dialog.Consistent (d : Dialog) : Prop where
  sockets : d.sockets.Consistent
  outstanding : d.outstanding ≤ 1
  connect : d.connectEnabled = true ↔ d.sockets.connected = false ∧ d.outstanding = 0
  disconnect : d.disconnectEnabled = true ↔ d.sockets.connected = true ∧ d.outstanding = 0
  run : d.runEnabled = true ↔ d.sockets.connected = true ∧ d.outstanding = 0

namespace Sockets
variable {s : Sockets}

theorem Consistent.connected_eq_false_iff (h : s.Consistent) :
    s.connected = false ↔ s.socket = none := by
  rw [← Bool.not_eq_true, h.connected_iff, not_not]

theorem Consistent.connectAddresses (h : s.Consistent) (hnone : s.socket = none)
    (addresses : List AddressResult) :
    (connectAddresses addresses s).2.Consistent ∧
      (connectAddresses addresses s).2.connected = (connectAddresses addresses s).1 := by
  have hclosed : ∀ socket < s.opened, socket ∈ s.closed := by
    intro socket hlt
    obtain hcurrent | hmem := h.accounted socket hlt
    · rw [hnone] at hcurrent
      cases hcurrent
    · exact hmem
  induction addresses generalizing s with
  | nil => exact ⟨h, h.connected_eq_false_iff.mpr hnone⟩
  | cons address rest ih =>
    cases address with
    | noSocket => exact ih h hnone hclosed
    | refused =>
      have hclosed' : ∀ socket < s.opened + 1, socket ∈ s.closed ++ [s.opened] := by
        intro socket hlt
        obtain hlt | rfl := Nat.lt_succ_iff_lt_or_eq.mp hlt
        · exact List.mem_append_left _ (hclosed socket hlt)
        · exact List.mem_append_right _ (List.mem_singleton_self _)
      exact ih ⟨h.connected_iff, fun socket hlt => .inr (hclosed' socket hlt)⟩ hnone hclosed'
    | accepted =>
      refine ⟨⟨?_, ?_⟩, rfl⟩
      · exact iff_of_true rfl (Option.some_ne_none _)
      · intro socket hlt
        obtain hlt | rfl := Nat.lt_succ_iff_lt_or_eq.mp hlt
        · exact .inr (hclosed socket hlt)
        · exact .inl rfl

theorem Consistent.doConnect (h : s.Consistent) (hnone : s.socket = none)
    (resolved : Option (List AddressResult)) :
    (doConnect resolved s).2.Consistent ∧
      (doConnect resolved s).2.connected = (doConnect resolved s).1 := by
  cases resolved with
  | none => exact h.connectAddresses hnone []
  | some addresses => exact h.connectAddresses hnone addresses

theorem Consistent.doDisconnect (h : s.Consistent) :
    s.doDisconnect.Consistent ∧ s.doDisconnect.connected = false := by
  rw [Sockets.doDisconnect]
  cases hsocket : s.socket with
  | none => exact ⟨h, h.connected_eq_false_iff.mpr hsocket⟩
  | some socket =>
    refine ⟨⟨?_, ?_⟩, rfl⟩
    · exact iff_of_false Bool.false_ne_true (not_not_intro rfl)
    · intro other hlt
      obtain hcurrent | hmem := h.accounted other hlt
      · rw [hsocket, Option.some.injEq] at hcurrent
        exact .inr (List.mem_append_right _ (hcurrent ▸ List.mem_singleton_self _))
      · exact .inr (List.mem_append_left _ hmem)

end Sockets

namespace Dialog
variable {d : Dialog}

theorem consistent_of_busy (hsockets : d.sockets.Consistent) (hbusy : d.outstanding = 1)
    (hbuttons : d.connectEnabled = false ∧ d.disconnectEnabled = false ∧ d.runEnabled = false) :
    d.Consistent := by
  obtain ⟨hconnect, hdisconnect, hrun⟩ := hbuttons
  refine ⟨hsockets, hbusy.le, ?_, ?_, ?_⟩
  · simp only [hconnect, hbusy, Bool.false_eq_true, one_ne_zero, and_false]
  · simp only [hdisconnect, hbusy, Bool.false_eq_true, one_ne_zero, and_false]
  · simp only [hrun, hbusy, Bool.false_eq_true, one_ne_zero, and_false]

theorem consistent_of_connected (hsockets : d.sockets.Consistent) (hidle : d.outstanding = 0)
    (hconnected : d.sockets.connected = true)
    (hbuttons : d.connectEnabled = false ∧ d.disconnectEnabled = true ∧ d.runEnabled = true) :
    d.Consistent := by
  obtain ⟨hconnect, hdisconnect, hrun⟩ := hbuttons
  refine ⟨hsockets, hidle.trans_le zero_le_one, ?_, ?_, ?_⟩
  · simp only [hconnect, hconnected, Bool.false_eq_true, Bool.true_eq_false, false_and]
  · simp only [hdisconnect, hconnected, hidle, and_self]
  · simp only [hrun, hconnected, hidle, and_self]

theorem consistent_of_disconnected (hsockets : d.sockets.Consistent) (hidle : d.outstanding = 0)
    (hconnected : d.sockets.connected = false)
    (hbuttons : d.connectEnabled = true ∧ d.disconnectEnabled = false ∧ d.runEnabled = false) :
    d.Consistent := by
  obtain ⟨hconnect, hdisconnect, hrun⟩ := hbuttons
  refine ⟨hsockets, hidle.trans_le zero_le_one, ?_, ?_, ?_⟩
  · simp only [hconnect, hconnected, hidle, and_self]
  · simp only [hdisconnect, hconnected, Bool.false_eq_true, false_and]
  · simp only [hrun, hconnected, Bool.false_eq_true, false_and]

theorem Consistent.busy (h : d.Consistent) (hne : d.outstanding ≠ 0) :
    d.outstanding = 1 ∧
      d.connectEnabled = false ∧ d.disconnectEnabled = false ∧ d.runEnabled = false := by
  have hle := h.outstanding
  refine ⟨by omega, ?_, ?_, ?_⟩
  · exact Bool.eq_false_iff.mpr fun henabled => hne (h.connect.mp henabled).2
  · exact Bool.eq_false_iff.mpr fun henabled => hne (h.disconnect.mp henabled).2
  · exact Bool.eq_false_iff.mpr fun henabled => hne (h.run.mp henabled).2

theorem Consistent.connected_of_run (h : d.Consistent) (henabled : d.runEnabled = true) :
    d.outstanding = 0 ∧ d.sockets.connected = true ∧ d.connectEnabled = false := by
  obtain ⟨hconnected, hidle⟩ := h.run.mp henabled
  refine ⟨hidle, hconnected, Bool.eq_false_iff.mpr ?_⟩
  intro hconnect
  rw [(h.connect.mp hconnect).1] at hconnected
  cases hconnected

theorem Consistent.disconnected_of_connect (h : d.Consistent) (henabled : d.connectEnabled = true) :
    d.outstanding = 0 ∧ d.sockets.connected = false ∧ d.disconnectEnabled = false ∧
      d.runEnabled = false := by
  obtain ⟨hdisconnected, hidle⟩ := h.connect.mp henabled
  have hnot : ¬ (d.sockets.connected = true ∧ d.outstanding = 0) := by
    rw [hdisconnected]
    exact fun hboth => absurd hboth.1 Bool.false_ne_true
  refine ⟨hidle, hdisconnected, ?_, ?_⟩
  · exact Bool.eq_false_iff.mpr fun hdisconnect => hnot (h.disconnect.mp hdisconnect)
  · exact Bool.eq_false_iff.mpr fun hrun => hnot (h.run.mp hrun)

theorem consistent_onInitDialog : onInitDialog.Consistent := by
  apply consistent_of_disconnected
  · exact ⟨by decide, fun socket hlt => absurd hlt (Nat.not_lt_zero socket)⟩
  · rfl
  · rfl
  · decide

theorem Consistent.onBnClickedConnect (h : d.Consistent) (henabled : d.connectEnabled = true)
    (host : Bytes) (resolved : Option (List AddressResult)) :
    (d.onBnClickedConnect host resolved).Consistent := by
  obtain ⟨hidle, hdisconnected, hbuttons⟩ := h.disconnected_of_connect henabled
  have hnone : d.sockets.socket = none := h.sockets.connected_eq_false_iff.mp hdisconnected
  obtain ⟨hsockets, hconnected⟩ := h.sockets.doConnect hnone resolved
  rw [Dialog.onBnClickedConnect]
  split_ifs with hhost
  · exact h
  · generalize d.sockets.doConnect resolved = outcome at hsockets hconnected ⊢
    obtain ⟨success, sockets⟩ := outcome
    cases success with
    | true => exact consistent_of_connected hsockets hidle hconnected ⟨rfl, rfl, rfl⟩
    | false => exact consistent_of_disconnected hsockets hidle hconnected ⟨henabled, hbuttons⟩

theorem Consistent.onBnClickedDisconnect (h : d.Consistent)
    (henabled : d.disconnectEnabled = true) : d.onBnClickedDisconnect.Consistent := by
  obtain ⟨hsockets, hconnected⟩ := h.sockets.doDisconnect
  have hidle : d.onBnClickedDisconnect.outstanding = 0 := (h.disconnect.mp henabled).2
  exact consistent_of_disconnected hsockets hidle hconnected ⟨rfl, rfl, rfl⟩

theorem Consistent.onBnClickedRun (h : d.Consistent) (henabled : d.runEnabled = true)
    (sel : Option ℕ) : (d.onBnClickedRun sel).Consistent := by
  obtain ⟨hidle, hconnected, hconnect⟩ := h.connected_of_run henabled
  rw [Dialog.onBnClickedRun]
  cases sel.bind (kCommands[·]?) with
  | none => exact h
  | some entry =>
    cases entry with
    | none => exact h
    | some cmdId =>
      have hbusy : (d.workers ++ [cmdId.commands.map WorkerStep.enter]).length + d.posted = 1 := by
        rw [List.length_append, List.length_singleton, Nat.add_right_comm]
        exact congrArg (· + 1) hidle
      exact consistent_of_busy h.sockets hbusy ⟨hconnect, rfl, rfl⟩

theorem Consistent.onWorkerDone (h : d.Consistent) (hposted : d.posted ≠ 0) :
    { d with posted := d.posted - 1 }.onWorkerDone.Consistent := by
  have hne : d.outstanding ≠ 0 := by
    rw [Dialog.outstanding]
    omega
  obtain ⟨hone, hconnect, -⟩ := h.busy hne
  have hidle : d.workers.length + (d.posted - 1) = 0 := by
    rw [Dialog.outstanding] at hone
    omega
  rw [Dialog.onWorkerDone]
  split_ifs with hconnected
  · exact consistent_of_connected h.sockets hidle hconnected ⟨hconnect, rfl, rfl⟩
  · exact consistent_of_disconnected h.sockets hidle (Bool.eq_false_iff.mpr hconnected)
      ⟨rfl, rfl, rfl⟩

theorem Consistent.workerStep (h : d.Consistent) {i : ℕ} {steps : List WorkerStep}
    (hi : d.workers[i]? = some steps) : (d.workerStep i steps).Consistent := by
  have hlt : i < d.workers.length := (List.getElem?_eq_some_iff.mp hi).1
  have hne : d.outstanding ≠ 0 := by
    rw [Dialog.outstanding]
    omega
  obtain ⟨hone, hbuttons⟩ := h.busy hne
  have hset : ∀ steps, (d.workers.set i steps).length + d.posted = 1 := by
    intro steps
    rw [List.length_set]
    exact hone
  cases steps with
  | nil =>
    have hposted : (d.workers.eraseIdx i).length + (d.posted + 1) = 1 := by
      rw [Dialog.outstanding] at hone
      rw [List.length_eraseIdx_of_lt hlt]
      omega
    exact consistent_of_busy h.sockets hposted hbuttons
  | cons first rest =>
    cases first with
    | enter command => exact consistent_of_busy h.sockets (hset _) hbuttons
    | exchange command => exact consistent_of_busy h.sockets (hset _) hbuttons
    | doDisconnect => exact consistent_of_busy h.sockets.doDisconnect.1 (hset _) hbuttons

theorem Consistent.step (h : d.Consistent) {event : Event} {d' : Dialog}
    (hstep : Dialog.step event d = some d') : d'.Consistent := by
  cases event with
  | connect host resolved =>
    obtain ⟨henabled, heq⟩ := Option.ite_none_right_eq_some.mp hstep
    cases heq
    exact h.onBnClickedConnect henabled host resolved
  | disconnect =>
    obtain ⟨henabled, heq⟩ := Option.ite_none_right_eq_some.mp hstep
    cases heq
    exact h.onBnClickedDisconnect henabled
  | run sel =>
    obtain ⟨henabled, heq⟩ := Option.ite_none_right_eq_some.mp hstep
    cases heq
    exact h.onBnClickedRun henabled sel
  | worker i =>
    obtain ⟨steps, hi, rfl⟩ := Option.map_eq_some_iff.mp hstep
    exact h.workerStep hi
  | workerDone =>
    obtain ⟨hposted, heq⟩ := Option.ite_none_left_eq_some.mp hstep
    cases heq
    exact h.onWorkerDone hposted

theorem Reachable.consistent (h : d.Reachable) : d.Consistent :=
  Reaches.invariant h consistent_onInitDialog fun _ _ _ hd _ hstep => hd.step hstep

/-- The flag, the sockets and the three buttons in every state of an open dialog. -/
theorem buttons_follow_connection (h : d.Reachable) :
    (d.sockets.connected = true ↔ d.sockets.socket ≠ none) ∧
      (∀ socket < d.sockets.opened, d.sockets.socket = some socket ∨ socket ∈ d.sockets.closed) ∧
      d.workers.length + d.posted ≤ 1 ∧
      (d.connectEnabled = true ↔
        d.sockets.connected = false ∧ d.workers.length + d.posted = 0) ∧
      (d.disconnectEnabled = true ↔
        d.sockets.connected = true ∧ d.workers.length + d.posted = 0) ∧
      (d.runEnabled = true ↔
        d.sockets.connected = true ∧ d.workers.length + d.posted = 0) := by
  have hconsistent := h.consistent
  exact ⟨hconsistent.sockets.connected_iff, hconsistent.sockets.accounted, hconsistent.outstanding,
    hconsistent.connect, hconsistent.disconnect, hconsistent.run⟩

theorem buttons_follow_connection_logout :
    ∃ d : Dialog, d.sockets = ⟨false, none, 2, [0, 1]⟩ ∧ d.workers = [[]] ∧
      d.connectEnabled = false ∧ d.disconnectEnabled = false ∧ d.runEnabled = false := by
  let events : List Event :=
    [.connect (ascii "127.0.0.1") (some [.refused, .accepted]), .run (some 2), .run (some 1),
      .worker 0, .worker 0, .worker 0]
  let d : Dialog := ⟨⟨false, none, 2, [0, 1]⟩, false, false, false, [[]], 0⟩
  have hrun : events.foldlM (fun a i => if True then step i a else none) onInitDialog = some d := by
    decide
  have hreach : d.Reachable := Reaches.of_foldlM hrun
  obtain ⟨-, -, -, hconnect, hdisconnect, hrunEnabled⟩ := buttons_follow_connection hreach
  have hbusy : ¬ d.workers.length + d.posted = 0 := by decide
  refine ⟨d, rfl, rfl, ?_, ?_, ?_⟩
  · exact Bool.eq_false_iff.mpr fun henabled => hbusy (hconnect.mp henabled).2
  · exact Bool.eq_false_iff.mpr fun henabled => hbusy (hdisconnect.mp henabled).2
  · exact Bool.eq_false_iff.mpr fun henabled => hbusy (hrunEnabled.mp henabled).2

end Dialog

end HSFinancialServices.Ui
