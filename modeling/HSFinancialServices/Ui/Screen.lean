import HSFinancialServices.Ui.Dialog

/-!
# The log of the UI client

Every line reaches the output box through the queue of the dialog, from whichever thread it
is logged, and so does the message that a worker is done. The queue keeps their order, and
only one worker runs at a time: the lines of a command stand together and are all shown
before the buttons come back.
-/

namespace HSFinancialServices.Ui
open Ascii Transitions

structure LogLine where
  click : ℕ
  text : Bytes
  deriving DecidableEq, Repr

inductive Posted
  | logLine (line : LogLine)
  | workerDone
  deriving DecidableEq, Repr

def Posted.line? : Posted → Option LogLine
  | logLine line => some line
  | workerDone => none

structure Screen where
  dialog : Dialog
  queue : List Posted
  output : List LogLine
  clicks : ℕ
  /-- The clicks that launched the workers, in the order of `dialog.workers` -/
  launchedBy : List ℕ
  runs : List ℕ
  cleared : List LogLine
  logged : List LogLine
  deriving DecidableEq, Repr

namespace Screen

def log (click : ℕ) (texts : List Bytes) (s : Screen) : Screen :=
  { s with
    queue := s.queue ++ texts.map fun text => .logLine ⟨click, text⟩
    logged := s.logged ++ texts.map fun text => ⟨click, text⟩ }

def bannerTexts : List Bytes :=
  ["╔══════════════════════════════════════════════════════════╗",
    "║   HS Financial Services  –  Client Test Application     ║",
    "║   Version 1.0   |   High-Performance Banking Server      ║",
    "╚══════════════════════════════════════════════════════════╝",
    "",
    "Available services: SQL Query, Buy/Sell Orders, Get Position,",
    "                    Price History, Ping",
    "",
    "Enter the server address and port, then press [Connect].",
    "Select a command from the drop-down and press [Run].",
    ""].map fun text => text.toUTF8.data.toList

/-- The banner counts as click 0. -/
def onInitDialog : Screen := Screen.log 0 bannerTexts ⟨.onInitDialog, [], [], 0, [], [], [], []⟩

def connectTexts (host : Bytes) (port : UInt16) (wsaError : ℤ) (connected : Bool) : List Bytes :=
  if host = [] then []
  else
    let port := if port = 0 then 9000 else port
    [[], ascii "Connecting to " ++ host ++ ascii ":" ++ decimal port.toNat ++ ascii "...",
      if connected then ascii "TCP connection established."
      else ascii "Connection failed.  WSAError=" ++ decimalInt wsaError, []]

def disconnectTexts : List Bytes := [ascii "Disconnected from server.", []]

inductive Event
  | connect (host : Bytes) (port : UInt16) (wsaError : ℤ) (resolved : Option (List AddressResult))
  | disconnect
  | run (sel : Option ℕ)
  | clear
  | worker (i : ℕ)
  /-- A worker calls `Log`, which it does between its first step and its last message. -/
  | log (i : ℕ) (text : Bytes)
  | handle
  deriving DecidableEq, Repr

def step (event : Event) (s : Screen) : Option Screen :=
  let click := s.clicks + 1
  match event with
  | .connect host port wsaError resolved =>
    (Dialog.step (.connect host resolved) s.dialog).map fun d =>
      { s with dialog := d, clicks := click }.log click
        (connectTexts host port wsaError (s.dialog.sockets.doConnect resolved).1)
  | .disconnect =>
    (Dialog.step .disconnect s.dialog).map fun d =>
      { s with dialog := d, clicks := click }.log click disconnectTexts
  | .run sel =>
    (Dialog.step (.run sel) s.dialog).map fun d => { s with
      dialog := d
      clicks := click
      launchedBy := match sel.bind (kCommands[·]?) with
        | none | some none => s.launchedBy
        | some (some _) => s.launchedBy ++ [click]
      runs := s.runs ++ [click] }
  | .clear => some { s with output := [], cleared := s.cleared ++ s.output }
  | .worker i =>
    (Dialog.step (.worker i) s.dialog).map fun d =>
      if s.dialog.workers[i]? = some [] then { s with
        dialog := d
        queue := s.queue ++ [.workerDone]
        launchedBy := s.launchedBy.eraseIdx i }
      else { s with dialog := d }
  | .log i text => (s.launchedBy[i]?).map fun click => s.log click [text]
  | .handle =>
    match s.queue with
    | [] => none
    | .logLine line :: queue => some { s with queue := queue, output := s.output ++ [line] }
    | .workerDone :: queue =>
      (Dialog.step .workerDone s.dialog).map fun d => { s with dialog := d, queue := queue }

def Reachable (s : Screen) : Prop := Reaches step (fun _ _ => True) onInitDialog s

def queued (s : Screen) : List LogLine := s.queue.filterMap Posted.line?

structure Orderly (s : Screen) : Prop where
  dialog : s.dialog.Consistent
  queue : s.queue = s.queued.map .logLine ++ List.replicate s.dialog.posted .workerDone
  workers : s.launchedBy.length = s.dialog.workers.length
  current : ∀ click ∈ s.launchedBy, click = s.clicks
  shown : s.cleared ++ s.output ++ s.queued = s.logged
  sorted : s.logged.Pairwise fun line line' => line.click ≤ line'.click
  past : (∀ line ∈ s.logged, line.click ≤ s.clicks) ∧ ∀ click ∈ s.runs, click ≤ s.clicks
  settled : s.dialog.outstanding = 0 → ∀ line ∈ s.queued, line.click ∉ s.runs

variable {s s' : Screen}

theorem queued_log (s : Screen) (click : ℕ) (texts : List Bytes) :
    (s.log click texts).queued = s.queued ++ texts.map fun text => ⟨click, text⟩ := by
  simp [queued, log, List.filterMap_append, List.filterMap_map, Posted.line?, Function.comp_def]

theorem Orderly.log (h : Orderly s) (hposted : s.dialog.posted = 0) (texts : List Bytes)
    (hsettled : s.dialog.outstanding = 0 → s.clicks ∉ s.runs) : Orderly (s.log s.clicks texts) where
  dialog := h.dialog
  queue := by
    have hqueue := h.queue
    rw [hposted, List.replicate_zero, List.append_nil] at hqueue
    rw [queued_log]
    simp only [Screen.log, hposted, List.replicate_zero, List.append_nil, List.map_append,
      List.map_map, ← hqueue]
    rfl
  workers := h.workers
  current := h.current
  shown := by
    rw [queued_log, ← List.append_assoc]
    exact congrArg (· ++ texts.map (LogLine.mk s.clicks)) h.shown
  sorted := by
    apply List.pairwise_append.mpr ⟨h.sorted, ?_, ?_⟩
    · apply List.pairwise_map.mpr
      exact List.pairwise_of_forall fun _ _ => le_rfl
    · intro line hline line' hline'
      obtain ⟨text, -, rfl⟩ := List.mem_map.mp hline'
      exact h.past.1 line hline
  past := by
    refine ⟨?_, h.past.2⟩
    intro line hline
    obtain hline | hline := List.mem_append.mp hline
    · exact h.past.1 line hline
    · obtain ⟨text, -, rfl⟩ := List.mem_map.mp hline
      exact le_rfl
  settled := by
    intro hidle line hline
    rw [queued_log] at hline
    obtain hline | hline := List.mem_append.mp hline
    · exact h.settled hidle line hline
    · obtain ⟨text, -, rfl⟩ := List.mem_map.mp hline
      exact hsettled hidle

theorem Orderly.clicked (h : Orderly s) {d : Dialog} (hd : d.Consistent)
    (hidle : s.dialog.outstanding = 0) (hworkers : d.workers = s.dialog.workers)
    (hposted : d.posted = s.dialog.posted) (texts : List Bytes) :
    Orderly ({ s with dialog := d, clicks := s.clicks + 1 }.log (s.clicks + 1) texts) := by
  have hnone : s.dialog.workers.length = 0 ∧ s.dialog.posted = 0 := by
    rw [Dialog.outstanding] at hidle
    omega
  have hlaunched : s.launchedBy = [] := List.length_eq_zero_iff.mp (h.workers.trans hnone.1)
  have hclicked : Orderly { s with dialog := d, clicks := s.clicks + 1 } := by
    refine ⟨hd, ?_, ?_, ?_, h.shown, h.sorted, ⟨?_, ?_⟩, ?_⟩
    · rw [hposted]
      exact h.queue
    · rw [hworkers]
      exact h.workers
    · rw [hlaunched]
      exact fun _ hclick => absurd hclick List.not_mem_nil
    · exact fun line hline => Nat.le_succ_of_le (h.past.1 line hline)
    · exact fun click hclick => Nat.le_succ_of_le (h.past.2 click hclick)
    · exact fun _ => h.settled hidle
  apply hclicked.log (hposted.trans hnone.2)
  intro _ hmem
  exact absurd (h.past.2 _ hmem) (Nat.not_succ_le_self _)

theorem onBnClickedConnect_workers (d : Dialog) (host : Bytes)
    (resolved : Option (List AddressResult)) :
    (d.onBnClickedConnect host resolved).workers = d.workers ∧
      (d.onBnClickedConnect host resolved).posted = d.posted := by
  rw [Dialog.onBnClickedConnect]
  split_ifs
  · exact ⟨rfl, rfl⟩
  · split <;> exact ⟨rfl, rfl⟩

theorem onWorkerDone_workers (d : Dialog) :
    d.onWorkerDone.workers = d.workers ∧ d.onWorkerDone.posted = d.posted := by
  rw [Dialog.onWorkerDone]
  split_ifs <;> exact ⟨rfl, rfl⟩

theorem Orderly.launched (h : Orderly s) {d : Dialog} (hd : d.Consistent)
    (hidle : s.dialog.outstanding = 0) (hposted : d.posted = s.dialog.posted)
    {launched : List ℕ} (hworkers : (s.launchedBy ++ launched).length = d.workers.length)
    (hlaunched : ∀ click ∈ launched, click = s.clicks + 1) :
    Orderly { s with
      dialog := d
      clicks := s.clicks + 1
      launchedBy := s.launchedBy ++ launched
      runs := s.runs ++ [s.clicks + 1] } := by
  have hnone : s.launchedBy = [] := by
    apply List.length_eq_zero_iff.mp
    rw [h.workers]
    rw [Dialog.outstanding] at hidle
    omega
  refine ⟨hd, ?_, hworkers, ?_, h.shown, h.sorted, ⟨?_, ?_⟩, ?_⟩
  · rw [hposted]
    exact h.queue
  · rw [hnone]
    exact hlaunched
  · exact fun line hline => Nat.le_succ_of_le (h.past.1 line hline)
  · intro click hclick
    obtain hclick | hclick := List.mem_append.mp hclick
    · exact Nat.le_succ_of_le (h.past.2 click hclick)
    · exact (List.mem_singleton.mp hclick).le
  · intro _ line hline hmem
    obtain hmem | hmem := List.mem_append.mp hmem
    · exact h.settled hidle line hline hmem
    · have hlogged : line ∈ s.logged := by
        rw [← h.shown]
        exact List.mem_append_right _ hline
      have hle := h.past.1 line hlogged
      rw [List.mem_singleton.mp hmem] at hle
      exact absurd hle (Nat.not_succ_le_self _)

theorem Orderly.launched_nothing (h : Orderly s) (hidle : s.dialog.outstanding = 0) :
    Orderly { s with
      clicks := s.clicks + 1
      runs := s.runs ++ [s.clicks + 1] } := by
  have hworkers : (s.launchedBy ++ []).length = s.dialog.workers.length := by
    rw [List.append_nil]
    exact h.workers
  have hnothing := h.launched h.dialog hidle rfl hworkers fun _ hclick =>
    absurd hclick List.not_mem_nil
  rwa [List.append_nil] at hnothing

/-- A worker that runs is alone, and no message of another waits. -/
theorem Orderly.alone (h : Orderly s) {i : ℕ} (hi : i < s.dialog.workers.length) :
    s.dialog.workers.length = 1 ∧ s.dialog.posted = 0 := by
  have hone := h.dialog.outstanding
  rw [Dialog.outstanding] at hone
  omega

theorem Orderly.worker (h : Orderly s) {i : ℕ} {d : Dialog}
    (hstep : Dialog.step (.worker i) s.dialog = some d) :
    Orderly (if s.dialog.workers[i]? = some [] then { s with
        dialog := d
        queue := s.queue ++ [.workerDone]
        launchedBy := s.launchedBy.eraseIdx i }
      else { s with dialog := d }) := by
  have hd := h.dialog.step hstep
  obtain ⟨steps, hi, rfl⟩ := Option.map_eq_some_iff.mp hstep
  obtain ⟨hlt, -⟩ := List.getElem?_eq_some_iff.mp hi
  obtain ⟨hone, hposted⟩ := h.alone hlt
  have hqueue := h.queue
  rw [hposted, List.replicate_zero, List.append_nil] at hqueue
  cases steps with
  | nil =>
    rw [if_pos hi]
    have hqueued : (s.queue ++ [Posted.workerDone]).filterMap Posted.line? = s.queued := by
      rw [List.filterMap_append]
      exact List.append_nil _
    refine ⟨hd, ?_, ?_, ?_, ?_, h.sorted, h.past, ?_⟩
    · change s.queue ++ [Posted.workerDone] = ((s.queue ++ [Posted.workerDone]).filterMap Posted.line?).map
        .logLine ++ List.replicate (s.dialog.posted + 1) .workerDone
      rw [hqueued, ← hqueue, hposted]
      rfl
    · simp only [Dialog.workerStep]
      rw [List.length_eraseIdx_of_lt hlt, List.length_eraseIdx_of_lt (h.workers ▸ hlt), h.workers]
    · exact fun click hclick => h.current click (List.mem_of_mem_eraseIdx hclick)
    · simp only [queued, hqueued]
      exact h.shown
    · intro hidle
      simp only [Dialog.outstanding, Dialog.workerStep] at hidle
      omega
  | cons first rest =>
    have hnot : s.dialog.workers[i]? ≠ some [] := by
      rw [hi]
      simp
    rw [if_neg hnot]
    have hkept : (s.dialog.workerStep i (first :: rest)).posted = s.dialog.posted ∧
        (s.dialog.workerStep i (first :: rest)).workers.length = s.dialog.workers.length := by
      cases first <;> exact ⟨rfl, List.length_set ..⟩
    refine ⟨hd, ?_, ?_, h.current, h.shown, h.sorted, h.past, ?_⟩
    · rw [hkept.1]
      exact h.queue
    · rw [hkept.2]
      exact h.workers
    · intro hidle
      rw [Dialog.outstanding, hkept.2] at hidle
      omega

theorem Orderly.handle (h : Orderly s) (hstep : step .handle s = some s') : Orderly s' := by
  have hqueue := h.queue
  have hshown := h.shown
  simp only [step] at hstep
  cases hmessages : s.queue with
  | nil => simp only [hmessages, reduceCtorEq] at hstep
  | cons message queue =>
    cases message with
    | logLine line =>
      have hqueued : s.queued = line :: queue.filterMap Posted.line? := by
        rw [queued, hmessages]
        rfl
      simp only [hmessages, Option.some.injEq] at hstep
      obtain rfl := hstep
      refine ⟨h.dialog, ?_, h.workers, h.current, ?_, h.sorted, h.past, ?_⟩
      · rw [hmessages, hqueued] at hqueue
        exact (List.cons.inj hqueue).2
      · rw [← hshown, hqueued, queued]
        simp
      · intro hidle other hother
        apply h.settled hidle
        rw [hqueued]
        exact List.mem_cons_of_mem _ hother
    | workerDone =>
      simp only [hmessages] at hstep
      obtain ⟨d, hdone, rfl⟩ := Option.map_eq_some_iff.mp hstep
      have hd := h.dialog.step hdone
      obtain ⟨hposted, hdone⟩ := Option.ite_none_left_eq_some.mp hdone
      have hone := h.dialog.outstanding
      rw [Dialog.outstanding] at hone
      -- the message is at the front, so that no line of the worker is behind it
      have hnone : s.queued = [] := by
        cases hqueued : s.queued with
        | nil => rfl
        | cons line lines =>
          rw [hmessages, hqueued] at hqueue
          cases hqueue
      have hempty : queue = [] := by
        rw [hmessages, hnone, show s.dialog.posted = 1 by omega] at hqueue
        exact (List.cons.inj hqueue).2
      obtain rfl := Option.some.inj hdone
      obtain ⟨hworkers, hleft⟩ := onWorkerDone_workers { s.dialog with posted := s.dialog.posted - 1 }
      rw [hempty]
      refine ⟨hd, ?_, ?_, h.current, ?_, h.sorted, h.past, ?_⟩
      · rw [hleft, show s.dialog.posted - 1 = 0 by omega]
        rfl
      · rw [hworkers]
        exact h.workers
      · rw [← hshown, hnone]
        rfl
      · exact fun _ line hline => absurd hline List.not_mem_nil

theorem Orderly.step (h : Orderly s) {event : Event} (hstep : Screen.step event s = some s') :
    Orderly s' := by
  cases event with
  | connect host port wsaError resolved =>
    obtain ⟨d, hd, rfl⟩ := Option.map_eq_some_iff.mp hstep
    have hconsistent := h.dialog.step hd
    obtain ⟨henabled, hd⟩ := Option.ite_none_right_eq_some.mp hd
    obtain rfl := Option.some.inj hd
    obtain ⟨hworkers, hposted⟩ := onBnClickedConnect_workers s.dialog host resolved
    exact h.clicked hconsistent (h.dialog.disconnected_of_connect henabled).1 hworkers hposted _
  | disconnect =>
    obtain ⟨d, hd, rfl⟩ := Option.map_eq_some_iff.mp hstep
    have hconsistent := h.dialog.step hd
    obtain ⟨henabled, hd⟩ := Option.ite_none_right_eq_some.mp hd
    obtain rfl := Option.some.inj hd
    exact h.clicked hconsistent (h.dialog.disconnect.mp henabled).2 rfl rfl _
  | run sel =>
    obtain ⟨d, hd, rfl⟩ := Option.map_eq_some_iff.mp hstep
    have hconsistent := h.dialog.step hd
    obtain ⟨henabled, hd⟩ := Option.ite_none_right_eq_some.mp hd
    obtain rfl := Option.some.inj hd
    have hidle := (h.dialog.connected_of_run henabled).1
    have hworkers := h.workers
    simp only [Dialog.onBnClickedRun] at hconsistent ⊢
    cases hsel : sel.bind (kCommands[·]?) with
    | none => exact h.launched_nothing hidle
    | some entry =>
      rw [hsel] at hconsistent
      cases entry with
      | none => exact h.launched_nothing hidle
      | some cmdId =>
        apply h.launched hconsistent hidle rfl
        · simp only [List.length_append, List.length_singleton, hworkers]
        · exact fun _ hclick => List.mem_singleton.mp hclick
  | clear =>
    obtain rfl := Option.some.inj hstep
    refine { h with shown := ?_ }
    rw [← h.shown, List.append_nil]
    rfl
  | worker i =>
    obtain ⟨d, hd, rfl⟩ := Option.map_eq_some_iff.mp hstep
    exact h.worker hd
  | log i text =>
    obtain ⟨click, hclick, rfl⟩ := Option.map_eq_some_iff.mp hstep
    obtain ⟨hlt, -⟩ := List.getElem?_eq_some_iff.mp hclick
    obtain ⟨hone, hposted⟩ := h.alone (h.workers ▸ hlt)
    rw [h.current click (List.mem_of_getElem? hclick)]
    apply h.log hposted
    intro hidle
    rw [Dialog.outstanding] at hidle
    omega
  | handle => exact h.handle hstep

theorem orderly_onInitDialog : Orderly onInitDialog := by
  have hempty : Orderly ⟨.onInitDialog, [], [], 0, [], [], [], []⟩ :=
    ⟨Dialog.consistent_onInitDialog, rfl, rfl, fun _ hclick => absurd hclick List.not_mem_nil,
      rfl, .nil, ⟨fun _ hline => absurd hline List.not_mem_nil,
        fun _ hclick => absurd hclick List.not_mem_nil⟩, fun _ _ hline => absurd hline List.not_mem_nil⟩
  exact hempty.log rfl bannerTexts fun _ => List.not_mem_nil

theorem Reachable.orderly (h : s.Reachable) : Orderly s := by
  apply Reaches.invariant h orderly_onInitDialog
  intro event b c hb _ hstep
  exact hb.step hstep

theorem Reachable.dialog (h : s.Reachable) : s.dialog.Reachable := by
  refine Reaches.project Screen.dialog ?_ h
  intro event b c _ hstep
  cases event with
  | connect host port wsaError resolved =>
    obtain ⟨d, hd, rfl⟩ := Option.map_eq_some_iff.mp hstep
    exact .inr ⟨.connect host resolved, trivial, hd⟩
  | disconnect =>
    obtain ⟨d, hd, rfl⟩ := Option.map_eq_some_iff.mp hstep
    exact .inr ⟨.disconnect, trivial, hd⟩
  | run sel =>
    obtain ⟨d, hd, rfl⟩ := Option.map_eq_some_iff.mp hstep
    exact .inr ⟨.run sel, trivial, hd⟩
  | worker i =>
    obtain ⟨d, hd, rfl⟩ := Option.map_eq_some_iff.mp hstep
    refine .inr ⟨.worker i, trivial, ?_⟩
    split_ifs <;> exact hd
  | clear =>
    obtain rfl := Option.some.inj hstep
    exact .inl rfl
  | log i text =>
    obtain ⟨click, -, rfl⟩ := Option.map_eq_some_iff.mp hstep
    exact .inl rfl
  | handle =>
    simp only [Screen.step] at hstep
    cases hmessages : b.queue with
    | nil => simp only [hmessages, reduceCtorEq] at hstep
    | cons message queue =>
      cases message with
      | logLine line =>
        simp only [hmessages, Option.some.injEq] at hstep
        obtain rfl := hstep
        exact .inl rfl
      | workerDone =>
        simp only [hmessages] at hstep
        obtain ⟨d, hd, rfl⟩ := Option.map_eq_some_iff.mp hstep
        exact .inr ⟨.workerDone, trivial, hd⟩

/-- Of what was logged nothing is lost, doubled or moved, the lines of a click stand together
in the order of the clicks, and with any button enabled all lines of the commands are shown. -/
theorem log_in_order (h : s.Reachable) :
    s.dialog.Reachable ∧ s.cleared ++ s.output ++ s.queued = s.logged ∧
      (s.logged.Pairwise fun line line' => line.click ≤ line'.click) ∧
      (s.dialog.connectEnabled = true ∨ s.dialog.disconnectEnabled = true ∨
        s.dialog.runEnabled = true → ∀ line ∈ s.queued, line.click ∉ s.runs) := by
  have horderly := h.orderly
  refine ⟨h.dialog, horderly.shown, horderly.sorted, ?_⟩
  intro henabled
  apply horderly.settled
  obtain hconnect | hdisconnect | hrun := henabled
  · exact (horderly.dialog.connect.mp hconnect).2
  · exact (horderly.dialog.disconnect.mp hdisconnect).2
  · exact (horderly.dialog.run.mp hrun).2

theorem log_in_order_ping :
    ∃ s : Screen, s.dialog.runEnabled = true ∧ s.runs = [2] ∧
      s.output.map LogLine.click = [1, 1, 1, 1, 2, 2] ∧ s.queued = [] ∧
      s.cleared ++ s.output ++ s.queued = s.logged := by
  let events : List Event := List.replicate bannerTexts.length .handle ++
    [.clear, .connect (ascii "localhost") 0 0 (some [.accepted]), .handle, .run (some 3),
      .worker 0, .log 0 (ascii "  PING"), .handle, .handle, .worker 0, .handle,
      .log 0 (ascii "Response: 1"), .worker 0, .handle, .handle, .handle]
  have hrun : (events.foldlM (fun a i => if True then step i a else none) onInitDialog).map
      (fun s => (s.dialog.runEnabled, s.runs, s.output.map LogLine.click, s.queued)) =
      some (true, [2], [1, 1, 1, 1, 2, 2], []) := by decide +kernel
  obtain ⟨s, hs, hend⟩ := Option.map_eq_some_iff.mp hrun
  have hreach : s.Reachable := Reaches.of_foldlM hs
  simp only [Prod.mk.injEq] at hend
  obtain ⟨henabled, hruns, houtput, hqueued⟩ := hend
  exact ⟨s, henabled, hruns, houtput, hqueued, (log_in_order hreach).2.1⟩

end Screen

end HSFinancialServices.Ui
