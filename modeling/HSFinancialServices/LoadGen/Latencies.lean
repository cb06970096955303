import HSFinancialServices.LoadGen.Report
import HSFinancialServices.LoadGen.ResponseStream
import Mathlib.Algebra.BigOperators.Group.Finset.Piecewise
import Mathlib.Algebra.BigOperators.Ring.Finset
import Mathlib.Algebra.Order.BigOperators.Group.Finset

/-!
# Latencies on the clock of the load generator

A client has one request at a time, so the latencies that it records are disjoint intervals
of the time of the test. All the samples together cannot exceed the clients times that time,
which bounds the throughput by the mean latency in every report.
-/

namespace HSFinancialServices.LoadGen
open Ascii Transitions

namespace LoadTest
variable {γ : Type*}

/-- The next task of client `i` is one of `do_send_request` that sees no stop flag. -/
def sends (i : ℕ) (s : LoadTest γ) : Bool :=
  (s.clients[i]?).any fun c => c.tasks.head? == some .sendRequest && !s.stopFlag

/-- The handler of client `i` has a complete response and goes on to `record_success`. -/
def records (i : ℕ) (s : LoadTest γ) : Bool :=
  (s.clients[i]?).any fun c => c.tasks.head? == some .recordSuccess

end LoadTest

structure TimedTest (γ : Type*) where
  test : LoadTest γ
  /-- The nanoseconds since `start_time` -/
  now : ℕ
  requestStart : ℕ → ℕ
  /-- The `us` of the handler that each client is in -/
  latency : ℕ → ℕ

namespace TimedTest
variable {γ : Type*}

def initial (numClients : UInt32) (generator : ℕ → γ) : TimedTest γ :=
  { test := LoadTest.initial numClients generator
    now := 0
    requestStart := fun _ => 0
    latency := fun _ => 0 }

inductive Action
  | elapse (ns : ℕ)
  | start (i : ℕ)
  | complete (i k : ℕ) (completion : Option Bytes)
  | runTask (i : ℕ)
  | raiseStop
  deriving DecidableEq, Repr

def step (host : HostOrder) (nextRequest : γ → Message × γ) (action : Action) (s : TimedTest γ) :
    Option (TimedTest γ) :=
  match action with
  | .elapse ns => some { s with now := s.now + ns }
  | .start i => (LoadTest.step host nextRequest (.start i) s.test).map fun t => { s with test := t }
  | .complete i k completion =>
    (LoadTest.step host nextRequest (.complete i k completion) s.test).map fun t => { s with
      test := t
      latency := if t.records i then Function.update s.latency i ((s.now - s.requestStart i) / 1000)
        else s.latency }
  | .runTask i =>
    (LoadTest.step host nextRequest (.runTask i (s.latency i)) s.test).map fun t => { s with
      test := t
      requestStart := if s.test.sends i then Function.update s.requestStart i s.now
        else s.requestStart }
  | .raiseStop => (LoadTest.step host nextRequest .raiseStop s.test).map fun t => { s with test := t }

end TimedTest

def AsyncClient.busyUntil {γ : Type*} (now start latency : ℕ) (c : AsyncClient γ) : ℤ :=
  if .storeSample ∈ c.tasks then now - 1000 * latency
  else if c.outstanding.any ClientOp.inRequest then start
  else now

namespace AsyncClient
variable {γ : Type*} {host : HostOrder} {nextRequest : γ → Message × γ} {c c' : AsyncClient γ}
  {now start latency : ℕ}

theorem At.busyUntil_eq {stage : Stage} (h : c.At stage) : c.busyUntil now start latency =
    if .storeSample ∈ stage.tasks then (now : ℤ) - 1000 * latency
    else if stage.outstanding.any ClientOp.inRequest then (start : ℤ) else now := by
  rw [busyUntil, h.tasks, h.outstanding]

theorem busyUntil_of_idle (htasks : .storeSample ∉ c.tasks) (hop : c.outstanding = []) :
    c.busyUntil now start latency = now := by
  rw [busyUntil, if_neg htasks, hop]
  rfl

theorem At.busyUntil_complete {stage : Stage} (h : c.At stage) {completion : Option Bytes}
    (hstep : c.complete host 0 completion = some c') (hstart : start ≤ now) {latency' : ℕ}
    (hrecords : c'.tasks.head? = some .recordSuccess → latency' = (now - start) / 1000) :
    c.busyUntil now start latency ≤ c'.busyUntil now start latency' := by
  obtain ⟨op, rfl, hcase⟩ := h.complete_cases hstep
  have htasks : c.tasks = [] := h.tasks
  have hbefore : c.busyUntil now start latency = if op.inRequest then (start : ℤ) else now := by
    simp [h.busyUntil_eq, Stage.tasks, Stage.outstanding]
  have hle : c.busyUntil now start latency ≤ now := by
    rw [hbefore]
    split_ifs <;> omega
  cases hcase with
  | failed | refused =>
    rw [busyUntil_of_idle (c := failed _ _) (by simp [AsyncClient.failed, htasks]) rfl]
    exact hle
  | resolved hop | connected hop | written hop | bodyFollows hop =>
    obtain rfl := List.singleton_inj.mp (hop.symm.trans h.outstanding)
    rw [hbefore]
    simp [busyUntil, htasks, ClientOp.inRequest]
  | emptyResponse hop | response hop =>
    obtain rfl := List.singleton_inj.mp (hop.symm.trans h.outstanding)
    have hlatency : latency' = (now - start) / 1000 := hrecords (by rw [answered, htasks]; rfl)
    rw [hbefore, hlatency]
    simp only [busyUntil, answered, htasks, List.nil_append, ClientOp.inRequest, if_true,
      List.mem_cons, true_or, or_true]
    omega

theorem At.busyUntil_runTask {stage : Stage} (h : c.At stage) {stopFlag : Bool} {m : Metrics}
    (hstep : c.runTask host nextRequest stopFlag latency = some (c', m)) {start' : ℕ}
    (hsends : c.tasks.head? = some .sendRequest → stopFlag = false → start' = now) :
    c.busyUntil now start latency + 1000 * m.samples.sum ≤ c'.busyUntil now start' latency := by
  have houtstanding := h.outstanding
  rw [h.busyUntil_eq]
  cases stage with
  | constructed | waiting | ended =>
    simp only [AsyncClient.runTask, h.tasks, Stage.tasks, reduceCtorEq] at hstep
  | answered | counted | failing | ending =>
    simp only [AsyncClient.runTask, h.tasks, Stage.tasks, Option.some.injEq, Prod.mk.injEq] at hstep
    simp [← hstep.1, ← hstep.2, busyUntil, houtstanding, Stage.outstanding, Stage.tasks]
  | sending =>
    simp only [AsyncClient.runTask, h.tasks, Stage.tasks] at hstep
    split_ifs at hstep with hstop
    · simp only [Option.some.injEq, Prod.mk.injEq] at hstep
      simp [← hstep.1, ← hstep.2, busyUntil, houtstanding, Stage.outstanding, Stage.tasks]
    · have hnow : start' = now := hsends (by rw [h.tasks]; rfl) (Bool.eq_false_iff.mpr hstop)
      simp only [Option.some.injEq, Prod.mk.injEq] at hstep
      simp [← hstep.1, ← hstep.2, busyUntil, initiate, houtstanding, Stage.outstanding,
        Stage.tasks, ClientOp.inRequest, hnow]

theorem At.samples_runTask {stage : Stage} (h : c.At stage) {stopFlag : Bool} {us : ℤ} {m : Metrics}
    (hstep : c.runTask host nextRequest stopFlag us = some (c', m)) : ∀ x ∈ m.samples, x = us := by
  simp only [AsyncClient.runTask, h.tasks] at hstep
  cases stage with
  | constructed | waiting | ended => simp only [Stage.tasks, reduceCtorEq] at hstep
  | answered | counted | failing | ending =>
    simp only [Stage.tasks, Option.some.injEq, Prod.mk.injEq] at hstep
    simp [← hstep.2]
  | sending =>
    simp only [Stage.tasks] at hstep
    split_ifs at hstep
    all_goals
      simp only [Option.some.injEq, Prod.mk.injEq] at hstep
      simp [← hstep.2]

theorem busyUntil_le (hstart : start ≤ now) : c.busyUntil now start latency ≤ now := by
  rw [busyUntil]
  split_ifs <;> omega

end AsyncClient

namespace TimedTest
variable {γ : Type*} {host : HostOrder} {nextRequest : γ → Message × γ} {numClients : UInt32}
  {generator : ℕ → γ} {s s' : TimedTest γ}

def busyUntil (s : TimedTest γ) (i : ℕ) : ℤ :=
  (s.test.clients[i]?).elim s.now
    (AsyncClient.busyUntil s.now (s.requestStart i) (s.latency i))

theorem busyUntil_eq {i : ℕ} {c : AsyncClient γ} (hi : s.test.clients[i]? = some c) :
    s.busyUntil i = c.busyUntil s.now (s.requestStart i) (s.latency i) := by
  rw [busyUntil, hi]
  rfl

structure Timely (numClients : UInt32) (s : TimedTest γ) : Prop where
  accounted : s.test.Accounted numClients
  requestStart : ∀ i, s.requestStart i ≤ s.now
  latency : ∀ i, 1000 * s.latency i ≤ s.now
  samples : ∀ x ∈ s.test.samples, 0 ≤ x ∧ 1000 * x ≤ s.now
  total : 1000 * s.test.samples.sum ≤ ∑ i ∈ Finset.range numClients.toNat, s.busyUntil i

theorem initial_timely (numClients : UInt32) (generator : ℕ → γ) :
    Timely numClients (initial numClients generator) where
  accounted := LoadTest.initial_accounted numClients generator
  requestStart := fun _ => le_rfl
  latency := fun _ => le_rfl
  samples := fun _ hx => absurd hx List.not_mem_nil
  total := by
    apply Finset.sum_nonneg
    intro i _
    cases hi : (initial numClients generator).test.clients[i]? with
    | none =>
      rw [busyUntil, hi]
      exact le_rfl
    | some c =>
      rw [busyUntil_eq hi, AsyncClient.busyUntil]
      simp [initial]

structure Aside (i : ℕ) (s s' : TimedTest γ) : Prop where
  now : s'.now = s.now
  clients : ∀ j ≠ i, s'.test.clients[j]? = s.test.clients[j]?
  requestStart : ∀ j ≠ i, s'.requestStart j = s.requestStart j
  latency : ∀ j ≠ i, s'.latency j = s.latency j

theorem aside_after {i : ℕ} {c : AsyncClient γ} (hi : s.test.clients[i]? = some c)
    (c' : AsyncClient γ) (m : Metrics) (p q : Bool) (start latency : ℕ) : Aside i s
      { test := s.test.after i c' m
        now := s.now
        requestStart := if p then Function.update s.requestStart i start else s.requestStart
        latency := if q then Function.update s.latency i latency else s.latency } where
  now := rfl
  clients := by
    intro j hj
    simp only [LoadTest.clients_after hi, if_neg (Ne.symm hj)]
  requestStart := by
    intro j hj
    simp only
    split_ifs
    · exact Function.update_of_ne hj _ _
    · rfl
  latency := by
    intro j hj
    simp only
    split_ifs
    · exact Function.update_of_ne hj _ _
    · rfl

theorem Timely.moved (h : Timely numClients s) {i : ℕ} {c : AsyncClient γ}
    (hi : s.test.clients[i]? = some c) (haside : Aside i s s') (haccounted : s'.test.Accounted numClients)
    (hstart : s'.requestStart i ≤ s.now) (hlatency : 1000 * s'.latency i ≤ s.now)
    {gained : List ℤ} (hsamples : s'.test.samples = s.test.samples ++ gained)
    (hgained : ∀ x ∈ gained, 0 ≤ x ∧ 1000 * x ≤ s.now)
    (hbusy : c.busyUntil s.now (s.requestStart i) (s.latency i) + 1000 * gained.sum ≤
      s'.busyUntil i) : Timely numClients s' where
  accounted := haccounted
  requestStart := by
    intro j
    rw [haside.now]
    by_cases hj : j = i
    · rwa [hj]
    · rw [haside.requestStart j hj]
      exact h.requestStart j
  latency := by
    intro j
    rw [haside.now]
    by_cases hj : j = i
    · rwa [hj]
    · rw [haside.latency j hj]
      exact h.latency j
  samples := by
    intro x hx
    rw [hsamples] at hx
    rw [haside.now]
    obtain hx | hx := List.mem_append.mp hx
    · exact h.samples x hx
    · exact hgained x hx
  total := by
    have hlt : i < numClients.toNat := by
      rw [← h.accounted.length]
      exact (List.getElem?_eq_some_iff.mp hi).1
    have hone : ∀ j ∈ Finset.range numClients.toNat,
        s.busyUntil j + (if j = i then 1000 * gained.sum else 0) ≤ s'.busyUntil j := by
      intro j _
      split_ifs with hj
      · rwa [hj, busyUntil_eq hi]
      · rw [busyUntil, busyUntil, haside.clients j hj, haside.requestStart j hj,
          haside.latency j hj, haside.now, add_zero]
    have hall := Finset.sum_le_sum hone
    rw [Finset.sum_add_distrib, Finset.sum_ite_eq', if_pos (Finset.mem_range.mpr hlt)] at hall
    have htotal := h.total
    rw [hsamples, List.sum_append]
    omega

theorem Timely.elapse (h : Timely numClients s) (ns : ℕ) :
    Timely numClients { s with now := s.now + ns } where
  accounted := h.accounted
  requestStart := fun i => (h.requestStart i).trans (Nat.le_add_right _ _)
  latency := fun i => (h.latency i).trans (Nat.le_add_right _ _)
  samples := by
    intro x hx
    obtain ⟨hnonneg, hle⟩ := h.samples x hx
    exact ⟨hnonneg, hle.trans (Int.ofNat_le.mpr (Nat.le_add_right _ _))⟩
  total := by
    apply h.total.trans
    apply Finset.sum_le_sum
    intro i _
    simp only [busyUntil]
    cases s.test.clients[i]? with
    | none => simp
    | some c =>
      simp only [Option.elim_some, AsyncClient.busyUntil, Nat.cast_add]
      split_ifs <;> omega

theorem step_timely (h : Timely numClients s) {a : Action}
    (hstep : step host nextRequest a s = some s') : Timely numClients s' := by
  cases a with
  | elapse ns =>
    obtain rfl := Option.some.inj hstep
    exact h.elapse ns
  | raiseStop =>
    obtain rfl := Option.some.inj hstep
    exact { h with accounted := { h.accounted with } }
  | start i =>
    obtain ⟨t, ht, rfl⟩ := Option.map_eq_some_iff.mp hstep
    have haccounted := h.accounted.step ht
    obtain ⟨c, hi, hstart⟩ := Option.bind_eq_some_iff.mp ht
    obtain ⟨hnot, ht⟩ := Option.ite_none_left_eq_some.mp hstart
    obtain rfl := Option.some.inj ht
    obtain ⟨stage, hstage⟩ := h.accounted.stages c (List.mem_of_getElem? hi)
    have hconstructed := hstage.of_not_started hnot
    apply h.moved hi (aside_after hi c.start {} false false 0 0) haccounted (h.requestStart i)
      (h.latency i) rfl (fun _ hx => absurd hx List.not_mem_nil)
    rw [busyUntil_eq (LoadTest.client_after hi c.start {}), hconstructed.start.busyUntil_eq,
      hconstructed.busyUntil_eq]
    simp [Stage.tasks, Stage.outstanding, ClientOp.inRequest]
  | complete i k completion =>
    obtain ⟨t, ht, rfl⟩ := Option.map_eq_some_iff.mp hstep
    have haccounted := h.accounted.step ht
    obtain ⟨c, hi, hcomplete⟩ := Option.bind_eq_some_iff.mp ht
    obtain ⟨c', hc', rfl⟩ := Option.map_eq_some_iff.mp hcomplete
    obtain ⟨stage, hstage⟩ := h.accounted.stages c (List.mem_of_getElem? hi)
    obtain rfl := hstage.complete_index hc'
    have hclient := LoadTest.client_after hi c' {}
    apply h.moved hi (aside_after hi c' {} false ((s.test.after i c' {}).records i) 0 _) haccounted
      (h.requestStart i) ?_ rfl (fun _ hx => absurd hx List.not_mem_nil)
    · rw [busyUntil_eq hclient, List.sum_nil, mul_zero, add_zero]
      apply hstage.busyUntil_complete hc' (h.requestStart i)
      intro hrecords
      simp [LoadTest.records, hclient, hrecords]
    · simp only
      split_ifs
      · rw [Function.update_self]
        have := Nat.mul_div_le (s.now - s.requestStart i) 1000
        omega
      · exact h.latency i
  | runTask i =>
    obtain ⟨t, ht, rfl⟩ := Option.map_eq_some_iff.mp hstep
    have haccounted := h.accounted.step ht
    obtain ⟨c, hi, hrun⟩ := Option.bind_eq_some_iff.mp ht
    obtain ⟨⟨c', m⟩, hr, rfl⟩ := Option.map_eq_some_iff.mp hrun
    obtain ⟨stage, hstage⟩ := h.accounted.stages c (List.mem_of_getElem? hi)
    have hclient := LoadTest.client_after hi c' m
    apply h.moved hi (aside_after hi c' m (s.test.sends i) false s.now 0) haccounted ?_
      (h.latency i) rfl ?_ ?_
    · simp only
      split_ifs
      · rw [Function.update_self]
      · exact h.requestStart i
    · intro x hx
      rw [hstage.samples_runTask hr x hx]
      have := h.latency i
      omega
    · rw [busyUntil_eq hclient]
      apply hstage.busyUntil_runTask hr
      intro hhead hstop
      simp [LoadTest.sends, hi, hhead, hstop]

theorem reaches_timely {ok : Action → TimedTest γ → Prop}
    (h : Reaches (step host nextRequest) ok (initial numClients generator) s) :
    Timely numClients s := by
  apply h.invariant (initial_timely numClients generator)
  intro a b c hb _ hstep
  exact step_timely hb hstep

theorem Timely.sum_le (h : Timely numClients s) :
    1000 * s.test.samples.sum ≤ numClients.toNat * s.now := by
  have hle : ∀ i ∈ Finset.range numClients.toNat, s.busyUntil i ≤ s.now := by
    intro i _
    rw [busyUntil]
    cases s.test.clients[i]? with
    | none => exact le_rfl
    | some c => exact AsyncClient.busyUntil_le (h.requestStart i)
  have hsum := Finset.sum_le_card_nsmul _ _ _ hle
  rw [Finset.card_range, nsmul_eq_mul] at hsum
  exact h.total.trans hsum

def report (s : TimedTest γ) : Stats :=
  ({ successes := s.test.successes.toNat
     samples := s.test.samples
     errors := s.test.errors.toNat } : Metrics).compute ((s.now : ℚ) / 10 ^ 9)

end TimedTest

theorem Metrics.foldl_sorted (samples : List ℤ) :
    (sorted samples).foldl (fun (sum : ℚ) (v : ℤ) => sum + v) 0 = (samples.sum : ℤ) := by
  rw [← (sorted_perm samples).sum_eq, Int.cast_list_sum, List.sum_eq_foldl, List.foldl_map]

theorem Metrics.rps_mul_meanUs_le {m : Metrics} {elapsed bound : ℚ} (hbound : 0 ≤ bound)
    (hcount : m.successes ≤ m.samples.length) (hnonneg : 0 ≤ m.samples.sum)
    (hsum : (m.samples.sum : ℚ) ≤ bound * elapsed) :
    (m.compute elapsed).rps * (m.compute elapsed).meanUs ≤ bound := by
  by_cases hne : m.samples = []
  · have hmean : (m.compute elapsed).meanUs = 0 := by
      rw [compute, if_pos ((sorted_eq_nil_iff _).mpr hne)]
    rw [hmean, mul_zero]
    exact hbound
  have hlength : (0 : ℚ) < m.samples.length := Nat.cast_pos.mpr (List.length_pos_of_ne_nil hne)
  rw [compute_eq hne, foldl_sorted, length_sorted]
  simp only
  split_ifs with helapsed
  · have hshare : (m.successes : ℚ) / m.samples.length ≤ 1 :=
      (div_le_one₀ hlength).mpr (Nat.cast_le.mpr hcount)
    have hrate : 0 ≤ (m.samples.sum : ℚ) / elapsed :=
      div_nonneg (Int.cast_nonneg hnonneg) helapsed.le
    calc (m.successes : ℚ) / elapsed * ((m.samples.sum : ℚ) / m.samples.length)
        = m.successes / m.samples.length * ((m.samples.sum : ℚ) / elapsed) := by ring
      _ ≤ 1 * ((m.samples.sum : ℚ) / elapsed) := mul_le_mul_of_nonneg_right hshare hrate
      _ ≤ bound := by
        rw [one_mul]
        exact (div_le_iff₀ helapsed).mpr hsum
  · rw [zero_mul]
    exact hbound

theorem LoadTest.Accounted.successes_le {γ : Type*} {numClients : UInt32} {s : LoadTest γ}
    (h : s.Accounted numClients) (hfinished : ∀ c ∈ s.clients, c.finished = true) :
    s.successes.toNat ≤ s.samples.length := by
  have hsums : s.sum AsyncClient.successes = s.sum AsyncClient.samples := by
    apply congrArg List.sum
    apply List.map_congr_left
    intro c hc
    obtain ⟨stage, hstage⟩ := h.stages c hc
    have hend := hstage.finished.symm.trans (hfinished c hc)
    rw [hstage.samples, if_neg, add_zero]
    rintro rfl
    cases hend
  rw [h.successes, hsums, h.samples, UInt64.toNat_ofNat']
  exact Nat.mod_le _ _

/-- What is recorded cannot exceed the time of all clients together, and the throughput of a
report times its mean latency cannot exceed the number of clients. -/
theorem latencies_fit_in_time {γ : Type*} {host : HostOrder} {nextRequest : γ → Message × γ}
    {numClients : UInt32} {generator : ℕ → γ} {s : TimedTest γ}
    (h : Reaches (TimedTest.step host nextRequest) (fun _ _ => True)
      (TimedTest.initial numClients generator) s) :
    (∀ x ∈ s.test.samples, 0 ≤ x ∧ 1000 * x ≤ s.now) ∧
      1000 * s.test.samples.sum ≤ numClients.toNat * s.now ∧
      ((∀ c ∈ s.test.clients, c.finished = true) →
        s.report.rps * s.report.meanUs ≤ 10 ^ 6 * numClients.toNat) := by
  have hs := TimedTest.reaches_timely h
  refine ⟨hs.samples, hs.sum_le, ?_⟩
  intro hfinished
  have hsum := hs.sum_le
  apply Metrics.rps_mul_meanUs_le (by positivity) (hs.accounted.successes_le hfinished)
  · exact List.sum_nonneg fun x hx => (hs.samples x hx).1
  · have hcast : (1000 : ℚ) * s.test.samples.sum ≤ numClients.toNat * s.now := by exact_mod_cast hsum
    linarith

theorem latencies_fit_in_time_two_clients :
    let step := TimedTest.step .little (nextRequest (fun _ => ascii "100") {})
    ∃ s : TimedTest UInt64, Reaches step (fun _ _ => True)
        (TimedTest.initial 2 fun i => seed (UInt32.ofNat i)) s ∧
      s.test.clients.map AsyncClient.finished = [true, true] ∧ s.test.samples = [1500] ∧
      s.report.rps * s.report.meanUs ≤ 10 ^ 6 * (2 : UInt32).toNat := by
  intro step
  let header := encodeHeader .little ⟨0, MessageType.kPong, 0, 0⟩
  let run := [.start 0, .start 1, .complete 0 0 (some []), .elapse 400000, .complete 0 0 (some []),
    .runTask 0, .complete 0 0 (some []), .elapse 1500600, .complete 0 0 (some header),
    .complete 1 0 none, .elapse 50000, .runTask 0, .raiseStop, .runTask 0, .runTask 1, .runTask 1,
    .runTask 0, .runTask 0].foldlM (fun s a => if True then step a s else none)
    (TimedTest.initial 2 fun i => seed (UInt32.ofNat i))
  have hrun : run.map (fun s => (s.test.clients.map AsyncClient.finished, s.test.samples)) =
      some ([true, true], [1500]) := by decide +kernel
  obtain ⟨s, hs, hend⟩ := Option.map_eq_some_iff.mp hrun
  obtain ⟨hfinished, hsamples⟩ := Prod.mk.inj hend
  have hreach := Reaches.of_foldlM hs
  obtain ⟨-, -, hreport⟩ := latencies_fit_in_time hreach
  refine ⟨s, hreach, hfinished, hsamples, hreport ?_⟩
  intro c hc
  have hmem : c.finished ∈ s.test.clients.map AsyncClient.finished := List.mem_map_of_mem hc
  rw [hfinished] at hmem
  simpa using hmem

end HSFinancialServices.LoadGen
