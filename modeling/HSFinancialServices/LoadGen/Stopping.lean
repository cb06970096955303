import HSFinancialServices.LoadGen.ResponseStream
import Mathlib.Algebra.Order.BigOperators.Group.List

/-!
# The end of a load test

Once the stop flag is up every client has only a few steps left, whatever its operations
come to: the one that is outstanding runs its course and the next look at the flag is the
last. So the pool of threads runs out of work.
-/

namespace HSFinancialServices.LoadGen
open Ascii Transitions

/-- The steps that are left after an operation, its completion included, when the flag is up -/
def ClientOp.work : ClientOp → ℕ
  | connect => 3
  | resolve => 4
  | readBody => 5
  | readHeader => 6
  | write => 7

def Task.work : Task → ℕ
  | recordSuccess | storeSample | recordError | finish => 1
  | sendRequest => 2

namespace AsyncClient
variable {γ : Type*} {host : HostOrder} {nextRequest : γ → Message × γ} {c c' : AsyncClient γ}

def work (c : AsyncClient γ) : ℕ :=
  (if c.started then 0 else 5) + (c.outstanding.map ClientOp.work).sum +
    (c.tasks.map Task.work).sum

theorem At.work_eq {stage : Stage} (h : c.At stage) :
    c.work = (if stage = .constructed then 5 else 0) + (stage.outstanding.map ClientOp.work).sum +
      (stage.tasks.map Task.work).sum := by
  rw [work, h.started, h.outstanding, h.tasks]
  by_cases hstage : stage = .constructed <;> simp [hstage]

theorem At.work_start (h : c.At .constructed) : c.start.work < c.work := by
  rw [h.work_eq, h.start.work_eq]
  decide

theorem At.work_complete {stage : Stage} (h : c.At stage) {completion : Option Bytes}
    (hstep : c.complete host 0 completion = some c') : c'.work < c.work := by
  obtain ⟨op, rfl, hcase⟩ := h.complete_cases hstep
  have hstarted : c.started = true := h.started
  have htasks : c.tasks = [] := h.tasks
  rw [h.work_eq]
  cases hcase with
  | @failed op' hop =>
    obtain rfl : op' = op := List.singleton_inj.mp (hop.symm.trans h.outstanding)
    simp only [work, AsyncClient.failed, hstarted, htasks]
    cases op' <;> decide
  | resolved hop | connected hop | written hop | refused hop | emptyResponse hop
  | bodyFollows hop | response hop =>
    obtain rfl := List.singleton_inj.mp (hop.symm.trans h.outstanding)
    simp only [work, AsyncClient.failed, answered, hstarted, htasks]
    decide

theorem At.work_runTask {stage : Stage} (h : c.At stage) {us : ℤ} {m : Metrics}
    (hstep : c.runTask host nextRequest true us = some (c', m)) : c'.work < c.work := by
  rw [h.work_eq]
  cases stage with
  | constructed | waiting | ended =>
    simp only [AsyncClient.runTask, h.tasks, Stage.tasks, reduceCtorEq] at hstep
  | answered | counted | failing | ending | sending =>
    have hstarted : c.started = true := h.started
    have houtstanding : c.outstanding = [] := h.outstanding
    simp only [AsyncClient.runTask, h.tasks, Stage.tasks, if_true, Option.some.injEq,
      Prod.mk.injEq] at hstep
    simp only [← hstep.1, work, hstarted, houtstanding]
    exact Nat.le_of_ble_eq_true rfl

theorem At.finished_of_idle {stage : Stage} (h : c.At stage) (hstarted : c.started = true)
    (hcomplete : c.complete host 0 none = none)
    (hrun : c.runTask host nextRequest true 0 = none) : c.finished = true := by
  cases stage with
  | constructed => exact absurd (hstarted.symm.trans h.started) (by decide)
  | waiting op =>
    cases op <;> simp [AsyncClient.complete, h.outstanding, Stage.outstanding, fits] at hcomplete
  | answered | counted | sending | failing | ending =>
    simp only [AsyncClient.runTask, h.tasks, Stage.tasks, if_true, reduceCtorEq] at hrun
  | ended => exact h.finished

end AsyncClient

namespace LoadTest
variable {γ : Type*} {host : HostOrder} {nextRequest : γ → Message × γ} {numClients : UInt32}
  {generator : ℕ → γ} {s s' : LoadTest γ}

def work (s : LoadTest γ) : ℕ := s.sum AsyncClient.work

theorem work_after {i : ℕ} {c c' : AsyncClient γ} (hi : s.clients[i]? = some c)
    (hlt : c'.work < c.work) (m : Metrics) : (s.after i c' m).work < s.work := by
  -- the client that was there before is put back
  have hback := client_after hi c' m
  have hsum := sum_map_set AsyncClient.work hback c (n := c.work - c'.work) (by omega)
  have hsame : (s.after i c' m).clients.set i c = s.clients := by
    obtain ⟨hlength, rfl⟩ := List.getElem?_eq_some_iff.mp hi
    simp only [after, List.set_set, List.set_getElem_self]
  rw [hsame] at hsum
  simp only [work, sum]
  omega

def workOf (i : ℕ) (s : LoadTest γ) : ℕ := (s.clients[i]?).elim 0 AsyncClient.work

/-- With the flag up, every step takes one client nearer to its end and begins no request. -/
theorem Accounted.stopped_cases (h : Accounted numClients s) (hstop : s.stopFlag = true)
    {a : Action} (ha : a ≠ .raiseStop) (hstep : LoadTest.step host nextRequest a s = some s') :
    ∃ i c c' m, a.client = some i ∧ s.clients[i]? = some c ∧ s' = s.after i c' m ∧
      c'.work < c.work ∧ c'.sent = c.sent := by
  cases a with
  | start i =>
    obtain ⟨c, hi, hstart⟩ := Option.bind_eq_some_iff.mp hstep
    obtain ⟨hnot, hs⟩ := Option.ite_none_left_eq_some.mp hstart
    obtain ⟨stage, hstage⟩ := h.stages c (List.mem_of_getElem? hi)
    exact ⟨i, c, c.start, {}, rfl, hi, (Option.some.inj hs).symm,
      (hstage.of_not_started hnot).work_start, rfl⟩
  | complete i k completion =>
    obtain ⟨c, hi, hcomplete⟩ := Option.bind_eq_some_iff.mp hstep
    obtain ⟨c', hc', rfl⟩ := Option.map_eq_some_iff.mp hcomplete
    obtain ⟨stage, hstage⟩ := h.stages c (List.mem_of_getElem? hi)
    obtain rfl := hstage.complete_index hc'
    have hsent : c'.sent = c.sent := by
      obtain ⟨op, -, hcase⟩ := hstage.complete_cases hc'
      cases hcase <;> rfl
    exact ⟨i, c, c', _, rfl, hi, rfl, hstage.work_complete hc', hsent⟩
  | runTask i us =>
    obtain ⟨c, hi, hrun⟩ := Option.bind_eq_some_iff.mp hstep
    obtain ⟨⟨c', m⟩, hr, rfl⟩ := Option.map_eq_some_iff.mp hrun
    obtain ⟨stage, hstage⟩ := h.stages c (List.mem_of_getElem? hi)
    rw [hstop] at hr
    have hsent : c'.sent = c.sent := by
      obtain hquiet | ⟨-, hdown, -⟩ := hstage.runTask_cases hr
      · exact hquiet.sent
      · cases hdown
    exact ⟨i, c, c', m, rfl, hi, rfl, hstage.work_runTask hr, hsent⟩
  | raiseStop => exact absurd rfl ha

theorem Accounted.stopped_step (h : Accounted numClients s) (hstop : s.stopFlag = true) {a : Action}
    (ha : a ≠ .raiseStop) (hstep : LoadTest.step host nextRequest a s = some s') :
    s'.stopFlag = true ∧ s'.work < s.work ∧ (∀ j, s'.sentBy j = s.sentBy j) ∧
      ∀ j, s'.workOf j + (decide (a.client = some j)).toNat ≤ s.workOf j := by
  obtain ⟨i, c, c', m, hclient, hi, rfl, hlt, hsent⟩ := h.stopped_cases hstop ha hstep
  refine ⟨hstop, work_after hi hlt m, ?_, ?_⟩
  · intro j
    rw [sentBy_after hi]
    split_ifs with hij
    · rw [← hij, sentBy_eq hi, hsent]
    · rfl
  · intro j
    rw [workOf, workOf, clients_after hi, hclient]
    by_cases hij : i = j
    · subst hij
      simpa [hi] using hlt
    · simp [hij]

theorem Accounted.finished (h : Accounted numClients s) (hall : ∀ c ∈ s.clients, c.finished = true) :
    (∀ c ∈ s.clients, c.finished = true ∧ c.onDoneCalls = 1) ∧ s.inFlight = 0 := by
  constructor
  · intro c hc
    obtain ⟨stage, hstage⟩ := h.stages c hc
    have hfinished := hall c hc
    refine ⟨hfinished, ?_⟩
    rw [hstage.onDoneCalls, ← hstage.finished, hfinished]
    rfl
  · have hnone : s.clients.countP (fun c => !c.finished) = 0 := by
      rw [List.countP_eq_zero]
      intro c hc
      rw [hall c hc]
      decide
    have hdone := sum_onDoneCalls h.stages
    have hcount := h.inFlight
    rw [hnone, h.length] at hdone
    rw [sum] at hcount
    exact UInt32.toNat_inj.mp (by rw [UInt32.toNat_zero]; omega)

theorem Accounted.settled (h : Accounted numClients s) (hstop : s.stopFlag = true)
    (hsettled : Settled (LoadTest.step host nextRequest) (fun a _ => a ≠ .raiseStop) s) :
    (∀ c ∈ s.clients, c.finished = true ∧ c.onDoneCalls = 1) ∧ s.inFlight = 0 := by
  apply h.finished
  intro c hc
  obtain ⟨i, hi⟩ := List.mem_iff_getElem?.mp hc
  obtain ⟨stage, hstage⟩ := h.stages c hc
  have hstarted : c.started = true := by
    by_contra hnot
    refine hsettled (.start i) (s.after i c.start {}) nofun ?_
    simp only [LoadTest.step, hi, Option.bind_some, hnot, if_false]
  have hcomplete : c.complete host 0 none = none := by
    by_contra hsome
    obtain ⟨c', hc'⟩ := Option.ne_none_iff_exists'.mp hsome
    refine hsettled (.complete i 0 none) (s.after i c' {}) nofun ?_
    simp only [LoadTest.step, hi, Option.bind_some, hc', Option.map_some]
  have hrun : c.runTask host nextRequest true 0 = none := by
    by_contra hsome
    obtain ⟨r, hr⟩ := Option.ne_none_iff_exists'.mp hsome
    refine hsettled (.runTask i 0) (s.after i r.1 r.2) nofun ?_
    simp only [LoadTest.step, hi, Option.bind_some, hstop, hr, Option.map_some]
  exact hstage.finished_of_idle hstarted hcomplete hrun

end LoadTest

end HSFinancialServices.LoadGen
