import HSFinancialServices.LoadGen.LoadTest
import HSFinancialServices.LoadGen.Requests

/-!
# The accounts of the load generator

A client is always in one of a few stages, which say what is outstanding, what its handler
still has to do and how its own history adds up. The shared counters are the sums of these
histories, whatever the order in which the clients take their steps.
-/

namespace HSFinancialServices.LoadGen
open Ascii Transitions

def ClientOp.inRequest : ClientOp → Bool
  | resolve | connect => false
  | write | readHeader | readBody => true

/-- Where a client stands. A client ends because an operation failed or because it saw the
stop flag. -/
inductive Stage
  | constructed
  | waiting (op : ClientOp)
  | answered
  | counted
  | sending
  | failing (op : ClientOp)
  | ending (failure : Option ClientOp)
  | ended (failure : Option ClientOp)
  deriving DecidableEq, Repr

namespace Stage

def outstanding : Stage → List ClientOp
  | waiting op => [op]
  | _ => []

def tasks : Stage → List Task
  | answered => [.recordSuccess, .storeSample, .sendRequest]
  | counted => [.storeSample, .sendRequest]
  | sending => [.sendRequest]
  | failing _ => [.recordError, .finish]
  | ending _ => [.finish]
  | _ => []

def finished : Stage → Bool
  | ended _ => true
  | _ => false

def failedIn : Stage → Option ClientOp
  | failing op => some op
  | ending failure | ended failure => failure
  | _ => none

def sawStop : Stage → Bool
  | ending failure | ended failure => failure.isNone
  | _ => false

def errors : Stage → ℕ
  | ending failure | ended failure => failure.isSome.toNat
  | _ => 0

def unanswered : Stage → ℕ
  | waiting op | failing op => op.inRequest.toNat
  | answered => 1
  | ending failure | ended failure => (failure.any ClientOp.inRequest).toNat
  | _ => 0

end Stage

structure AsyncClient.At {γ : Type*} (c : AsyncClient γ) (stage : Stage) : Prop where
  started : c.started = decide (stage ≠ .constructed)
  outstanding : c.outstanding = stage.outstanding
  tasks : c.tasks = stage.tasks
  finished : c.finished = stage.finished
  failedIn : c.failedIn = stage.failedIn
  sawStop : c.sawStop = stage.sawStop
  errors : c.errors = stage.errors
  onDoneCalls : c.onDoneCalls = stage.finished.toNat
  sent : c.sent.length = c.successes + stage.unanswered
  responses : c.responses.length = c.successes + if stage = .answered then 1 else 0
  samples : c.successes = c.samples + if stage = .counted then 1 else 0

namespace AsyncClient

variable {γ : Type*} {host : HostOrder} {nextRequest : γ → Message × γ} {c c' : AsyncClient γ}

theorem construct_at (generator : γ) : (construct generator).At .constructed :=
  ⟨rfl, rfl, rfl, rfl, rfl, rfl, rfl, rfl, rfl, rfl, rfl⟩

theorem At.start (h : c.At .constructed) : c.start.At (.waiting .resolve) where
  started := rfl
  outstanding := by rw [AsyncClient.start, initiate, h.outstanding]; rfl
  tasks := h.tasks
  finished := h.finished
  failedIn := h.failedIn
  sawStop := h.sawStop
  errors := h.errors
  onDoneCalls := h.onDoneCalls
  sent := h.sent
  responses := h.responses
  samples := h.samples

structure Resumed (c : AsyncClient γ) (op : ClientOp) : Prop where
  started : c.started = true
  outstanding : c.outstanding = []
  tasks : c.tasks = []
  finished : c.finished = false
  failedIn : c.failedIn = none
  sawStop : c.sawStop = false
  errors : c.errors = 0
  onDoneCalls : c.onDoneCalls = 0
  sent : c.sent.length = c.successes + op.inRequest.toNat
  responses : c.responses.length = c.successes
  samples : c.successes = c.samples

theorem At.resumed {op : ClientOp} (h : c.At (.waiting op)) (k : ℕ) (hk : c.outstanding[k]? ≠ none) :
    ({ c with outstanding := c.outstanding.eraseIdx k } : AsyncClient γ).Resumed op where
  started := h.started
  outstanding := by
    rw [h.outstanding] at hk ⊢
    cases k with
    | zero => rfl
    | succ k => simp [Stage.outstanding] at hk
  tasks := h.tasks
  finished := h.finished
  failedIn := h.failedIn
  sawStop := h.sawStop
  errors := h.errors
  onDoneCalls := h.onDoneCalls
  sent := h.sent
  responses := h.responses
  samples := h.samples

theorem Resumed.initiate {op : ClientOp} (h : c.Resumed op) {next : ClientOp}
    (hnext : next.inRequest = op.inRequest) : (c.initiate next).At (.waiting next) where
  started := h.started
  outstanding := by rw [AsyncClient.initiate, h.outstanding]; rfl
  tasks := h.tasks
  finished := h.finished
  failedIn := h.failedIn
  sawStop := h.sawStop
  errors := h.errors
  onDoneCalls := h.onDoneCalls
  sent := by
    rw [Stage.unanswered, hnext]
    exact h.sent
  responses := h.responses
  samples := h.samples

theorem Resumed.failed {op : ClientOp} (h : c.Resumed op) : (c.failed op).At (.failing op) where
  started := h.started
  outstanding := h.outstanding
  tasks := by rw [AsyncClient.failed, h.tasks]; rfl
  finished := h.finished
  failedIn := rfl
  sawStop := h.sawStop
  errors := h.errors
  onDoneCalls := h.onDoneCalls
  sent := h.sent
  responses := h.responses
  samples := h.samples

theorem Resumed.answered {op : ClientOp} (h : c.Resumed op) (hop : op.inRequest = true)
    (response : Message) : (c.answered response).At .answered where
  started := h.started
  outstanding := h.outstanding
  tasks := by rw [AsyncClient.answered, h.tasks]; rfl
  finished := h.finished
  failedIn := h.failedIn
  sawStop := h.sawStop
  errors := h.errors
  onDoneCalls := h.onDoneCalls
  sent := by
    have hsent := h.sent
    rw [hop] at hsent
    exact hsent
  responses := by
    simp only [AsyncClient.answered, List.length_append, List.length_singleton, h.responses, if_true]
  samples := h.samples

theorem Resumed.onComplete {op : ClientOp} (h : c.Resumed op) (completion : Option Bytes) :
    ∃ stage, (c.onComplete host op completion).At stage := by
  cases completion with
  | none => exact ⟨_, h.failed⟩
  | some data =>
    cases op with
    | resolve => exact ⟨_, h.initiate rfl⟩
    | connect =>
      refine ⟨.sending, h.started, h.outstanding, ?_, h.finished, h.failedIn, h.sawStop, h.errors,
        h.onDoneCalls, h.sent, h.responses, h.samples⟩
      simp only [AsyncClient.onComplete, h.tasks, Stage.tasks, List.nil_append]
    | write => exact ⟨_, h.initiate rfl⟩
    | readHeader =>
      simp only [AsyncClient.onComplete, onResponseHeader]
      split
      · have hread : Resumed { c with headerBuf := data } .readHeader :=
          ⟨h.started, h.outstanding, h.tasks, h.finished, h.failedIn, h.sawStop, h.errors,
            h.onDoneCalls, h.sent, h.responses, h.samples⟩
        exact ⟨_, hread.failed⟩
      · rename_i hdr hdecode
        have hread : ∀ body : Bytes,
            Resumed { c with headerBuf := data, respHeader := hdr, bodyBuf := body } .readHeader :=
          fun body => ⟨h.started, h.outstanding, h.tasks, h.finished, h.failedIn, h.sawStop,
            h.errors, h.onDoneCalls, h.sent, h.responses, h.samples⟩
        split_ifs
        · exact ⟨_, (hread c.bodyBuf).answered rfl _⟩
        · exact ⟨_, (hread _).initiate rfl⟩
    | readBody =>
      have hread : Resumed { c with bodyBuf := data } .readBody :=
        ⟨h.started, h.outstanding, h.tasks, h.finished, h.failedIn, h.sawStop, h.errors,
          h.onDoneCalls, h.sent, h.responses, h.samples⟩
      exact ⟨_, hread.answered rfl _⟩

theorem At.complete {stage : Stage} (h : c.At stage) {k : ℕ} {completion : Option Bytes}
    (hstep : c.complete host k completion = some c') : ∃ stage', c'.At stage' := by
  simp only [AsyncClient.complete] at hstep
  split at hstep
  · cases hstep
  · rename_i op hop
    obtain ⟨-, hc'⟩ := Option.ite_none_right_eq_some.mp hstep
    have hmem := List.mem_of_getElem? hop
    rw [h.outstanding] at hmem
    cases stage with
    | waiting op' =>
      obtain rfl : op = op' := List.mem_singleton.mp hmem
      have hresumed := h.resumed k (by rw [hop]; exact Option.some_ne_none op)
      rw [← Option.some.inj hc']
      exact hresumed.onComplete completion
    | constructed | answered | counted | sending | failing | ending | ended => cases hmem

/-- What the metrics gain stands in the history of the client as well. -/
structure Credited (c c' : AsyncClient γ) (m : Metrics) : Prop where
  successes : c'.successes = c.successes + m.successes
  samples : c'.samples = c.samples + m.samples.length
  errors : c'.errors = c.errors + m.errors
  onDoneCalls : c'.onDoneCalls = c.onDoneCalls + m.onDoneCalls

theorem At.runTask {stage : Stage} (h : c.At stage) {stopFlag : Bool} {us : ℤ} {m : Metrics}
    (hstep : c.runTask host nextRequest stopFlag us = some (c', m)) :
    ∃ stage', c'.At stage' := by
  cases stage with
  | constructed | waiting | ended =>
    simp only [AsyncClient.runTask, h.tasks, Stage.tasks, reduceCtorEq] at hstep
  | answered =>
    simp only [AsyncClient.runTask, h.tasks, Stage.tasks, Option.some.injEq, Prod.mk.injEq] at hstep
    rw [← hstep.1]
    refine ⟨.counted, h.started, h.outstanding, rfl, h.finished, h.failedIn, h.sawStop, h.errors,
      h.onDoneCalls, h.sent, h.responses, ?_⟩
    simp only [h.samples, if_true, reduceCtorEq, if_false]
  | counted =>
    simp only [AsyncClient.runTask, h.tasks, Stage.tasks, Option.some.injEq, Prod.mk.injEq] at hstep
    rw [← hstep.1]
    exact ⟨.sending, h.started, h.outstanding, rfl, h.finished, h.failedIn, h.sawStop, h.errors,
      h.onDoneCalls, h.sent, h.responses, h.samples⟩
  | failing op =>
    simp only [AsyncClient.runTask, h.tasks, Stage.tasks, Option.some.injEq, Prod.mk.injEq] at hstep
    rw [← hstep.1]
    refine ⟨.ending (some op), h.started, h.outstanding, rfl, h.finished, h.failedIn, h.sawStop, ?_,
      h.onDoneCalls, h.sent, h.responses, h.samples⟩
    simp only [h.errors]
    rfl
  | ending failure =>
    simp only [AsyncClient.runTask, h.tasks, Stage.tasks, Option.some.injEq, Prod.mk.injEq] at hstep
    rw [← hstep.1]
    refine ⟨.ended failure, h.started, h.outstanding, rfl, rfl, h.failedIn, h.sawStop, h.errors, ?_,
      h.sent, h.responses, h.samples⟩
    simp only [h.onDoneCalls]
    rfl
  | sending =>
    simp only [AsyncClient.runTask, h.tasks, Stage.tasks] at hstep
    split_ifs at hstep with hstop
    · simp only [Option.some.injEq, Prod.mk.injEq] at hstep
      rw [← hstep.1]
      exact ⟨.ending none, h.started, h.outstanding, rfl, h.finished, h.failedIn, rfl, h.errors,
        h.onDoneCalls, h.sent, h.responses, h.samples⟩
    · simp only [Option.some.injEq, Prod.mk.injEq] at hstep
      rw [← hstep.1]
      refine ⟨.waiting .write, h.started, ?_, rfl, h.finished, h.failedIn, h.sawStop, h.errors,
        h.onDoneCalls, ?_, h.responses, h.samples⟩
      · simp only [initiate, h.outstanding]
        rfl
      · simp only [initiate, List.length_append, List.length_singleton, h.sent]
        rfl

theorem runTask_credited {stopFlag : Bool} {us : ℤ} {m : Metrics}
    (hstep : c.runTask host nextRequest stopFlag us = some (c', m)) : Credited c c' m := by
  simp only [AsyncClient.runTask] at hstep
  split at hstep
  · cases hstep
  · cases hstep
    exact ⟨rfl, rfl, rfl, rfl⟩
  · cases hstep
    exact ⟨rfl, rfl, rfl, rfl⟩
  · cases hstep
    exact ⟨rfl, rfl, rfl, rfl⟩
  · cases hstep
    exact ⟨rfl, rfl, rfl, rfl⟩
  · split_ifs at hstep
    · cases hstep
      exact ⟨rfl, rfl, rfl, rfl⟩
    · cases hstep
      exact ⟨rfl, rfl, rfl, rfl⟩

theorem complete_credited {k : ℕ} {completion : Option Bytes}
    (hstep : c.complete host k completion = some c') : Credited c c' {} := by
  simp only [AsyncClient.complete] at hstep
  split at hstep
  · cases hstep
  · rename_i op hop
    obtain ⟨-, hc'⟩ := Option.ite_none_right_eq_some.mp hstep
    rw [← Option.some.inj hc']
    cases completion with
    | none => exact ⟨rfl, rfl, rfl, rfl⟩
    | some data =>
      cases op with
      | resolve | connect | write | readBody => exact ⟨rfl, rfl, rfl, rfl⟩
      | readHeader =>
        simp only [onComplete, onResponseHeader]
        split
        · exact ⟨rfl, rfl, rfl, rfl⟩
        · split_ifs
          · exact ⟨rfl, rfl, rfl, rfl⟩
          · exact ⟨rfl, rfl, rfl, rfl⟩

end AsyncClient

namespace LoadTest

variable {γ : Type*} {host : HostOrder} {nextRequest : γ → Message × γ} {numClients : UInt32}
  {generator : ℕ → γ} {s s' : LoadTest γ}

def sum (f : AsyncClient γ → ℕ) (s : LoadTest γ) : ℕ := (s.clients.map f).sum

structure Accounted (numClients : UInt32) (s : LoadTest γ) : Prop where
  stages : ∀ c ∈ s.clients, ∃ stage, c.At stage
  length : s.clients.length = numClients.toNat
  inFlight : s.inFlight.toNat + s.sum AsyncClient.onDoneCalls = numClients.toNat
  successes : s.successes = UInt64.ofNat (s.sum AsyncClient.successes)
  samples : s.samples.length = s.sum AsyncClient.samples
  errors : s.errors = UInt64.ofNat (s.sum AsyncClient.errors)

theorem sum_map_set {l : List (AsyncClient γ)} {i : ℕ} {c : AsyncClient γ} (f : AsyncClient γ → ℕ)
    (h : l[i]? = some c) (c' : AsyncClient γ) {n : ℕ} (hf : f c' = f c + n) :
    ((l.set i c').map f).sum = (l.map f).sum + n := by
  induction l generalizing i with
  | nil => cases h
  | cons a l ih =>
    cases i with
    | zero =>
      obtain rfl : a = c := Option.some.inj h
      simp only [List.set_cons_zero, List.map_cons, List.sum_cons, hf]
      omega
    | succ i =>
      simp only [List.set_cons_succ, List.map_cons, List.sum_cons, ih h]
      omega

theorem initial_accounted (numClients : UInt32) (generator : ℕ → γ) :
    Accounted numClients (initial numClients generator) := by
  have hzero : ∀ f : AsyncClient γ → ℕ, (∀ g, f (AsyncClient.construct g) = 0) →
      (initial numClients generator).sum f = 0 := by
    intro f hf
    simp only [sum, initial, List.map_map, Function.comp_def, hf]
    simp
  refine ⟨?_, ?_, ?_, ?_, ?_, ?_⟩
  · intro c hc
    obtain ⟨i, -, rfl⟩ := List.mem_map.mp hc
    exact ⟨_, AsyncClient.construct_at _⟩
  · simp only [initial, List.length_map, List.length_range]
  · rw [hzero _ fun _ => rfl]
    rfl
  · rw [hzero _ fun _ => rfl]
    rfl
  · rw [hzero _ fun _ => rfl]
    rfl
  · rw [hzero _ fun _ => rfl]
    rfl

theorem sum_onDoneCalls {l : List (AsyncClient γ)} (h : ∀ c ∈ l, ∃ stage, c.At stage) :
    (l.map AsyncClient.onDoneCalls).sum + l.countP (fun c => !c.finished) = l.length := by
  induction l with
  | nil => rfl
  | cons c l ih =>
    obtain ⟨stage, hstage⟩ := h c (List.mem_cons_self ..)
    have ih := ih (List.forall_mem_of_forall_mem_cons h)
    have hdone := hstage.onDoneCalls
    rw [← hstage.finished] at hdone
    rw [List.map_cons, List.sum_cons, List.countP_cons, List.length_cons, hdone]
    cases c.finished <;> simp <;> omega

theorem Accounted.after (h : Accounted numClients s) {i : ℕ} {c c' : AsyncClient γ} {m : Metrics}
    {stage : Stage} (hi : s.clients[i]? = some c) (hstage : c'.At stage)
    (hcredited : c.Credited c' m) : Accounted numClients (s.after i c' m) := by
  have hstages : ∀ d ∈ (s.after i c' m).clients, ∃ stage, d.At stage := by
    intro d hd
    obtain hd | rfl := List.mem_or_eq_of_mem_set hd
    · exact h.stages d hd
    · exact ⟨stage, hstage⟩
  have hlength : (s.after i c' m).clients.length = numClients.toNat := by
    simp only [LoadTest.after, List.length_set, h.length]
  have hsuccesses : (s.after i c' m).sum AsyncClient.successes =
      s.sum AsyncClient.successes + m.successes := sum_map_set _ hi c' hcredited.successes
  have hsamples : (s.after i c' m).sum AsyncClient.samples =
      s.sum AsyncClient.samples + m.samples.length := sum_map_set _ hi c' hcredited.samples
  have herrors : (s.after i c' m).sum AsyncClient.errors = s.sum AsyncClient.errors + m.errors :=
    sum_map_set _ hi c' hcredited.errors
  have hdone : (s.after i c' m).sum AsyncClient.onDoneCalls =
      s.sum AsyncClient.onDoneCalls + m.onDoneCalls := sum_map_set _ hi c' hcredited.onDoneCalls
  refine ⟨hstages, hlength, ?_, ?_, ?_, ?_⟩
  · -- the clients that are done are some of all clients, so the count does not go below zero
    have hle := sum_onDoneCalls hstages
    have hbefore := h.inFlight
    have hmax := s.inFlight.toNat_lt
    have hroom : s.sum AsyncClient.onDoneCalls + m.onDoneCalls ≤ numClients.toNat := by
      rw [← hdone, ← hlength, ← hle]
      exact Nat.le_add_right _ _
    have hcalls : (UInt32.ofNat m.onDoneCalls).toNat = m.onDoneCalls := by
      rw [UInt32.toNat_ofNat']
      exact Nat.mod_eq_of_lt (by omega)
    have hsub : (s.inFlight - UInt32.ofNat m.onDoneCalls).toNat =
        s.inFlight.toNat - m.onDoneCalls := by
      rw [UInt32.toNat_sub_of_le _ _ (UInt32.le_iff_toNat_le.mpr (by omega)), hcalls]
    rw [hdone]
    simp only [LoadTest.after, hsub]
    omega
  · rw [hsuccesses, UInt64.ofNat_add, ← h.successes]
    rfl
  · rw [hsamples, ← h.samples]
    exact List.length_append
  · rw [herrors, UInt64.ofNat_add, ← h.errors]
    rfl

theorem Accounted.step (h : Accounted numClients s) {a : Action}
    (hstep : LoadTest.step host nextRequest a s = some s') : Accounted numClients s' := by
  cases a with
  | start i =>
    obtain ⟨c, hi, hstart⟩ := Option.bind_eq_some_iff.mp hstep
    obtain ⟨hnot, hs⟩ := Option.ite_none_left_eq_some.mp hstart
    obtain ⟨stage, hstage⟩ := h.stages c (List.mem_of_getElem? hi)
    have hconstructed : stage = .constructed := by
      have hstarted := hstage.started
      by_contra hne
      rw [decide_eq_true hne] at hstarted
      exact hnot hstarted
    rw [hconstructed] at hstage
    rw [← Option.some.inj hs]
    exact h.after hi hstage.start ⟨rfl, rfl, rfl, rfl⟩
  | complete i k completion =>
    obtain ⟨c, hi, hcomplete⟩ := Option.bind_eq_some_iff.mp hstep
    obtain ⟨c', hc', rfl⟩ := Option.map_eq_some_iff.mp hcomplete
    obtain ⟨stage, hstage⟩ := h.stages c (List.mem_of_getElem? hi)
    obtain ⟨stage', hstage'⟩ := hstage.complete hc'
    exact h.after hi hstage' (AsyncClient.complete_credited hc')
  | runTask i us =>
    obtain ⟨c, hi, hrun⟩ := Option.bind_eq_some_iff.mp hstep
    obtain ⟨r, hr, rfl⟩ := Option.map_eq_some_iff.mp hrun
    obtain ⟨stage, hstage⟩ := h.stages c (List.mem_of_getElem? hi)
    obtain ⟨stage', hstage'⟩ := hstage.runTask hr
    exact h.after hi hstage' (AsyncClient.runTask_credited hr)
  | raiseStop =>
    rw [← Option.some.inj hstep]
    exact { h with }

theorem reaches_accounted {ok : Action → LoadTest γ → Prop}
    (h : Reaches (step host nextRequest) ok (initial numClients generator) s) :
    Accounted numClients s := by
  apply h.invariant (initial_accounted numClients generator)
  intro a b c hb _ hstep
  exact hb.step hstep

end LoadTest

namespace AsyncClient

variable {γ : Type*} {c : AsyncClient γ}

end AsyncClient

end HSFinancialServices.LoadGen
