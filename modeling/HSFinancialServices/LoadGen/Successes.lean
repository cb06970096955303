import HSFinancialServices.LoadGen.Accounting
import HSFinancialServices.LoadGen.Requests
import HSFinancialServices.ResponseType

/-!
# What the load generator counts as a success

A response that is read to the end counts as a success, whatever its type. So the count
is the one that the report promises as long as no response has a wrong type.
-/

namespace HSFinancialServices.LoadGen
open Ascii Transitions

def RightAnswer (e : Exchange) : Bool :=
  e.response.header.messageType != MessageType.kError &&
    e.response.header.messageType == MessageType.canonicalResponse e.request.header.messageType

variable {γ : Type*} {host : HostOrder} {nextRequest : γ → Message × γ} {numClients : UInt32}
  {generator : ℕ → γ} {s : LoadTest γ}

namespace AsyncClient

def exchanges (c : AsyncClient γ) : List Exchange := c.sent.zipWith Exchange.mk c.responses

/-- Right answers are successes; every other response, and a failed operation, is an error. -/
def CountsAnswers (c : AsyncClient γ) : Prop :=
  c.successes = c.exchanges.countP RightAnswer ∧
    c.errors = c.exchanges.countP (fun e => !RightAnswer e) + c.failedIn.isSome.toNat

theorem At.responses_le_sent {c : AsyncClient γ} {stage : Stage} (h : c.At stage) :
    c.responses.length ≤ c.sent.length := by
  rw [h.responses, h.sent]
  cases stage <;> simp [Stage.unanswered]

theorem At.successes_eq {c : AsyncClient γ} {stage : Stage} (h : c.At stage)
    (hidle : c.tasks = []) :
    c.successes = c.exchanges.length ∧ c.errors = c.failedIn.isSome.toNat := by
  have hle := h.responses_le_sent
  have hresponses := h.responses
  rw [h.tasks] at hidle
  rw [exchanges, List.length_zipWith, Nat.min_eq_right hle, h.errors, h.failedIn]
  cases stage with
  | constructed | waiting | ended => exact ⟨hresponses.symm, rfl⟩
  | answered | counted | sending | failing | ending => cases hidle

theorem countsAnswers_iff {c : AsyncClient γ} (hsuccesses : c.successes = c.exchanges.length)
    (herrors : c.errors = c.failedIn.isSome.toNat) :
    c.CountsAnswers ↔ ∀ e ∈ c.exchanges, RightAnswer e = true := by
  rw [CountsAnswers, hsuccesses, herrors]
  constructor
  · rintro ⟨hall, -⟩
    exact List.countP_eq_length.mp hall.symm
  · intro hall
    have hnone : c.exchanges.countP (fun e => !RightAnswer e) = 0 := by
      apply List.countP_eq_zero.mpr
      intro e he
      simp [hall e he]
    rw [hnone, Nat.zero_add]
    exact ⟨(List.countP_eq_length.mpr hall).symm, rfl⟩

end AsyncClient

theorem successes_count_answers_iff
    (h : Reaches (LoadTest.step host nextRequest) (fun _ _ => True)
      (LoadTest.initial numClients generator) s) {c : AsyncClient γ} (hc : c ∈ s.clients)
    (hidle : c.tasks = []) :
    c.CountsAnswers ↔ ∀ e ∈ c.exchanges, RightAnswer e = true := by
  obtain ⟨stage, hstage⟩ := (LoadTest.reaches_accounted h).stages c hc
  obtain ⟨hsuccesses, herrors⟩ := hstage.successes_eq hidle
  exact AsyncClient.countsAnswers_iff hsuccesses herrors

def oneAnswer (type : MessageType) : List LoadTest.Action :=
  [.start 0, .complete 0 0 (some []), .complete 0 0 (some []), .runTask 0 0,
    .complete 0 0 (some []),
    .complete 0 0 (some (encodeHeader .little ⟨0, type, 0, 0⟩)), .runTask 0 0, .runTask 0 0,
    .runTask 0 0]

theorem successes_count_answers_sql :
    let step := LoadTest.step .little (LoadGen.nextRequest (fun _ => ascii "100") {})
    ∃ s : LoadTest UInt64, Reaches step (fun _ _ => True)
        (LoadTest.initial 1 fun i => seed (UInt32.ofNat i)) s ∧
      ∀ c ∈ s.clients, c.exchanges.length = 1 ∧ c.CountsAnswers := by
  intro step
  let run := (oneAnswer MessageType.kSqlResult).foldlM
    (fun s a => if True then step a s else none)
    (LoadTest.initial 1 fun i => seed (UInt32.ofNat i))
  have hrun : run.map (fun s => s.clients.all fun c => c.tasks.isEmpty &&
      c.exchanges.length == 1 && c.exchanges.all RightAnswer) = some true := by decide +kernel
  obtain ⟨s, hs, hall⟩ := Option.map_eq_some_iff.mp hrun
  have hreach := Reaches.of_foldlM hs
  refine ⟨s, hreach, ?_⟩
  intro c hc
  have hclient := List.all_eq_true.mp hall c hc
  simp only [Bool.and_eq_true, List.isEmpty_iff, beq_iff_eq, List.all_eq_true] at hclient
  obtain ⟨⟨hidle, hlength⟩, hright⟩ := hclient
  exact ⟨hlength, (successes_count_answers_iff hreach hc hidle).mpr hright⟩

theorem error_counted_as_success :
    let step := LoadTest.step .little (LoadGen.nextRequest (fun _ => ascii "100") {})
    ¬ ∀ s : LoadTest UInt64, Reaches step (fun _ _ => True)
        (LoadTest.initial 1 fun i => seed (UInt32.ofNat i)) s →
      ∀ c ∈ s.clients, c.tasks = [] → c.CountsAnswers := by
  intro step hcounts
  let run := (oneAnswer MessageType.kError).foldlM
    (fun s a => if True then step a s else none)
    (LoadTest.initial 1 fun i => seed (UInt32.ofNat i))
  have hrun : run.map (fun s => s.clients.map fun c =>
      (c.tasks.isEmpty, c.successes, c.exchanges.countP RightAnswer)) = some [(true, 1, 0)] := by
    decide +kernel
  obtain ⟨s, hs, hend⟩ := Option.map_eq_some_iff.mp hrun
  obtain ⟨c, hclients⟩ := List.length_eq_one_iff.mp (by
    rw [← List.length_map (f := fun c : AsyncClient UInt64 =>
      (c.tasks.isEmpty, c.successes, c.exchanges.countP RightAnswer)), hend]
    rfl : s.clients.length = 1)
  rw [hclients] at hend
  simp only [List.map_cons, List.map_nil, List.cons.injEq, Prod.mk.injEq, List.isEmpty_iff,
    and_true] at hend
  obtain ⟨hidle, hsuccesses, hright⟩ := hend
  have hc := hcounts s (Reaches.of_foldlM hs) c (by simp [hclients]) hidle
  have hcount := hc.1
  omega

end HSFinancialServices.LoadGen
