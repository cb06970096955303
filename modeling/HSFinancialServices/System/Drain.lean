import HSFinancialServices.LoadGen.Stopping
import HSFinancialServices.System.Calm
import Mathlib.Algebra.Order.BigOperators.Group.Finset

/-!
# The end of a calm test

When the time is up, what is under way is brought to an end: every turn lowers a count of
the work that is left, and where no turn is left the requests are answered, the clients are
done and the sessions are gone.
-/

namespace HSFinancialServices

/-- What is left of a session whose client has written `written` and writes no more -/
def Slot.work (written : Bytes) (slot : Slot) : ℕ :=
  4 * (written.length - slot.connection.arrived.length) + slot.connection.workLeft +
    (!slot.connection.eof).toNat + slot.alive.toNat

def AcceptStep.work : AcceptStep → ℕ
  | entered false => 11
  | rearming => 10
  | entered true => 8
  | loading => 7
  | admitted => 6
  | counted => 5
  | activated => 4
  | optioned => 3
  | numbered _ => 2

namespace Server
variable {σ : Type*} {host : HostOrder} {router : ServiceRouter σ} {maxConnections : UInt64}
  {s s' : Server σ}

def acceptWork (s : Server σ) : ℕ :=
  match s.handlers with
  | [] => 9
  | pc :: _ => pc.work

theorem Accounted.acceptWork_step (h : s.Accounted maxConnections) {i : ℕ} {optionOk : Bool}
    (hrejects : s.rejects (.acceptStep i optionOk) = false)
    (hs : s.acceptStep i optionOk = some s') :
    (∃ pc, s.handlers = [pc] ∧ ∀ pc' ∈ s'.handlers, pc' ≠ .rearming → pc ≠ .rearming) ∧
      if s.adopts (.acceptStep i optionOk) then
        s'.handlers = [.rearming] ∧ s'.acceptWork = s.acceptWork + 8
      else s'.acceptWork < s.acceptWork ∧ s'.slots = s.slots := by
  obtain ⟨-, hnone⟩ | ⟨-, pc, hpc⟩ := h.chain_cases
  · simp only [acceptStep, hnone, List.getElem?_nil, reduceCtorEq] at hs
  obtain rfl : i = 0 := by
    cases i with
    | zero => rfl
    | succ i => simp [acceptStep, hpc] at hs
  refine ⟨⟨pc, hpc, ?_⟩, ?_⟩
  · rintro pc' hpc' hne rfl
    simp only [acceptStep, hpc, List.getElem?_cons_zero, List.eraseIdx_zero, List.tail_cons,
      Option.some.injEq] at hs
    rw [← hs] at hpc'
    cases hpc'
  simp only [acceptStep, adopts, rejects, acceptWork, hpc, List.getElem?_cons_zero, h.acceptorOpen,
    List.set_cons_zero, List.eraseIdx_zero, List.tail_cons, if_true] at hs hrejects ⊢
  cases pc with
  | entered ok =>
    obtain rfl := Option.some.inj hs
    cases ok <;> exact ⟨by simp [AcceptStep.work], rfl⟩
  | loading =>
    have hlt : s.activeConnections < s.maxConnections := by simpa using hrejects
    rw [if_pos hlt] at hs
    obtain rfl := Option.some.inj hs
    exact ⟨by simp [AcceptStep.work], rfl⟩
  | activated =>
    obtain rfl : optionOk = true := by simpa using hrejects
    obtain rfl := Option.some.inj hs
    exact ⟨by simp [AcceptStep.work], rfl⟩
  | admitted | counted | optioned | rearming =>
    obtain rfl := Option.some.inj hs
    exact ⟨by simp [AcceptStep.work], rfl⟩
  | numbered sessionId =>
    obtain rfl := Option.some.inj hs
    exact ⟨rfl, rfl⟩

end Server

namespace LoadGen

theorem AsyncClient.At.started_runTask {γ : Type*} {host : HostOrder}
    {nextRequest : γ → Message × γ} {c c' : AsyncClient γ} {stage : Stage} (h : c.At stage)
    {stopFlag : Bool} {us : ℤ} {m : Metrics}
    (hstep : c.runTask host nextRequest stopFlag us = some (c', m)) : c'.started = c.started := by
  simp only [AsyncClient.runTask, h.tasks] at hstep
  cases stage with
  | constructed | waiting | ended => simp only [Stage.tasks, reduceCtorEq] at hstep
  | answered | counted | failing | ending =>
    simp only [Stage.tasks, Option.some.injEq, Prod.mk.injEq] at hstep
    rw [← hstep.1]
  | sending =>
    simp only [Stage.tasks] at hstep
    split_ifs at hstep
    all_goals
      simp only [Option.some.injEq, Prod.mk.injEq] at hstep
      rw [← hstep.1]
    rfl

namespace LoadTest
variable {γ : Type*} {host : HostOrder} {nextRequest : γ → Message × γ} {numClients : UInt32}
  {s s' : LoadTest γ}

theorem Accounted.dialled_step (h : Accounted numClients s) {a : Action}
    (hstep : LoadTest.step host nextRequest a s = some s') {i : ℕ} (hi : s.dialled i = true) :
    s'.dialled i = true := by
  have moved : ∀ {j : ℕ} {c c' : AsyncClient γ} (m : Metrics), s.clients[j]? = some c →
      (c.dialled = true → c'.dialled = true) → (s.after j c' m).dialled i = true := by
    intro j c c' m hj hc'
    rw [dialled, clients_after hj]
    split_ifs with hji
    · rw [dialled, ← hji, hj] at hi
      exact hc' hi
    · exact hi
  simp only [AsyncClient.dialled, Bool.and_eq_true, bne_iff_ne, ne_eq] at moved
  cases a with
  | start j =>
    obtain ⟨c, hj, hstart⟩ := Option.bind_eq_some_iff.mp hstep
    obtain ⟨hnot, hs⟩ := Option.ite_none_left_eq_some.mp hstart
    rw [← Option.some.inj hs]
    exact moved _ hj fun hdialled => absurd hdialled.1.1 hnot
  | complete j k completion =>
    obtain ⟨c, hj, hcomplete⟩ := Option.bind_eq_some_iff.mp hstep
    obtain ⟨c', hc', rfl⟩ := Option.map_eq_some_iff.mp hcomplete
    obtain ⟨stage, hstage⟩ := h.stages c (List.mem_of_getElem? hj)
    obtain rfl := hstage.complete_index hc'
    obtain ⟨op, -, hcase⟩ := hstage.complete_cases hc'
    apply moved _ hj
    rintro ⟨⟨hstarted, hresolved⟩, hfailed⟩
    cases hcase with
    | failed hop =>
      refine ⟨⟨hstarted, by simp [AsyncClient.failed]⟩, ?_⟩
      intro hresolve
      rw [hop, Option.some.inj hresolve] at hresolved
      exact hresolved rfl
    | resolved hop => exact absurd hop hresolved
    | connected | written | bodyFollows | emptyResponse | response =>
      exact ⟨⟨hstarted, by simp [AsyncClient.answered]⟩, hfailed⟩
    | refused => exact ⟨⟨hstarted, by simp [AsyncClient.failed]⟩, by simp [AsyncClient.failed]⟩
  | runTask j us =>
    obtain ⟨c, hj, hrun⟩ := Option.bind_eq_some_iff.mp hstep
    obtain ⟨⟨c', m⟩, hr, rfl⟩ := Option.map_eq_some_iff.mp hrun
    obtain ⟨stage, hstage⟩ := h.stages c (List.mem_of_getElem? hj)
    apply moved m hj
    rintro ⟨⟨hstarted, hresolved⟩, hfailed⟩
    have hstarted' : c'.started = true := (hstage.started_runTask hr).trans hstarted
    obtain hquiet | ⟨-, -, rfl⟩ := hstage.runTask_cases hr
    · rw [hquiet.outstanding, hquiet.failedIn]
      exact ⟨⟨hstarted', hresolved⟩, hfailed⟩
    · exact ⟨⟨hstarted', by simp⟩, hfailed⟩
  | raiseStop =>
    rw [← Option.some.inj hstep]
    exact hi

end LoadTest

end LoadGen

namespace System
open LoadGen Services Transitions

namespace Network

variable {γ σ : Type*} {host : HostOrder} {router : ServiceRouter σ}
  {nextRequest : γ → Message × γ} {numClients : UInt32} {generator : ℕ → γ}
  {maxConnections : UInt64} {store : σ} {n n' : Network γ σ}

/-- What is left of the connection of client `i`, which may have no session yet -/
def sessionWork (host : HostOrder) (n : Network γ σ) (i : ℕ) : ℕ :=
  let written := serialiseAll host (n.test.sentBy i)
  match n.server.slots[n.peers.idxOf i]? with
  | some slot => slot.work written
  | none => Slot.work written ⟨Connection.accept 0, true⟩ + 10

def workLeft (host : HostOrder) (n : Network γ σ) : ℕ :=
  n.test.work + n.server.acceptWork + ∑ i ∈ Finset.range n.test.clients.length, n.sessionWork host i

theorem sessionWork_eq {k i : ℕ} {slot : Slot} (hindex : n.peers.idxOf i = k)
    (hslot : n.server.slots[k]? = some slot) :
    n.sessionWork host i = slot.work (serialiseAll host (n.test.sentBy i)) := by
  simp only [sessionWork, hindex, hslot]

theorem workLeft_after (h : Linked host nextRequest numClients n) {k i : ℕ} {c : Connection}
    {slot' : Slot} {effect : Effect σ} (hk : n.peers[k]? = some i)
    (hslot : n.server.slots[k]? = some ⟨c, true⟩) (hi : i < n.test.clients.length)
    (hless : slot'.work (serialiseAll host (n.test.sentBy i)) <
      Slot.work (serialiseAll host (n.test.sentBy i)) ⟨c, true⟩) :
    workLeft host { n with server := n.server.after k slot' effect } < n.workLeft host := by
  have hlt := (List.getElem?_eq_some_iff.mp hslot).1
  have hindex := h.idxOf_eq hk
  have hslots : (n.server.after k slot' effect).slots = n.server.slots.set k slot' := rfl
  set n' : Network γ σ := { n with server := n.server.after k slot' effect }
  have hslot' : n'.server.slots[k]? = some slot' := List.getElem?_set_self hlt
  have hown : n'.sessionWork host i < n.sessionWork host i := by
    rw [sessionWork_eq (n := n) hindex hslot, sessionWork_eq (n := n') hindex hslot']
    exact hless
  have hother : ∀ j, j ≠ i → n'.sessionWork host j = n.sessionWork host j := by
    intro j hj
    have hne : k ≠ n.peers.idxOf j := by
      intro hkj
      rw [hkj] at hk
      obtain ⟨hlt, hget⟩ := List.getElem?_eq_some_iff.mp hk
      rw [List.getElem_idxOf] at hget
      exact hj hget
    simp only [n', sessionWork, hslots, List.getElem?_set_ne hne]
  have hsum : ∑ j ∈ Finset.range n.test.clients.length, n'.sessionWork host j <
      ∑ j ∈ Finset.range n.test.clients.length, n.sessionWork host j := by
    apply Finset.sum_lt_sum
    · intro j _
      by_cases hj : j = i
      · rw [hj]
        exact hown.le
      · exact (hother j hj).le
    · exact ⟨i, Finset.mem_range.mpr hi, hown⟩
  exact Nat.add_lt_add_left hsum _

theorem sessionWork_adopted (h : Linked host nextRequest numClients n) {i : ℕ} {s : Server σ}
    {sessionId : UInt64} (hnew : i ∉ n.peers)
    (hslots : s.slots = n.server.slots ++ [⟨Connection.accept sessionId, true⟩]) (j : ℕ) :
    sessionWork host { n with server := s, peers := n.peers ++ [i] } j + (if j = i then 10 else 0) =
      n.sessionWork host j := by
  by_cases hj : j ∈ n.peers
  · have hlt : n.peers.idxOf j < n.server.slots.length := h.peers ▸ List.idxOf_lt_length_of_mem hj
    have hne : j ≠ i := fun hji => hnew (hji ▸ hj)
    simp only [sessionWork, List.idxOf_append_of_mem hj, hslots, List.getElem?_append_left hlt,
      if_neg hne, Nat.add_zero]
  · have hindex : (n.peers ++ [i]).idxOf j = n.peers.length + [i].idxOf j :=
      List.idxOf_append_of_notMem hj
    have hnone : n.server.slots[n.peers.idxOf j]? = none := by
      rw [List.idxOf_of_notMem hj, h.peers]
      exact List.getElem?_eq_none le_rfl
    by_cases hji : j = i
    · subst hji
      simp only [sessionWork, hindex, List.idxOf_cons_self, Nat.add_zero, h.peers, hslots,
        List.getElem?_concat_length, hnone, if_true]
      rfl
    · have hnone' : (n.server.slots ++ [⟨Connection.accept sessionId, true⟩])[
          (n.peers ++ [i]).idxOf j]? = none := by
        apply List.getElem?_eq_none
        rw [List.idxOf_of_notMem (by simp [hj, hji]), List.length_append, List.length_append, h.peers]
        rfl
      simp only [sessionWork, hslots, hnone', hnone, if_neg hji, Nat.add_zero]

/-- A running accept handler that has not created its session has a connection for it. -/
def Attended (n : Network γ σ) : Prop :=
  ∀ pc ∈ n.server.handlers, pc ≠ .rearming → ∃ i, n.Waiting i

section Turns
variable {P : Message → Prop} {I : σ → Prop}

theorem Healthy.attended_client (h : Healthy host nextRequest numClients maxConnections n)
    (hattended : n.Attended) {a : LoadTest.Action} {t : LoadTest γ}
    (hstep : LoadTest.step host nextRequest a n.test = some t) : (n.clientStep a t).Attended := by
  intro pc hpc hne
  rw [clientStep_server] at hpc
  obtain ⟨i, hnew, hkept, hdialled⟩ := hattended pc hpc hne
  refine ⟨i, ?_, ?_, ?_⟩
  · rw [clientStep_peers]
    exact hnew
  · rw [clientStep_rejected]
    exact hkept
  · rw [clientStep_test]
    exact h.linked.accounted.dialled_step hstep hdialled

theorem Healthy.attended_server (h : Healthy host nextRequest numClients maxConnections n)
    (hroom : numClients.toNat ≤ maxConnections.toNat) (hattended : n.Attended) {i : ℕ} {a : Action}
    {s : Server σ} (hcalm : Calm (.server i a) n) (hallows : n.Allows host i a)
    (hstep : Server.step host router a n.server = some s) : (n.serverStep i a s).Attended := by
  have hrejects := h.not_rejects hroom hcalm hallows
  intro pc hpc hne
  cases a with
  | accepted => exact ⟨i, hallows.1 (.inl rfl)⟩
  | acceptFailed | fail | stop => exact hcalm.elim
  | acceptStep j optionOk =>
    obtain ⟨⟨old, hold, hkept⟩, hwork⟩ := h.accounted.acceptWork_step hrejects hstep
    change pc ∈ s.handlers at hpc
    split_ifs at hwork with hadopts
    · rw [hwork.1, List.mem_singleton] at hpc
      exact absurd hpc hne
    · obtain ⟨j', hnew, hnot, hdialled⟩ :=
        hattended old (by rw [hold]; exact List.mem_singleton_self old) (hkept pc hpc hne)
      refine ⟨j', ?_, ?_, hdialled⟩
      · simp only [serverStep, if_neg hadopts]
        exact hnew
      · simp only [serverStep, hrejects, Bool.false_eq_true, if_false]
        exact hnot
  | arrive k data | shutdown k =>
    obtain ⟨c, -, rfl⟩ := Option.map_eq_some_iff.mp hstep
    exact hattended pc hpc hne
  | io k =>
    obtain ⟨c, -, hio⟩ := Option.bind_eq_some_iff.mp hstep
    obtain ⟨r, -, rfl⟩ := Option.map_eq_some_iff.mp hio
    exact hattended pc hpc hne
  | destroy k =>
    obtain ⟨c, -, hdestroy⟩ := Option.bind_eq_some_iff.mp hstep
    obtain ⟨-, hdestroy⟩ := Option.ite_none_right_eq_some.mp hdestroy
    obtain rfl := Option.some.inj hdestroy
    exact hattended pc hpc hne

theorem Healthy.workLeft_client (h : Healthy host nextRequest numClients maxConnections n)
    (hstop : n.test.stopFlag = true) {a : LoadTest.Action} (ha : a ≠ .raiseStop) {t : LoadTest γ}
    (hstep : LoadTest.step host nextRequest a n.test = some t) :
    (n.clientStep a t).workLeft host < n.workLeft host ∧ t.stopFlag = true := by
  obtain ⟨hflag, hless, hsent, -⟩ := h.linked.accounted.stopped_step hstop ha hstep
  have hlength : t.clients.length = n.test.clients.length := by
    rw [(h.linked.accounted.step hstep).length, h.linked.accounted.length]
  refine ⟨?_, hflag⟩
  simp only [workLeft, sessionWork, clientStep_test, clientStep_server,
    clientStep_peers, hsent, hlength]
  omega

theorem Healthy.workLeft_session (h : Healthy host nextRequest numClients maxConnections n)
    (hfits : Fits router nextRequest store P I) {k : ℕ} {c : Connection} {slot' : Slot}
    {effect : Effect σ} (hc : n.server.live k = some c)
    (hnext : Linked host nextRequest numClients
      { n with server := n.server.after k slot' effect })
    (hless : ∀ written frames tail, slot'.connection.arrived.length ≤ written.length →
      c.At host True (n.server.logOf k) frames tail →
        slot'.work written < Slot.work written ⟨c, true⟩) :
    workLeft host { n with server := n.server.after k slot' effect } < n.workLeft host := by
  have hslot := Server.live_eq_some.mp hc
  have hlt := (List.getElem?_eq_some_iff.mp hslot).1
  obtain ⟨j, hk⟩ : ∃ j, n.peers[k]? = some j :=
    ⟨_, List.getElem?_eq_getElem (h.linked.peers ▸ hlt)⟩
  obtain ⟨frames, tail, hat, -⟩ := h.tracks hfits hk hslot
  apply workLeft_after h.linked hk hslot
  · rw [h.linked.accounted.length]
    exact h.peersLt j (List.mem_of_getElem? hk)
  · have harrived := hnext.arrived k j slot' hk (List.getElem?_set_self hlt)
    exact hless _ frames tail harrived.length_le hat

theorem Healthy.workLeft_acceptStep (h : Healthy host nextRequest numClients maxConnections n)
    {i j : ℕ} {optionOk : Bool} {s : Server σ}
    (hallows : n.Allows host i (.acceptStep j optionOk))
    (hrejects : n.server.rejects (.acceptStep j optionOk) = false)
    (hstep : Server.step host router (.acceptStep j optionOk) n.server = some s)
    (hnext : Healthy host nextRequest numClients maxConnections
      (n.serverStep i (.acceptStep j optionOk) s)) :
    (n.serverStep i (.acceptStep j optionOk) s).workLeft host < n.workLeft host := by
  obtain ⟨-, hwork⟩ := h.accounted.acceptWork_step hrejects hstep
  have hslots := Server.slots_step hstep
  split_ifs at hwork hslots with hadopts
  · obtain ⟨sessionId, hslots⟩ := hslots
    have hwaiting := hallows.1 (.inr (.inr hadopts))
    have hlt : i < n.test.clients.length := by
      have hmem : i ∈ (n.serverStep i (.acceptStep j optionOk) s).peers := by
        simp [serverStep, if_pos hadopts]
      rw [h.linked.accounted.length]
      exact hnext.peersLt i hmem
    have hsum : ∑ j ∈ Finset.range n.test.clients.length,
        sessionWork host { n with server := s, peers := n.peers ++ [i] } j + 10 =
          ∑ j ∈ Finset.range n.test.clients.length, n.sessionWork host j := by
      rw [← Finset.sum_congr rfl fun j _ =>
        sessionWork_adopted h.linked hwaiting.1 hslots j, Finset.sum_add_distrib,
        Finset.sum_ite_eq', if_pos (Finset.mem_range.mpr hlt)]
    have hs : n.serverStep i (.acceptStep j optionOk) s =
        { n with server := s, peers := n.peers ++ [i] } := by
      simp only [serverStep, hadopts, hrejects, if_true, Bool.false_eq_true, if_false]
    rw [hs]
    simp only [workLeft]
    omega
  · have hs : n.serverStep i (.acceptStep j optionOk) s = { n with server := s } := by
      simp only [serverStep, hadopts, hrejects, Bool.false_eq_true, if_false]
    have hsame : ∀ i, sessionWork host { n with server := s } i = n.sessionWork host i := by
      intro i
      simp only [sessionWork, hwork.2]
    rw [hs]
    simp only [workLeft, hsame]
    omega

theorem Healthy.workLeft_server (h : Healthy host nextRequest numClients maxConnections n)
    (hfits : Fits router nextRequest store P I)
    (hserver : ServerRun host router maxConnections store n.server)
    (hroom : numClients.toNat ≤ maxConnections.toNat) {i : ℕ} {a : Action} {s : Server σ}
    (hcalm : Calm (.server i a) n) (hallows : n.Allows host i a)
    (hstep : Server.step host router a n.server = some s) :
    (n.serverStep i a s).workLeft host < n.workLeft host := by
  have hnext := h.server hfits hserver hroom hcalm hallows hstep
  have hrejects := h.not_rejects hroom hcalm hallows
  cases a with
  | accepted =>
    obtain ⟨hout, hnone⟩ | ⟨hout, -⟩ := h.accounted.chain_cases
    · simp only [Server.step, Server.acceptCompleted, hout, hnone, Option.some.injEq] at hstep
      subst hstep
      have hbefore : n.server.acceptWork = 9 := by rw [Server.acceptWork, hnone]
      simp only [workLeft, hbefore]
      exact Nat.add_lt_add_right (Nat.add_lt_add_left (by decide : 8 < 9) _) _
    · simp only [Server.step, Server.acceptCompleted, hout, reduceCtorEq] at hstep
  | acceptFailed | fail | stop => exact hcalm.elim
  | acceptStep j optionOk => exact h.workLeft_acceptStep hallows hrejects hstep hnext
  | arrive k data =>
    obtain ⟨c, hc, rfl⟩ := Option.map_eq_some_iff.mp hstep
    apply h.workLeft_session hfits hc hnext.linked
    intro written frames tail harrived hat
    have hne := List.length_pos_iff.mpr hallows.2.1
    have hunread := Connection.unread_arrive hat.readPos_le data
    simp only [Slot.work, Connection.workLeft, hunread]
    simp only [Connection.arrive, List.length_append] at harrived ⊢
    omega
  | shutdown k =>
    obtain ⟨c, hc, rfl⟩ := Option.map_eq_some_iff.mp hstep
    apply h.workLeft_session hfits hc hnext.linked
    intro written frames tail harrived hat
    have heof : c.eof = false := by
      have hopen := hcalm.1
      rw [Server.live_eq_some.mp hc, Option.any_some, Bool.not_eq_true'] at hopen
      exact hopen
    simp [Slot.work, Connection.workLeft, Connection.unread, heof]
  | io k =>
    obtain ⟨c, hc, hio⟩ := Option.bind_eq_some_iff.mp hstep
    obtain ⟨r, hr, rfl⟩ := Option.map_eq_some_iff.mp hio
    apply h.workLeft_session hfits hc hnext.linked
    intro written frames tail harrived hat
    obtain ⟨hsame, heof⟩ := Connection.io_stream hr
    have hless := Connection.io_workLeft hat.headerBuf hr
    simp only [Slot.work, hsame, heof]
    omega
  | destroy k =>
    obtain ⟨c, hc, hdestroy⟩ := Option.bind_eq_some_iff.mp hstep
    obtain ⟨-, hdestroy⟩ := Option.ite_none_right_eq_some.mp hdestroy
    obtain rfl := Option.some.inj hdestroy
    apply h.workLeft_session hfits hc hnext.linked
    intro written frames tail harrived hat
    simp [Slot.work, Connection.stop, Session.close_eq, Connection.workLeft, Connection.unread]

def Draining (turn : Turn) (n : Network γ σ) : Prop := Calm turn n ∧ turn ≠ .client .raiseStop

instance (turn : Turn) (n : Network γ σ) : Decidable (Draining turn n) :=
  inferInstanceAs (Decidable (_ ∧ _))

section Settled
variable (hsettled : Settled (step host router nextRequest) Draining n)
include hsettled

theorem client_settled {a : LoadTest.Action} {i : ℕ} (ha : a.client = some i)
    (hcalm : Calm (.client a) n) (hoffers : n.Offers a) :
    LoadTest.step host nextRequest a n.test = none := by
  have hne : Turn.client a ≠ .client .raiseStop := by
    intro hstop
    rw [Turn.client.inj hstop] at ha
    cases ha
  by_contra hsome
  obtain ⟨t, ht⟩ := Option.ne_none_iff_exists'.mp hsome
  refine hsettled (.client a) (n.clientStep a t) ⟨hcalm, hne⟩ ?_
  simp only [step, hoffers, if_true, ht, Option.map_some]

theorem server_settled {i : ℕ} {a : Action} (hcalm : Calm (.server i a) n)
    (hallows : n.Allows host i a) : Server.step host router a n.server = none := by
  by_contra hsome
  obtain ⟨s, hs⟩ := Option.ne_none_iff_exists'.mp hsome
  refine hsettled (.server i a) (n.serverStep i a s) ⟨hcalm, nofun⟩ ?_
  simp only [step, hallows, if_true, hs, Option.map_some]

theorem Healthy.accepts_settled (h : Healthy host nextRequest numClients maxConnections n)
    (hattended : n.Attended) : n.server.handlers = [] ∧ ∀ i, ¬ n.Waiting i := by
  have hrun : ∀ (i : ℕ) (pc : AcceptStep), n.server.handlers = [pc] →
      ¬ n.Allows host i (.acceptStep 0 true) := by
    intro i pc hpc hallows
    have hnone := server_settled hsettled (a := .acceptStep 0 true) trivial hallows
    simp only [Server.step, Server.acceptStep, hpc, List.getElem?_cons_zero] at hnone
    cases pc with
    | entered | loading =>
      simp only at hnone
      split at hnone <;> cases hnone
    | admitted | counted | activated | optioned | numbered | rearming => cases hnone
  have hfree : ∀ i, ¬ n.Waiting i := by
    intro i hi
    obtain ⟨hout, -⟩ | ⟨-, pc, hpc⟩ := h.accounted.chain_cases
    · have hnone := server_settled hsettled (a := .accepted) trivial ⟨fun _ => hi, trivial⟩
      simp only [Server.step, Server.acceptCompleted, hout, reduceCtorEq] at hnone
    · exact hrun i pc hpc ⟨fun _ => hi, trivial⟩
  refine ⟨?_, hfree⟩
  obtain ⟨-, hnone⟩ | ⟨-, pc, hpc⟩ := h.accounted.chain_cases
  · exact hnone
  · by_cases hne : pc = .rearming
    · subst hne
      refine absurd ?_ (hrun 0 _ hpc)
      simp [Allows, Server.rejects, Server.adopts, hpc]
    · obtain ⟨i, hi⟩ := hattended pc (by rw [hpc]; exact List.mem_singleton_self pc) hne
      exact absurd hi (hfree i)

theorem session_settled {k : ℕ} {c : Connection} (hc : n.server.live k = some c) :
    n.outgoing host k = [] ∧ c.io host router n.server.store = none := by
  constructor
  · by_contra hne
    have hnone := server_settled hsettled (i := 0) (a := .arrive k (n.outgoing host k)) trivial
      ⟨by simp [Server.rejects, Server.adopts], hne, List.prefix_refl _⟩
    simp only [Server.step, hc, Option.map_some, reduceCtorEq] at hnone
  · have hnone := server_settled hsettled (i := 0) (a := .io k) trivial
      ⟨by simp [Server.rejects, Server.adopts], trivial⟩
    simpa only [Server.step, hc, Option.bind_some, Option.map_eq_none_iff] using hnone

theorem Healthy.answered_settled (h : Healthy host nextRequest numClients maxConnections n)
    (hfits : Fits router nextRequest store P I) {k i : ℕ} {slot : Slot} (hk : n.peers[k]? = some i)
    (hslot : n.server.slots[k]? = some slot) (hunfinished : n.clientFinished i = false) :
    (n.conversation i).map Exchange.request = n.test.sentBy i ∧
      n.inbound i = replies host (n.conversation i) := by
  obtain ⟨-, hpending, -, halive⟩ := h.open hfits hk hslot hunfinished
  have hc : n.server.live k = some slot.connection := by
    rw [Server.live_eq_some, hslot, ← halive]
  obtain ⟨hout, hio⟩ := session_settled hsettled hc
  obtain ⟨hwritten, frames, tail, hat, hstuck⟩ := (h.undisturbed k slot hslot).settled hio
  have harrived := h.linked.arrived k i slot hk hslot
  rw [conversation, h.linked.idxOf_eq hk]
  constructor
  · -- all of it has arrived, and a request that was not dispatched would stand next
    have hall : slot.connection.arrived = serialiseAll host (n.test.sentBy i) := by
      simp only [outgoing, hslot, hk, List.drop_eq_nil_iff] at hout
      exact harrived.eq_of_length_le hout
    rw [hat.stream] at harrived hall
    obtain ⟨hconcat, more, hmore, -⟩ := carried_split hat.carries (h.linked.sized hfits i) harrived
    cases more with
    | nil => rw [hmore, List.append_nil]
    | cons m more =>
      have hm : m.Sized := h.linked.sized hfits i m
        (by rw [hmore]; exact List.mem_append_right _ List.mem_cons_self)
      rw [hmore, hconcat, serialiseAll, serialiseAll, List.flatMap_append,
        List.append_cancel_left_eq, List.flatMap_cons] at hall
      rw [hall] at hstuck
      exact absurd hstuck ((hm.carries host).wellFormed.not_stuck _)
  · rw [inbound, h.linked.idxOf_eq hk, hslot, Option.elim_some, Connection.outbound, ← hwritten]
    cases hp : slot.connection.session.pending with
    | none => rfl
    | some op =>
      cases op with
      | write => simp only [Connection.io, hp, reduceCtorEq] at hio
      | readHeader | readBody => rfl

theorem complete_settled {i : ℕ} {c : AsyncClient γ} (hi : n.test.clients[i]? = some c)
    {op : ClientOp} (hop : c.outstanding = [op]) (data : Bytes)
    (hfits : c.fits op (some data) = true) :
    ¬ c.readBy (some data) <+: (n.inbound i).drop (n.consumed i).length := by
  intro hoffered
  have hoffers : n.Offers (.complete i 0 (some data)) := by
    simp only [Offers, LoadTest.Action.client, taken, Option.bind_some, hi, Option.elim_some,
      LoadTest.Action.read]
    exact hoffered
  have hnone := client_settled hsettled (a := .complete i 0 (some data)) rfl trivial hoffers
  simp only [LoadTest.step, hi, Option.bind_some, AsyncClient.complete, hop,
    List.getElem?_cons_zero, hfits, if_true, Option.map_some, reduceCtorEq] at hnone

theorem Healthy.peer_settled (h : Healthy host nextRequest numClients maxConnections n)
    (hattended : n.Attended) {i : ℕ} (hdialled : n.test.dialled i = true) : i ∈ n.peers := by
  by_contra hnew
  exact (h.accepts_settled hsettled hattended).2 i ⟨hnew, by simp [h.rejected], hdialled⟩

theorem Healthy.next_response (h : Healthy host nextRequest numClients maxConnections n)
    (hfits : Fits router nextRequest store P I)
    (hserver : ServerRun host router maxConnections store n.server) {i : ℕ} (hpeer : i ∈ n.peers)
    {c : AsyncClient γ} (hi : n.test.clients[i]? = some c) {op : ClientOp}
    (hstage : c.At (.waiting op)) (hreading : op = .readHeader ∨ op = .readBody) :
    ∃ (frames : List (Framing.Frame UInt8)) (tail : Bytes) (m : Message) (more : List Message),
      c.ReadsAt host (n.consumed i) frames tail ∧ m.Sized ∧
      tail <+: m.serialise host ++ serialiseAll host more ∧
      (n.inbound i).drop (n.consumed i).length =
        (m.serialise host ++ serialiseAll host more).drop tail.length := by
  have hlt : n.peers.idxOf i < n.server.slots.length :=
    h.linked.peers ▸ List.idxOf_lt_length_of_mem hpeer
  have hunfinished : n.clientFinished i = false := by
    rw [clientFinished, hi, Option.any_some]
    exact hstage.finished
  obtain ⟨hrequests, hinbound⟩ := h.answered_settled hsettled hfits (List.getElem?_idxOf hpeer)
    (List.getElem?_eq_getElem hlt) hunfinished
  obtain ⟨frames, tail, hreads⟩ := h.linked.reads i c hi
  have hconsumed := h.linked.consumed i
  rw [hreads.consumed] at hconsumed
  obtain ⟨hconcat, more, hmore, htail⟩ :=
    carried_split hreads.carries (h.linked.responses_sized hfits hserver i) hconsumed
  -- it was sent more than it has been answered
  obtain ⟨m, more, rfl⟩ : ∃ m rest, more = m :: rest := by
    apply List.exists_cons_of_ne_nil
    rintro rfl
    have hlength := congrArg List.length hrequests
    have hanswered := congrArg List.length hmore
    rw [List.length_map, LoadTest.sentBy_eq hi, hstage.sent] at hlength
    rw [List.append_nil, List.length_map, hstage.responses, hlength] at hanswered
    obtain rfl | rfl := hreading <;> simp [Stage.unanswered, ClientOp.inRequest] at hanswered
  rw [serialiseAll, List.flatMap_cons] at htail
  refine ⟨frames, tail, m, more, hreads, ?_, htail, ?_⟩
  · apply h.linked.responses_sized hfits hserver i
    rw [hmore]
    exact List.mem_append_right _ List.mem_cons_self
  · rw [hinbound, replies, hmore, hreads.consumed, hconcat, serialiseAll, serialiseAll,
      List.flatMap_append, List.length_append, ← List.drop_drop, List.drop_left, List.flatMap_cons]
    rfl

theorem Healthy.not_reading_settled (h : Healthy host nextRequest numClients maxConnections n)
    (hfits : Fits router nextRequest store P I)
    (hserver : ServerRun host router maxConnections store n.server) (hattended : n.Attended) {i : ℕ}
    {c : AsyncClient γ} (hi : n.test.clients[i]? = some c) {op : ClientOp}
    (hstage : c.At (.waiting op)) : op ≠ .readHeader ∧ op ≠ .readBody := by
  by_contra hreading
  have hreading : op = .readHeader ∨ op = .readBody := by
    by_contra hnot
    exact hreading ⟨fun h => hnot (.inl h), fun h => hnot (.inr h)⟩
  have hop : c.outstanding = [op] := hstage.outstanding
  have hhealthy := h.failedIn c (List.mem_of_getElem? hi)
  have hdialled : n.test.dialled i = true := by
    have hstarted : c.started = true := hstage.started
    rw [LoadTest.dialled, hi, Option.elim_some, AsyncClient.dialled, hop, hhealthy, hstarted]
    obtain rfl | rfl := hreading <;> rfl
  obtain ⟨frames, tail, m, more, hreads, hm, htail, hnext⟩ := h.next_response hsettled hfits hserver
    (h.peer_settled hsettled hattended hdialled) hi hstage hreading
  have hsize := encodeHeader_length host m.header
  have hphase := hreads.phase
  obtain rfl | rfl := hreading
  · simp only [AsyncClient.ReadPhase, hop] at hphase
    obtain rfl : tail = [] := hphase hhealthy
    refine complete_settled hsettled hi hop (encodeHeader host m.header) ?_ ?_
    · rw [AsyncClient.fits, hsize, hreads.headerBuf]
      rfl
    · simp only [AsyncClient.readBy, hop, List.head?_cons, hnext, Message.serialise,
        List.append_assoc]
      exact List.prefix_append _ _
  · simp only [AsyncClient.ReadPhase, hop, if_true] at hphase
    obtain ⟨rfl, hdecode, hbody⟩ := hphase
    have hheader : c.headerBuf = encodeHeader host m.header := by
      rw [Message.serialise, List.append_assoc] at htail
      have hfront := List.prefix_of_prefix_length_le htail (List.prefix_append _ _)
        (hreads.headerBuf.trans hsize.symm).le
      exact hfront.eq_of_length (hreads.headerBuf.trans hsize.symm)
    have hsame : m.header = c.respHeader := by
      rw [hheader] at hdecode
      exact Except.ok.inj ((hm.decodeHeader_frame host).symm.trans hdecode)
    refine complete_settled hsettled hi hop m.payload ?_ ?_
    · rw [AsyncClient.fits, hbody, ← hsame, hm.length]
      exact beq_self_eq_true _
    · simp only [AsyncClient.readBy, hop, List.head?_cons, hnext, hheader, Message.serialise,
        List.append_assoc, List.drop_left]
      exact List.prefix_append _ _

theorem Healthy.finished_settled (h : Healthy host nextRequest numClients maxConnections n)
    (hfits : Fits router nextRequest store P I)
    (hserver : ServerRun host router maxConnections store n.server) (hattended : n.Attended) {i : ℕ}
    {c : AsyncClient γ} (hi : n.test.clients[i]? = some c) : c.finished = true := by
  obtain ⟨stage, hstage⟩ := h.linked.accounted.stages c (List.mem_of_getElem? hi)
  have hquiet : ∀ a : LoadTest.Action, a.read c = [] → a.client = some i → n.Offers a := by
    intro a hread ha
    rw [Offers, ha]
    simp only [taken_eq ha hi, hread]
    exact List.nil_prefix
  have hrun : c.tasks = [] := by
    by_contra htasks
    have hnone := client_settled hsettled (a := .runTask i 0) rfl trivial (hquiet _ rfl rfl)
    simp only [LoadTest.step, hi, Option.bind_some, Option.map_eq_none_iff,
      AsyncClient.runTask] at hnone
    split at hnone
    · exact htasks ‹_›
    · cases hnone
    · cases hnone
    · cases hnone
    · cases hnone
    · split_ifs at hnone
  rw [hstage.tasks] at hrun
  cases stage with
  | constructed =>
    have hstarted : c.started = false := hstage.started
    have hnone := client_settled hsettled (a := .start i) rfl trivial (hquiet _ rfl rfl)
    simp only [LoadTest.step, hi, Option.bind_some, hstarted, Bool.false_eq_true, if_false,
      reduceCtorEq] at hnone
  | waiting op =>
    obtain ⟨hheader, hbody⟩ := h.not_reading_settled hsettled hfits hserver hattended hi hstage
    have hop : c.outstanding = [op] := hstage.outstanding
    refine absurd ?_ (complete_settled hsettled hi hop [] ?_)
    · cases op with
      | resolve | connect | write =>
        simp only [AsyncClient.readBy, hop, List.head?_cons]
        exact List.nil_prefix
      | readHeader => exact absurd rfl hheader
      | readBody => exact absurd rfl hbody
    · cases op with
      | resolve | connect | write => rfl
      | readHeader => exact absurd rfl hheader
      | readBody => exact absurd rfl hbody
  | answered | counted | sending | failing | ending => cases hrun
  | ended => exact hstage.finished

theorem destroyed_settled {k i : ℕ} {slot : Slot} (hk : n.peers[k]? = some i)
    (hslot : n.server.slots[k]? = some slot) (hfinished : n.clientFinished i = true) :
    slot.alive = false := by
  by_contra halive
  obtain ⟨c, alive⟩ := slot
  obtain rfl : alive = true := by simpa using halive
  have hc : n.server.live k = some c := Server.live_eq_some.mpr hslot
  obtain ⟨-, hio⟩ := session_settled hsettled hc
  have hallows : ∀ a : Action, a = .shutdown k ∨ a = .destroy k → n.Allows host 0 a := by
    rintro a (rfl | rfl) <;> exact ⟨by simp [Server.rejects, Server.adopts], trivial⟩
  have heof : c.eof = true := by
    by_contra hopen
    have hcalm : Calm (.server 0 (.shutdown k)) n := by
      simp only [Calm, hslot, hk, Option.any_some, hfinished, and_true]
      simpa using hopen
    have hnone := server_settled hsettled hcalm (hallows _ (.inl rfl))
    simp only [Server.step, hc, Option.map_some, reduceCtorEq] at hnone
  have hpending : c.session.pending = none := by
    cases hp : c.session.pending with
    | none => rfl
    | some op =>
      cases op with
      | write => simp only [Connection.io, hp, reduceCtorEq] at hio
      | readHeader | readBody =>
        simp only [Connection.io, hp, heof, if_true] at hio
        split_ifs at hio
  have hnone := server_settled hsettled (a := .destroy k) trivial (hallows _ (.inr rfl))
  simp only [Server.step, hc, Option.bind_some, hpending, if_true, reduceCtorEq] at hnone

end Settled

/-- Everybody is done: each client has read an answer to everything it sent, no session is
left, and the counters say so. -/
structure Drained (numClients : UInt32) (n : Network γ σ) : Prop where
  finished : ∀ c ∈ n.test.clients, c.finished = true ∧ c.onDoneCalls = 1
  inFlight : n.test.inFlight = 0
  errors : n.test.errors = 0
  served : ∀ (i : ℕ) (c : AsyncClient γ), n.test.clients[i]? = some c →
    c.sent = (n.conversation i).map Exchange.request ∧
      c.responses = (n.conversation i).map Exchange.response
  sessions : n.server.slots.length = numClients.toNat ∧ ∀ slot ∈ n.server.slots, slot.alive = false
  activeConnections : n.server.activeConnections = 0
  totalConnections : n.server.totalConnections.toNat = numClients.toNat
  armed : n.server.outstandingAccepts = 1 ∧ n.server.handlers = []

theorem Healthy.drained (h : Healthy host nextRequest numClients maxConnections n)
    (hfits : Fits router nextRequest store P I)
    (hserver : ServerRun host router maxConnections store n.server) (hattended : n.Attended)
    (hsettled : Settled (step host router nextRequest) Draining n) : n.Drained numClients := by
  have hfinished : ∀ (i : ℕ) (c : AsyncClient γ), n.test.clients[i]? = some c → c.finished = true :=
    fun i c hi => h.finished_settled hsettled hfits hserver hattended hi
  obtain ⟨hdone, hinFlight⟩ := h.linked.accounted.finished fun c hc => by
    obtain ⟨i, hi⟩ := List.mem_iff_getElem?.mp hc
    exact hfinished i c hi
  obtain ⟨hidle, -⟩ := h.accepts_settled hsettled hattended
  have hclient : ∀ i, i < numClients.toNat → ∃ c, n.test.clients[i]? = some c := by
    intro i hlt
    exact ⟨_, List.getElem?_eq_getElem (h.linked.accounted.length ▸ hlt)⟩
  have hpeers : ∀ i, i < numClients.toNat → i ∈ n.peers := by
    intro i hlt
    obtain ⟨c, hi⟩ := hclient i hlt
    obtain ⟨stage, hstage⟩ := h.linked.accounted.stages c (List.mem_of_getElem? hi)
    have hend := hstage.finished.symm.trans (hfinished i c hi)
    apply h.peer_settled hsettled hattended
    rw [LoadTest.dialled, hi, Option.elim_some, AsyncClient.dialled, hstage.started,
      hstage.outstanding, h.failedIn c (List.mem_of_getElem? hi)]
    cases stage with
    | ended failure => rfl
    | constructed | waiting | answered | counted | sending | failing | ending => cases hend
  have hlength : n.server.slots.length = numClients.toNat := by
    have hperm : n.peers.Perm (List.range numClients.toNat) := by
      rw [List.perm_ext_iff_of_nodup h.linked.nodup List.nodup_range]
      intro i
      rw [List.mem_range]
      exact ⟨h.peersLt i, hpeers i⟩
    rw [← h.linked.peers, hperm.length_eq, List.length_range]
  have hdead : ∀ slot ∈ n.server.slots, slot.alive = false := by
    intro slot hmem
    obtain ⟨k, hslot⟩ := List.mem_iff_getElem?.mp hmem
    have hlt := (List.getElem?_eq_some_iff.mp hslot).1
    obtain ⟨i, hk⟩ : ∃ i, n.peers[k]? = some i :=
      ⟨_, List.getElem?_eq_getElem (h.linked.peers ▸ hlt)⟩
    obtain ⟨c, hi⟩ := hclient i (h.peersLt i (List.mem_of_getElem? hk))
    refine destroyed_settled hsettled hk hslot ?_
    rw [clientFinished, hi, Option.any_some]
    exact hfinished i c hi
  refine ⟨hdone, hinFlight, h.errors_eq.1, ?_, ⟨hlength, hdead⟩, ?_, ?_, ?_⟩
  · intro i c hi
    exact h.served_of_finished hfits hserver hi (hfinished i c hi)
  · have hactive := h.accounted.active
    have hunclosed : n.server.unclosed = 0 := by
      rw [Server.unclosed, List.countP_eq_zero]
      intro slot hmem
      rw [h.accounted.destroyed slot hmem (hdead slot hmem)]
      decide
    rw [hunclosed, hidle, List.countP_nil] at hactive
    exact UInt64.toNat_inj.mp hactive
  · have hmax := numClients.toNat_lt
    rw [h.accounted.total, hidle, List.countP_nil, hlength, UInt64.toNat_ofNat']
    exact Nat.mod_eq_of_lt (by omega)
  · obtain ⟨hout, -⟩ | ⟨-, pc, hpc⟩ := h.accounted.chain_cases
    · exact ⟨hout, hidle⟩
    · rw [hpc] at hidle
      cases hidle

end Turns

theorem reaches_attended {P : Message → Prop} {I : σ → Prop}
    (hfits : Fits router nextRequest store P I) (hroom : numClients.toNat ≤ maxConnections.toNat)
    (h : Reaches (step host router nextRequest) Calm
      (initial numClients generator maxConnections store) n) : n.Attended := by
  induction h with
  | refl => exact nofun
  | @tail b c turn hreach hcalm hstep ih =>
    have hhealthy := reaches_healthy hfits hroom hreach
    cases turn with
    | client a =>
      obtain ⟨-, hstep⟩ := Option.ite_none_right_eq_some.mp hstep
      obtain ⟨t, ht, rfl⟩ := Option.map_eq_some_iff.mp hstep
      exact hhealthy.attended_client ih ht
    | server i a =>
      obtain ⟨hallows, hstep⟩ := Option.ite_none_right_eq_some.mp hstep
      obtain ⟨s, hs, rfl⟩ := Option.map_eq_some_iff.mp hstep
      exact hhealthy.attended_server hroom ih hcalm hallows hs

theorem draining_turn {P : Message → Prop} {I : σ → Prop}
    (hfits : Fits router nextRequest store P I) (hroom : numClients.toNat ≤ maxConnections.toNat)
    (h : Reaches (step host router nextRequest) Calm
      (initial numClients generator maxConnections store) n) (hstop : n.test.stopFlag = true)
    {turn : Turn} (hdraining : Draining turn n)
    (hstep : step host router nextRequest turn n = some n') :
    n'.test.stopFlag = true ∧ n'.workLeft host < n.workLeft host := by
  obtain ⟨hcalm, hne⟩ := hdraining
  have hhealthy := reaches_healthy hfits hroom h
  cases turn with
  | client a =>
    obtain ⟨-, hstep⟩ := Option.ite_none_right_eq_some.mp hstep
    obtain ⟨t, ht, rfl⟩ := Option.map_eq_some_iff.mp hstep
    obtain ⟨hless, hflag⟩ := hhealthy.workLeft_client hstop (fun ha => hne (congrArg _ ha)) ht
    refine ⟨?_, hless⟩
    rw [clientStep_test]
    exact hflag
  | server i a =>
    have hserver : ServerRun host router maxConnections store n.server :=
      reaches_server (fun _ _ _ _ _ => trivial) h
    obtain ⟨hallows, hstep⟩ := Option.ite_none_right_eq_some.mp hstep
    obtain ⟨s, hs, rfl⟩ := Option.map_eq_some_iff.mp hstep
    exact ⟨hstop, hhealthy.workLeft_server hfits hserver hroom hcalm hallows hs⟩

/-- Once the time of a calm test is up, it ends: no schedule has more turns left than
`workLeft` counts, and the only states without a turn left are those where everybody is done. -/
theorem calm_test_drains {D : Type*} {dbl : Doubles D} (hdbl : dbl.Bounded) {clock : ℕ → ℤ}
    (hclock : ∀ k, (clock k).natAbs ≤ 2 ^ 63) {printPrice : ℕ → Bytes}
    (hprint : PrintsNumbers printPrice) {scenario : ScenarioConfig} {generator : ℕ → UInt64}
    {n n' : Network UInt64 World} (hroom : numClients.toNat ≤ maxConnections.toNat)
    (h : Reaches (step host (serverRouter dbl) (LoadGen.nextRequest printPrice scenario)) Calm
      (initial numClients generator maxConnections (World.initial clock)) n)
    (hstop : n.test.stopFlag = true) {turns : List Turn}
    (hturns : ReachesBy (step host (serverRouter dbl) (LoadGen.nextRequest printPrice scenario))
      Draining n turns n') :
    turns.length + n'.workLeft host ≤ n.workLeft host ∧
      (Settled (step host (serverRouter dbl) (LoadGen.nextRequest printPrice scenario))
        Draining n' → n'.Drained numClients) ∧
      ∃ t, Reaches (step host (serverRouter dbl) (LoadGen.nextRequest printPrice scenario))
        Draining n' t ∧ t.Drained numClients := by
  have hfits := loadGen_fits hdbl hclock hprint scenario
  let P : Network UInt64 World → Prop := fun b =>
    Reaches (step host (serverRouter dbl) (LoadGen.nextRequest printPrice scenario)) Calm
      (initial numClients generator maxConnections (World.initial clock)) b ∧
        b.test.stopFlag = true
  have hstep : ∀ (turn : Turn) (b c : Network UInt64 World), P b → Draining turn b →
      step host (serverRouter dbl) (LoadGen.nextRequest printPrice scenario) turn b = some c →
        P c ∧ c.workLeft host < b.workLeft host := by
    rintro turn b c ⟨hb, hflag⟩ hdraining hs
    obtain ⟨hflag', hless⟩ := draining_turn hfits hroom hb hflag hdraining hs
    exact ⟨⟨hb.tail turn hdraining.1 hs, hflag'⟩, hless⟩
  have hdrained : ∀ b, P b →
      Settled (step host (serverRouter dbl) (LoadGen.nextRequest printPrice scenario)) Draining b →
        b.Drained numClients := by
    rintro b ⟨hb, -⟩ hsettled
    have hserver : ServerRun host (serverRouter dbl) maxConnections (World.initial clock) b.server :=
      reaches_server (fun _ _ _ _ _ => trivial) hb
    exact (reaches_healthy hfits hroom hb).drained hfits hserver (reaches_attended hfits hroom hb)
      hsettled
  obtain ⟨hP, hwork⟩ := hturns.length_le hstep ⟨h, hstop⟩
  refine ⟨hwork, hdrained n' hP, ?_⟩
  obtain ⟨t, hreach, hsettled⟩ := exists_settled (P := P) (workLeft host) hstep hP
  refine ⟨t, hreach, hdrained t ?_ hsettled⟩
  apply hreach.invariant hP
  intro turn b c hb hdraining hs
  exact (hstep turn b c hb hdraining hs).1

theorem calm_test_drains_two_clients :
    ∃ (n n' : Network UInt64 World) (turns : List Turn), turns.length = 14 ∧
      ReachesBy (step .little (serverRouter shortDoubles) (LoadGen.nextRequest priceText {}))
        Draining n turns n' ∧
      n'.server.slots.map Slot.alive = [false, false] ∧
      turns.length + n'.workLeft .little ≤ n.workLeft .little ∧
      ∃ t, Reaches (step .little (serverRouter shortDoubles) (LoadGen.nextRequest priceText {}))
        Draining n' t ∧ t.Drained 2 := by
  let router := serverRouter shortDoubles
  let nextRequest := LoadGen.nextRequest priceText {}
  let first := (nextRequest (seed 0)).1
  let second := (nextRequest (seed 1)).1
  let r' := router.dispatch second (World.initial fun _ => 0)
  let r := router.dispatch first r'.2
  let turns := answeredTurns first second r.1 r'.1
  let ends (k : ℕ) : List Turn := [.server 0 (.shutdown k), .server 0 (.io k), .server 0 (.destroy k)]
  let before := (turns.take (turns.length - 8)).foldlM
    (fun n turn => if Calm turn n then step .little router nextRequest turn n else none)
    (initial 2 (fun i => seed (UInt32.ofNat i)) 2 (World.initial fun _ => 0))
  let after := turns.drop (turns.length - 8) ++ ends 0 ++ ends 1
  have hrun : before.bind (fun n => (after.foldlM
      (fun n turn => if Draining turn n then step .little router nextRequest turn n else none)
      n).map fun n' => (n.test.stopFlag, n'.server.slots.map Slot.alive, after.length)) =
        some (true, [false, false], 14) := by decide +kernel
  obtain ⟨n, hn, hend⟩ := Option.bind_eq_some_iff.mp hrun
  obtain ⟨n', hn', hend⟩ := Option.map_eq_some_iff.mp hend
  simp only [Prod.mk.injEq] at hend
  obtain ⟨hstop, hslots, hlength⟩ := hend
  have hturns := ReachesBy.of_foldlM hn'
  have hclock : ∀ k : ℕ, ((fun _ => 0 : ℕ → ℤ) k).natAbs ≤ 2 ^ 63 := fun _ => Nat.zero_le _
  obtain ⟨hwork, -, hdrained⟩ := calm_test_drains shortDoubles_bounded hclock
    priceText_printsNumbers (by decide) (Reaches.of_foldlM hn) hstop hturns
  exact ⟨n, n', after, hlength, hturns, hslots, hwork, hdrained⟩

end Network

end System

end HSFinancialServices
