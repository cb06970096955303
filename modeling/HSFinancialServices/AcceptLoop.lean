import HSFinancialServices.Accounting

/-!
# The accept loop after each of its handlers

A completion with an error and a connection over the limit leave the loop armed. The
one operation that can throw comes after the count and before the session.
-/

namespace HSFinancialServices.Server
open Services Transitions

variable {σ : Type*} {host : HostOrder} {router : ServiceRouter σ} {maxConnections : UInt64}
  {store : σ} {s s' : Server σ}

def liveUnclosed (s : Server σ) : ℕ :=
  s.slots.countP fun slot => slot.alive && !slot.connection.session.closed

structure Armed (s : Server σ) : Prop where
  outstanding : s.outstandingAccepts = 1
  escaped : s.escaped = false
  active : s.activeConnections.toNat = s.liveUnclosed

theorem Accounted.liveUnclosed_eq (h : Accounted maxConnections s) :
    s.liveUnclosed = s.unclosed := by
  refine List.countP_congr ?_
  intro slot hslot
  cases halive : slot.alive with
  | true => simp only [Bool.true_and]
  | false => simp only [h.destroyed slot hslot halive, Bool.not_true, Bool.and_false]

theorem Accounted.armed (h : Accounted maxConnections s) (hdone : s.handlers = []) : Armed s := by
  obtain ⟨hout, -⟩ | ⟨-, pc, hpc⟩ := h.chain_cases
  · have hactive := h.active
    rw [hdone, ← h.liveUnclosed_eq] at hactive
    exact ⟨hout, h.escaped, hactive⟩
  · rw [hdone] at hpc
    cases hpc

theorem accept_loop_survives
    (h : Reaches (step host router) OptionSucceeds (initial maxConnections store) s) :
    s.acceptorOpen = true ∧ (s.handlers = [] → Armed s) :=
  ⟨(reaches_accounted h).acceptorOpen, (reaches_accounted h).armed⟩

theorem accept_loop_survives_two :
    ∃ s : Server World, Reaches (step .little (serverRouter exactDoubles)) OptionSucceeds
        (initial 50000 (World.initial fun _ => 0)) s ∧ s.slots.length = 1 ∧ Armed s := by
  let next := Action.acceptStep 0 true
  let run := [.acceptFailed, next, next, .accepted, next, next, next, next, next, next, next,
    next].foldlM (fun s a => if OptionSucceeds a s then
      step .little (serverRouter exactDoubles) a s else none)
    (initial 50000 (World.initial fun _ => 0))
  have hrun : run.map (fun s => (s.handlers, s.slots.length)) = some ([], 1) := by decide +kernel
  obtain ⟨s, hs, hend⟩ := Option.map_eq_some_iff.mp hrun
  obtain ⟨hquiet, hlength⟩ := Prod.mk.inj hend
  have hreach := Reaches.of_foldlM hs
  exact ⟨s, hreach, hlength, (accept_loop_survives hreach).2 hquiet⟩

theorem Accounted.option_fails_eq (h : Accounted maxConnections s) {i : ℕ}
    (hpc : s.handlers[i]? = some .activated) (hs : s.acceptStep i false = some s') :
    s.handlers = [.activated] ∧ s.outstandingAccepts = 0 ∧
      s' = { s with handlers := [], escaped := true } := by
  obtain ⟨rfl, hhandlers, hout⟩ := h.only_handler hpc
  simp only [acceptStep, hhandlers, List.getElem?_cons_zero, List.eraseIdx_zero,
    List.tail_cons, Bool.false_eq_true, if_false, Option.some.injEq] at hs
  exact ⟨hhandlers, hout, hs.symm⟩

/-- The first failure of `set_option` ends the accept loop and keeps a place taken. -/
theorem Accounted.option_fails (h : Accounted maxConnections s) {i : ℕ}
    (hpc : s.handlers[i]? = some .activated) (hs : s.acceptStep i false = some s') :
    s'.handlers = [] ∧ s'.outstandingAccepts = 0 ∧ s'.escaped = true ∧
      s'.activeConnections.toNat = s'.liveUnclosed + 1 := by
  obtain ⟨hhandlers, hout, rfl⟩ := h.option_fails_eq hpc hs
  have hactive := h.active
  rw [hhandlers, ← h.liveUnclosed_eq] at hactive
  exact ⟨rfl, hout, rfl, hactive⟩

/-- The accept loop has ended, so no session is added any more. -/
structure Halted (maxConnections : UInt64) (s : Server σ) : Prop where
  escaped : s.escaped = true
  outstanding : s.outstandingAccepts = 0
  handlers : s.handlers = []
  unclosed : s.unclosed ≤ maxConnections.toNat

theorem Accounted.unclosed_le (h : Accounted maxConnections s) :
    s.unclosed ≤ maxConnections.toNat := by
  have hactive := h.active
  have hroom := h.room
  omega

theorem Accounted.halts (h : Accounted maxConnections s) {a : Action} (hfails : ¬ OptionSucceeds a s)
    (hstep : Server.step host router a s = some s') : Halted maxConnections s' := by
  cases a with
  | acceptStep i optionOk =>
    cases optionOk with
    | false =>
      obtain ⟨-, hout, rfl⟩ := h.option_fails_eq (not_not.mp hfails) hstep
      exact ⟨rfl, hout, rfl, h.unclosed_le⟩
    | true => exact absurd trivial hfails
  | accepted | acceptFailed | arrive | shutdown | io | fail | stop | destroy =>
    exact absurd trivial hfails

theorem Halted.step (h : Halted maxConnections s) {a : Action}
    (hstep : Server.step host router a s = some s') : Halted maxConnections s' := by
  obtain ⟨ok, hs⟩ | ⟨i, optionOk, -, hs⟩ | ⟨k, c, c', alive, effect, hk, rfl, hmoved, -⟩ :=
    step_cases hstep
  · simp only [acceptCompleted, h.outstanding, reduceCtorEq] at hs
  · simp only [acceptStep, h.handlers, List.getElem?_nil, reduceCtorEq] at hs
  · have hunclosed := unclosed_after alive hk hmoved.closes
    exact { h with unclosed := (Nat.le.intro hunclosed).trans h.unclosed }

theorem reaches_accounted_or_halted {ok : Action → Server σ → Prop}
    (h : Reaches (step host router) ok (initial maxConnections store) s) :
    Accounted maxConnections s ∨ Halted maxConnections s := by
  induction h with
  | refl => exact .inl (initial_accounted maxConnections store)
  | @tail b c a _ _ hstep ih =>
    obtain hb | hb := ih
    · by_cases hok : OptionSucceeds a b
      · exact .inl (hb.step hok hstep)
      · exact .inr (hb.halts hok hstep)
    · exact .inr (hb.step hstep)

theorem accept_loop_dies :
    ∃ s : Server World, Reaches (step .little (serverRouter exactDoubles)) (fun _ _ => True)
        (initial 50000 (World.initial fun _ => 0)) s ∧ s.acceptorOpen = true ∧ s.handlers = [] ∧
      s.outstandingAccepts = 0 ∧ s.escaped = true ∧ s.activeConnections = 1 ∧ s.slots = [] := by
  let next := Action.acceptStep 0 true
  let run := [.accepted, next, next, next, next, .acceptStep 0 false].foldlM
    (fun s a => if True then step .little (serverRouter exactDoubles) a s else none)
    (initial 50000 (World.initial fun _ => 0))
  have hrun : run.map (fun s => (s.acceptorOpen, s.handlers, s.outstandingAccepts, s.escaped,
      s.activeConnections, s.slots.length)) = some (true, [], 0, true, 1, 0) := by decide +kernel
  obtain ⟨s, hs, hend⟩ := Option.map_eq_some_iff.mp hrun
  simp only [Prod.mk.injEq, List.length_eq_zero_iff] at hend
  exact ⟨s, Reaches.of_foldlM hs, hend⟩

end HSFinancialServices.Server
