import HSFinancialServices.Server
import HSFinancialServices.Services.Registry
import HSFinancialServices.Lib.Transitions

/-!
# The counters of the server

One accept chain feeds the counters, and every session takes one off
`active_connections_` when it closes for the first time. The invariant ties the three
counters to the sessions and to the accept handler that is under way.
-/

namespace HSFinancialServices.AcceptStep

def critical : AcceptStep → Bool
  | counted | activated | optioned | numbered _ => true
  | _ => false

/-- Counted in `active_connections_` without a session yet. -/
def active : AcceptStep → Bool
  | activated | optioned | numbered _ => true
  | _ => false

/-- Past the comparison with the limit, not yet counted in `active_connections_`. -/
def promised : AcceptStep → Bool
  | admitted | counted => true
  | _ => false

def holdsId : AcceptStep → Bool
  | numbered _ => true
  | _ => false

end HSFinancialServices.AcceptStep

namespace HSFinancialServices.Server
open Services Transitions

variable {σ : Type*}

def unclosed (s : Server σ) : ℕ := s.slots.countP fun slot => !slot.connection.session.closed

def sessionIds (s : Server σ) : List UInt64 := s.slots.map fun slot => slot.connection.session.sessionId

def OutsideCriticalSteps (s : Server σ) : Prop := ∀ pc ∈ s.handlers, pc.critical = false

def OptionSucceeds (a : Action) (s : Server σ) : Prop :=
  match a with
  | .acceptStep i false => s.handlers[i]? ≠ some .activated
  | _ => True

instance (a : Action) (s : Server σ) : Decidable (OptionSucceeds a s) :=
  match a with
  | .acceptStep i false => inferInstanceAs (Decidable (s.handlers[i]? ≠ some .activated))
  | .acceptStep _ true | .accepted | .acceptFailed | .arrive _ _ | .shutdown _ | .io _ | .fail _ _
  | .stop _ | .destroy _ => .isTrue trivial

structure Accounted (maxConnections : UInt64) (s : Server σ) : Prop where
  limit : s.maxConnections = maxConnections
  acceptorOpen : s.acceptorOpen = true
  escaped : s.escaped = false
  chain : s.outstandingAccepts + s.handlers.length = 1
  active : s.activeConnections.toNat = s.unclosed + s.handlers.countP AcceptStep.active
  room : s.activeConnections.toNat + s.handlers.countP AcceptStep.promised ≤ maxConnections.toNat
  total : s.totalConnections =
    UInt64.ofNat (s.slots.length + s.handlers.countP AcceptStep.critical)
  nextId : s.nextSessionId =
    UInt64.ofNat (s.slots.length + 1 + s.handlers.countP AcceptStep.holdsId)
  ids : s.sessionIds = (List.range s.slots.length).map fun k => UInt64.ofNat (k + 1)
  held : ∀ sid, .numbered sid ∈ s.handlers → sid = UInt64.ofNat (s.slots.length + 1)
  destroyed : ∀ slot ∈ s.slots, slot.alive = false → slot.connection.session.closed = true

theorem initial_accounted (maxConnections : UInt64) (store : σ) :
    Accounted maxConnections (initial maxConnections store) where
  limit := rfl
  acceptorOpen := rfl
  escaped := rfl
  chain := rfl
  active := rfl
  room := Nat.zero_le _
  total := rfl
  nextId := rfl
  ids := rfl
  held := nofun
  destroyed := nofun

theorem Accounted.chain_cases {maxConnections : UInt64} {s : Server σ}
    (h : Accounted maxConnections s) :
    (s.outstandingAccepts = 1 ∧ s.handlers = []) ∨
      (s.outstandingAccepts = 0 ∧ ∃ pc, s.handlers = [pc]) := by
  have hchain := h.chain
  cases hs : s.handlers with
  | nil =>
    left
    rw [hs, List.length_nil] at hchain
    exact ⟨hchain, rfl⟩
  | cons pc rest =>
    right
    rw [hs, List.length_cons] at hchain
    have hrest : rest = [] := List.length_eq_zero_iff.mp (by omega)
    exact ⟨by omega, pc, by rw [hrest]⟩

theorem Accounted.only_handler {maxConnections : UInt64} {s : Server σ}
    (h : Accounted maxConnections s) {i : ℕ} {pc : AcceptStep} (hpc : s.handlers[i]? = some pc) :
    i = 0 ∧ s.handlers = [pc] ∧ s.outstandingAccepts = 0 := by
  obtain ⟨-, hnone⟩ | ⟨hout, pc', hpc'⟩ := h.chain_cases
  · rw [hnone] at hpc
    cases hpc
  · rw [hpc'] at hpc ⊢
    cases i with
    | zero =>
      obtain rfl : pc' = pc := Option.some.inj hpc
      exact ⟨rfl, rfl, hout⟩
    | succ i => cases hpc

section Preservation
variable {maxConnections : UInt64} {s s' : Server σ}

theorem Accounted.accept_completed (h : Accounted maxConnections s) {ok : Bool}
    (hs : s.acceptCompleted ok = some s') : Accounted maxConnections s' := by
  obtain ⟨hout, hnone⟩ | ⟨hout, -⟩ := h.chain_cases
  · simp only [acceptCompleted, hout, hnone, List.nil_append, Option.some.injEq] at hs
    subst hs
    have hactive := h.active
    have hroom := h.room
    have htotal := h.total
    have hnext := h.nextId
    rw [hnone] at hactive hroom htotal hnext
    exact { h with
      chain := rfl
      active := hactive
      room := hroom
      total := htotal
      nextId := hnext
      held := fun sid hsid => by simp at hsid }
  · simp only [acceptCompleted, hout, reduceCtorEq] at hs

theorem Accounted.goto (h : Accounted maxConnections s) {pc pc' : AcceptStep}
    (hpc : s.handlers = [pc]) (hactive : pc'.active = pc.active)
    (hcritical : pc'.critical = pc.critical) (hid : pc'.holdsId = pc.holdsId)
    (hroom : s.activeConnections.toNat + [pc'].countP AcceptStep.promised ≤ maxConnections.toNat)
    (hheld : pc'.holdsId = false) : Accounted maxConnections { s with handlers := [pc'] } := by
  have hchain := h.chain
  have hactives := h.active
  have htotal := h.total
  have hnext := h.nextId
  rw [hpc] at hchain hactives htotal hnext
  rw [List.countP_singleton, ← hactive, ← List.countP_singleton] at hactives
  rw [List.countP_singleton, ← hcritical, ← List.countP_singleton] at htotal
  rw [List.countP_singleton, ← hid, ← List.countP_singleton] at hnext
  refine { h with chain := hchain, active := hactives, room := hroom, total := htotal,
                  nextId := hnext, held := ?_ }
  intro sid hsid
  obtain rfl := List.mem_singleton.mp hsid
  cases hheld

theorem Accounted.accept_numbered (h : Accounted maxConnections s) {sid : UInt64}
    {optionOk : Bool} (hout : s.outstandingAccepts = 0) (hpc : s.handlers = [.numbered sid])
    (hs : s.acceptStep 0 optionOk = some s') : Accounted maxConnections s' := by
  have hsid : sid = UInt64.ofNat (s.slots.length + 1) := h.held sid (by simp [hpc])
  have hactive := h.active
  have hroom := h.room
  have htotal := h.total
  have hnext := h.nextId
  rw [hpc] at hactive hroom htotal hnext
  simp only [acceptStep, hpc, List.getElem?_cons_zero, List.set_cons_zero,
    Option.some.injEq] at hs
  subst hs
  refine { h with chain := ?_, active := ?_, room := hroom, total := ?_, nextId := ?_,
                  ids := ?_, held := fun sid hsid => by simp at hsid, destroyed := ?_ }
  · exact (Nat.add_right_cancel_iff).mpr hout
  · simp only [hactive, unclosed, List.countP_append]
    rfl
  · simp only [htotal, List.length_append]
    rfl
  · simp only [hnext, List.length_append]
    rfl
  · simp only [sessionIds, List.map_append, List.length_append, List.length_singleton,
      List.range_succ] at *
    rw [← h.ids]
    exact congrArg _ (congrArg (fun n => [n]) hsid)
  · intro slot hslot hdead
    obtain hslot | hslot := List.mem_append.mp hslot
    · exact h.destroyed slot hslot hdead
    · obtain rfl := List.mem_singleton.mp hslot
      cases hdead

theorem Accounted.accept_step (h : Accounted maxConnections s) {i : ℕ} {optionOk : Bool}
    (hok : optionOk = false → s.handlers[i]? ≠ some .activated)
    (hs : s.acceptStep i optionOk = some s') : Accounted maxConnections s' := by
  obtain ⟨-, hnone⟩ | ⟨hout, pc, hpc⟩ := h.chain_cases
  · simp only [acceptStep, hnone, List.getElem?_nil, reduceCtorEq] at hs
  obtain rfl : i = 0 := by
    cases i with
    | zero => rfl
    | succ i => simp [acceptStep, hpc] at hs
  have hactive := h.active
  have hroom := h.room
  have htotal := h.total
  have hnext := h.nextId
  rw [hpc] at hactive hroom htotal hnext hok
  have hmax := maxConnections.toNat_lt
  cases pc with
  | entered ok =>
    simp only [acceptStep, hpc, if_pos h.acceptorOpen, List.getElem?_cons_zero,
      List.set_cons_zero, Option.some.injEq] at hs
    subst hs
    cases ok with
    | false => exact h.goto hpc (by rfl) (by rfl) (by rfl) hroom (by rfl)
    | true => exact h.goto hpc (by rfl) (by rfl) (by rfl) hroom (by rfl)
  | loading =>
    simp only [acceptStep, hpc, List.getElem?_cons_zero, List.set_cons_zero] at hs
    split at hs
    · rename_i hlt
      cases hs
      refine h.goto hpc rfl rfl rfl ?_ rfl
      rw [h.limit] at hlt
      exact hlt
    · cases hs
      exact h.goto hpc rfl rfl rfl hroom rfl
  | admitted =>
    simp only [acceptStep, hpc, List.getElem?_cons_zero, List.set_cons_zero,
      Option.some.injEq] at hs
    subst hs
    refine { h with chain := ?_, active := hactive, room := hroom, total := ?_, nextId := hnext,
                    held := fun sid hsid => by simp at hsid }
    · exact (Nat.add_right_cancel_iff).mpr hout
    · simp only [htotal]
      exact (UInt64.ofNat_add _ 1).symm
  | counted =>
    simp only [acceptStep, hpc, List.getElem?_cons_zero, List.set_cons_zero,
      Option.some.injEq] at hs
    subst hs
    have hadd : (s.activeConnections + 1).toNat = s.activeConnections.toNat + 1 := by
      rw [UInt64.toNat_add]
      exact Nat.mod_eq_of_lt (lt_of_le_of_lt hroom hmax)
    refine { h with chain := ?_, active := ?_, room := ?_, total := htotal, nextId := hnext,
                    held := fun sid hsid => by simp at hsid }
    · exact (Nat.add_right_cancel_iff).mpr hout
    · simp only [hadd, hactive]
      rfl
    · simp only [hadd]
      exact hroom
  | activated =>
    cases optionOk with
    | false => exact absurd rfl (hok rfl)
    | true =>
      simp only [acceptStep, hpc, List.getElem?_cons_zero, List.set_cons_zero, if_true,
        Option.some.injEq] at hs
      subst hs
      exact h.goto hpc rfl rfl rfl hroom rfl
  | optioned =>
    simp only [acceptStep, hpc, List.getElem?_cons_zero, List.set_cons_zero,
      Option.some.injEq] at hs
    subst hs
    refine { h with chain := ?_, active := hactive, room := hroom, total := htotal, nextId := ?_,
                    held := ?_ }
    · exact (Nat.add_right_cancel_iff).mpr hout
    · simp only [hnext]
      exact (UInt64.ofNat_add _ 1).symm
    · intro sid hsid
      obtain rfl := AcceptStep.numbered.inj (List.mem_singleton.mp hsid)
      exact hnext
  | numbered sid => exact h.accept_numbered hout hpc hs
  | rearming =>
    simp only [acceptStep, hpc, List.getElem?_cons_zero, List.eraseIdx_zero, List.tail_cons,
      Option.some.injEq] at hs
    subst hs
    exact { h with
      chain := by rw [hout]; rfl
      active := hactive
      room := hroom
      total := htotal
      nextId := hnext
      held := fun _ hsid => absurd hsid List.not_mem_nil }

theorem unclosed_after {k : ℕ} {c c' : Connection} {alive : Bool} (alive' : Bool)
    {effect : Effect σ} (hk : s.slots[k]? = some ⟨c, alive⟩)
    (hcloses : effect.onCloseCalls + c.session.closed.toNat = c'.session.closed.toNat) :
    (s.after k ⟨c', alive'⟩ effect).unclosed + effect.onCloseCalls = s.unclosed := by
  obtain ⟨hlt, hget⟩ := List.getElem?_eq_some_iff.mp hk
  have hpos : (!c.session.closed) = true →
      0 < s.slots.countP fun slot => !slot.connection.session.closed := by
    intro hopen
    exact List.countP_pos_iff.mpr ⟨_, List.getElem_mem hlt, by rw [hget]; exact hopen⟩
  simp only [after, unclosed, List.countP_set hlt, hget]
  cases hc : c.session.closed with
  | true =>
    obtain ⟨hcalls, hc'⟩ : effect.onCloseCalls = 0 ∧ c'.session.closed = true := by
      rw [hc] at hcloses
      cases hc' : c'.session.closed <;> simp [hc'] at hcloses ⊢
      exact hcloses
    simp [hcalls, hc']
  | false =>
    have hpos := hpos (by rw [hc]; rfl)
    rw [hc, Bool.toNat_false, Nat.add_zero] at hcloses
    cases hc' : c'.session.closed with
    | false =>
      rw [hc'] at hcloses
      simp only [Bool.toNat_false] at hcloses
      simp [hcloses]
      omega
    | true =>
      rw [hc'] at hcloses
      simp only [Bool.toNat_true] at hcloses
      simp [hcloses]
      omega

theorem Accounted.after (h : Accounted maxConnections s) {host : HostOrder}
    {router : ServiceRouter σ} {k : ℕ} {c c' : Connection} {alive : Bool} {effect : Effect σ}
    (hk : s.slots[k]? = some ⟨c, true⟩) (hmoved : Moved host router s.store c c' effect)
    (halive : alive = false → c'.session.closed = true) :
    Accounted maxConnections (s.after k ⟨c', alive⟩ effect) := by
  obtain ⟨hlt, hget⟩ := List.getElem?_eq_some_iff.mp hk
  have hmax := s.activeConnections.toNat_lt
  have hactive := h.active
  have hroom := h.room
  have hunclosed := unclosed_after alive hk hmoved.closes
  have hcalls : (UInt64.ofNat effect.onCloseCalls).toNat = effect.onCloseCalls := by
    rw [UInt64.toNat_ofNat']
    exact Nat.mod_eq_of_lt (by omega)
  have hsub : (s.activeConnections - UInt64.ofNat effect.onCloseCalls).toNat =
      s.activeConnections.toNat - effect.onCloseCalls := by
    rw [UInt64.toNat_sub_of_le _ _ (UInt64.le_iff_toNat_le.mpr (by omega)), hcalls]
  have hlength : (s.after k ⟨c', alive⟩ effect).slots.length = s.slots.length :=
    List.length_set
  refine { h with active := ?_, room := ?_, total := ?_, nextId := ?_, ids := ?_, held := ?_,
                  destroyed := ?_ }
  · calc
      (s.activeConnections - UInt64.ofNat effect.onCloseCalls).toNat
          = s.activeConnections.toNat - effect.onCloseCalls := hsub
      _ = (s.after k ⟨c', alive⟩ effect).unclosed + s.handlers.countP AcceptStep.active := by omega
  · calc
      (s.activeConnections - UInt64.ofNat effect.onCloseCalls).toNat +
            s.handlers.countP AcceptStep.promised
          = s.activeConnections.toNat - effect.onCloseCalls +
            s.handlers.countP AcceptStep.promised := by rw [hsub]
      _ ≤ maxConnections.toNat := by omega
  · rw [hlength]
    exact h.total
  · rw [hlength]
    exact h.nextId
  · rw [hlength, ← h.ids]
    refine List.ext_getElem? fun j => ?_
    simp only [sessionIds, Server.after, List.getElem?_map, List.getElem?_set, hlt, if_true]
    split
    · rename_i hj
      rw [← hj, hk]
      exact congrArg some hmoved.sessionId
    · rfl
  · rw [hlength]
    exact h.held
  · intro slot hslot hdead
    obtain hslot | rfl := List.mem_or_eq_of_mem_set hslot
    · exact h.destroyed slot hslot hdead
    · exact halive hdead

end Preservation

section Runs
variable {host : HostOrder} {router : ServiceRouter σ} {maxConnections : UInt64} {store : σ}
  {s s' : Server σ}

theorem Accounted.step (h : Accounted maxConnections s) {a : Action} (hok : OptionSucceeds a s)
    (hstep : Server.step host router a s = some s') : Accounted maxConnections s' := by
  obtain ⟨ok, hs⟩ | ⟨i, optionOk, rfl, hs⟩ | ⟨k, c, c', alive, effect, hk, rfl, hmoved, halive⟩ :=
    step_cases hstep
  · exact h.accept_completed hs
  · exact h.accept_step (fun hfails => by subst hfails; exact hok) hs
  · exact h.after hk hmoved halive

theorem reaches_accounted
    (h : Reaches (step host router) OptionSucceeds (initial maxConnections store) s) :
    Accounted maxConnections s :=
  h.invariant (initial_accounted maxConnections store) fun _ _ _ hb hok hstep => hb.step hok hstep

theorem Accounted.nodup_ids_iff (h : Accounted maxConnections s) :
    s.sessionIds.Nodup ↔ s.slots.length ≤ 2 ^ 64 := by
  rw [h.ids]
  constructor
  · intro hnodup
    by_contra hlt
    have hinj := List.inj_on_of_nodup_map hnodup
    have := hinj (List.mem_range.mpr (by omega : 0 < s.slots.length))
      (List.mem_range.mpr (by omega : 2 ^ 64 < s.slots.length)) (by rfl)
    omega
  · intro hle
    refine List.Nodup.map_on ?_ List.nodup_range
    intro j hj k hk heq
    rw [List.mem_range] at hj hk
    have hmod := congrArg UInt64.toNat heq
    rw [UInt64.toNat_ofNat', UInt64.toNat_ofNat'] at hmod
    omega

theorem Accounted.outside (h : Accounted maxConnections s) (hout : s.OutsideCriticalSteps) :
    s.activeConnections.toNat = s.unclosed ∧
      s.totalConnections.toNat = s.slots.length % 2 ^ 64 := by
  have hcritical : s.handlers.countP AcceptStep.critical = 0 :=
    List.countP_eq_zero.mpr fun pc hpc => by simp [hout pc hpc]
  have hactive : s.handlers.countP AcceptStep.active ≤ s.handlers.countP AcceptStep.critical :=
    List.countP_mono_left fun pc _ hpc => by cases pc <;> first | rfl | cases hpc
  constructor
  · have := h.active
    omega
  · rw [h.total, hcritical, UInt64.toNat_ofNat', Nat.add_zero]

theorem connection_accounting
    (h : Reaches (step host router) OptionSucceeds (initial maxConnections store) s) :
    (s.OutsideCriticalSteps → s.activeConnections.toNat = s.unclosed) ∧
      s.activeConnections ≤ maxConnections ∧
      s.activeConnections.toNat = s.unclosed + s.handlers.countP AcceptStep.active ∧
      (s.OutsideCriticalSteps → s.totalConnections.toNat = s.slots.length % 2 ^ 64) ∧
      (s.sessionIds.Nodup ↔ s.slots.length ≤ 2 ^ 64) := by
  have hs := reaches_accounted h
  have hroom := hs.room
  exact ⟨fun hout => (hs.outside hout).1, UInt64.le_iff_toNat_le.mpr (by omega), hs.active,
    fun hout => (hs.outside hout).2, hs.nodup_ids_iff⟩

theorem exists_reaches_stopped_sessions (host : HostOrder) (router : ServiceRouter σ) (store : σ)
    (n : ℕ) : ∃ s, Reaches (step host router) OptionSucceeds (initial 1 store) s ∧
      s.handlers = [] ∧ s.activeConnections = 0 ∧ s.slots.length = n := by
  induction n with
  | zero => exact ⟨_, .refl, rfl, rfl, rfl⟩
  | succ n ih =>
    obtain ⟨s, hreach, hquiet, hfree, hlength⟩ := ih
    obtain ⟨hlimit, hopen, -, hchain, -⟩ := reaches_accounted hreach
    cases s with
    | mk limit acceptorOpen accepts handlers escaped total active requests nextId slots store' log =>
    subst hquiet hfree hlimit hopen hlength hchain
    let via (accepts : ℕ) (handlers : List AcceptStep) (total active nextId : UInt64)
        (slots : List Slot) : Server σ :=
      ⟨1, true, accepts, handlers, escaped, total, active, requests, nextId, slots, store', log⟩
    have h₁ : Reaches (step host router) OptionSucceeds (initial 1 store)
        (via 0 [.loading] total 0 nextId slots) :=
      (hreach.tail (c := via 0 [.entered true] total 0 nextId slots) .accepted (by trivial) rfl).tail
        (.acceptStep 0 true) (by trivial) rfl
    have h₂ : Reaches (step host router) OptionSucceeds (initial 1 store)
        (via 0 [.counted] (total + 1) 0 nextId slots) :=
      (h₁.tail (c := via 0 [.admitted] total 0 nextId slots) (.acceptStep 0 true) (by trivial) rfl).tail
        (.acceptStep 0 true) (by trivial) rfl
    have h₃ : Reaches (step host router) OptionSucceeds (initial 1 store)
        (via 0 [.optioned] (total + 1) 1 nextId slots) :=
      (h₂.tail (c := via 0 [.activated] (total + 1) 1 nextId slots) (.acceptStep 0 true) (by trivial)
        rfl).tail (.acceptStep 0 true) (by trivial) rfl
    have h₄ : Reaches (step host router) OptionSucceeds (initial 1 store)
        (via 0 [.rearming] (total + 1) 1 (nextId + 1)
          (slots ++ [⟨Connection.accept nextId, true⟩])) :=
      (h₃.tail (c := via 0 [.numbered nextId] (total + 1) 1 (nextId + 1) slots)
        (.acceptStep 0 true) (by trivial) rfl).tail (.acceptStep 0 true) (by trivial) rfl
    have h₅ : Reaches (step host router) OptionSucceeds (initial 1 store)
        (via 1 [] (total + 1) 1 (nextId + 1) (slots ++ [⟨Connection.accept nextId, true⟩])) :=
      h₄.tail (.acceptStep 0 true) (by trivial) rfl
    have hlive : (via 1 [] (total + 1) 1 (nextId + 1)
        (slots ++ [⟨Connection.accept nextId, true⟩])).live slots.length =
          some (Connection.accept nextId) :=
      live_eq_some.mpr List.getElem?_concat_length
    refine ⟨_, h₅.tail (.stop slots.length) (by trivial) (congrArg (Option.map _) hlive), rfl, ?_, ?_⟩
    · have hback : (1 : UInt64) - UInt64.ofNat 1 = 0 := by decide
      exact hback
    · simp only [after, via, List.length_set, List.length_append, List.length_singleton]

end Runs

theorem connection_accounting_one_client :
    ∃ s : Server World, Reaches (step .little (serverRouter exactDoubles)) OptionSucceeds
        (initial 50000 (World.initial fun _ => 0)) s ∧
      s.slots.length = 1 ∧ s.activeConnections.toNat = s.unclosed ∧
      s.activeConnections ≤ 50000 ∧ s.totalConnections.toNat = 1 ∧ s.sessionIds.Nodup := by
  let next := Action.acceptStep 0 true
  let run := [.accepted, next, next, next, next, next, next, next, next, .shutdown 0, .io 0,
    .destroy 0].foldlM (fun s a => if OptionSucceeds a s then
      step .little (serverRouter exactDoubles) a s else none)
    (initial 50000 (World.initial fun _ => 0))
  have hrun : run.map (fun s => (s.handlers, s.slots.length)) = some ([], 1) := by decide +kernel
  obtain ⟨s, hs, hend⟩ := Option.map_eq_some_iff.mp hrun
  obtain ⟨hquiet, hlength⟩ := Prod.mk.inj hend
  have hreach := Reaches.of_foldlM hs
  have hout : s.OutsideCriticalSteps := fun pc hpc => by rw [hquiet] at hpc; cases hpc
  obtain ⟨hactive, hle, -, htotal, hids⟩ := connection_accounting hreach
  refine ⟨s, hreach, hlength, hactive hout, hle, ?_, hids.mpr (by omega)⟩
  rw [htotal hout, hlength]
  rfl

/-- After `2 ^ 64 + 1` clients, one at a time, both counters have gone round. -/
theorem connections_miscounted :
    ∃ s : Server World, Reaches (step .little (serverRouter exactDoubles)) OptionSucceeds
        (initial 1 (World.initial fun _ => 0)) s ∧ s.OutsideCriticalSteps ∧
      s.totalConnections.toNat ≠ s.slots.length ∧ ¬ s.sessionIds.Nodup := by
  obtain ⟨s, hreach, hquiet, -, hlength⟩ := exists_reaches_stopped_sessions .little
    (serverRouter exactDoubles) (World.initial fun _ => 0) (2 ^ 64 + 1)
  have hs := reaches_accounted hreach
  have hout : s.OutsideCriticalSteps := fun pc hpc => by rw [hquiet] at hpc; cases hpc
  refine ⟨s, hreach, hout, ?_, ?_⟩
  · rw [(hs.outside hout).2, hlength]
    omega
  · rw [hs.nodup_ids_iff, hlength]
    omega

end HSFinancialServices.Server
