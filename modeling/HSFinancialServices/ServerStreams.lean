import HSFinancialServices.Lib.Transitions
import HSFinancialServices.Server

/-!
# The log of the server and the streams of its sessions

The log interleaves what the sessions dispatch. Cut down to one session it lists the
requests in the order in which they stand in the stream of that session.
-/

namespace HSFinancialServices.Server
open Framing Transitions

variable {σ : Type*} {host : HostOrder} {router : ServiceRouter σ} {maxConnections : UInt64}
  {store : σ} {s s' : Server σ}

def logOf (k : ℕ) (s : Server σ) : List Exchange :=
  (s.log.filter fun e => e.1 == k).map Prod.snd

def HoldsAt (k : ℕ) (P : Connection → List Exchange → Prop) (s : Server σ) : Prop :=
  ∀ slot, s.slots[k]? = some slot → P slot.connection (s.logOf k)

theorem logOf_after (k j : ℕ) (slot : Slot) (effect : Effect σ) (s : Server σ) :
    (s.after j slot effect).logOf k =
      s.logOf k ++ if j = k then effect.dispatched else [] := by
  simp only [logOf, after, List.filter_append, List.map_append, List.filter_map]
  congr 1
  split
  · rename_i hjk
    simp [hjk, Function.comp_def]
  · rename_i hjk
    simp [hjk, Function.comp_def]

section HoldsAt
variable {k : ℕ} {P : Connection → List Exchange → Prop}

theorem HoldsAt.after (h : HoldsAt k P s) {j : ℕ} {c c' : Connection} {alive alive' : Bool}
    {effect : Effect σ} (hj : s.slots[j]? = some ⟨c, alive⟩)
    (hP : j = k → P c (s.logOf k) → P c' (s.logOf k ++ effect.dispatched)) :
    HoldsAt k P (s.after j ⟨c', alive'⟩ effect) := by
  intro slot hslot
  rw [logOf_after]
  simp only [Server.after, List.getElem?_set] at hslot
  split_ifs at hslot with hjk hlt
  · subst hjk
    obtain rfl := Option.some.inj hslot
    rw [if_pos rfl]
    exact hP rfl (h _ hj)
  · rw [if_neg hjk, List.append_nil]
    exact h slot hslot

theorem HoldsAt.accepting (h : HoldsAt k P s) (hs : Accepting s s')
    (hnew : s.logOf s.slots.length = []) (hP : ∀ sessionId, P (Connection.accept sessionId) []) :
    HoldsAt k P s' := by
  have hlog : s'.logOf k = s.logOf k := by simp only [logOf, hs.log]
  intro slot hslot
  rw [hlog]
  obtain hslots | ⟨sessionId, hslots⟩ := hs.slots
  · exact h slot (by rw [← hslots, hslot])
  · rw [hslots, List.getElem?_append] at hslot
    split at hslot
    · exact h slot hslot
    · obtain ⟨hlt, rfl⟩ := List.getElem?_eq_some_iff.mp hslot
      obtain rfl : k = s.slots.length := by
        rw [List.length_singleton] at hlt
        omega
      rw [hnew, List.getElem_singleton]
      exact hP sessionId

end HoldsAt

structure Streamed (host : HostOrder) (s : Server σ) : Prop where
  tracks : ∀ (k : ℕ) (slot : Slot), s.slots[k]? = some slot → slot.connection.Tracks host False (s.logOf k)
  created : ∀ e ∈ s.log, e.1 < s.slots.length

theorem Streamed.logOf_length (h : Streamed host s) : s.logOf s.slots.length = [] := by
  refine List.map_eq_nil_iff.mpr (List.filter_eq_nil_iff.mpr ?_)
  intro e he hk
  have hlt := h.created e he
  rw [beq_iff_eq] at hk
  omega

theorem Streamed.accepting (h : Streamed host s) (hs : Accepting s s') : Streamed host s' := by
  refine ⟨?_, ?_⟩
  · intro k
    exact HoldsAt.accepting (h.tracks k) hs h.logOf_length fun sessionId =>
      Connection.tracks_accept host False sessionId [] false
  · intro e he
    rw [hs.log] at he
    have hlt := h.created e he
    obtain hslots | ⟨sessionId, hslots⟩ := hs.slots
    · rwa [hslots]
    · rw [hslots, List.length_append]
      omega

theorem Streamed.after (h : Streamed host s) {k : ℕ} {c c' : Connection} {alive alive' : Bool}
    {effect : Effect σ} (hk : s.slots[k]? = some ⟨c, alive⟩)
    (hmoved : Moved host router s.store c c' effect) :
    Streamed host (s.after k ⟨c', alive'⟩ effect) := by
  obtain ⟨hlt, -⟩ := List.getElem?_eq_some_iff.mp hk
  refine ⟨?_, ?_⟩
  · intro j
    exact HoldsAt.after (h.tracks j) hk fun _ => hmoved.tracks _
  · intro e he
    simp only [Server.after, List.length_set, List.mem_append, List.mem_map] at he ⊢
    obtain he | ⟨x, -, rfl⟩ := he
    · exact h.created e he
    · exact hlt

theorem Streamed.step {a : Action} (h : Streamed host s) (hstep : step host router a s = some s') :
    Streamed host s' := by
  obtain ⟨ok, hs⟩ | ⟨i, optionOk, -, hs⟩ | ⟨k, c, c', alive, effect, hk, rfl, hmoved, -⟩ :=
    step_cases hstep
  · exact h.accepting (acceptCompleted_accepting hs)
  · exact h.accepting (acceptStep_accepting hs)
  · exact h.after hk hmoved

theorem reaches_streamed {ok : Action → Server σ → Prop}
    (h : Reaches (step host router) ok (initial maxConnections store) s) : Streamed host s := by
  refine h.invariant ⟨nofun, nofun⟩ ?_
  intro a b c hb _ hstep
  exact hb.step hstep

/-- Each session dispatches the frames of its own stream from the front, and answers them
in that order. -/
theorem requests_in_stream_order {ok : Action → Server σ → Prop}
    (h : Reaches (step host router) ok (initial maxConnections store) s) {k : ℕ} {slot : Slot}
    (hk : s.slots[k]? = some slot) :
    (∃ frames rest, List.Forall₂ (Carries host) frames ((s.logOf k).map Exchange.request) ∧
      slot.connection.arrived = concat frames ++ rest) ∧
      slot.connection.written <+: replies host (s.logOf k) := by
  obtain ⟨frames, tail, hat⟩ := (reaches_streamed h).tracks k slot hk
  exact ⟨⟨frames, _, hat.carries, hat.stream⟩, hat.written_prefix⟩

/-- Every response is what the router gave for its request in some state of the services, and
each of these states has what every dispatch keeps. -/
theorem reaches_dispatched {ok : Action → Server σ → Prop} {I : σ → Prop} (hstore : I store)
    (hI : ∀ request w, I w → I (router.dispatch request w).2)
    (h : Reaches (step host router) ok (initial maxConnections store) s) :
    I s.store ∧ ∀ e ∈ s.log, ∃ w, I w ∧ e.2.response = (router.dispatch e.2.request w).1 := by
  let P : Server σ → Prop := fun c =>
    I c.store ∧ ∀ e ∈ c.log, ∃ w, I w ∧ e.2.response = (router.dispatch e.2.request w).1
  have accepting : ∀ {b c : Server σ}, Accepting b c → P b → P c := by
    intro b c hs hb
    simp only [P, hs.store, hs.log]
    exact hb
  refine h.invariant (P := P) ⟨hstore, nofun⟩ ?_
  intro a b c hb _ hstep
  obtain ⟨ok, hs⟩ | ⟨i, optionOk, -, hs⟩ | ⟨k, c₁, c₂, alive, effect, -, rfl, hmoved, -⟩ :=
    step_cases hstep
  · exact accepting (acceptCompleted_accepting hs) hb
  · exact accepting (acceptStep_accepting hs) hb
  · simp only [P, Server.after]
    obtain ⟨hsame, hnone⟩ | ⟨request, hnext, hone⟩ := hmoved.dispatches
    · rw [hsame, hnone, List.map_nil, List.append_nil]
      exact hb
    · rw [hnext, hone]
      refine ⟨hI request b.store hb.1, ?_⟩
      intro e he
      obtain he | he := List.mem_append.mp he
      · exact hb.2 e he
      · rw [List.map_singleton, List.mem_singleton] at he
        exact ⟨b.store, hb.1, by rw [he]⟩

theorem mem_log_of_mem_logOf {k : ℕ} {e : Exchange} (h : e ∈ s.logOf k) : (k, e) ∈ s.log := by
  obtain ⟨⟨j, e'⟩, hx, rfl⟩ := List.mem_map.mp h
  obtain ⟨hlog, hj⟩ := List.mem_filter.mp hx
  rw [beq_iff_eq] at hj
  exact hj ▸ hlog

/-- The exchanges whose response is among the first `written` bytes, in whole or in part. -/
def begun (host : HostOrder) : ℕ → List Exchange → List Exchange
  | _, [] => []
  | 0, _ :: _ => []
  | written + 1, e :: es =>
    e :: begun host (written + 1 - (e.response.serialise host).length) es

theorem begun_prefix (host : HostOrder) (written : ℕ) (log : List Exchange) :
    begun host written log <+: log := by
  induction log generalizing written with
  | nil => exact List.prefix_refl _
  | cons e es ih =>
    cases written with
    | zero => exact List.nil_prefix
    | succ written => exact (List.prefix_cons_inj e).mpr (ih _)

theorem prefix_replies_begun {written : Bytes} {log : List Exchange}
    (h : written <+: replies host log) : written <+: replies host (begun host written.length log) := by
  induction log generalizing written with
  | nil => exact h
  | cons e es ih =>
    cases written with
    | nil => exact List.nil_prefix
    | cons b bs =>
      have hsplit : ∀ rest : List Exchange,
          replies host (e :: rest) = e.response.serialise host ++ replies host rest := by
        intro rest
        simp only [replies, serialiseAll, List.map_cons, List.flatMap_cons]
      rw [hsplit] at h
      rw [List.length_cons, begun, hsplit]
      obtain hle | hle := le_total (b :: bs).length (e.response.serialise host).length
      · have hshort := List.prefix_of_prefix_length_le h (List.prefix_append _ _) hle
        exact hshort.trans (List.prefix_append _ _)
      · obtain ⟨rest, hrest⟩ := List.prefix_of_prefix_length_le (List.prefix_append _ _) h hle
        have hlength : bs.length + 1 - (e.response.serialise host).length = rest.length := by
          have hsum := congrArg List.length hrest
          rw [List.length_append, List.length_cons] at hsum
          omega
        rw [← hrest, List.prefix_append_right_inj] at h
        rw [hlength, ← hrest, List.prefix_append_right_inj]
        exact ih h

end HSFinancialServices.Server
