import HSFinancialServices.AcceptLoop
import HSFinancialServices.LoadGen.Requests
import HSFinancialServices.System.Conversations

/-!
# Who is let in

A connection is given a session or turned away, never both, and it is turned away only when
as many sessions are open as the server allows, but for the one whose option fails.
-/

namespace HSFinancialServices

namespace Server
variable {σ : Type*} {maxConnections : UInt64} {a : Action} {s : Server σ}

theorem not_adopts_of_rejects (h : s.rejects a = true) : s.adopts a = false := by
  cases a with
  | acceptStep i optionOk =>
    simp only [rejects] at h
    simp only [adopts]
    split at h <;> simp_all
  | accepted | acceptFailed | arrive | shutdown | io | fail | stop | destroy => rfl

theorem Accounted.full_of_rejects (h : s.Accounted maxConnections) (hoption : OptionSucceeds a s)
    (hrejects : s.rejects a = true) : s.unclosed = maxConnections.toNat := by
  cases a with
  | acceptStep i optionOk =>
    simp only [rejects] at hrejects
    split at hrejects
    · simp [h.acceptorOpen] at hrejects
    · rename_i hloading
      obtain ⟨-, hpc, -⟩ := h.only_handler hloading
      have hactive := h.active
      have hroom := h.room
      have hlimit := h.limit
      rw [hpc] at hactive
      simp only [Bool.not_eq_true', decide_eq_false_iff_not, UInt64.not_lt,
        UInt64.le_iff_toNat_le, hlimit] at hrejects
      simp only [List.countP_singleton, AcceptStep.active, Bool.false_eq_true, if_false] at hactive
      omega
    · rename_i hactivated
      cases optionOk with
      | true => cases hrejects
      | false => exact absurd hactivated hoption
    · cases hrejects
  | accepted | acceptFailed | arrive | shutdown | io | fail | stop | destroy => cases hrejects

theorem Halted.not_rejects (h : s.Halted maxConnections) (a : Action) : s.rejects a = false := by
  cases a with
  | acceptStep i optionOk => simp only [rejects, h.handlers, List.getElem?_nil]
  | accepted | acceptFailed | arrive | shutdown | io | fail | stop | destroy => rfl

end Server

theorem LoadGen.LoadTest.lt_of_dialled {γ : Type*} {i : ℕ} {s : LoadTest γ}
    (h : s.dialled i = true) : i < s.clients.length := by
  by_contra hge
  rw [dialled, List.getElem?_eq_none (not_lt.mp hge)] at h
  cases h

namespace System
open Ascii LoadGen Services Transitions

namespace Network
variable {γ σ : Type*} {host : HostOrder} {router : ServiceRouter σ}
  {nextRequest : γ → Message × γ} {numClients : UInt32} {generator : ℕ → γ}
  {maxConnections : UInt64} {store : σ} {n n' : Network γ σ}

structure Placed (numClients : UInt32) (n : Network γ σ) : Prop where
  nodup : (n.peers ++ n.rejected).Nodup
  lt : ∀ i ∈ n.peers ++ n.rejected, i < numClients.toNat

theorem Placed.length_le (h : Placed numClients n) :
    n.peers.length + n.rejected.length ≤ numClients.toNat := by
  have hsub : n.peers ++ n.rejected ⊆ List.range numClients.toNat :=
    fun i hi => List.mem_range.mpr (h.lt i hi)
  have hle := (List.subperm_of_subset h.nodup hsub).length_le
  rwa [List.length_append, List.length_range] at hle

theorem Placed.place (h : Placed numClients n) {i : ℕ} (hwaiting : n.Waiting i)
    (hlength : n.test.clients.length = numClients.toNat) (peers rejected : List ℕ)
    (hperm : (peers ++ rejected).Perm (i :: (n.peers ++ n.rejected))) :
    (peers ++ rejected).Nodup ∧ ∀ j ∈ peers ++ rejected, j < numClients.toNat := by
  obtain ⟨hnew, hkept, hdialled⟩ := hwaiting
  have hnot : i ∉ n.peers ++ n.rejected := by
    rw [List.mem_append]
    exact not_or.mpr ⟨hnew, hkept⟩
  refine ⟨hperm.nodup_iff.mpr (List.nodup_cons.mpr ⟨hnot, h.nodup⟩), ?_⟩
  intro j hj
  obtain rfl | hj := List.mem_cons.mp (hperm.mem_iff.mp hj)
  · exact hlength ▸ LoadTest.lt_of_dialled hdialled
  · exact h.lt j hj

theorem Placed.server (h : Placed numClients n) (hlength : n.test.clients.length = numClients.toNat)
    {i : ℕ} {a : Action} (hallows : n.Allows host i a) (s : Server σ) :
    Placed numClients (n.serverStep i a s) := by
  by_cases hrejects : n.server.rejects a = true
  · have hadopts := Server.not_adopts_of_rejects hrejects
    obtain ⟨hnodup, hlt⟩ := h.place (hallows.1 (.inr (.inl hrejects))) hlength n.peers
      (n.rejected ++ [i]) (by rw [← List.append_assoc]; exact List.perm_append_singleton i _)
    simp only [serverStep, hadopts, hrejects, if_true, Bool.false_eq_true, if_false]
    exact ⟨hnodup, hlt⟩
  by_cases hadopts : n.server.adopts a = true
  · obtain ⟨hnodup, hlt⟩ := h.place (hallows.1 (.inr (.inr hadopts))) hlength (n.peers ++ [i])
      n.rejected (by rw [List.append_assoc]; exact List.perm_middle)
    simp only [serverStep, hadopts, hrejects, if_true, Bool.false_eq_true, if_false]
    exact ⟨hnodup, hlt⟩
  · simp only [serverStep, hadopts, hrejects, Bool.false_eq_true, if_false]
    exact ⟨h.nodup, h.lt⟩

theorem reaches_placed {ok : Turn → Network γ σ → Prop}
    (h : Reaches (step host router nextRequest) ok
      (initial numClients generator maxConnections store) n) : Placed numClients n := by
  induction h with
  | refl => exact ⟨List.nodup_nil, fun i hi => absurd hi List.not_mem_nil⟩
  | @tail b c turn hreach _ hstep ih =>
    cases turn with
    | client a =>
      obtain ⟨-, hstep⟩ := Option.ite_none_right_eq_some.mp hstep
      obtain ⟨t, -, rfl⟩ := Option.map_eq_some_iff.mp hstep
      refine ⟨?_, ?_⟩
      · rw [clientStep_peers, clientStep_rejected]
        exact ih.nodup
      · rw [clientStep_peers, clientStep_rejected]
        exact ih.lt
    | server i a =>
      obtain ⟨hallows, hstep⟩ := Option.ite_none_right_eq_some.mp hstep
      obtain ⟨s, -, rfl⟩ := Option.map_eq_some_iff.mp hstep
      exact ih.server (reaches_linked hreach).accounted.length hallows s

end Network

end System

end HSFinancialServices
