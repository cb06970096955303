import Mathlib.Computability.StateTransition

/-!
# Runs of transition functions

For a deterministic system `StateTransition.eval` is its last state; a measure
shows that there is one. For a system driven by actions `Reaches` collects every
schedule, and an invariant of the steps is an invariant of the runs.
-/

namespace Transitions

theorem exists_mem_eval {α : Type*} {f : α → Option α} {P : α → Prop} (μ : α → ℕ)
    (hstep : ∀ a b, P a → f a = some b → P b ∧ μ b < μ a) {a : α} (ha : P a) :
    ∃ b ∈ StateTransition.eval f a, P b ∧ f b = none := by
  suffices h : ∀ n a, μ a = n → P a → ∃ b, StateTransition.Reaches f a b ∧ P b ∧ f b = none by
    obtain ⟨b, hreach, hb, hstop⟩ := h (μ a) a rfl ha
    exact ⟨b, StateTransition.mem_eval.mpr ⟨hreach, hstop⟩, hb, hstop⟩
  intro n
  induction n using Nat.strong_induction_on with
  | _ n ih =>
    intro a hn ha
    cases hf : f a with
    | none => exact ⟨a, .refl, ha, hf⟩
    | some b =>
      obtain ⟨hb, hlt⟩ := hstep a b ha hf
      obtain ⟨c, hreach, hc, hstop⟩ := ih (μ b) (hn ▸ hlt) b rfl hb
      exact ⟨c, hreach.head hf, hc, hstop⟩

section Actions
variable {α ι : Type*} (step : ι → α → Option α) (ok : ι → α → Prop)

/-- The states that the schedules lead to whose every action is `ok` where it is taken. -/
inductive Reaches (a : α) : α → Prop
  | refl : Reaches a a
  | tail {b c : α} (i : ι) : Reaches a b → ok i b → step i b = some c → Reaches a c

variable {step ok}

theorem Reaches.trans {a b c : α} (hab : Reaches step ok a b) (hbc : Reaches step ok b c) :
    Reaches step ok a c := by
  induction hbc with
  | refl => exact hab
  | tail i _ hok hstep ih => exact ih.tail i hok hstep

theorem Reaches.invariant {P : α → Prop} {a b : α} (h : Reaches step ok a b) (ha : P a)
    (hstep : ∀ i b c, P b → ok i b → step i b = some c → P c) : P b := by
  induction h with
  | refl => exact ha
  | tail i _ hok hs ih => exact hstep i _ _ ih hok hs

theorem Reaches.mono {ok' : ι → α → Prop} (hok : ∀ i a, ok i a → ok' i a) {a b : α}
    (h : Reaches step ok a b) : Reaches step ok' a b := by
  induction h with
  | refl => exact .refl
  | tail i _ hi hs ih => exact ih.tail i (hok i _ hi) hs

/-- A part of the state whose every change is a step of its own runs as on its own. -/
theorem Reaches.project {β κ : Type*} {step' : κ → β → Option β} {ok' : κ → β → Prop} (f : α → β)
    (hstep : ∀ i b c, ok i b → step i b = some c →
      f c = f b ∨ ∃ j, ok' j (f b) ∧ step' j (f b) = some (f c))
    {a b : α} (h : Reaches step ok a b) : Reaches step' ok' (f a) (f b) := by
  induction h with
  | refl => exact .refl
  | tail i _ hok hs ih =>
    obtain hsame | ⟨j, hj, hs'⟩ := hstep i _ _ hok hs
    · rw [hsame]
      exact ih
    · exact ih.tail j hj hs'

theorem Reaches.of_foldlM [∀ i a, Decidable (ok i a)] {is : List ι} {a b : α}
    (h : is.foldlM (fun a i => if ok i a then step i a else none) a = some b) :
    Reaches step ok a b := by
  induction is generalizing a with
  | nil =>
    cases h
    exact .refl
  | cons i is ih =>
    obtain ⟨c, hc, hrest⟩ := Option.bind_eq_some_iff.mp h
    obtain ⟨hok, hc⟩ := Option.ite_none_right_eq_some.mp hc
    exact (Reaches.refl.tail i hok hc).trans (ih hrest)

variable (step ok)

inductive ReachesBy (a : α) : List ι → α → Prop
  | refl : ReachesBy a [] a
  | tail {is : List ι} {b c : α} (i : ι) : ReachesBy a is b → ok i b → step i b = some c →
      ReachesBy a (is ++ [i]) c

def Settled (a : α) : Prop := ∀ i b, ok i a → step i a ≠ some b

variable {step ok}

theorem ReachesBy.head {a b c : α} {is : List ι} {i : ι} (hok : ok i a) (hs : step i a = some b)
    (h : ReachesBy step ok b is c) : ReachesBy step ok a (i :: is) c := by
  induction h with
  | refl => exact .tail i .refl hok hs
  | tail j _ hj hs' ih => exact ih.tail j hj hs'

theorem ReachesBy.of_foldlM [∀ i a, Decidable (ok i a)] {is : List ι} {a b : α}
    (h : is.foldlM (fun a i => if ok i a then step i a else none) a = some b) :
    ReachesBy step ok a is b := by
  induction is generalizing a with
  | nil =>
    cases h
    exact .refl
  | cons i is ih =>
    obtain ⟨c, hc, hrest⟩ := Option.bind_eq_some_iff.mp h
    obtain ⟨hok, hc⟩ := Option.ite_none_right_eq_some.mp hc
    exact .head hok hc (ih hrest)

/-- Where no action inside `P` raises `μ` and those that `p` counts lower it, a run has no more
of these than `μ` to begin with. -/
theorem ReachesBy.countP_le {P : α → Prop} {μ : α → ℕ} (p : ι → Bool)
    (hstep : ∀ i b c, P b → ok i b → step i b = some c → P c ∧ μ c + (p i).toNat ≤ μ b)
    {is : List ι} {a b : α} (h : ReachesBy step ok a is b) (ha : P a) :
    P b ∧ is.countP p + μ b ≤ μ a := by
  induction h with
  | refl => exact ⟨ha, by rw [List.countP_nil, Nat.zero_add]⟩
  | @tail is b c i _ hok hs ih =>
    obtain ⟨hb, hle⟩ := ih
    obtain ⟨hc, hless⟩ := hstep i b c hb hok hs
    refine ⟨hc, ?_⟩
    have hcount : (is ++ [i]).countP p = is.countP p + (p i).toNat := by
      rw [List.countP_append, List.countP_singleton]
      cases p i <;> rfl
    omega

theorem ReachesBy.length_le {P : α → Prop} {μ : α → ℕ}
    (hstep : ∀ i b c, P b → ok i b → step i b = some c → P c ∧ μ c < μ b)
    {is : List ι} {a b : α} (h : ReachesBy step ok a is b) (ha : P a) :
    P b ∧ is.length + μ b ≤ μ a := by
  rw [← List.countP_true]
  exact h.countP_le (fun _ => true) (fun i b c hb hok hs => hstep i b c hb hok hs) ha

theorem exists_settled {P : α → Prop} (μ : α → ℕ)
    (hstep : ∀ i b c, P b → ok i b → step i b = some c → P c ∧ μ c < μ b) {a : α} (ha : P a) :
    ∃ b, Reaches step ok a b ∧ Settled step ok b := by
  induction hn : μ a using Nat.strong_induction_on generalizing a with
  | _ n ih =>
    by_cases hsettled : Settled step ok a
    · exact ⟨a, .refl, hsettled⟩
    · simp only [Settled, not_forall, not_not] at hsettled
      obtain ⟨i, b, hok, hs⟩ := hsettled
      obtain ⟨hb, hlt⟩ := hstep i a b ha hok hs
      obtain ⟨c, hreach, hc⟩ := ih (μ b) (hn ▸ hlt) hb rfl
      exact ⟨c, (Reaches.refl.tail i hok hs).trans hreach, hc⟩

end Actions

end Transitions
