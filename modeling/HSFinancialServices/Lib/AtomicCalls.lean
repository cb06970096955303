import Mathlib.Algebra.BigOperators.Group.Finset.Piecewise
import Mathlib.Data.List.Infix
import Mathlib.Logic.Function.Basic
import Mathlib.Logic.Relation

/-!
# Calls that take effect at one moment

Callers call a shared object and wait for the reply. A history of calls and replies is
linearizable if the calls can be put into one order, legal for the object used by one
caller at a time, in which every call stands at a moment between its call and its reply.
The machine below carries out each call at one such moment.
-/

namespace AtomicCalls

variable {ι Q R σ : Type*}

inductive Event (ι Q R : Type*)
  | call (i : ι) (query : Q)
  | reply (i : ι) (result : R)

structure Performed (ι Q R : Type*) where
  caller : ι
  query : Q
  result : R

def Legal (apply : Q → σ → R × σ) : List (Performed ι Q R) → σ → σ → Prop
  | [], s, s' => s = s'
  | p :: ps, s, s' => p.result = (apply p.query s).1 ∧ Legal apply ps (apply p.query s).2 s'

theorem Legal.concat {apply : Q → σ → R × σ} {order : List (Performed ι Q R)} {s s' : σ}
    (h : Legal apply order s s') (i : ι) (q : Q) :
    Legal apply (order ++ [⟨i, q, (apply q s').1⟩]) s (apply q s').2 := by
  induction order generalizing s with
  | nil =>
    cases h
    exact ⟨rfl, rfl⟩
  | cons p ps ih => exact ⟨h.1, ih h.2⟩

section Callers
variable [DecidableEq ι]

def Event.query? (i : ι) : Event ι Q R → Option Q
  | call j query => if j = i then some query else none
  | reply _ _ => none

def Event.result? (i : ι) : Event ι Q R → Option R
  | call _ _ => none
  | reply j result => if j = i then some result else none

def queries (i : ι) (history : List (Event ι Q R)) : List Q := history.filterMap (Event.query? i)

def results (i : ι) (history : List (Event ι Q R)) : List R := history.filterMap (Event.result? i)

def performed (i : ι) (order : List (Performed ι Q R)) : List (Performed ι Q R) :=
  order.filter fun p => p.caller = i

def performedQueries (i : ι) (order : List (Performed ι Q R)) : List Q :=
  (performed i order).map Performed.query

def performedResults (i : ι) (order : List (Performed ι Q R)) : List R :=
  (performed i order).map Performed.result

section Append
variable (i : ι) (h h' : List (Event ι Q R)) (o o' : List (Performed ι Q R))

@[simp] theorem queries_append : queries i (h ++ h') = queries i h ++ queries i h' :=
  List.filterMap_append

@[simp] theorem results_append : results i (h ++ h') = results i h ++ results i h' :=
  List.filterMap_append

@[simp] theorem performedQueries_append :
    performedQueries i (o ++ o') = performedQueries i o ++ performedQueries i o' := by
  simp only [performedQueries, performed, List.filter_append, List.map_append]

@[simp] theorem performedResults_append :
    performedResults i (o ++ o') = performedResults i o ++ performedResults i o' := by
  simp only [performedResults, performed, List.filter_append, List.map_append]

theorem length_performedQueries :
    (performedQueries i o).length = (performedResults i o).length := by
  simp only [performedQueries, performedResults, List.length_map]

end Append

theorem queries_map_call (i j : ι) (qs : List Q) :
    queries i (qs.map (.call j) : List (Event ι Q R)) = if j = i then qs else [] := by
  induction qs with
  | nil => exact (ite_self []).symm
  | cons q qs ih =>
    simp only [queries, List.map_cons, List.filterMap_cons, Event.query?] at ih ⊢
    split_ifs at ih ⊢ with hji
    · simp only [ih]
    · simp only [ih]

theorem queries_map_reply (i j : ι) (rs : List R) :
    queries i (rs.map (.reply j) : List (Event ι Q R)) = [] := by
  simp only [queries, List.filterMap_map, List.filterMap_eq_nil_iff, Function.comp_apply,
    Event.query?, implies_true]

theorem results_map_call (i j : ι) (qs : List Q) :
    results i (qs.map (.call j) : List (Event ι Q R)) = [] := by
  simp only [results, List.filterMap_map, List.filterMap_eq_nil_iff, Function.comp_apply,
    Event.result?, implies_true]

theorem results_map_reply (i j : ι) (rs : List R) :
    results i (rs.map (.reply j) : List (Event ι Q R)) = if j = i then rs else [] := by
  induction rs with
  | nil => exact (ite_self []).symm
  | cons r rs ih =>
    simp only [results, List.map_cons, List.filterMap_cons, Event.result?] at ih ⊢
    split_ifs at ih ⊢ with hji
    · simp only [ih]
    · simp only [ih]

@[simp] theorem queries_call (i j : ι) (q : Q) :
    queries i ([.call j q] : List (Event ι Q R)) = if j = i then [q] else [] :=
  queries_map_call i j [q]

@[simp] theorem queries_reply (i j : ι) (r : R) :
    queries i ([.reply j r] : List (Event ι Q R)) = [] := rfl

@[simp] theorem results_call (i j : ι) (q : Q) :
    results i ([.call j q] : List (Event ι Q R)) = [] := rfl

@[simp] theorem results_reply (i j : ι) (r : R) :
    results i ([.reply j r] : List (Event ι Q R)) = if j = i then [r] else [] :=
  results_map_reply i j [r]

@[simp] theorem performedQueries_single (i j : ι) (q : Q) (r : R) :
    performedQueries i [⟨j, q, r⟩] = if j = i then [q] else [] := by
  by_cases h : j = i
  · simp [performedQueries, performed, h]
  · simp [performedQueries, performed, h]

@[simp] theorem performedResults_single (i j : ι) (q : Q) (r : R) :
    performedResults i [⟨j, q, r⟩] = if j = i then [r] else [] := by
  by_cases h : j = i
  · simp [performedResults, performed, h]
  · simp [performedResults, performed, h]

theorem sum_countP_performedQueries (p : Q → Bool) {callers : Finset ι}
    {order : List (Performed ι Q R)} (h : ∀ call ∈ order, call.caller ∈ callers) :
    ∑ i ∈ callers, (performedQueries i order).countP p = (order.map Performed.query).countP p := by
  induction order with
  | nil => exact Finset.sum_eq_zero fun _ _ => rfl
  | cons call order ih =>
    obtain ⟨hmem, hrest⟩ := List.forall_mem_cons.mp h
    have hsplit : ∀ i, (performedQueries i (call :: order)).countP p =
        (if call.caller = i then [call.query].countP p else 0) +
          (performedQueries i order).countP p := by
      intro i
      rw [← List.singleton_append, performedQueries_append, List.countP_append,
        performedQueries_single]
      split_ifs <;> rfl
    simp only [hsplit, Finset.sum_add_distrib, Finset.sum_ite_eq, hmem, if_true, ih hrest,
      List.map_cons, List.countP_cons, List.countP_nil]
    omega

theorem performedQueries_prefix {front order : List (Performed ι Q R)} (h : front <+: order)
    (i : ι) : performedQueries i front <+: performedQueries i order := by
  obtain ⟨rest, rfl⟩ := h
  rw [performedQueries_append]
  exact List.prefix_append _ _

/-- The order accounts for the history. At each moment of the history some front part of the
order has taken effect: nothing that was not called by then, and all that was answered. -/
structure Linearizes (apply : Q → σ → R × σ) (s s' : σ) (history : List (Event ι Q R))
    (order : List (Performed ι Q R)) : Prop where
  legal : Legal apply order s s'
  called : ∀ i, performedQueries i order <+: queries i history
  moments : ∀ before after, history = before ++ after → ∃ done rest, order = done ++ rest ∧
    ∀ i, performedQueries i done <+: queries i before ∧ results i before <+: performedResults i done

/-- Real time is respected: what has been answered before something else is called comes
before it in every front part of the order. -/
theorem Linearizes.realTime {apply : Q → σ → R × σ} {s s' : σ} {history : List (Event ι Q R)}
    {order : List (Performed ι Q R)} (h : Linearizes apply s s' history order)
    {before after : List (Event ι Q R)} (hsplit : history = before ++ after) {i j : ι} {m n : ℕ}
    (hanswered : m < (results i before).length) (hlater : (queries j before).length ≤ n)
    {front : List (Performed ι Q R)} (hfront : front <+: order)
    (hn : n < (performedQueries j front).length) : m < (performedQueries i front).length := by
  obtain ⟨done, rest, horder, hmoment⟩ := h.moments before after hsplit
  have hdone : done <+: order := ⟨rest, horder.symm⟩
  obtain hle | hle := le_total front.length done.length
  · have hshort := List.prefix_of_prefix_length_le hfront hdone hle
    have hless := performedQueries_prefix hshort j
    have hcalled := (hless.trans (hmoment j).1).length_le
    omega
  · have hlong := List.prefix_of_prefix_length_le hdone hfront hle
    have hresults := (hmoment i).2.length_le
    rw [← length_performedQueries] at hresults
    have hmore := performedQueries_prefix hlong i
    have hgrows := hmore.length_le
    omega

end Callers

inductive Status (Q R : Type*)
  | idle
  | called (query : Q)
  | done (result : R)

structure Machine (ι Q R σ : Type*) where
  store : σ
  status : ι → Status Q R
  history : List (Event ι Q R)
  order : List (Performed ι Q R)

def Machine.initial (store : σ) : Machine ι Q R σ := ⟨store, fun _ => .idle, [], []⟩

variable [DecidableEq ι]

inductive Step (apply : Q → σ → R × σ) (m : Machine ι Q R σ) : Machine ι Q R σ → Prop
  | call (i : ι) (q : Q) : m.status i = .idle →
      Step apply m { m with
        status := Function.update m.status i (.called q), history := m.history ++ [.call i q] }
  | perform (i : ι) (q : Q) : m.status i = .called q →
      Step apply m { m with
        store := (apply q m.store).2
        status := Function.update m.status i (.done (apply q m.store).1)
        order := m.order ++ [⟨i, q, (apply q m.store).1⟩] }
  | reply (i : ι) (r : R) : m.status i = .done r →
      Step apply m { m with
        status := Function.update m.status i .idle, history := m.history ++ [.reply i r] }

def Reachable (apply : Q → σ → R × σ) (store : σ) (m : Machine ι Q R σ) : Prop :=
  Relation.ReflTransGen (Step apply) (Machine.initial store) m

def Machine.Stands (m : Machine ι Q R σ) (i : ι) : Status Q R → Prop
  | .idle => queries i m.history = performedQueries i m.order ∧
      results i m.history = performedResults i m.order
  | .called q => queries i m.history = performedQueries i m.order ++ [q] ∧
      results i m.history = performedResults i m.order
  | .done r => queries i m.history = performedQueries i m.order ∧
      results i m.history ++ [r] = performedResults i m.order

structure Machine.Sound (apply : Q → σ → R × σ) (store : σ) (m : Machine ι Q R σ) : Prop where
  stands : ∀ i, m.Stands i (m.status i)
  linearizes : Linearizes apply store m.store m.history m.order

section Machine
variable {apply : Q → σ → R × σ} {store : σ} {m m' : Machine ι Q R σ}

theorem Machine.Stands.prefixes {i : ι} {status : Status Q R} (h : m.Stands i status) :
    performedQueries i m.order <+: queries i m.history ∧
      results i m.history <+: performedResults i m.order := by
  cases status with
  | idle =>
    obtain ⟨hqueries, hreplies⟩ := h
    rw [hqueries, hreplies]
    exact ⟨List.prefix_refl _, List.prefix_refl _⟩
  | called q =>
    obtain ⟨hqueries, hreplies⟩ := h
    rw [hqueries, hreplies]
    exact ⟨List.prefix_append _ _, List.prefix_refl _⟩
  | done r =>
    obtain ⟨hqueries, hreplies⟩ := h
    rw [hqueries, ← hreplies]
    exact ⟨List.prefix_refl _, List.prefix_append _ _⟩

theorem sound_initial (store : σ) :
    (Machine.initial store : Machine ι Q R σ).Sound apply store where
  stands _ := ⟨rfl, rfl⟩
  linearizes := by
    refine ⟨rfl, fun _ => List.nil_prefix, ?_⟩
    intro before after hsplit
    obtain ⟨rfl, -⟩ := List.append_eq_nil_iff.mp hsplit.symm
    exact ⟨[], [], rfl, fun _ => ⟨List.nil_prefix, List.nil_prefix⟩⟩

theorem Machine.Sound.event (h : m.Sound apply store) {e : Event ι Q R} {status : ι → Status Q R}
    (hstands : ∀ i, ({ m with status := status, history := m.history ++ [e] } :
      Machine ι Q R σ).Stands i (status i)) :
    ({ m with status := status, history := m.history ++ [e] } : Machine ι Q R σ).Sound apply
      store where
  stands := hstands
  linearizes := by
    refine ⟨h.linearizes.legal, fun i => (hstands i).prefixes.1, ?_⟩
    intro before after hsplit
    cases List.eq_nil_or_concat after with
    | inl hnil =>
      rw [hnil, List.append_nil] at hsplit
      exact ⟨m.order, [], (List.append_nil _).symm, fun i => hsplit ▸ (hstands i).prefixes⟩
    | inr hconcat =>
      obtain ⟨init, last, rfl⟩ := hconcat
      rw [List.concat_eq_append, ← List.append_assoc] at hsplit
      obtain ⟨hhistory, -⟩ := List.append_inj' hsplit rfl
      exact h.linearizes.moments before init hhistory

theorem Machine.Sound.step (h : m.Sound apply store) (hstep : Step apply m m') :
    m'.Sound apply store := by
  cases hstep with
  | call i q hidle =>
    refine h.event fun j => ?_
    have hj := h.stands j
    by_cases hij : i = j
    · subst hij
      rw [hidle] at hj
      rw [Function.update_self]
      exact ⟨by simp [hj.1], by simp [hj.2]⟩
    · rw [Function.update_of_ne (Ne.symm hij)]
      cases hstatus : m.status j <;> simpa [Machine.Stands, hstatus, hij] using hj
  | reply i r hdone =>
    refine h.event fun j => ?_
    have hj := h.stands j
    by_cases hij : i = j
    · subst hij
      rw [hdone] at hj
      rw [Function.update_self]
      exact ⟨by simp [hj.1], by simp [hj.2]⟩
    · rw [Function.update_of_ne (Ne.symm hij)]
      cases hstatus : m.status j <;> simpa [Machine.Stands, hstatus, hij] using hj
  | perform i q hcalled =>
    have hstands : ∀ j, ({ m with
        store := (apply q m.store).2
        status := Function.update m.status i (.done (apply q m.store).1)
        order := m.order ++ [⟨i, q, (apply q m.store).1⟩] } : Machine ι Q R σ).Stands j
          (Function.update m.status i (.done (apply q m.store).1) j) := by
      intro j
      have hj := h.stands j
      by_cases hij : i = j
      · subst hij
        rw [hcalled] at hj
        rw [Function.update_self]
        exact ⟨by simp [hj.1], by simp [hj.2]⟩
      · rw [Function.update_of_ne (Ne.symm hij)]
        cases hstatus : m.status j <;> simpa [Machine.Stands, hstatus, hij] using hj
    refine ⟨hstands, h.linearizes.legal.concat i q, fun j => (hstands j).prefixes.1, ?_⟩
    intro before after hsplit
    obtain ⟨done, rest, horder, hmoment⟩ := h.linearizes.moments before after hsplit
    exact ⟨done, rest ++ [⟨i, q, (apply q m.store).1⟩], by rw [horder, List.append_assoc], hmoment⟩

theorem Reachable.sound (h : Reachable apply store m) : m.Sound apply store := by
  induction h with
  | refl => exact sound_initial store
  | tail _ hstep ih => exact ih.step hstep

theorem Machine.Sound.idle (h : m.Sound apply store) {i : ι}
    (hlength : (queries i m.history).length = (results i m.history).length) :
    m.status i = .idle := by
  have hstands := h.stands i
  have hsame := length_performedQueries i m.order
  cases hstatus : m.status i with
  | idle => rfl
  | called q =>
    rw [hstatus] at hstands
    rw [hstands.1, hstands.2, List.length_append, List.length_singleton] at hlength
    omega
  | done r =>
    rw [hstatus] at hstands
    rw [hstands.1, hsame, ← hstands.2, List.length_append, List.length_singleton] at hlength
    omega

theorem Machine.Sound.calledOf (h : m.Sound apply store) {i : ι} {q : Q}
    (hstart : performedQueries i m.order ++ [q] <+: queries i m.history) :
    m.status i = .called q := by
  have hstands := h.stands i
  cases hstatus : m.status i with
  | called q' =>
    rw [hstatus] at hstands
    rw [hstands.1, List.prefix_append_right_inj] at hstart
    rw [List.singleton_inj.mp (hstart.eq_of_length rfl)]
  | idle | done =>
    rw [hstatus] at hstands
    have hlength := hstart.length_le
    rw [hstands.1, List.length_append, List.length_singleton] at hlength
    omega

theorem Machine.Sound.doneOf (h : m.Sound apply store) {i : ι} {r : R}
    (hstart : results i m.history ++ [r] <+: performedResults i m.order) :
    m.status i = .done r := by
  have hstands := h.stands i
  cases hstatus : m.status i with
  | done r' =>
    rw [hstatus] at hstands
    rw [← hstands.2, List.prefix_append_right_inj] at hstart
    rw [List.singleton_inj.mp (hstart.eq_of_length rfl)]
  | idle | called =>
    rw [hstatus] at hstands
    have hlength := hstart.length_le
    rw [← hstands.2, List.length_append, List.length_singleton] at hlength
    omega

end Machine

end AtomicCalls
