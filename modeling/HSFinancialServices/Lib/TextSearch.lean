import Mathlib.Data.List.Infix
import Mathlib.Data.List.TakeWhile

/-!
# First occurrences and cuts in a text

`find` is the first position at which one list occurs inside another, in the
manner of `std::string::find`. `cut` is the text that stands after the first
occurrence of a needle and before the next stop symbol. The characterizations
are exact: they say where the needle occurs for the first time, not only that it
occurs somewhere.
-/

namespace TextSearch
variable {α : Type*}

def FirstAt (needle text : List α) (i : ℕ) : Prop :=
  needle <+: text.drop i ∧ ∀ j < i, ¬ needle <+: text.drop j

theorem FirstAt.split {needle text : List α} {i : ℕ} (h : FirstAt needle text i) :
    text = text.take i ++ needle ++ text.drop (i + needle.length) := by
  obtain ⟨rest, hrest⟩ := h.1
  have hdrop : text.drop (i + needle.length) = rest := by
    rw [← List.drop_drop, ← hrest, List.drop_left]
  rw [hdrop, List.append_assoc, hrest, List.take_append_drop]

theorem append_prefix_iff {k t text : List α} :
    k ++ t <+: text ↔ k <+: text ∧ t <+: text.drop k.length := by
  constructor
  · rintro ⟨rest, rfl⟩
    rw [List.append_assoc, List.drop_left]
    exact ⟨List.prefix_append .., List.prefix_append ..⟩
  · rintro ⟨⟨rest, rfl⟩, h⟩
    rw [List.drop_left] at h
    exact (List.prefix_append_right_inj k).mpr h

theorem append_cons_prefix_iff {q : α} {k s t rest : List α} (hk : q ∉ k) (hs : q ∉ s) :
    k ++ q :: t <+: s ++ q :: rest ↔ s = k ∧ t <+: rest := by
  induction k generalizing s with
  | nil =>
    cases s with
    | nil => simp
    | cons b s =>
      have hne : q ≠ b := fun heq => hs (heq ▸ List.mem_cons_self ..)
      simp [hne]
  | cons a k ih =>
    cases s with
    | nil =>
      have hne : a ≠ q := fun heq => hk (heq ▸ List.mem_cons_self ..)
      simp [hne]
    | cons b s =>
      have htail := ih (List.not_mem_of_not_mem_cons hk) (List.not_mem_of_not_mem_cons hs)
      simp only [List.cons_append, List.cons_prefix_cons, htail, List.cons.injEq]
      constructor
      · rintro ⟨rfl, rfl, h⟩
        exact ⟨⟨rfl, rfl⟩, h⟩
      · rintro ⟨⟨rfl, rfl⟩, h⟩
        exact ⟨rfl, rfl, h⟩

section Find
variable [DecidableEq α]

instance (needle text : List α) (i : ℕ) : Decidable (FirstAt needle text i) :=
  inferInstanceAs (Decidable (_ ∧ _))

def find (needle : List α) : List α → Option ℕ
  | [] => if needle = [] then some 0 else none
  | a :: text => if needle <+: a :: text then some 0 else (find needle text).map (· + 1)

theorem find_eq_some_iff {needle text : List α} {i : ℕ} (hne : needle ≠ []) :
    find needle text = some i ↔ FirstAt needle text i := by
  induction text generalizing i with
  | nil => simp [find, FirstAt, hne]
  | cons a text ih =>
    by_cases h : needle <+: a :: text
    · simp only [find, h, if_true, Option.some.injEq]
      constructor
      · rintro rfl
        exact ⟨h, fun j hj => absurd hj (Nat.not_lt_zero j)⟩
      · rintro ⟨_, hfirst⟩
        by_contra hi
        exact hfirst 0 (by omega) h
    · simp only [find, h, if_false, Option.map_eq_some_iff]
      constructor
      · rintro ⟨k, hk, rfl⟩
        obtain ⟨hat, hfirst⟩ := ih.mp hk
        refine ⟨by simpa using hat, fun j hj => ?_⟩
        cases j with
        | zero => simpa using h
        | succ j => simpa using hfirst j (by omega)
      · rintro ⟨hat, hfirst⟩
        cases i with
        | zero => exact absurd (by simpa using hat) h
        | succ i =>
          refine ⟨i, ih.mpr ⟨by simpa using hat, fun j hj => ?_⟩, rfl⟩
          simpa using hfirst (j + 1) (by omega)

theorem find_of_prefix {needle text : List α} (hne : needle ≠ []) (h : needle <+: text) :
    find needle text = some 0 :=
  (find_eq_some_iff hne).mpr ⟨h, fun j hj => absurd hj (Nat.not_lt_zero j)⟩

theorem find_singleton_eq_some_iff {stop : α} {text : List α} {k : ℕ} :
    find [stop] text = some k ↔ ∃ v rest, text = v ++ stop :: rest ∧ stop ∉ v ∧ v.length = k := by
  induction text generalizing k with
  | nil => simp [find]
  | cons a text ih =>
    by_cases h : a = stop
    · subst h
      simp only [find, List.cons_prefix_cons, List.nil_prefix, and_self, if_true,
        Option.some.injEq]
      constructor
      · rintro rfl
        exact ⟨[], text, rfl, by simp, rfl⟩
      · rintro ⟨v, rest, htext, hv, rfl⟩
        cases v with
        | nil => rfl
        | cons b v => simp_all
    · simp only [find, List.cons_prefix_cons, Ne.symm h, false_and, if_false,
        Option.map_eq_some_iff, ih]
      constructor
      · rintro ⟨_, ⟨v, rest, rfl, hv, rfl⟩, rfl⟩
        exact ⟨a :: v, rest, rfl, by simp [hv, Ne.symm h], rfl⟩
      · rintro ⟨v, rest, htext, hv, rfl⟩
        cases v with
        | nil => simp_all
        | cons b v => exact ⟨v.length, ⟨v, rest, by simp_all, by simp_all, rfl⟩, rfl⟩

/-- The text after the first occurrence of the needle, up to the next stop symbol;
empty when either is missing. -/
def cut (needle : List α) (stop : α) (text : List α) : List α :=
  match find needle text with
  | none => []
  | some i =>
    match find [stop] (text.drop (i + needle.length)) with
    | none => []
    | some k => (text.drop (i + needle.length)).take k

theorem cut_eq_iff {needle : List α} {stop : α} {text v : List α} (hne : needle ≠ [])
    (hv : v ≠ []) :
    cut needle stop text = v ↔
      ∃ i, FirstAt needle text i ∧ v ++ [stop] <+: text.drop (i + needle.length) ∧ stop ∉ v := by
  constructor
  · intro h
    simp only [cut] at h
    split at h
    · exact absurd h.symm hv
    · rename_i i hi
      split at h
      · exact absurd h.symm hv
      · rename_i k hk
        obtain ⟨u, rest, htext, hu, rfl⟩ := find_singleton_eq_some_iff.mp hk
        rw [htext, List.take_left] at h
        subst h
        exact ⟨i, (find_eq_some_iff hne).mp hi, ⟨rest, by simp [htext]⟩, hu⟩
  · rintro ⟨i, hi, ⟨rest, hrest⟩, hstop⟩
    have htail : text.drop (i + needle.length) = v ++ stop :: rest := by simp [← hrest]
    have hk : find [stop] (v ++ stop :: rest) = some v.length :=
      find_singleton_eq_some_iff.mpr ⟨v, rest, rfl, hstop, rfl⟩
    simp [cut, (find_eq_some_iff hne).mpr hi, htail, hk]

theorem cut_eq_nil_or {needle : List α} (hne : needle ≠ []) (stop : α) (text : List α) :
    cut needle stop text = [] ∨
      ∃ before rest, text = before ++ needle ++ cut needle stop text ++ stop :: rest ∧
        stop ∉ cut needle stop text := by
  by_cases h : cut needle stop text = []
  · exact Or.inl h
  · obtain ⟨i, hi, ⟨rest, hrest⟩, hstop⟩ := (cut_eq_iff hne h).mp rfl
    refine Or.inr ⟨text.take i, rest, ?_, hstop⟩
    calc text = text.take i ++ needle ++ text.drop (i + needle.length) := hi.split
      _ = text.take i ++ needle ++ (cut needle stop text ++ [stop] ++ rest) := by rw [hrest]
      _ = text.take i ++ needle ++ cut needle stop text ++ stop :: rest := by simp

theorem length_cut_le {needle : List α} (hne : needle ≠ []) (stop : α) (text : List α) :
    (cut needle stop text).length ≤ text.length := by
  rcases cut_eq_nil_or hne stop text with h | ⟨before, rest, h, _⟩
  · simp [h]
  · have hlen := congrArg List.length h
    simp only [List.length_append, List.length_cons] at hlen
    omega

def after (needle text : List α) : Option (List α) :=
  (find needle text).map fun i => text.drop (i + needle.length)

@[simp] theorem after_nil {needle : List α} (hne : needle ≠ []) : after needle [] = none := by
  simp [after, find, hne]

theorem after_cons (needle : List α) (a : α) (text : List α) :
    after needle (a :: text) =
      if needle <+: a :: text then some ((a :: text).drop needle.length)
      else after needle text := by
  by_cases h : needle <+: a :: text
  · simp only [after, find, h, if_true, Option.map_some, Nat.zero_add]
  · simp only [after, find, h, if_false, Option.map_map]
    congr 1
    funext i
    rw [Function.comp_apply, Nat.add_right_comm, List.drop_succ_cons]

theorem after_append_of_notMem {a : α} (needle text rest : List α) (h : a ∉ text) :
    after (a :: needle) (text ++ rest) = after (a :: needle) rest := by
  induction text with
  | nil => rfl
  | cons b text ih =>
    have hne : a ≠ b := fun heq => h (heq ▸ List.mem_cons_self ..)
    rw [List.cons_append, after_cons, if_neg (fun hp => hne (List.cons_prefix_cons.mp hp).1)]
    exact ih fun hmem => h (List.mem_cons_of_mem _ hmem)

theorem after_append_self {needle : List α} (hne : needle ≠ []) (rest : List α) :
    after needle (needle ++ rest) = some rest := by
  obtain ⟨a, needle, rfl⟩ := List.exists_cons_of_ne_nil hne
  have hfront : a :: needle <+: a :: (needle ++ rest) := List.prefix_append (a :: needle) rest
  rw [List.cons_append, after_cons, if_pos hfront, List.length_cons, List.drop_succ_cons,
    List.drop_left]

theorem cut_of_after {needle text v : List α} {stop : α} {rest : List α}
    (h : after needle text = some (v ++ stop :: rest)) (hv : stop ∉ v) :
    cut needle stop text = v := by
  obtain ⟨i, hi, htail⟩ := Option.map_eq_some_iff.mp h
  have hk : find [stop] (v ++ stop :: rest) = some v.length :=
    find_singleton_eq_some_iff.mpr ⟨v, rest, rfl, hv, rfl⟩
  simp only [cut, hi, htail, hk, List.take_left]

theorem cut_of_after_eq_none {needle text : List α} (stop : α) (h : after needle text = none) :
    cut needle stop text = [] := by
  simp only [cut, Option.map_eq_none_iff.mp h]

end Find

section Loops
variable {β : Type*} {next : List α → Option (β × List α)}

/-- A loop that takes items off the front of a text, at most `fuel` times. -/
def collect (next : List α → Option (β × List α)) : ℕ → List α → List β
  | 0, _ => []
  | fuel + 1, text =>
    match next text with
    | none => []
    | some (item, rest) => item :: collect next fuel rest

def Shrinks (next : List α → Option (β × List α)) : Prop :=
  ∀ text item rest, next text = some (item, rest) → rest.length < text.length

def collectAll (next : List α → Option (β × List α)) (text : List α) : List β :=
  collect next (text.length + 1) text

inductive Runs (next : List α → Option (β × List α)) : List α → List β → Prop
  | stop {text : List α} : next text = none → Runs next text []
  | turn {text rest : List α} {item : β} {items : List β} :
      next text = some (item, rest) → Runs next rest items → Runs next text (item :: items)

theorem runs_collect (h : Shrinks next) {n : ℕ} {text : List α} (hn : text.length < n) :
    Runs next text (collect next n text) := by
  induction n generalizing text with
  | zero => omega
  | succ n ih =>
    rw [collect]
    cases hnext : next text with
    | none => exact .stop hnext
    | some r =>
      have hlt := h text r.1 r.2 hnext
      exact .turn hnext (ih (by omega))

theorem runs_collectAll (h : Shrinks next) (text : List α) :
    Runs next text (collectAll next text) :=
  runs_collect h (Nat.lt_succ_self _)

theorem Runs.unique {text : List α} {items items' : List β} (h : Runs next text items)
    (h' : Runs next text items') : items = items' := by
  induction h generalizing items' with
  | stop hnext =>
    cases h' with
    | stop => rfl
    | turn hnext' => cases hnext.symm.trans hnext'
  | turn hnext _ ih =>
    cases h' with
    | stop hnext' => cases hnext.symm.trans hnext'
    | turn hnext' hrest =>
      cases hnext.symm.trans hnext'
      rw [ih hrest]

theorem Runs.of_next_eq {text text' : List α} {items : List β} (h : Runs next text items)
    (hnext : next text' = next text) : Runs next text' items := by
  cases h with
  | stop hstop => exact .stop (hnext.trans hstop)
  | turn hturn hrest => exact .turn (hnext.trans hturn) hrest

theorem Runs.collectAll_eq (h : Shrinks next) {text : List α} {items : List β}
    (hruns : Runs next text items) : collectAll next text = items :=
  (runs_collectAll h text).unique hruns

theorem Runs.collect_eq {text : List α} {items : List β} (h : Runs next text items) (n : ℕ) :
    collect next n text = items.take n := by
  induction h generalizing n with
  | stop hnext =>
    cases n with
    | zero => rfl
    | succ n => simp only [collect, hnext, List.take_nil]
  | turn hnext _ ih =>
    cases n with
    | zero => rfl
    | succ n => simp only [collect, hnext, ih, List.take_succ_cons]

end Loops

end TextSearch
