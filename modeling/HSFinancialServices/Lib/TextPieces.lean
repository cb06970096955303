import HSFinancialServices.Lib.TextSearch

/-!
# Searching a text piece by piece

A search passes over the front of a text when no occurrence of the needle begins there. For
a front that is known it is enough that none of its ends could begin one.
-/

namespace TextSearch

variable {α : Type*}

/-- No occurrence of the needle begins in `front` when `rest` follows it. -/
def Misses (needle : List α) : List α → List α → Prop
  | [], _ => True
  | a :: front, rest => ¬ needle <+: a :: (front ++ rest) ∧ Misses needle front rest

theorem misses_append {needle front front' rest : List α} :
    Misses needle (front ++ front') rest ↔
      Misses needle front (front' ++ rest) ∧ Misses needle front' rest := by
  induction front with
  | nil => simp [Misses]
  | cons a front ih => simp only [List.cons_append, Misses, ih, List.append_assoc, and_assoc]

theorem misses_of_notMem {a : α} {front : List α} (h : a ∉ front) (needle rest : List α) :
    Misses (a :: needle) front rest := by
  induction front with
  | nil => trivial
  | cons b front ih =>
    refine ⟨?_, ih (List.not_mem_of_not_mem_cons h)⟩
    intro hprefix
    exact h ((List.cons_prefix_cons.mp hprefix).1 ▸ List.mem_cons_self)

theorem Misses.cons {needle front rest : List α} (h : Misses needle front rest)
    (hrest : ¬ needle <+: rest) (a : α) : Misses (a :: needle) front rest := by
  induction front with
  | nil => trivial
  | cons b front ih =>
    refine ⟨?_, ih h.2⟩
    intro hstands
    have htail := (List.cons_prefix_cons.mp hstands).2
    cases front with
    | nil => exact hrest htail
    | cons c front => exact h.2.1 htail

theorem misses_stop {q : α} {k s t rest : List α} (hk : q ∉ k) (hs : q ∉ s)
    (hne : ¬ (s = k ∧ t <+: rest)) : Misses (q :: (k ++ q :: t)) (q :: s) (q :: rest) := by
  refine ⟨?_, misses_of_notMem hs _ _⟩
  rw [List.cons_prefix_cons, append_cons_prefix_iff hk hs]
  exact fun h => hne h.2

section Decidable
variable [DecidableEq α]

def clears (needle : List α) : List α → Bool
  | [] => true
  | a :: front =>
    !(needle.isPrefixOf (a :: front) || (a :: front).isPrefixOf needle) && clears needle front

theorem misses_of_clears {needle front : List α} (h : clears needle front = true)
    (rest : List α) : Misses needle front rest := by
  induction front with
  | nil => trivial
  | cons a front ih =>
    simp only [clears, Bool.and_eq_true, Bool.not_eq_true', Bool.or_eq_false_iff] at h
    refine ⟨?_, ih h.2⟩
    intro hstands
    have hfront : a :: front <+: a :: (front ++ rest) := List.prefix_append (a :: front) rest
    obtain hle | hle := List.prefix_or_prefix_of_prefix hstands hfront
    · rw [List.isPrefixOf_iff_prefix.mpr hle] at h
      exact absurd h.1.1 (by decide)
    · rw [List.isPrefixOf_iff_prefix.mpr hle] at h
      exact absurd h.1.2 (by decide)

def apart (needle : List α) : List α → Bool
  | [] => true
  | a :: front =>
    (needle.isPrefixOf (a :: front) || !(a :: front).isPrefixOf needle) && apart needle front

theorem apart_cons_iff {needle front rest : List α} {a : α}
    (h : apart needle (a :: front) = true) :
    needle <+: a :: (front ++ rest) ↔ needle <+: a :: front := by
  simp only [apart, Bool.and_eq_true, Bool.or_eq_true, Bool.not_eq_true'] at h
  have hfront : a :: front <+: a :: (front ++ rest) := List.prefix_append (a :: front) rest
  constructor
  · intro hstands
    obtain hle | hle := List.prefix_or_prefix_of_prefix hstands hfront
    · exact hle
    · obtain hwithin | hwithout := h.1
      · exact List.isPrefixOf_iff_prefix.mp hwithin
      · rw [List.isPrefixOf_iff_prefix.mpr hle] at hwithout
        cases hwithout
  · intro hwithin
    exact hwithin.trans hfront

theorem find_append_of_misses {needle front rest : List α} (h : Misses needle front rest) :
    find needle (front ++ rest) = (find needle rest).map (· + front.length) := by
  induction front with
  | nil => simp
  | cons a front ih =>
    rw [List.cons_append, find, if_neg h.1, ih h.2, Option.map_map]
    rfl

def occurrences (needle : List α) : List α → ℕ
  | [] => 0
  | a :: text => occurrences needle text + if needle <+: a :: text then 1 else 0

theorem occurrences_of_find_eq_none {needle text : List α} (h : find needle text = none) :
    occurrences needle text = 0 := by
  induction text with
  | nil => rfl
  | cons a text ih =>
    rw [find] at h
    split_ifs at h with hstands
    rw [occurrences, if_neg hstands, ih (Option.map_eq_none_iff.mp h)]

theorem occurrences_of_find_eq_some {needle text : List α} {pos : ℕ} (hne : needle ≠ [])
    (h : find needle text = some pos) :
    occurrences needle text = occurrences needle (text.drop (pos + 1)) + 1 := by
  induction text generalizing pos with
  | nil => simp [find, hne] at h
  | cons a text ih =>
    rw [find] at h
    split_ifs at h with hstands
    · cases h
      rw [occurrences, if_pos hstands]
      rfl
    · obtain ⟨pos', hpos', rfl⟩ := Option.map_eq_some_iff.mp h
      rw [occurrences, if_neg hstands, ih hpos']
      rfl

theorem occurrences_append_of_misses {needle front rest : List α} (h : Misses needle front rest) :
    occurrences needle (front ++ rest) = occurrences needle rest := by
  induction front with
  | nil => rfl
  | cons a front ih => rw [List.cons_append, occurrences, if_neg h.1, Nat.add_zero, ih h.2]

theorem occurrences_append_of_apart {needle front : List α} (h : apart needle front = true)
    (rest : List α) :
    occurrences needle (front ++ rest) = occurrences needle front + occurrences needle rest := by
  induction front with
  | nil => exact (Nat.zero_add _).symm
  | cons a front ih =>
    have htail : apart needle front = true := (Bool.and_eq_true_iff.mp h).2
    simp only [List.cons_append, occurrences, apart_cons_iff h, ih htail]
    exact Nat.add_right_comm ..

end Decidable

end TextSearch
