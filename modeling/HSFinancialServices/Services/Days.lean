import HSFinancialServices.Services.PriceHistory

/-!
# The days of a history request

`extract_int` multiplies and adds in `int` for as long as it sees digits. The handler checks
what is left of the number after that.
-/

namespace HSFinancialServices.Services
open Ascii TextSearch

def accumulated (digits : Bytes) : ℤ :=
  digits.foldl (fun val b => wrapInt (val * 10 + (b.toNat - 48 : ℤ))) 0

def InIntRange (z : ℤ) : Prop := -2 ^ 31 ≤ z ∧ z ≤ 2 ^ 31 - 1

/-- No product and no sum of the loop leaves the range of `int`. -/
def NoOverflow (digits : Bytes) : Prop :=
  ∀ (done : Bytes) (b : UInt8), done ++ [b] <+: digits →
    InIntRange (accumulated done * 10) ∧ InIntRange (accumulated done * 10 + (b.toNat - 48 : ℤ))

theorem accumulated_concat (digits : Bytes) (b : UInt8) :
    accumulated (digits ++ [b]) = wrapInt (accumulated digits * 10 + (b.toNat - 48 : ℤ)) := by
  simp only [accumulated, List.foldl_append, List.foldl_cons, List.foldl_nil]

theorem noOverflow_concat (digits : Bytes) (b : UInt8) :
    NoOverflow (digits ++ [b]) ↔ NoOverflow digits ∧ InIntRange (accumulated digits * 10) ∧
      InIntRange (accumulated digits * 10 + (b.toNat - 48 : ℤ)) := by
  constructor
  · intro h
    refine ⟨?_, h digits b (List.prefix_refl _)⟩
    intro done c hc
    exact h done c (hc.trans (List.prefix_append _ _))
  · rintro ⟨h, hlast⟩ done c hc
    obtain heq | hearlier := List.prefix_concat_iff.mp hc
    · obtain ⟨rfl, hbytes⟩ := List.append_inj' heq rfl
      obtain rfl := List.singleton_inj.mp hbytes
      exact hlast
    · exact h done c hearlier

theorem wrapInt_of_inIntRange {z : ℤ} (h : InIntRange z) : wrapInt z = z := by
  simp only [InIntRange] at h
  refine Int.bmod_eq_of_le ?_ ?_ <;> norm_num <;> omega

theorem value_concat (digits : Bytes) (b : UInt8) :
    value (digits ++ [b]) = value digits * 10 + (b.toNat - 48) := by
  simp only [value, List.reverse_append, List.reverse_singleton, List.singleton_append,
    List.map_cons, Nat.ofDigits_cons]
  omega

theorem noOverflow_iff {digits : Bytes} (hdigits : ∀ b ∈ digits, isDigit b = true) :
    (NoOverflow digits ↔ value digits ≤ 2 ^ 31 - 1) ∧
      (value digits ≤ 2 ^ 31 - 1 → accumulated digits = value digits) := by
  induction digits using List.reverseRecOn with
  | nil =>
    refine ⟨iff_of_true ?_ (by decide), fun _ => rfl⟩
    intro done b h
    exact absurd (List.prefix_nil.mp h)
      (List.append_ne_nil_of_right_ne_nil _ (List.cons_ne_nil _ _))
  | append_singleton digits b ih =>
    obtain ⟨hiff, hvalue⟩ := ih fun c hc => hdigits c (List.mem_append_left _ hc)
    have hdigit := hdigits b (List.mem_append_right _ (List.mem_singleton_self b))
    obtain ⟨hlow, hhigh⟩ := isDigit_iff.mp hdigit
    rw [noOverflow_concat, hiff, accumulated_concat, value_concat]
    by_cases hfits : value digits ≤ 2 ^ 31 - 1
    · rw [hvalue hfits]
      refine ⟨?_, ?_⟩
      · simp only [InIntRange]
        omega
      · intro hall
        rw [wrapInt_of_inIntRange]
        · omega
        · simp only [InIntRange]
          omega
    · refine ⟨?_, ?_⟩
      · simp only [hfits, false_and, false_iff]
        omega
      · intro hall
        omega

def intDigits (json key : Bytes) : Option Bytes :=
  (find (numberNeedle key) json).map fun pos =>
    ((json.drop (pos + (numberNeedle key).length)).dropWhile fun b => b == space).takeWhile isDigit

theorem extractInt_eq (json key : Bytes) (dflt : ℤ) :
    extractInt json key dflt =
      match intDigits json key with
      | none => dflt
      | some digits => if digits = [] then dflt else accumulated digits := by
  simp only [extractInt, intDigits]
  cases find (numberNeedle key) json <;> rfl

/-- The first occurrence of the key is followed by spaces and then by these digits, all that
there are. -/
structure HasInt (json key digits : Bytes) : Prop where
  ne_nil : digits ≠ []
  isDigit : ∀ b ∈ digits, isDigit b = true
  field : ∃ pos spaces rest, FirstAt (numberNeedle key) json pos ∧
    json.drop (pos + (numberNeedle key).length) =
      List.replicate spaces space ++ (digits ++ rest) ∧
    ∀ b ∈ rest.head?, Ascii.isDigit b = false

theorem HasInt.intDigits {json key digits : Bytes} (h : HasInt json key digits) :
    intDigits json key = some digits := by
  obtain ⟨pos, spaces, rest, hfirst, htext, hrest⟩ := h.field
  obtain ⟨d, ds, rfl⟩ := List.exists_cons_of_ne_nil h.ne_nil
  have hd : (d == space) = false := by
    have hdigit := isDigit_iff.mp (h.isDigit d List.mem_cons_self)
    apply beq_false_of_ne
    rintro rfl
    revert hdigit
    decide
  have hspaces : (List.replicate spaces space ++ (d :: ds ++ rest)).dropWhile
      (fun b => b == space) = d :: ds ++ rest := by
    rw [List.dropWhile_append_of_pos]
    · rw [List.cons_append, List.dropWhile_cons_of_neg (by rw [hd]; exact Bool.false_ne_true)]
    · intro b hb
      rw [List.eq_of_mem_replicate hb, beq_self_eq_true]
  have hrun : rest.takeWhile Ascii.isDigit = [] := by
    cases rest with
    | nil => rfl
    | cons b rest => rw [List.takeWhile_cons_of_neg (by rw [hrest b rfl]; exact Bool.false_ne_true)]
  rw [Services.intDigits, (find_eq_some_iff (numberNeedle_ne_nil key)).mpr hfirst, Option.map_some,
    htext, hspaces, List.takeWhile_append_of_pos h.isDigit, hrun, List.append_nil]

variable {D : Type*} (dbl : Doubles D)

def DaysRead (dbl : Doubles D) (requestJson : Bytes) (n : ℕ) : Prop :=
  (∀ digits ∈ intDigits requestJson (ascii "days"), NoOverflow digits) ∧
    ∀ now, (historyCandles dbl requestJson now).length = if 1 ≤ n ∧ n ≤ 365 then n else 30

theorem length_historyCandles (requestJson : Bytes) (now : ℤ) :
    (historyCandles dbl requestJson now).length = effectiveDays requestJson := by
  rw [historyCandles, List.length_map, List.length_reverse, List.length_range]

/-- The days are read as they stand exactly if they fit into an `int`. -/
theorem days_read_iff {requestJson digits : Bytes}
    (h : HasInt requestJson (ascii "days") digits) :
    DaysRead dbl requestJson (value digits) ↔ value digits ≤ 2 ^ 31 - 1 := by
  obtain ⟨hiff, hvalue⟩ := noOverflow_iff h.isDigit
  rw [← hiff, DaysRead, h.intDigits]
  constructor
  · intro hread
    exact hread.1 digits rfl
  · intro hno
    refine ⟨?_, ?_⟩
    · intro digits' hdigits'
      rwa [← Option.mem_some.mp hdigits']
    · intro now
      rw [length_historyCandles, effectiveDays, extractInt_eq, h.intDigits]
      simp only [h.ne_nil, if_false, hvalue (hiff.mp hno)]
      split_ifs <;> omega

theorem days_read_month :
    DaysRead exactDoubles (ascii "\x7b\"symbol\":\"AAPL\",\"days\":  031\x7d") 31 := by
  have hfind : find (numberNeedle (ascii "days"))
      (ascii "\x7b\"symbol\":\"AAPL\",\"days\":  031\x7d") = some 17 := by decide
  have hfield : HasInt (ascii "\x7b\"symbol\":\"AAPL\",\"days\":  031\x7d") (ascii "days")
      (ascii "031") :=
    ⟨by decide, List.all_eq_true.mp (by decide), 17, 2, ascii "\x7d",
      (find_eq_some_iff (numberNeedle_ne_nil _)).mp hfind, by decide,
      fun b hb => by rw [← Option.mem_some.mp hb]; decide⟩
  exact (days_read_iff exactDoubles hfield).mpr (by decide)

theorem days_wrap_to_ten :
    ¬ ∀ requestJson digits : Bytes, HasInt requestJson (ascii "days") digits →
      DaysRead exactDoubles requestJson (value digits) := by
  intro h
  have hfind : find (numberNeedle (ascii "days")) (ascii "\x7b\"days\":4294967306\x7d") =
      some 1 := by decide
  have hfield : HasInt (ascii "\x7b\"days\":4294967306\x7d") (ascii "days") (ascii "4294967306") :=
    ⟨by decide, List.all_eq_true.mp (by decide), 1, 0, ascii "\x7d",
      (find_eq_some_iff (numberNeedle_ne_nil _)).mp hfind, by decide,
      fun b hb => by rw [← Option.mem_some.mp hb]; decide⟩
  have hread := (h _ _ hfield).2 0
  rw [length_historyCandles] at hread
  have hten : effectiveDays (ascii "\x7b\"days\":4294967306\x7d") = 10 := by decide +kernel
  rw [hten] at hread
  exact absurd hread (by decide +kernel)

end HSFinancialServices.Services
