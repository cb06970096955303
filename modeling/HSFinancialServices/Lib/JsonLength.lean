import HSFinancialServices.Lib.JsonCompact
import Mathlib.Algebra.BigOperators.Group.List.Basic
import Mathlib.Algebra.Order.BigOperators.Group.List

/-!
# How long the text of an object is

Decoding never makes a string longer, and keeps its length only where there is nothing to
decode. So no string begins with its own value and a quote. The members of an object stand
apart, so their texts add up, and those before a member say where it begins.
-/

namespace Json
open Ascii

theorem Decodes.length_le {s v : Bytes} (h : Decodes s v) :
    v.length ≤ s.length ∧ (s.length ≤ v.length → Plain s ∧ s = v) := by
  induction h with
  | nil => exact ⟨le_rfl, fun _ => ⟨List.forall_mem_nil _, rfl⟩⟩
  | @plain b s v hb _ ih =>
    simp only [List.length_cons, Nat.add_le_add_iff_right]
    refine ⟨ih.1, ?_⟩
    intro hle
    obtain ⟨hplain, rfl⟩ := ih.2 hle
    exact ⟨List.forall_mem_cons.mpr ⟨hb, hplain⟩, rfl⟩
  | @escape b s v _ _ ih =>
    have hle := ih.1
    simp only [List.length_cons]
    omega
  | @unicode a b c d s v ch _ _ _ _ _ _ ih =>
    have hle := ih.1
    have hchar := ch.utf8Size_le_four
    simp only [List.length_append, String.length_utf8EncodeChar, List.length_cons]
    omega
  | @surrogates a b c d a' b' c' d' s v ch _ _ _ _ _ _ _ _ _ _ _ _ _ _ ih =>
    have hle := ih.1
    have hchar := ch.utf8Size_le_four
    simp only [List.length_append, String.length_utf8EncodeChar, List.length_cons]
    omega

theorem quote_notMem_of_hex (bs : Bytes) (h : ∀ b ∈ bs, isHex b = true) : quote ∉ bs :=
  fun hmem => absurd (h quote hmem) (by decide)

theorem append_quote_inj (front : Bytes) {s before rest : Bytes} (hfront : quote ∉ front)
    (h : front ++ s = before ++ quote :: rest) :
    ∃ u, before = front ++ u ∧ s = u ++ quote :: rest := by
  induction front generalizing before with
  | nil => exact ⟨before, rfl, h⟩
  | cons b front ih =>
    cases before with
    | nil => exact absurd ((List.cons.inj h).1 ▸ List.mem_cons_self) hfront
    | cons c before =>
      obtain ⟨rfl, htail⟩ := List.cons.inj h
      obtain ⟨u, rfl, hs⟩ := ih (List.not_mem_of_not_mem_cons hfront) htail
      exact ⟨u, rfl, hs⟩

/-- A quote within a string is escaped, and what stands before its escape is decoded apart. -/
theorem Decodes.before_quote {s v : Bytes} (h : Decodes s v) {front rest : Bytes}
    (hs : s = front ++ quote :: rest) :
    ∃ front' v' rest', front = front' ++ [backslash] ∧ Decodes front' v' ∧
      v = v' ++ quote :: rest' := by
  induction h generalizing front with
  | nil => exact absurd hs (by simp)
  | @plain b s v hb _ ih =>
    have hquote : quote ∉ [b] := by
      intro hmem
      rw [← List.mem_singleton.mp hmem] at hb
      cases hb
    obtain ⟨u, rfl, hu⟩ := append_quote_inj [b] hquote hs
    obtain ⟨front', v', rest', rfl, hfront, rfl⟩ := ih hu
    exact ⟨b :: front', b :: v', rest', rfl, .plain hb hfront, rfl⟩
  | @escape b s v hb _ ih =>
    obtain ⟨u, rfl, hu⟩ := append_quote_inj [backslash] (by decide) hs
    cases u with
    | nil =>
      obtain ⟨rfl, rfl⟩ := List.cons.inj hu
      exact ⟨[], [], v, rfl, .nil, rfl⟩
    | cons c u =>
      obtain ⟨rfl, htail⟩ := List.cons.inj hu
      obtain ⟨front', v', rest', rfl, hfront, rfl⟩ := ih htail
      exact ⟨backslash :: b :: front', unescape b :: v', rest', rfl, .escape hb hfront, rfl⟩
  | @unicode a b c d s v ch ha hb hc hd hch _ ih =>
    have hquote : quote ∉ [backslash, letterU, a, b, c, d] := by
      have hhex := quote_notMem_of_hex [a, b, c, d] (by simp [ha, hb, hc, hd])
      exact List.not_mem_cons_of_ne_of_not_mem (by decide)
        (List.not_mem_cons_of_ne_of_not_mem (by decide) hhex)
    obtain ⟨u, rfl, hu⟩ := append_quote_inj _ hquote hs
    obtain ⟨front', v', rest', rfl, hfront, rfl⟩ := ih hu
    exact ⟨_, _, rest', rfl, .unicode ch ha hb hc hd hch hfront, (List.append_assoc ..).symm⟩
  | @surrogates a b c d a' b' c' d' s v ch ha hb hc hd ha' hb' hc' hd' hhigh hhigh' hlow hlow' hch
      _ ih =>
    have hhex := quote_notMem_of_hex [a, b, c, d] (by simp [ha, hb, hc, hd])
    have hhex' := quote_notMem_of_hex [a', b', c', d'] (by simp [ha', hb', hc', hd'])
    have hquote : quote ∉ [backslash, letterU, a, b, c, d] ++
        [backslash, letterU, a', b', c', d'] := by
      refine List.not_mem_append ?_ ?_
      · exact List.not_mem_cons_of_ne_of_not_mem (by decide)
          (List.not_mem_cons_of_ne_of_not_mem (by decide) hhex)
      · exact List.not_mem_cons_of_ne_of_not_mem (by decide)
          (List.not_mem_cons_of_ne_of_not_mem (by decide) hhex')
    obtain ⟨u, rfl, hu⟩ := append_quote_inj _ hquote hs
    obtain ⟨front', v', rest', rfl, hfront, rfl⟩ := ih hu
    exact ⟨_, _, rest', rfl,
      .surrogates ch ha hb hc hd ha' hb' hc' hd' hhigh hhigh' hlow hlow' hch hfront,
      (List.append_assoc ..).symm⟩

/-- The induction is on the string: the escape of the quote leaves a shorter one that begins
with its value and a quote again. -/
theorem Decodes.not_quote_prefix {s v : Bytes} (h : Decodes s v) : ¬ v ++ [quote] <+: s := by
  induction hn : s.length using Nat.strong_induction_on generalizing s v with
  | _ n ih =>
    rintro ⟨rest, hs⟩
    have hs' : s = v ++ quote :: rest := by rw [← hs, List.append_assoc, List.singleton_append]
    obtain ⟨front, v', rest', hv, hfront, hv'⟩ := h.before_quote hs'
    have hle := hfront.length_le.1
    have hshort : front.length < n := by
      rw [← hn, hs', hv]
      simp only [List.length_append, List.length_cons]
      omega
    have hsame : v' ++ quote :: rest' = front ++ [backslash] := hv'.symm.trans hv
    rcases hle.lt_or_eq with hlt | heq
    · refine ih front.length hshort hfront rfl ?_
      have hprefix : v' ++ [quote] <+: front ++ [backslash] := ⟨rest', by simp [← hsame]⟩
      exact List.prefix_of_prefix_length_le hprefix (List.prefix_append ..) (by simpa using hlt)
    · have hquote := (List.append_inj hsame heq).2
      exact absurd (List.cons.inj hquote).1 (by decide)

theorem Decodes.prefix_quote_iff {s v rest : Bytes} (h : Decodes s v) {t : Bytes} :
    v ++ quote :: t <+: s ++ quote :: rest ↔ s = v ∧ t <+: rest := by
  constructor
  · intro hprefix
    have hle := h.length_le
    rcases hle.1.lt_or_eq with hlt | heq
    · refine absurd ?_ h.not_quote_prefix
      have hv : v ++ [quote] <+: v ++ quote :: t := ⟨t, by simp⟩
      exact List.prefix_of_prefix_length_le (hv.trans hprefix) (List.prefix_append ..)
        (by simpa using hlt)
    · obtain ⟨-, rfl⟩ := hle.2 heq.ge
      refine ⟨rfl, ?_⟩
      have htail := (List.prefix_append_right_inj s).mp hprefix
      exact (List.cons_prefix_cons.mp htail).2
  · rintro ⟨rfl, ht⟩
    rw [List.prefix_append_right_inj, List.cons_prefix_cons]
    exact ⟨rfl, ht⟩

theorem add_le_sum_map {ι : Type*} (f : ι → ℕ) {is : List ι} {i j : ι} (hi : i ∈ is) (hj : j ∈ is)
    (hne : i ≠ j) : f i + f j ≤ (is.map f).sum := by
  have hle : ∀ (ks : List ι), ∀ k ∈ ks, f k ≤ (ks.map f).sum := fun ks k hk =>
    List.single_le_sum (fun n _ => Nat.zero_le n) _ (List.mem_map_of_mem hk)
  induction is with
  | nil => cases hi
  | cons k is ih =>
    rw [List.map_cons, List.sum_cons]
    obtain rfl | hi := List.mem_cons.mp hi
    · obtain rfl | hj := List.mem_cons.mp hj
      · exact absurd rfl hne
      · exact Nat.add_le_add_left (hle is j hj) _
    · obtain hjk | hj := List.mem_cons.mp hj
      · rw [hjk, Nat.add_comm]
        exact Nat.add_le_add_left (hle is i hi) _
      · exact (ih hi hj).trans (Nat.le_add_left ..)

theorem commaSeparated_length (first : Bytes) (rest : List Bytes) :
    (commaSeparated first rest).length + 1 = ((first :: rest).map fun t => t.length + 1).sum := by
  rw [commaSeparated, List.length_append, List.length_flatMap, List.map_cons, List.sum_cons]
  change first.length + (rest.map fun t => t.length + 1).sum + 1 =
    first.length + 1 + (rest.map fun t => t.length + 1).sum
  omega

theorem ObjectText.length_ge {t : Bytes} {ms : List Member} (h : ObjectText t ms) {m m' : Member}
    (hm : m ∈ ms) (hm' : m' ∈ ms) (hne : m ≠ m') :
    m.text.length + m'.text.length + 3 ≤ t.length := by
  obtain ⟨-, w, w', -, -, hshape⟩ := h
  have hsum := add_le_sum_map (fun m : Member => m.text.length + 1) hm hm' hne
  cases ms with
  | nil => cases hm
  | cons first rest =>
    have hlength := commaSeparated_length first.text (rest.map Member.text)
    rw [← List.map_cons, List.map_map] at hlength
    have htext := congrArg List.length hshape
    simp only [List.length_append, List.length_cons] at htext
    simp only [Function.comp_def] at hlength
    omega

theorem Member.text_length (m : Member) : m.key.length + m.value.length + 3 ≤ m.text.length := by
  simp only [text, List.length_append, List.length_cons]
  omega

/-- Where the key of a member begins, its quote included: after the first brace, the earlier
members with their commas, and the blanks. -/
def keyPlace (t : Bytes) (before : List Member) (m : Member) : ℕ :=
  (t.takeWhile isBlank).length + 1 + (before.flatMap fun n => n.text ++ [comma]).length +
    m.before.length

theorem comma_cons_flatMap (ms : List Member) (t : Bytes) :
    comma :: ((ms.flatMap fun n => n.text ++ [comma]) ++ t) =
      (ms.flatMap fun n => comma :: n.text) ++ comma :: t := by
  induction ms with
  | nil => rfl
  | cons m ms ih =>
    simp only [List.flatMap_cons, List.append_assoc, List.cons_append, List.nil_append, ih]

theorem commaSeparated_append (before after : List Member) (m n : Member) (ns : List Member)
    (h : n :: ns = before ++ m :: after) :
    commaSeparated n.text (ns.map Member.text) =
      (before.flatMap fun n => n.text ++ [comma]) ++ m.text ++
        after.flatMap fun n => comma :: n.text := by
  cases before with
  | nil =>
    obtain ⟨rfl, rfl⟩ := List.cons.inj h
    simp [commaSeparated, List.flatMap_map]
  | cons b before =>
    obtain ⟨rfl, rfl⟩ := List.cons.inj h
    simp [commaSeparated, List.flatMap_map, comma_cons_flatMap]

theorem ObjectText.member_split {t : Bytes} {before after : List Member} {m : Member}
    (h : ObjectText t (before ++ m :: after)) :
    ∃ front back, front.length = keyPlace t before m ∧
      t = front ++ quote :: (m.key ++ quote :: (m.afterKey ++
        colon :: (m.beforeValue ++ (m.value ++ back)))) := by
  obtain ⟨-, w, w', hw, -, hshape⟩ := h
  cases hms : before ++ m :: after with
  | nil => exact absurd hms (by simp)
  | cons n ns =>
    rw [hms] at hshape
    have hshape : t = w ++ openBrace :: commaSeparated n.text (ns.map Member.text) ++
        closeBrace :: w' := hshape
    have hblank : t.takeWhile isBlank = w := by
      rw [hshape, List.append_assoc, List.takeWhile_append_of_pos hw, List.cons_append,
        List.takeWhile_cons_of_neg (by decide), List.append_nil]
    refine ⟨w ++ openBrace :: (before.flatMap fun n => n.text ++ [comma]) ++ m.before,
      m.after ++ (after.flatMap fun n => comma :: n.text) ++ closeBrace :: w', ?_, ?_⟩
    · simp only [keyPlace, hblank, List.length_append, List.length_cons]
      omega
    · rw [hshape, commaSeparated_append before after m n ns hms.symm]
      simp [Member.text]

end Json
