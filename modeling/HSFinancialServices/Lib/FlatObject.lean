import HSFinancialServices.Lib.Ascii
import HSFinancialServices.Lib.TextPieces

/-!
# Searching an object for a key

The text of a flat object is searched for a quoted key and a colon, wherever these
stand. No value without quotes can make such a search go wrong: it stops at the first
member with that key, or finds nothing.
-/

namespace FlatObject
open Ascii TextSearch

inductive Value
  | string (text : Bytes)
  | bare (text : Bytes)
  deriving DecidableEq, Repr

def Value.text : Value → Bytes
  | string text => quote :: (text ++ [quote])
  | bare text => text

def Value.Clean : Value → Prop
  | string text => quote ∉ text
  | bare text => quote ∉ text

structure Member where
  key : Bytes
  value : Value
  deriving DecidableEq, Repr

def Member.text (m : Member) : Bytes := quote :: (m.key ++ quote :: colon :: m.value.text)

structure Member.Clean (m : Member) : Prop where
  key : quote ∉ m.key
  value : m.value.Clean

def memberTail : List Member → Bytes
  | [] => [closeBrace]
  | m :: ms => comma :: (m.text ++ memberTail ms)

def objectText : List Member → Bytes
  | [] => [openBrace, closeBrace]
  | m :: ms => openBrace :: (m.text ++ memberTail ms)

def needle (key t : Bytes) : Bytes := quote :: (key ++ quote :: t)

structure Plain (key : Bytes) : Prop where
  quote : quote ∉ key
  colon : colon ∉ key
  comma : comma ∉ key

instance (key : Bytes) : Decidable (Plain key) :=
  decidable_of_iff (quote ∉ key ∧ colon ∉ key ∧ comma ∉ key)
    ⟨fun h => ⟨h.1, h.2.1, h.2.2⟩, fun h => ⟨h.quote, h.colon, h.comma⟩⟩

theorem needle_ne_nil (key t : Bytes) : needle key t ≠ [] := List.cons_ne_nil _ _

theorem memberTail_cons (ms : List Member) :
    ∃ c rest, memberTail ms = c :: rest ∧ (c = comma ∨ c = closeBrace) := by
  cases ms with
  | nil => exact ⟨_, _, rfl, .inr rfl⟩
  | cons m ms => exact ⟨_, _, rfl, .inl rfl⟩

theorem notMem_append_singleton {a b : UInt8} {text : Bytes} (h : a ∉ text) (hne : a ≠ b) :
    a ∉ text ++ [b] := by
  rw [List.mem_append, List.mem_singleton]
  exact not_or.mpr ⟨h, hne⟩

section Search
variable {key t : Bytes}

theorem after_piece {s : Bytes} (hkey : quote ∉ key) (hs : quote ∉ s) (rest : Bytes) :
    after (needle key t) (quote :: (s ++ quote :: rest)) =
      if s = key ∧ t <+: rest then some (rest.drop t.length)
      else after (needle key t) (quote :: rest) := by
  have hstands : needle key t <+: quote :: (s ++ quote :: rest) ↔ s = key ∧ t <+: rest := by
    rw [needle, List.cons_prefix_cons, append_cons_prefix_iff hkey hs]
    simp only [true_and]
  rw [after_cons]
  by_cases h : s = key ∧ t <+: rest
  · rw [if_pos (hstands.mpr h), if_pos h, ← h.1]
    have hlength : (needle s t).length = (s.length + (t.length + 1)) + 1 := by simp [needle]
    rw [hlength, List.drop_succ_cons, ← List.drop_drop, List.drop_left, List.drop_succ_cons]
  · rw [if_neg (fun hp => h (hstands.mp hp)), if_neg h]
    exact after_append_of_notMem _ s _ hs

theorem after_end (key t : Bytes) : after (needle key t) (memberTail []) = none := by
  have hend : quote ∉ [closeBrace] := by decide
  have hskip := after_append_of_notMem (key ++ quote :: t) [closeBrace] [] hend
  rw [List.append_nil] at hskip
  exact hskip.trans (after_nil (needle_ne_nil key t))

theorem after_stray {u : Bytes} (hkey : Plain key) (hu : quote ∉ u) (ms : List Member) :
    after (needle key t) (quote :: (u ++ memberTail ms)) =
      after (needle key t) (memberTail ms) := by
  cases ms with
  | nil =>
    have hend : quote ∉ u ++ [closeBrace] := notMem_append_singleton hu (by decide)
    have hnot : ¬ needle key t <+: quote :: (u ++ [closeBrace]) := by
      intro hstands
      have hmem := (List.cons_prefix_cons.mp hstands).2.subset
      exact hend (hmem (by simp))
    have hskip := after_append_of_notMem (key ++ quote :: t) (u ++ [closeBrace]) [] hend
    rw [List.append_nil] at hskip
    rw [after_end, memberTail, after_cons, if_neg hnot]
    exact hskip.trans (after_nil (needle_ne_nil key t))
  | cons m ms =>
    have hcomma : u ++ [comma] ≠ key := fun heq => hkey.comma (by simp [← heq])
    have hpiece : quote ∉ u ++ [comma] := notMem_append_singleton hu (by decide)
    have htext : quote :: (u ++ memberTail (m :: ms)) = quote :: ((u ++ [comma]) ++ quote ::
        (m.key ++ quote :: colon :: m.value.text ++ memberTail ms)) := by
      simp [memberTail, Member.text]
    rw [htext, after_piece hkey.quote hpiece, if_neg (fun h => hcomma h.1)]
    exact (after_append_of_notMem _ [comma] _ (by decide)).symm

theorem after_member {u : Bytes} (hkey : Plain key) {m : Member} (hm : m.Clean)
    (ms : List Member) :
    after (needle key (colon :: u)) (m.text ++ memberTail ms) =
      if m.key = key ∧ u <+: m.value.text ++ memberTail ms then
        some ((m.value.text ++ memberTail ms).drop u.length)
      else after (needle key (colon :: u)) (memberTail ms) := by
  obtain ⟨k, value⟩ := m
  have htext : Member.text ⟨k, value⟩ ++ memberTail ms =
      quote :: (k ++ quote :: colon :: (value.text ++ memberTail ms)) := by
    simp [Member.text]
  have hskip : after (needle key (colon :: u)) (quote :: colon :: (value.text ++ memberTail ms)) =
      after (needle key (colon :: u)) (memberTail ms) := by
    cases value with
    | bare n =>
      have hn : quote ∉ colon :: n := List.not_mem_cons_of_ne_of_not_mem (by decide) hm.value
      exact after_stray hkey hn ms
    | string v =>
      have hcolon : [colon] ≠ key := fun heq => hkey.colon (by simp [← heq])
      have htail : ¬ colon :: u <+: memberTail ms := by
        obtain ⟨c, rest, hc, hstop⟩ := memberTail_cons ms
        rw [hc, List.cons_prefix_cons]
        rintro ⟨rfl, -⟩
        revert hstop
        decide
      have hopen := after_piece (t := colon :: u) (s := [colon]) hkey.quote (by decide)
        (v ++ quote :: memberTail ms)
      rw [if_neg (fun h => hcolon h.1), after_piece hkey.quote hm.value,
        if_neg (fun h => htail h.2)] at hopen
      have hclose := after_stray (t := colon :: u) (u := []) hkey (by simp) ms
      simpa [Value.text] using hopen.trans hclose
  rw [htext, after_piece hkey.quote hm.key, hskip]
  simp only [List.cons_prefix_cons, true_and, List.length_cons, List.drop_succ_cons]

theorem after_objectText (key t : Bytes) (ms : List Member) :
    after (needle key t) (objectText ms) = after (needle key t) (memberTail ms) := by
  cases ms with
  | nil => exact after_append_of_notMem _ [openBrace] _ (by decide)
  | cons m ms =>
    have hopen : quote ∉ [openBrace] := by decide
    have hcomma : quote ∉ [comma] := by decide
    exact (after_append_of_notMem _ _ _ hopen).trans (after_append_of_notMem _ _ _ hcomma).symm

end Search

section Members
variable {key : Bytes} {ms : List Member}

def keyNeedle (key : Bytes) : Bytes := needle key [colon]

def stringKeyNeedle (key : Bytes) : Bytes := needle key [colon, quote]

def Member.stringOf (key : Bytes) (m : Member) : Option Bytes :=
  match m.value with
  | .string text => if m.key = key then some text else none
  | .bare _ => none

theorem after_keyNeedle (hkey : Plain key) (hms : ∀ m ∈ ms, m.Clean) :
    (∃ m rest, m ∈ ms ∧ ms.find? (fun m => m.key = key) = some m ∧
      after (keyNeedle key) (objectText ms) = some (m.value.text ++ memberTail rest)) ∨
    (ms.find? (fun m => m.key = key) = none ∧
      after (keyNeedle key) (objectText ms) = none) := by
  simp only [keyNeedle, after_objectText]
  induction ms with
  | nil => exact .inr ⟨rfl, after_end key [colon]⟩
  | cons m ms ih =>
    have htail : after (needle key [colon]) (memberTail (m :: ms)) =
        after (needle key [colon]) (m.text ++ memberTail ms) :=
      after_append_of_notMem _ [comma] _ (by decide)
    rw [htail, after_member (u := []) hkey (hms m (List.mem_cons_self ..))]
    by_cases hk : m.key = key
    · left
      exact ⟨m, ms, List.mem_cons_self .., by simp [hk], by simp [hk]⟩
    · have hfind : (m :: ms).find? (fun m => m.key = key) = ms.find? fun m => m.key = key := by
        simp [hk]
      rw [hfind, if_neg (fun h => hk h.1)]
      obtain ⟨m', rest, hmem, hfound⟩ | hnone := ih (List.forall_mem_of_forall_mem_cons hms)
      · exact .inl ⟨m', rest, List.mem_cons_of_mem _ hmem, hfound⟩
      · exact .inr hnone

theorem after_stringKeyNeedle (hkey : Plain key) (hms : ∀ m ∈ ms, m.Clean) :
    (∃ v rest, ms.findSome? (Member.stringOf key) = some v ∧ quote ∉ v ∧
      after (stringKeyNeedle key) (objectText ms) = some (v ++ quote :: rest)) ∨
    (ms.findSome? (Member.stringOf key) = none ∧
      after (stringKeyNeedle key) (objectText ms) = none) := by
  simp only [stringKeyNeedle, after_objectText]
  induction ms with
  | nil => exact .inr ⟨rfl, after_end key [colon, quote]⟩
  | cons m ms ih =>
    have hm : m.Clean := hms m (List.mem_cons_self ..)
    have htail : after (needle key [colon, quote]) (memberTail (m :: ms)) =
        after (needle key [colon, quote]) (m.text ++ memberTail ms) :=
      after_append_of_notMem _ [comma] _ (by decide)
    rw [htail, after_member (u := [quote]) hkey hm, List.findSome?_cons]
    have ih := ih (List.forall_mem_of_forall_mem_cons hms)
    obtain ⟨k, value⟩ := m
    cases value with
    | bare n =>
      have hnot : ¬ [quote] <+: n ++ memberTail ms := by
        obtain ⟨c, rest, hc, hstop⟩ := memberTail_cons ms
        intro hstands
        cases n with
        | nil =>
          rw [List.nil_append, hc, List.cons_prefix_cons] at hstands
          obtain ⟨rfl, -⟩ := hstands
          revert hstop
          decide
        | cons b n =>
          have hb : quote = b := (List.cons_prefix_cons.mp hstands).1
          exact hm.value (hb ▸ List.mem_cons_self ..)
      rw [if_neg (fun h => hnot h.2)]
      exact ih
    | string v =>
      by_cases hk : k = key
      · left
        refine ⟨v, memberTail ms, by simp [Member.stringOf, hk], hm.value, ?_⟩
        simp [Value.text, hk]
      · rw [if_neg (fun h => hk h.1)]
        simpa [Member.stringOf, hk] using ih

end Members

theorem not_needle_at_quote {key t rest : Bytes} {c : UInt8} (hc : c ∉ key) (hne : c ≠ quote) :
    ¬ needle key t <+: quote :: c :: rest := by
  rw [needle, List.cons_prefix_cons]
  rintro ⟨-, hstands⟩
  cases key with
  | nil => exact hne (List.cons_prefix_cons.mp hstands).1.symm
  | cons b key =>
    rw [List.cons_append, List.cons_prefix_cons] at hstands
    exact hc (hstands.1 ▸ List.mem_cons_self)

section Missing
variable {key u : Bytes}

theorem misses_value (hkey : Plain key) (hend : closeBrace ∉ key) {value : Value}
    (hvalue : value.Clean) {c : UInt8} (hc : c = comma ∨ c = closeBrace) (rest : Bytes) :
    Misses (needle key (colon :: u)) (quote :: colon :: value.text) (c :: rest) := by
  cases value with
  | bare n =>
    refine ⟨not_needle_at_quote hkey.colon (by decide), misses_of_notMem ?_ _ _⟩
    exact List.not_mem_cons_of_ne_of_not_mem (by decide) hvalue
  | string v =>
    have hpieces : quote :: colon :: (Value.string v).text =
        quote :: [colon] ++ (quote :: v ++ [quote]) := rfl
    have hc_key : c ∉ key := by
      rcases hc with rfl | rfl
      · exact hkey.comma
      · exact hend
    have hc_quote : c ≠ quote := by
      rcases hc with rfl | rfl <;> decide
    have hc_colon : colon ≠ c := by
      rcases hc with rfl | rfl <;> decide
    rw [hpieces, misses_append, misses_append]
    refine ⟨⟨?_, misses_of_notMem (by decide) _ _⟩, ?_, ?_, trivial⟩
    · exact not_needle_at_quote hkey.colon (by decide)
    · exact misses_stop hkey.quote hvalue fun h => hc_colon (List.cons_prefix_cons.mp h.2).1
    · exact not_needle_at_quote hc_key hc_quote

theorem misses_memberTail (hkey : Plain key) (hend : closeBrace ∉ key) {ms : List Member}
    (hms : ∀ m ∈ ms, m.Clean ∧ m.key ≠ key) (rest : Bytes) :
    Misses (needle key (colon :: u)) (memberTail ms) rest := by
  induction ms with
  | nil => exact misses_of_notMem (by decide) _ rest
  | cons m ms ih =>
    obtain ⟨hm, hne⟩ := hms m (List.mem_cons_self ..)
    obtain ⟨c, tail, htail, hc⟩ := memberTail_cons ms
    have htext : memberTail (m :: ms) =
        [comma] ++ (quote :: m.key ++ (quote :: colon :: m.value.text ++ memberTail ms)) := by
      simp only [memberTail, Member.text, List.cons_append, List.nil_append, List.append_assoc]
    rw [htext, misses_append, misses_append, misses_append]
    refine ⟨misses_of_notMem (by decide) _ _, ?_, ?_, ?_⟩
    · exact misses_stop hkey.quote hm.key fun h => hne h.1
    · rw [htail]
      exact misses_value hkey hend hm.value hc _
    · exact ih (List.forall_mem_of_forall_mem_cons hms)

/-- The key of the first member stands in the object once, if no other member has it. -/
theorem occurrences_objectText (hkey : Plain key) (hend : closeBrace ∉ key) {value : Value}
    (hvalue : value.Clean) {ms : List Member} (hms : ∀ m ∈ ms, m.Clean ∧ m.key ≠ key)
    (rest : Bytes) :
    occurrences (keyNeedle key) (objectText (⟨key, value⟩ :: ms) ++ rest) =
      occurrences (keyNeedle key) rest + 1 := by
  obtain ⟨c, tail, htail, hc⟩ := memberTail_cons ms
  have htext : objectText (⟨key, value⟩ :: ms) ++ rest =
      [openBrace] ++
        (quote :: (key ++ (quote :: colon :: value.text ++ (memberTail ms ++ rest)))) := by
    simp only [objectText, Member.text, List.cons_append, List.nil_append, List.append_assoc]
  have hkeyed : keyNeedle key <+:
      quote :: (key ++ (quote :: colon :: value.text ++ (memberTail ms ++ rest))) := by
    refine ⟨value.text ++ (memberTail ms ++ rest), ?_⟩
    simp only [keyNeedle, needle, List.cons_append, List.nil_append, List.append_assoc]
  have hopen : ∀ text, Misses (keyNeedle key) [openBrace] text := misses_of_notMem (by decide) _
  have hkey_misses : ∀ text, Misses (keyNeedle key) key text := misses_of_notMem hkey.quote _
  have hvalue_misses : Misses (keyNeedle key) (quote :: colon :: value.text)
      (memberTail ms ++ rest) := by
    rw [htail]
    exact misses_value hkey hend hvalue hc _
  have htail_misses : Misses (keyNeedle key) (memberTail ms) rest :=
    misses_memberTail hkey hend hms rest
  rw [htext, occurrences_append_of_misses (hopen _), occurrences, if_pos hkeyed,
    occurrences_append_of_misses (hkey_misses _), occurrences_append_of_misses hvalue_misses,
    occurrences_append_of_misses htail_misses]

end Missing

theorem exists_body_memberTail {ms : List Member} (h : ∀ m ∈ ms, closeBrace ∉ m.text) :
    ∃ body, memberTail ms = body ++ [closeBrace] ∧ closeBrace ∉ body := by
  induction ms with
  | nil => exact ⟨[], rfl, List.not_mem_nil⟩
  | cons m ms ih =>
    obtain ⟨body, hbody, hbrace⟩ := ih (List.forall_mem_of_forall_mem_cons h)
    refine ⟨comma :: (m.text ++ body), ?_, ?_⟩
    · simp only [memberTail, hbody, List.cons_append, List.append_assoc]
    · apply List.not_mem_cons_of_ne_of_not_mem (by decide)
      exact List.not_mem_append (h m (List.mem_cons_self ..)) hbrace

theorem exists_body {ms : List Member} (h : ∀ m ∈ ms, closeBrace ∉ m.text) :
    ∃ body, objectText ms = body ++ [closeBrace] ∧ closeBrace ∉ body := by
  cases ms with
  | nil => exact ⟨[openBrace], rfl, by decide⟩
  | cons m ms =>
    obtain ⟨body, hbody, hbrace⟩ := exists_body_memberTail (List.forall_mem_of_forall_mem_cons h)
    refine ⟨openBrace :: (m.text ++ body), ?_, ?_⟩
    · simp only [objectText, hbody, List.cons_append, List.append_assoc]
    · apply List.not_mem_cons_of_ne_of_not_mem (by decide)
      exact List.not_mem_append (h m (List.mem_cons_self ..)) hbrace

end FlatObject
