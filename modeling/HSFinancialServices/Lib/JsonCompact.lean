import HSFinancialServices.Lib.JsonSplice
import HSFinancialServices.Lib.JsonUnambiguous

/-!
# Objects written without blanks

The reading of an object whose keys need no decoding, for texts that a program puts together.
-/

namespace Json
open Ascii

def Member.compact (key value : Bytes) : Member := ⟨[], key, [], [], value, []⟩

theorem Member.compact_text (key value : Bytes) :
    (Member.compact key value).text = quote :: key ++ quote :: colon :: value := by
  simp only [compact, text, List.nil_append, List.append_nil, List.append_assoc, List.cons_append]

def Plain (key : Bytes) : Prop := ∀ b ∈ key, isPlain b = true

theorem Member.compact_layout {key : Bytes} (h : Plain key) (value : Bytes) :
    (Member.compact key value).Layout :=
  ⟨List.forall_mem_nil _, chars_of_plain h, List.forall_mem_nil _, List.forall_mem_nil _,
    List.forall_mem_nil _⟩

theorem value_of_run {t : Bytes} (h : run t (.value, []) = some (.done, []))
    (hfirst : Stops isBlank t) (hlast : Stops isBlank t.reverse) : Value t := by
  obtain ⟨w, v, w', hw, hv, hw', rfl⟩ := accepts_of_run_done h
  have hnil : ∀ {u r : Bytes}, Blank u → Stops isBlank (u ++ r) → u = [] := by
    intro u r hu hstop
    cases u with
    | nil => rfl
    | cons b u =>
      have hb := hu b List.mem_cons_self
      rw [hstop b rfl] at hb
      cases hb
  rw [List.append_assoc] at hfirst
  obtain rfl := hnil hw hfirst
  rw [List.reverse_append] at hlast
  have hw'' : Blank w'.reverse := fun b hb => hw' b (List.mem_reverse.mp hb)
  rw [List.reverse_eq_nil_iff.mp (hnil hw'' hlast)]
  simpa using hv

section Compact
variable {fields : List (Bytes × Bytes)}

def compactObject (first : Bytes × Bytes) (rest : List (Bytes × Bytes)) : Bytes :=
  openBrace :: commaSeparated (Member.compact first.1 first.2).text
    (rest.map fun f => (Member.compact f.1 f.2).text) ++ [closeBrace]

def compactMembers (fields : List (Bytes × Bytes)) : List Member :=
  fields.map fun f => Member.compact f.1 f.2

theorem objectText_compactObject {first : Bytes × Bytes} {rest : List (Bytes × Bytes)}
    (hkeys : ∀ f ∈ first :: rest, Plain f.1) (hvalues : ∀ f ∈ first :: rest, Value f.2) :
    ObjectText (compactObject first rest) (compactMembers (first :: rest)) := by
  refine ⟨?_, [], [], List.forall_mem_nil _, List.forall_mem_nil _, ?_⟩
  · intro n hn
    obtain ⟨f, hf, rfl⟩ := List.mem_map.mp hn
    exact ⟨Member.compact_layout (hkeys f hf) f.2, hvalues f hf⟩
  · simp only [compactObject, compactMembers, List.map_cons, List.map_map, Function.comp_def,
      List.nil_append]

theorem stringMember_compact {key s v : Bytes} (hkeys : ∀ f ∈ fields, Plain f.1)
    (hmem : (key, quote :: s ++ [quote]) ∈ fields)
    (honce : ∀ f ∈ fields, f.1 = key → f = (key, quote :: s ++ [quote])) (hv : Decodes s v) :
    StringMember (compactMembers fields) key v := by
  refine ⟨_, List.mem_map_of_mem hmem, decodes_of_plain (hkeys _ hmem), ⟨s, rfl, hv⟩, ?_⟩
  intro n hn hkey
  obtain ⟨f, hf, rfl⟩ := List.mem_map.mp hn
  have hsame : f.1 = key := (decodes_of_plain (hkeys f hf)).unique hkey
  rw [honce f hf hsame]

theorem not_stringMember_compact {key v : Bytes} (hkeys : ∀ f ∈ fields, Plain f.1)
    (habsent : ∀ f ∈ fields, f.1 ≠ key) : ¬ StringMember (compactMembers fields) key v := by
  rintro ⟨m, hm, hkey, -⟩
  obtain ⟨f, hf, rfl⟩ := List.mem_map.mp hm
  exact habsent f hf ((decodes_of_plain (hkeys f hf)).unique hkey)

end Compact

end Json
