import HSFinancialServices.OrderTexts
import HSFinancialServices.Services.PriceHistory
import HSFinancialServices.Ui.Reports
import HSFinancialServices.Ui.SqlText

/-!
# What the scanning loops find

The loops look for field names in the whole response, of which a part is what the requester
wrote. That part stands between two quotes and has none itself, so that no field name begins
in it or reaches over it.
-/

namespace HSFinancialServices.Ui
open Ascii FlatObject Services TextSearch

theorem countOccurrences_eq_occurrences {needle : Bytes} (hne : needle ≠ []) (text : Bytes) :
    countOccurrences needle text = occurrences needle text := by
  have hruns := runs_collectAll (nextOccurrence_shrinks hne) text
  rw [countOccurrences]
  generalize collectAll (nextOccurrence needle) text = items at hruns ⊢
  induction hruns with
  | stop hnext =>
    rw [occurrences_of_find_eq_none (Option.map_eq_none_iff.mp hnext), List.length_nil]
  | turn hnext _ ih =>
    obtain ⟨pos, hpos, hrest⟩ := Option.map_eq_some_iff.mp hnext
    rw [occurrences_of_find_eq_some hne hpos, (Prod.mk.inj hrest).2, List.length_cons, ih]

theorem runs_nextOccurrence {needle : Bytes} (hne : needle ≠ []) (text : Bytes) :
    Runs (nextOccurrence needle) text (List.replicate (occurrences needle text) ()) := by
  have hruns := runs_collectAll (nextOccurrence_shrinks hne) text
  rw [← countOccurrences_eq_occurrences hne, countOccurrences]
  have hunits : collectAll (nextOccurrence needle) text =
      List.replicate (collectAll (nextOccurrence needle) text).length () :=
    List.eq_replicate_iff.mpr ⟨rfl, fun _ _ => rfl⟩
  rw [← hunits]
  exact hruns

theorem nextEntry_append_of_misses {opening front rest : Bytes} (h : Misses opening front rest) :
    nextEntry opening (front ++ rest) = nextEntry opening rest := by
  rw [nextEntry, nextEntry, find_append_of_misses h]
  cases find opening rest with
  | none => rfl
  | some start =>
    have hdrop : ∀ k, (front ++ rest).drop (k + front.length) = rest.drop k := by
      intro k
      rw [Nat.add_comm, ← List.drop_drop, List.drop_left]
    have hbehind : ∀ len, (front ++ rest).drop (start + front.length + len + 1) =
        rest.drop (start + len + 1) := by
      intro len
      rw [← hdrop]
      congr 1
      omega
    simp only [Option.map_some, hdrop, hbehind]

theorem nextEntry_append {opening entry body : Bytes} (hne : opening ≠ [])
    (hopening : opening <+: entry) (hentry : entry = body ++ [closeBrace])
    (hbody : closeBrace ∉ body) (rest : Bytes) :
    nextEntry opening (entry ++ rest) = some (entry, rest) := by
  have hstart := find_of_prefix hne (hopening.trans (List.prefix_append entry rest))
  have hlen : find [closeBrace] (entry ++ rest) = some body.length := by
    rw [find_singleton_eq_some_iff]
    exact ⟨body, rest, by rw [hentry, List.append_assoc]; rfl, hbody, rfl⟩
  have hlength : entry.length = body.length + 1 := by
    rw [hentry, List.length_append, List.length_singleton]
  simp only [nextEntry, hstart, List.drop_zero, hlen, Nat.zero_add, ← hlength, List.take_left,
    List.drop_left]

/-- An object in a list that is scanned for a key: the key is that of its first member. -/
structure ListEntry (key : Bytes) (ms : List Member) : Prop where
  clean : ∀ m ∈ ms, m.Clean
  braceless : ∀ m ∈ ms, closeBrace ∉ m.text
  first : ∃ value rest, ms = ⟨key, value⟩ :: rest ∧ ∀ m ∈ rest, m.key ≠ key

def opening (key : Bytes) : Bytes := openBrace :: keyNeedle key

section Lists
variable {key : Bytes} {ms : List Member} {mss : List (List Member)} {rest : Bytes}

theorem opening_ne_nil (key : Bytes) : opening key ≠ [] := List.cons_ne_nil _ _

theorem ListEntry.opening_prefix (h : ListEntry key ms) : opening key <+: objectText ms := by
  obtain ⟨value, rest, rfl, -⟩ := h.first
  refine ⟨value.text ++ memberTail rest, ?_⟩
  simp only [opening, keyNeedle, needle, objectText, Member.text, List.cons_append,
    List.nil_append, List.append_assoc]

theorem ListEntry.nextEntry (h : ListEntry key ms) (rest : Bytes) :
    nextEntry (opening key) (objectText ms ++ rest) = some (objectText ms, rest) := by
  obtain ⟨body, hbody, hbrace⟩ := exists_body h.braceless
  exact nextEntry_append (opening_ne_nil key) h.opening_prefix hbody hbrace rest

theorem ListEntry.occurrences (h : ListEntry key ms) (hkey : Plain key) (hend : closeBrace ∉ key)
    (rest : Bytes) :
    occurrences (keyNeedle key) (objectText ms ++ rest) = occurrences (keyNeedle key) rest + 1 := by
  have hclean := h.clean
  obtain ⟨value, ms', rfl, hother⟩ := h.first
  obtain ⟨hfirst, hothers⟩ := List.forall_mem_cons.mp hclean
  exact occurrences_objectText hkey hend hfirst.value
    (fun m hm => ⟨hothers m hm, hother m hm⟩) rest

def entriesTail (mss : List (List Member)) (rest : Bytes) : Bytes :=
  ((mss.map objectText).flatMap fun u => comma :: u) ++ rest

theorem entriesTail_cons (ms : List Member) (mss : List (List Member)) (rest : Bytes) :
    entriesTail (ms :: mss) rest = [comma] ++ (objectText ms ++ entriesTail mss rest) := by
  simp only [entriesTail, List.map_cons, List.flatMap_cons, List.cons_append, List.nil_append,
    List.append_assoc]

theorem commaJoin_append (ms : List Member) (mss : List (List Member)) (rest : Bytes) :
    commaJoin ((ms :: mss).map objectText) ++ rest = objectText ms ++ entriesTail mss rest := by
  rw [List.map_cons, commaJoin, List.append_assoc, entriesTail]

theorem runs_entriesTail (hmss : ∀ ms ∈ mss, ListEntry key ms)
    (hrest : Ui.nextEntry (opening key) rest = none) :
    Runs (Ui.nextEntry (opening key)) (entriesTail mss rest) (mss.map objectText) := by
  induction mss with
  | nil => exact .stop hrest
  | cons ms mss ih =>
    obtain ⟨hms, hmss⟩ := List.forall_mem_cons.mp hmss
    have hcomma : Misses (opening key) [comma] (objectText ms ++ entriesTail mss rest) :=
      misses_of_notMem (by decide) _ _
    have hnext : Ui.nextEntry (opening key) (entriesTail (ms :: mss) rest) =
        some (objectText ms, entriesTail mss rest) := by
      rw [entriesTail_cons, nextEntry_append_of_misses hcomma, hms.nextEntry]
    exact .turn hnext (ih hmss)

/-- The loop takes the entries of the list one by one and stops behind the last. -/
theorem runs_commaJoin (hmss : ∀ ms ∈ mss, ListEntry key ms)
    (hrest : Ui.nextEntry (opening key) rest = none) :
    Runs (Ui.nextEntry (opening key)) (commaJoin (mss.map objectText) ++ rest)
      (mss.map objectText) := by
  cases mss with
  | nil => exact .stop hrest
  | cons ms mss =>
    obtain ⟨hms, hmss⟩ := List.forall_mem_cons.mp hmss
    rw [commaJoin_append]
    exact .turn (hms.nextEntry _) (runs_entriesTail hmss hrest)

theorem occurrences_entriesTail (hkey : Plain key) (hend : closeBrace ∉ key)
    (hmss : ∀ ms ∈ mss, ListEntry key ms) (rest : Bytes) :
    occurrences (keyNeedle key) (entriesTail mss rest) =
      occurrences (keyNeedle key) rest + mss.length := by
  induction mss with
  | nil => rfl
  | cons ms mss ih =>
    obtain ⟨hms, hmss⟩ := List.forall_mem_cons.mp hmss
    have hcomma : Misses (keyNeedle key) [comma] (objectText ms ++ entriesTail mss rest) :=
      misses_of_notMem (by decide) _ _
    rw [entriesTail_cons, occurrences_append_of_misses hcomma, hms.occurrences hkey hend,
      ih hmss, List.length_cons, Nat.add_assoc]

theorem occurrences_commaJoin (hkey : Plain key) (hend : closeBrace ∉ key)
    (hmss : ∀ ms ∈ mss, ListEntry key ms) (rest : Bytes) :
    occurrences (keyNeedle key) (commaJoin (mss.map objectText) ++ rest) =
      occurrences (keyNeedle key) rest + mss.length := by
  cases mss with
  | nil => rfl
  | cons ms mss =>
    obtain ⟨hms, hmss⟩ := List.forall_mem_cons.mp hmss
    rw [commaJoin_append, hms.occurrences hkey hend, occurrences_entriesTail hkey hend hmss,
      List.length_cons, Nat.add_assoc]

end Lists

end HSFinancialServices.Ui
