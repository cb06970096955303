import HSFinancialServices.Lib.JsonCompact
import HSFinancialServices.Services.Handlers

/-!
# The echo of a SQL statement

The escaper of the SQL handler writes string text whose JSON value is the text it was given,
so the `query` member of the response is the statement that the handler extracted.
-/

namespace HSFinancialServices.Services
open Ascii Json

def Escapable (s : Bytes) : Prop :=
  ∀ b ∈ s, 0x20 ≤ b ∨ b = newline ∨ b = carriageReturn ∨ b = tab

theorem decodes_escapeByte {b : UInt8} {s v : Bytes}
    (hb : 0x20 ≤ b ∨ b = newline ∨ b = carriageReturn ∨ b = tab) (h : Decodes s v) :
    Decodes (escapeByte b ++ s) (b :: v) := by
  by_cases hquote : b = quote
  · subst hquote
    exact Decodes.escape (b := quote) (by decide) h
  by_cases hback : b = backslash
  · subst hback
    exact Decodes.escape (b := backslash) (by decide) h
  by_cases hnewline : b = newline
  · subst hnewline
    exact Decodes.escape (b := 110) (by decide) h
  by_cases hreturn : b = carriageReturn
  · subst hreturn
    exact Decodes.escape (b := 114) (by decide) h
  by_cases htab : b = tab
  · subst htab
    exact Decodes.escape (b := 116) (by decide) h
  have hplain : isPlain b = true := by
    have hle : 0x20 ≤ b := by simpa [hnewline, hreturn, htab] using hb
    simp [isPlain, hle, hquote, hback]
  simp only [escapeByte, hquote, hback, hnewline, hreturn, htab, if_false]
  exact .plain hplain h

/-- The escaper is undone by the JSON reading of what it writes. -/
theorem decodes_jsonEscape {s : Bytes} (hs : Escapable s) : Decodes (jsonEscape s) s := by
  induction s with
  | nil => exact .nil
  | cons b s ih =>
    rw [jsonEscape, List.flatMap_cons]
    exact decodes_escapeByte (hs b List.mem_cons_self)
      (ih fun c hc => hs c (List.mem_cons_of_mem _ hc))

def rowsValue : Bytes :=
  ascii "[\x7b\"symbol\":\"AAPL\",\"price\":182.50,\"volume\":52000000\x7d," ++
    ascii "\x7b\"symbol\":\"MSFT\",\"price\":310.10,\"volume\":28000000\x7d," ++
    ascii "\x7b\"symbol\":\"GOOGL\",\"price\":140.75,\"volume\":18000000\x7d]"

def resultFields (sql : Bytes) : List (Bytes × Bytes) :=
  [(ascii "affected", ascii "0"), (ascii "query", quote :: jsonEscape sql ++ [quote])]

theorem sqlResult_eq (sql : Bytes) :
    sqlRows ++ jsonEscape sql ++ ascii "\"\x7d" =
      compactObject (ascii "rows", rowsValue) (resultFields sql) := by
  have hrows : sqlRows = openBrace :: quote :: ascii "rows" ++ quote :: colon :: rowsValue ++
      comma :: quote :: ascii "affected" ++ quote :: colon :: ascii "0" ++
      comma :: quote :: ascii "query" ++ [quote, colon, quote] := by decide +kernel
  have hend : ascii "\"\x7d" = [quote, closeBrace] := by decide
  simp only [hrows, hend, compactObject, resultFields, commaSeparated, Member.compact_text,
    List.map_cons, List.map_nil, List.flatMap_cons, List.flatMap_nil, List.append_assoc,
    List.cons_append, List.nil_append, List.append_nil]

theorem plain_resultKeys (sql : Bytes) :
    ∀ f ∈ (ascii "rows", rowsValue) :: resultFields sql, Plain f.1 := by
  have hrows : Plain (ascii "rows") := List.all_eq_true.mp (by decide)
  have haffected : Plain (ascii "affected") := List.all_eq_true.mp (by decide)
  have hquery : Plain (ascii "query") := List.all_eq_true.mp (by decide)
  simp only [resultFields, List.forall_mem_cons, List.not_mem_nil, false_implies, implies_true,
    hrows, haffected, hquery, and_self]

theorem objectText_sqlResult {sql : Bytes} (hsql : Escapable sql) :
    ObjectText (sqlRows ++ jsonEscape sql ++ ascii "\"\x7d")
      (compactMembers ((ascii "rows", rowsValue) :: resultFields sql)) := by
  have hrows : Value rowsValue := value_of_run (by decide +kernel) (by decide +kernel)
    (by decide +kernel)
  have haffected : Value (ascii "0") := .number (.positive .zero .absent .absent)
  have hquery : Value (quote :: jsonEscape sql ++ [quote]) :=
    .string (decodes_jsonEscape hsql).chars
  rw [sqlResult_eq]
  refine objectText_compactObject (plain_resultKeys sql) ?_
  simp only [resultFields, List.forall_mem_cons, List.not_mem_nil, false_implies, implies_true,
    hrows, haffected, hquery, and_self]

theorem query_sqlResult {sql : Bytes} (hsql : Escapable sql) :
    StringMember (compactMembers ((ascii "rows", rowsValue) :: resultFields sql))
      (ascii "query") sql := by
  refine stringMember_compact (plain_resultKeys sql) (by simp [resultFields]) ?_
    (decodes_jsonEscape hsql)
  have hrows : ascii "rows" ≠ ascii "query" := by decide
  have haffected : ascii "affected" ≠ ascii "query" := by decide
  simp [resultFields, hrows, haffected]

theorem handleSqlQuery_of_ne_nil {requestJson : Bytes}
    (h : extractString requestJson (ascii "sql") ≠ []) : handleSqlQuery requestJson =
      sqlRows ++ jsonEscape (extractString requestJson (ascii "sql")) ++ ascii "\"\x7d" := by
  simp only [handleSqlQuery, h, if_false]

/-- Whatever a reader takes for the string ends where the escaped text ends. -/
theorem jsonEscape_ends {s t r r' : Bytes} (hs : Escapable s) (ht : Chars t)
    (h : t ++ quote :: r = jsonEscape s ++ quote :: r') : t = jsonEscape s ∧ r = r' :=
  chars_quote_inj ht (decodes_jsonEscape hs).chars h

theorem sql_echoed {requestJson : Bytes} (hne : extractString requestJson (ascii "sql") ≠ [])
    (hsql : Escapable (extractString requestJson (ascii "sql"))) :
    Text (handleSqlQuery requestJson) ∧
    (∃ ms, ObjectText (handleSqlQuery requestJson) ms ∧
      (∀ ms', ObjectText (handleSqlQuery requestJson) ms' → ms' = ms) ∧
      ms.map Member.key = [ascii "rows", ascii "affected", ascii "query"] ∧
      StringMember ms (ascii "query") (extractString requestJson (ascii "sql"))) ∧
    (∀ s s', Escapable s → Escapable s' → jsonEscape s = jsonEscape s' → s = s') ∧
    ∀ s t r r', Escapable s → Chars t → t ++ quote :: r = jsonEscape s ++ quote :: r' →
      t = jsonEscape s ∧ r = r' := by
  have hobject := objectText_sqlResult hsql
  rw [handleSqlQuery_of_ne_nil hne]
  refine ⟨hobject.text, ?_, ?_, ?_⟩
  · refine ⟨_, hobject, ?_, rfl, query_sqlResult hsql⟩
    intro ms' hms'
    exact hms'.unique hobject
  · intro s s' hs hs' heq
    have hdecodes := decodes_jsonEscape hs
    rw [heq] at hdecodes
    exact hdecodes.unique (decodes_jsonEscape hs')
  · intro s t r r' hs ht heq
    exact jsonEscape_ends hs ht heq

theorem sql_echoed_backslash :
    Text (handleSqlQuery (ascii "\x7b\"sql\":\"a\\\"\x7d")) := by
  have hsql : extractString (ascii "\x7b\"sql\":\"a\\\"\x7d") (ascii "sql") = [97, 92] := by decide
  have hescapable : Escapable [97, 92] := by simp [Escapable]
  exact (sql_echoed (hsql ▸ List.cons_ne_nil _ _) (hsql ▸ hescapable)).1

theorem not_query_missingSqlField {ms : List Member} (h : ObjectText missingSqlField ms)
    (v : Bytes) : ¬ StringMember ms (ascii "query") v := by
  have hplain : ∀ f ∈ [(ascii "error", quote :: ascii "missing 'sql' field" ++ [quote])],
      Plain f.1 := by
    have herror : Plain (ascii "error") := List.all_eq_true.mp (by decide)
    simpa using herror
  have hobject : ObjectText missingSqlField
      (compactMembers [(ascii "error", quote :: ascii "missing 'sql' field" ++ [quote])]) := by
    refine objectText_compactObject hplain ?_
    have hchars : Chars (ascii "missing 'sql' field") :=
      chars_of_plain (List.all_eq_true.mp (by decide))
    simpa using Value.string hchars
  rw [h.unique hobject]
  refine not_stringMember_compact hplain ?_
  have hne : ascii "error" ≠ ascii "query" := by decide
  simpa using hne

end HSFinancialServices.Services
