import HSFinancialServices.Services.SqlEcho
import HSFinancialServices.Ui.Commands

/-!
# From the SQL text of a command to the statement that the server handles

`RunSqlQuery` puts the text between two quotes as it is. The server cuts the statement at the
first quote, so a text with a quote reaches it only in part.
-/

namespace HSFinancialServices.Ui
open Ascii Services Json

theorem printable_of_all {s : Bytes} (h : s.all (fun b => decide (0x20 ≤ b)) = true) :
    ∀ b ∈ s, 0x20 ≤ b :=
  fun b hb => of_decide_eq_true (List.all_eq_true.mp h b hb)

def sqlPayload (sql : Bytes) : Bytes := ((Command.sqlQuery sql).request 0).2

theorem sqlPayload_eq (sql : Bytes) : sqlPayload sql =
    openBrace :: (stringNeedle (ascii "sql") ++ (sql ++ quote :: [closeBrace])) := by
  have hstart : ascii "\x7b\"sql\":\"" = openBrace :: stringNeedle (ascii "sql") := by decide
  have hend : ascii "\"\x7d" = [quote, closeBrace] := by decide
  simp only [sqlPayload, Command.request, hstart, hend, List.append_assoc, List.cons_append]

theorem extractString_sqlPayload {sql : Bytes} (h : quote ∉ sql) :
    extractString (sqlPayload sql) (ascii "sql") = sql := by
  rw [sqlPayload_eq, extractString_front h]

theorem extractString_sqlPayload_quote {u : Bytes} (h : quote ∉ u) (v : Bytes) :
    extractString (sqlPayload (u ++ quote :: v)) (ascii "sql") = u := by
  rw [sqlPayload_eq, List.append_assoc, List.cons_append, extractString_front h]

def SqlHandled (sql : Bytes) : Prop :=
  if sql = [] then handleSqlQuery (sqlPayload sql) = missingSqlField
  else ∃ ms, ObjectText (handleSqlQuery (sqlPayload sql)) ms ∧ StringMember ms (ascii "query") sql

/-- Of the texts without control characters those without a quote are handled as they were
entered, with backslashes in them or not. -/
theorem sql_handled_iff {sql : Bytes} (hsql : ∀ b ∈ sql, 0x20 ≤ b) :
    SqlHandled sql ↔ quote ∉ sql := by
  constructor
  · intro h hquote
    obtain ⟨u, v, rfl, hu⟩ := List.eq_append_cons_of_mem hquote
    have hne : u ++ quote :: v ≠ [] := List.append_ne_nil_of_right_ne_nil _ (List.cons_ne_nil _ _)
    rw [SqlHandled, if_neg hne, handleSqlQuery, extractString_sqlPayload_quote hu] at h
    by_cases hempty : u = []
    · rw [if_pos hempty] at h
      obtain ⟨ms, hms, hquery⟩ := h
      exact not_query_missingSqlField hms _ hquery
    · rw [if_neg hempty] at h
      obtain ⟨ms, hms, hquery⟩ := h
      have hescapable : Escapable u := fun b hb => .inl (hsql b (List.mem_append_left _ hb))
      rw [hms.unique (objectText_sqlResult hescapable)] at hquery
      have hlength := congrArg List.length (hquery.unique (query_sqlResult hescapable))
      rw [List.length_append, List.length_cons] at hlength
      omega
  · intro hquote
    rw [SqlHandled, handleSqlQuery, extractString_sqlPayload hquote]
    split_ifs with hempty
    · rfl
    · have hescapable : Escapable sql := fun b hb => .inl (hsql b hb)
      exact ⟨_, objectText_sqlResult hescapable, query_sqlResult hescapable⟩

theorem sql_handled_backslash : SqlHandled (ascii "SELECT '\\") :=
  (sql_handled_iff (printable_of_all (by decide))).mpr (by decide)

theorem quoted_identifier_not_handled :
    ¬ ∀ sql : Bytes, (∀ b ∈ sql, 0x20 ≤ b) → SqlHandled sql := by
  intro h
  have hhandled := h (ascii "SELECT " ++ quote :: ascii "price\"") (printable_of_all (by decide))
  have hcut : extractString (sqlPayload (ascii "SELECT " ++ quote :: ascii "price\""))
      (ascii "sql") = ascii "SELECT " := extractString_sqlPayload_quote (by decide) _
  rw [SqlHandled, if_neg (by decide), handleSqlQuery, hcut, if_neg (by decide)] at hhandled
  obtain ⟨ms, hms, hquery⟩ := hhandled
  have hescapable : Escapable (ascii "SELECT ") := fun b hb =>
    .inl (printable_of_all (by decide) b hb)
  rw [hms.unique (objectText_sqlResult hescapable)] at hquery
  exact absurd (hquery.unique (query_sqlResult hescapable)) (by decide)

end HSFinancialServices.Ui
