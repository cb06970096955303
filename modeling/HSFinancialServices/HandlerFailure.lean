import HSFinancialServices.Lib.JsonLength
import HSFinancialServices.Router

/-!
# The report of a handler's exception

The text of the exception goes between the quotes of the `message` member as it is. A JSON
reading of the report gives it back only where nothing in it has a meaning to JSON: there is no
room in the report for any other way to write it.
-/

namespace HSFinancialServices
open Ascii Json

/-- An object with the code 500 and this message. -/
def ReportsFailure (report what : Bytes) : Prop :=
  ∃ ms, ObjectText report ms ∧
    (∃ m ∈ ms, Decodes m.key (ascii "code") ∧ m.value = ascii "500" ∧
      ∀ n ∈ ms, Decodes n.key (ascii "code") → n = m) ∧
    StringMember ms (ascii "message") what

def failureFields (what : Bytes) : List (Bytes × Bytes) :=
  [(ascii "code", ascii "500"), (ascii "message", quote :: what ++ [quote])]

theorem handlerFailure_eq (what : Bytes) : handlerFailure what =
    compactObject (ascii "code", ascii "500") [(ascii "message", quote :: what ++ [quote])] := by
  have hstart : ascii "\x7b\"code\":500,\"message\":\"" =
      openBrace :: quote :: ascii "code" ++ quote :: colon :: ascii "500" ++
        comma :: quote :: ascii "message" ++ [quote, colon, quote] := by decide
  have hend : ascii "\"\x7d" = [quote, closeBrace] := by decide
  simp only [handlerFailure, hstart, hend, compactObject, commaSeparated, Member.compact_text,
    List.map_cons, List.map_nil, List.flatMap_cons, List.flatMap_nil, List.append_assoc,
    List.cons_append, List.nil_append, List.append_nil]

theorem plain_failureKeys (what : Bytes) : ∀ f ∈ failureFields what, Plain f.1 := by
  have hcode : Plain (ascii "code") := List.all_eq_true.mp (by decide)
  have hmessage : Plain (ascii "message") := List.all_eq_true.mp (by decide)
  simp only [failureFields, List.forall_mem_cons, List.not_mem_nil, false_implies, implies_true,
    hcode, hmessage, and_self]

theorem code_ne_message : ascii "code" ≠ ascii "message" := by decide

theorem reportsFailure_of_plain {what : Bytes} (h : Plain what) :
    ReportsFailure (handlerFailure what) what := by
  have hint : IntPart [53, 48, 48] :=
    .positive (by decide) (by decide) (List.all_eq_true.mp (by decide))
  have hcode : Value (ascii "500") := .number (.positive hint .absent .absent)
  have hmessage : Value (quote :: what ++ [quote]) := .string (chars_of_plain h)
  refine ⟨compactMembers (failureFields what), ?_, ?_, ?_⟩
  · rw [handlerFailure_eq]
    refine objectText_compactObject (plain_failureKeys what) ?_
    simp only [List.forall_mem_cons, List.not_mem_nil, false_implies, implies_true, hcode,
      hmessage, and_self]
  · refine ⟨Member.compact (ascii "code") (ascii "500"), List.mem_cons_self,
      decodes_of_plain (List.all_eq_true.mp (by decide)), rfl, ?_⟩
    intro n hn hkey
    obtain ⟨f, hf, rfl⟩ := List.mem_map.mp hn
    have hsame : f.1 = ascii "code" :=
      (decodes_of_plain (plain_failureKeys what f hf)).unique hkey
    simp only [failureFields, List.mem_cons, List.not_mem_nil, or_false] at hf
    obtain rfl | rfl := hf
    · rfl
    · exact absurd hsame.symm code_ne_message
  · refine stringMember_compact (plain_failureKeys what) (by simp [failureFields]) ?_
      (decodes_of_plain h)
    simp [failureFields, code_ne_message]

theorem plain_of_reportsFailure {what : Bytes}
    (h : ReportsFailure (handlerFailure what) what) : Plain what := by
  obtain ⟨ms, hobject, ⟨m, hm, hcode, hvalue, -⟩, m', hm', hmessage, ⟨s, hs, hdecodes⟩, -⟩ := h
  have hne : m ≠ m' := by
    rintro rfl
    rw [hvalue] at hs
    have hhead := congrArg List.head? hs
    rw [List.cons_append, List.head?_cons] at hhead
    exact absurd hhead (by decide)
  have hlength := hobject.length_ge hm hm' hne
  have htext := m.text_length
  have htext' := m'.text_length
  have hkey := hcode.length_le.1
  have hkey' := hmessage.length_le.1
  have hfour : (ascii "code").length = 4 := rfl
  have hseven : (ascii "message").length = 7 := rfl
  have hthree : (ascii "500").length = 3 := rfl
  simp only [handlerFailure_length, hvalue, hs, hfour, hseven, hthree, List.length_append,
    List.length_cons, List.length_nil] at *
  obtain ⟨hplain, rfl⟩ := hdecodes.length_le.2 (by omega)
  exact hplain

theorem failure_reported_iff {σ : Type*} {router : ServiceRouter σ} {request : Message}
    {store store' : σ} {handler : ServiceHandler σ} {what : Bytes}
    (hentry : router.handlers request.header.messageType = some handler)
    (hthrow : handler request.payload store = (.error what, store')) :
    ReportsFailure (router.dispatch request store).1.payload what ↔
      ∀ b ∈ what, 0x20 ≤ b ∧ b ≠ quote ∧ b ≠ backslash := by
  have hplain : (∀ b ∈ what, 0x20 ≤ b ∧ b ≠ quote ∧ b ≠ backslash) ↔ Plain what := by
    simp [Plain, isPlain, and_assoc]
  rw [hplain, ServiceRouter.dispatch_of_throws hentry hthrow]
  exact ⟨plain_of_reportsFailure, reportsFailure_of_plain⟩

def throwing (what : Bytes) : ServiceRouter Unit :=
  ⟨fun _ => some fun _ store => (.error what, store)⟩

theorem failure_reported_iff_plain :
    ReportsFailure ((throwing (ascii "stoi")).dispatch (Message.make 1 [] 0) ()).1.payload
        (ascii "stoi") ↔
      ∀ b ∈ ascii "stoi", 0x20 ≤ b ∧ b ≠ quote ∧ b ≠ backslash :=
  failure_reported_iff rfl rfl

theorem failure_not_reported_quote :
    ¬ ∀ (router : ServiceRouter Unit) (request : Message) (store store' : Unit)
      (handler : ServiceHandler Unit) (what : Bytes),
      router.handlers request.header.messageType = some handler →
        handler request.payload store = (.error what, store') →
          ReportsFailure (router.dispatch request store).1.payload what := by
  intro h
  have hreports := h (throwing [quote]) (Message.make 1 [] 0) () () _ [quote] rfl rfl
  have hplain : Plain [quote] := plain_of_reportsFailure hreports
  exact absurd (hplain quote List.mem_cons_self) (by decide)

end HSFinancialServices
