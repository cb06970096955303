import HSFinancialServices.Lib.JsonSplice
import HSFinancialServices.Services.FieldsAsJson

/-!
# What the extractors cut out of JSON

From a request that is JSON, or empty, `extract_number` always cuts a number.
`extract_string` cuts string text up to a quote, and where that quote is an escaped
one the cut ends inside its escape.
-/

namespace HSFinancialServices.Services
open Ascii TextSearch Json

theorem plainKeys : PlainKey (ascii "symbol") ∧ PlainKey (ascii "account") ∧
    PlainKey (ascii "sql") ∧ PlainKey (ascii "qty") ∧ PlainKey (ascii "price") := by decide

def JsonOrEmpty (p : Bytes) : Prop := p = [] ∨ Text p

/-- A cut from JSON is string text, perhaps without the end of its last escape. -/
theorem strRun_extractString {p key : Bytes} (hp : JsonOrEmpty p) (hkey : PlainKey key) :
    strRun (extractString p key) .plain =
      some (if endsInEscape (extractString p key) then .escape else .plain) := by
  have hrun : strRun (extractString p key) .plain = some .plain ∨
      strRun (extractString p key) .plain = some .escape := by
    cases cut_eq_nil_or (stringNeedle_ne_nil key) quote p with
    | inl hnil =>
      rw [extractString_eq_cut, hnil]
      exact Or.inl rfl
    | inr hcut =>
      obtain ⟨before, rest, htext, hquote⟩ := hcut
      cases hp with
      | inl hempty => simp [hempty] at htext
      | inr hjson =>
        rw [htext] at hjson
        exact strRun_of_accepts hkey hquote hjson.accepts
  cases hrun with
  | inl hplain =>
    have hno : endsInEscape (extractString p key) = false := by
      by_contra hends
      have := (strRun_eq_escape_iff hplain).mpr (by simpa using hends)
      cases this
    rw [hplain, hno]
    rfl
  | inr hescape => rw [hescape, (strRun_eq_escape_iff hescape).mp rfl, if_pos rfl]

theorem isSeparator_of_isNumberChar {b : UInt8} (h : isNumberChar b = true) :
    isSeparator b = false := by
  have hcases : isDigit b = true ∨ b = point ∨ b = minus := by
    simpa [isNumberChar, or_assoc] using h
  rcases hcases with hdigit | rfl | rfl
  · rcases digit_cases hdigit with
      rfl | rfl | rfl | rfl | rfl | rfl | rfl | rfl | rfl | rfl <;> rfl
  · rfl
  · rfl

def BeforeExponent (q : NumMode) : Prop :=
  q = .minus ∨ q = .zero ∨ q = .int ∨ q = .point ∨ q = .frac

theorem numStep_beforeExponent {b : UInt8} {q q' : NumMode} (hb : isNumberChar b = true)
    (hq : BeforeExponent q) (h : numStep b q = some q') : BeforeExponent q' := by
  have he : ¬ (b = letterE ∨ b = capitalE) := by
    intro heq
    rcases heq with rfl | rfl <;> exact absurd hb (by decide)
  rcases hq with rfl | rfl | rfl | rfl | rfl <;> simp only [numStep] at h <;>
    split_ifs at h <;> cases h <;> simp [BeforeExponent]

theorem numRun_beforeExponent {u : Bytes} {q q' : NumMode} (hu : ∀ b ∈ u, isNumberChar b = true)
    (hq : BeforeExponent q) (h : numRun u q = some q') : BeforeExponent q' := by
  induction u generalizing q with
  | nil =>
    obtain rfl : q = q' := Option.some.inj h
    exact hq
  | cons b u ih =>
    obtain ⟨q'', hstep, hrun⟩ := Option.bind_eq_some_iff.mp h
    exact ih (List.forall_mem_of_forall_mem_cons hu)
      (numStep_beforeExponent (hu b (by simp)) hq hstep) hrun

theorem complete_of_run {r : Bytes} {q : NumMode} {st : List Frame} {final : Config}
    (hq : BeforeExponent q) (hr : ∀ b t, r = b :: t → isNumberChar b = false)
    (h : run r (.num q, st) = some final) (hfinal : Final final) : q.complete = true := by
  cases r with
  | nil =>
    obtain rfl : (Mode.num q, st) = final := Option.some.inj h
    obtain ⟨_, hdone | ⟨q', hq', heq⟩⟩ := hfinal
    · cases hdone
    · cases heq
      exact hq'
  | cons b t =>
    have hb := hr b t rfl
    have hdigit : isDigit b = false := by
      by_contra hd
      simp [isNumberChar, hd] at hb
    have hzero : b ≠ 48 := fun heq => absurd (heq ▸ hdigit) (by decide)
    rcases hq with rfl | rfl | rfl | rfl | rfl
    · simp [run_cons, step, numStep, hdigit, hzero, NumMode.complete] at h
    · rfl
    · rfl
    · simp [run_cons, step, numStep, hdigit, NumMode.complete] at h
    · rfl

theorem number_of_run_value {u r : Bytes} {st : List Frame} {final : Config} (hne : u ≠ [])
    (hu : ∀ b ∈ u, isNumberChar b = true) (hr : ∀ b t, r = b :: t → isNumberChar b = false)
    (h : run (u ++ r) (.value, st) = some final) (hfinal : Final final) : Number u := by
  obtain ⟨b, u, rfl⟩ := List.exists_cons_of_ne_nil hne
  have hb := hu b (by simp)
  have hrest : ∀ c ∈ u, isNumberChar c = true := List.forall_mem_of_forall_mem_cons hu
  have hstart : ∃ q, BeforeExponent q ∧ step b (.value, st) = some (.num q, st) ∧
      ∀ u, NumTail q u → Number (b :: u) := by
    by_cases hminus : b = minus
    · subst hminus
      exact ⟨.minus, Or.inl rfl, rfl, fun u => number_of_minus⟩
    by_cases hzero : b = 48
    · subst hzero
      exact ⟨.zero, Or.inr (Or.inl rfl), rfl, fun u => number_of_zero⟩
    by_cases hdigit : isDigit b = true
    · exact ⟨.int, Or.inr (Or.inr (Or.inl rfl)), step_digit hdigit hzero st,
        fun u => number_of_digit hdigit hzero⟩
    · obtain rfl : b = point := by simpa [isNumberChar, hdigit, hminus] using hb
      cases h
  obtain ⟨q, hq, hstep, hnumber⟩ := hstart
  have hsep : ∀ c ∈ u, isSeparator c = false := fun c hc =>
    isSeparator_of_isNumberChar (hrest c hc)
  rw [List.cons_append, run_cons, hstep, Option.bind_some, run_append, run_num hsep] at h
  cases hrun : numRun u q with
  | none => simp [hrun] at h
  | some q' =>
    rw [hrun, Option.map_some, Option.bind_some] at h
    have hq' := numRun_beforeExponent hrest hq hrun
    exact hnumber u (numTail_of_numRun hrun (complete_of_run hq' hr h hfinal))

theorem number_extractNumber {p key : Bytes} (hp : JsonOrEmpty p) (hkey : PlainKey key) :
    Number (orDefault (extractNumber p key) (ascii "0")) := by
  have hdefault : Number (ascii "0") := Number.positive .zero .absent .absent
  by_cases hempty : extractNumber p key = []
  · rwa [orDefault, if_pos hempty]
  rw [orDefault, if_neg hempty]
  cases hfind : find (numberNeedle key) p with
  | none =>
    simp only [extractNumber, hfind]
    exact hdefault
  | some pos =>
    obtain ⟨tail, htail⟩ := ((find_eq_some_iff (numberNeedle_ne_nil key)).mp hfind).1
    have hdrop : p.drop (pos + (numberNeedle key).length) = tail := by
      rw [← List.drop_drop, ← htail, List.drop_left]
    have hjson : Text p := by
      refine hp.resolve_left fun hnil => ?_
      simp [hnil, numberNeedle] at htail
    obtain ⟨final, hrun, hfinal⟩ := hjson.accepts
    rw [← List.take_append_drop pos p, run_append] at hrun
    obtain ⟨c, hbefore, hrun⟩ := Option.bind_eq_some_iff.mp hrun
    have hc : c.Proper := (proper_of_ne_literal (by simp)).run hbefore
    rw [← htail, run_append] at hrun
    obtain ⟨d, hneedle, hrun⟩ := Option.bind_eq_some_iff.mp hrun
    obtain ⟨st, rfl⟩ := run_needle hkey hc hneedle
    let isSkipped : UInt8 → Bool := fun b => b == space || b == tab
    have hblank : Blank (tail.takeWhile isSkipped) := by
      intro b hb
      have hskip := List.mem_takeWhile_imp hb
      simp only [isSkipped, Bool.or_eq_true, beq_iff_eq] at hskip
      rcases hskip with rfl | rfl <;> rfl
    rw [← List.takeWhile_append_dropWhile (p := isSkipped) (l := tail),
      run_append_of_run (run_blank_value hblank st),
      ← List.takeWhile_append_dropWhile (p := isNumberChar) (l := tail.dropWhile isSkipped)] at hrun
    have hread : extractNumber p key = (tail.dropWhile isSkipped).takeWhile isNumberChar := by
      simp only [extractNumber, hfind, hdrop]
      rfl
    rw [hread] at hempty ⊢
    refine number_of_run_value hempty (fun b => List.mem_takeWhile_imp) ?_ hrun hfinal
    intro b t heq
    have hhead := List.head?_dropWhile_not isNumberChar (tail.dropWhile isSkipped)
    rw [heq] at hhead
    simpa using hhead

/-- Quote-free string text, whole or cut inside its last escape. -/
structure CutText (s : Bytes) : Prop where
  noQuote : quote ∉ s
  scan : strRun s .plain = some (if endsInEscape s then .escape else .plain)

theorem cutText_extractString {p key : Bytes} (hp : JsonOrEmpty p) (hkey : PlainKey key) :
    CutText (extractString p key) :=
  ⟨quote_notMem_extractString p key, strRun_extractString hp hkey⟩

theorem CutText.orDefault {s fallback : Bytes} (hs : CutText s) (hfallback : CutText fallback) :
    CutText (orDefault s fallback) := by
  cases orDefault_eq_or s fallback with
  | inl heq => rwa [heq]
  | inr heq => rwa [heq]

theorem endsInEscape_orDefault (s : Bytes) {fallback : Bytes}
    (hfallback : endsInEscape fallback = false) :
    endsInEscape (orDefault s fallback) = endsInEscape s := by
  by_cases hempty : s = []
  · rw [orDefault, if_pos hempty, hfallback, hempty, endsInEscape_nil]
  · rw [orDefault, if_neg hempty]

theorem CutText.chars {s : Bytes} (hs : CutText s) (hwhole : endsInEscape s = false) : Chars s := by
  have hrun := hs.scan
  rw [hwhole] at hrun
  exact chars_of_strRun hrun

theorem CutText.not_accepts {before s rest : Bytes} (hs : CutText s) {st : List Frame}
    (hescape : endsInEscape s = true) (hbefore : run before (.value, []) = some (.str false .plain, st))
    {b : UInt8} (hb : isSeparator b = false) (hcolon : b ≠ colon) :
    ¬ Text (before ++ (s ++ (quote :: comma :: quote :: b :: rest))) := by
  intro htext
  have hrun := hs.scan
  rw [hescape] at hrun
  exact not_accepts_of_escape hbefore hs.noQuote hrun hb hcolon htext.accepts

theorem isPlain_of_isDigit {b : UInt8} (h : isDigit b = true) : isPlain b = true := by
  rcases digit_cases h with
    rfl | rfl | rfl | rfl | rfl | rfl | rfl | rfl | rfl | rfl <;> rfl

theorem chars_decimal (n : ℕ) : Chars (decimal n) :=
  chars_of_plain fun _ hb => isPlain_of_isDigit (isDigit_of_mem_decimal hb)

end HSFinancialServices.Services
