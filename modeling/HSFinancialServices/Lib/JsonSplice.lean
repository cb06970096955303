import HSFinancialServices.Lib.JsonScannerSound

/-!
# Splicing string text between JSON texts

Text cut out of a JSON string at a quote can end in the middle of an escape. Put
between two quotes again it then swallows the closing quote. The scanner over a
string is a small automaton of its own, and the cut ends in an escape exactly when
it ends in an odd number of backslashes.
-/

namespace Json
open Ascii

def strRun : Bytes → StrMode → Option StrMode
  | [], q => some q
  | b :: s, q => (strStep b q).bind (strRun s)

theorem strRun_append (s t : Bytes) (q : StrMode) :
    strRun (s ++ t) q = (strRun s q).bind (strRun t) := by
  induction s generalizing q with
  | nil => rfl
  | cons b s ih =>
    simp only [List.cons_append, strRun]
    cases strStep b q with
    | none => rfl
    | some q' => exact ih q'

theorem run_str {s : Bytes} (h : quote ∉ s) (isKey : Bool) (q : StrMode) (st : List Frame) :
    run s (.str isKey q, st) = (strRun s q).map fun q' => (.str isKey q', st) := by
  induction s generalizing q with
  | nil => rfl
  | cons b s ih =>
    have hb : b ≠ quote := fun heq => h (heq ▸ List.mem_cons_self ..)
    have hs : quote ∉ s := fun hmem => h (List.mem_cons_of_mem _ hmem)
    have hstep : step b (.str isKey q, st) = (strStep b q).map fun q' => (.str isKey q', st) := by
      simp [step, hb]
    rw [run_cons, hstep, strRun]
    cases strStep b q with
    | none => rfl
    | some q' => exact ih hs q'

theorem inString_of_strRun {s : Bytes} {q : StrMode} (h : strRun s q = some .plain) :
    InString q s := by
  induction s generalizing q with
  | nil =>
    obtain rfl : q = .plain := Option.some.inj h
    exact Chars.nil
  | cons b s ih =>
    obtain ⟨q', hstep, hrun⟩ := Option.bind_eq_some_iff.mp h
    exact inString_cons hstep (ih hrun)

theorem chars_of_strRun {s : Bytes} (h : strRun s .plain = some .plain) : Chars s :=
  inString_of_strRun h

def endsInEscape (s : Bytes) : Bool := (s.reverse.takeWhile (· == backslash)).length % 2 == 1

@[simp] theorem endsInEscape_nil : endsInEscape [] = false := rfl

theorem endsInEscape_concat (s : Bytes) (b : UInt8) :
    endsInEscape (s ++ [b]) = (b == backslash && !endsInEscape s) := by
  by_cases hb : b = backslash
  · subst hb
    have hparity : ∀ n : ℕ, ((n + 1) % 2 == 1) = !(n % 2 == 1) := by
      intro n
      rcases Nat.mod_two_eq_zero_or_one n with h | h <;> simp [Nat.add_mod, h]
    simp [endsInEscape, hparity]
  · simp [endsInEscape, hb]

theorem strStep_eq_escape_iff {b : UInt8} {q : StrMode} :
    strStep b q = some .escape ↔ q = .plain ∧ b = backslash := by
  match q with
  | .plain =>
    simp only [strStep]
    split_ifs with h₁ h₂ <;> simp [h₁]
  | .escape =>
    simp only [strStep]
    split_ifs <;> simp
  | .hex 0 =>
    simp only [strStep]
    split_ifs <;> simp
  | .hex (n + 1) =>
    simp only [strStep]
    split_ifs <;> simp

theorem eq_plain_or_escape {b : UInt8} (hb : isHex b = false) {q q' : StrMode}
    (h : strStep b q = some q') : q = .plain ∨ q = .escape := by
  match q with
  | .plain => exact Or.inl rfl
  | .escape => exact Or.inr rfl
  | .hex 0 | .hex (n + 1) => simp [strStep, hb] at h

theorem strRun_eq_escape_iff {s : Bytes} {q : StrMode} (h : strRun s .plain = some q) :
    q = .escape ↔ endsInEscape s = true := by
  induction s using List.reverseRecOn generalizing q with
  | nil =>
    obtain rfl : StrMode.plain = q := Option.some.inj h
    simp
  | append_singleton s b ih =>
    rw [strRun_append] at h
    obtain ⟨q', hrun, hlast⟩ := Option.bind_eq_some_iff.mp h
    obtain ⟨q'', hstep, hq⟩ := Option.bind_eq_some_iff.mp hlast
    obtain rfl : q'' = q := Option.some.inj hq
    rw [endsInEscape_concat, Bool.and_eq_true, beq_iff_eq, Bool.not_eq_true']
    constructor
    · intro hescape
      subst hescape
      obtain ⟨rfl, hb⟩ := strStep_eq_escape_iff.mp hstep
      refine ⟨hb, ?_⟩
      by_contra hends
      exact absurd ((ih hrun).mpr (by simpa using hends)) (by decide)
    · intro hends
      obtain ⟨rfl, hs⟩ := hends
      have hplain : q' = .plain := by
        refine (eq_plain_or_escape (by decide) hstep).resolve_right fun hescape => ?_
        have hodd := (ih hrun).mp hescape
        rw [hs] at hodd
        exact Bool.noConfusion hodd
      rw [strStep_eq_escape_iff.mpr ⟨hplain, rfl⟩] at hstep
      exact (Option.some.inj hstep).symm

def Config.Proper (c : Config) : Prop := ∀ b rest, c.1 = .literal b rest → quote ∉ b :: rest

theorem proper_of_ne_literal {c : Config} (h : ∀ b rest, c.1 ≠ .literal b rest) : c.Proper :=
  fun b rest heq => absurd heq (h b rest)

theorem startValue_proper {b : UInt8} {st : List Frame} {c : Config}
    (h : startValue b st = some c) : c.Proper := by
  simp only [startValue] at h
  split_ifs at h <;> cases h
  all_goals
    intro d rest heq
    cases heq <;> decide

theorem afterValue_proper {b : UInt8} {st : List Frame} {c : Config}
    (h : afterValue b st = some c) : c.Proper := by
  refine proper_of_ne_literal fun d rest heq => ?_
  rcases st with _ | ⟨_ | _, st⟩ <;> simp only [afterValue] at h <;> split_ifs at h <;>
    cases h <;> cases heq

theorem Config.Proper.step {b : UInt8} {c d : Config} (hc : c.Proper)
    (h : step b c = some d) : d.Proper := by
  obtain ⟨m, st⟩ := c
  cases m with
  | value =>
    simp only [Json.step] at h
    split_ifs at h
    · cases h
      exact proper_of_ne_literal (by simp)
    · exact startValue_proper h
  | firstItem =>
    simp only [Json.step] at h
    split_ifs at h
    · cases h
      exact proper_of_ne_literal (by simp)
    · cases h
      exact proper_of_ne_literal (by simp)
    · exact startValue_proper h
  | key =>
    simp only [Json.step] at h
    split_ifs at h <;> cases h <;> exact proper_of_ne_literal (by simp)
  | firstKey =>
    simp only [Json.step] at h
    split_ifs at h <;> cases h <;> exact proper_of_ne_literal (by simp)
  | colon =>
    simp only [Json.step] at h
    split_ifs at h <;> cases h <;> exact proper_of_ne_literal (by simp)
  | str isKey q =>
    by_cases hq : b = quote ∧ q = .plain
    · simp only [Json.step, if_pos hq, Option.some.injEq] at h
      subst h
      cases isKey <;> exact proper_of_ne_literal (by simp)
    · simp only [Json.step, if_neg hq] at h
      obtain ⟨q', _, heq⟩ := Option.map_eq_some_iff.mp h
      subst heq
      exact proper_of_ne_literal (by simp)
  | num q =>
    simp only [Json.step] at h
    split at h
    · cases h
      exact proper_of_ne_literal (by simp)
    · split_ifs at h
      exact afterValue_proper h
  | literal e rest =>
    simp only [Json.step] at h
    split_ifs at h
    cases rest with
    | nil =>
      cases h
      exact proper_of_ne_literal (by simp)
    | cons e' rest =>
      cases h
      intro d rest' heq
      cases heq
      exact fun hmem => hc _ _ rfl (List.mem_cons_of_mem _ hmem)
  | done => exact afterValue_proper h

theorem Config.Proper.run {t : Bytes} {c d : Config} (hc : c.Proper)
    (h : run t c = some d) : d.Proper := by
  induction t generalizing c with
  | nil =>
    obtain rfl : c = d := Option.some.inj h
    exact hc
  | cons b t ih =>
    obtain ⟨c', hstep, hrun⟩ := Option.bind_eq_some_iff.mp h
    exact ih (hc.step hstep) hrun

theorem step_quote {c d : Config} (hc : c.Proper) (h : step quote c = some d) :
    (∃ isKey st, d = (.str isKey .plain, st)) ∨ ∃ st, d = (.colon, st) ∨ d = (.done, st) := by
  have hafter : ∀ st, afterValue quote st = none := by
    intro st
    rcases st with _ | ⟨_ | _, st⟩ <;> rfl
  obtain ⟨m, st⟩ := c
  cases m with
  | value | firstItem =>
    cases h
    exact Or.inl ⟨false, st, rfl⟩
  | key | firstKey =>
    cases h
    exact Or.inl ⟨true, st, rfl⟩
  | colon => cases h
  | str isKey q =>
    match q with
    | .plain =>
      cases h
      cases isKey with
      | true => exact Or.inr ⟨st, Or.inl rfl⟩
      | false => exact Or.inr ⟨st, Or.inr rfl⟩
    | .escape =>
      cases h
      exact Or.inl ⟨isKey, st, rfl⟩
    | .hex 0 | .hex (n + 1) => cases h
  | num q =>
    have hnum : numStep quote q = none := by cases q <;> rfl
    simp only [step, hnum, hafter, ite_self, reduceCtorEq] at h
  | literal b rest =>
    have hb : quote ≠ b := fun heq => hc b rest rfl (heq ▸ List.mem_cons_self ..)
    simp only [step, if_neg hb, reduceCtorEq] at h
  | done => simp only [step, hafter, reduceCtorEq] at h

/-- A key whose bytes are plain and whose first byte cannot follow a string. -/
structure PlainKey (key : Bytes) : Prop where
  plain : ∀ b ∈ key, isPlain b = true
  head : ∃ b rest, key = b :: rest ∧ isSeparator b = false ∧ b ≠ Ascii.colon

instance (key : Bytes) : Decidable (PlainKey key) :=
  match key with
  | [] => isFalse fun h => by obtain ⟨b, rest, heq, _⟩ := h.head; cases heq
  | b :: rest =>
    decidable_of_iff ((b :: rest).all isPlain = true ∧ isSeparator b = false ∧ b ≠ Ascii.colon)
      ⟨fun h => ⟨List.all_eq_true.mp h.1, b, rest, rfl, h.2⟩,
        fun h => ⟨List.all_eq_true.mpr h.plain, by
        obtain ⟨_, _, heq, hb⟩ := h.head
        cases heq
        exact hb⟩⟩

theorem afterValue_eq_none {b : UInt8} (hb : isSeparator b = false) (st : List Frame) :
    afterValue b st = none := by
  simp only [isSeparator, Bool.or_eq_false_iff, beq_eq_false_iff_ne, ne_eq] at hb
  obtain ⟨⟨⟨hblank, hcomma⟩, hbracket⟩, hbrace⟩ := hb
  rcases st with _ | ⟨_ | _, st⟩ <;> simp [afterValue, hblank, hcomma, hbracket, hbrace]

theorem run_needle {key : Bytes} (hkey : PlainKey key) {c d : Config} (hc : c.Proper)
    (h : run (quote :: key ++ [quote, Ascii.colon]) c = some d) : ∃ st, d = (.value, st) := by
  obtain ⟨b, rest, hcons, hsep, hcolon⟩ := hkey.head
  rw [List.cons_append, run_cons] at h
  obtain ⟨c₁, hstep, hrun⟩ := Option.bind_eq_some_iff.mp h
  rcases step_quote hc hstep with ⟨isKey, st, rfl⟩ | ⟨st, hclosed⟩
  · rw [run_append_of_run ((chars_of_plain hkey.plain).run isKey st)] at hrun
    cases isKey with
    | true =>
      cases hrun
      exact ⟨st, rfl⟩
    | false =>
      have hafter : afterValue Ascii.colon st = none := afterValue_eq_none (by decide) st
      simp [run_cons, step, hafter] at hrun
  · have hblank : isBlank b = false := by
      simp only [isSeparator, Bool.or_eq_false_iff] at hsep
      exact hsep.1.1.1
    rw [hcons, List.cons_append, run_cons] at hrun
    rcases hclosed with rfl | rfl
    · simp [step, hblank, hcolon] at hrun
    · simp [step, afterValue_eq_none hsep] at hrun

theorem strRun_of_accepts {before key v rest : Bytes} (hkey : PlainKey key) (hv : quote ∉ v)
    (h : Accepts (before ++ (quote :: key ++ [quote, Ascii.colon, quote]) ++ v ++ quote :: rest)) :
    strRun v .plain = some .plain ∨ strRun v .plain = some .escape := by
  obtain ⟨final, hrun, _⟩ := h
  have hsplit : before ++ (quote :: key ++ [quote, Ascii.colon, quote]) ++ v ++ quote :: rest =
      before ++ ((quote :: key ++ [quote, Ascii.colon]) ++ (quote :: (v ++ quote :: rest))) := by
    simp
  rw [hsplit, run_append] at hrun
  obtain ⟨c, hbefore, hrun⟩ := Option.bind_eq_some_iff.mp hrun
  have hc : c.Proper := (proper_of_ne_literal (by simp)).run hbefore
  rw [run_append] at hrun
  obtain ⟨d, hneedle, hrun⟩ := Option.bind_eq_some_iff.mp hrun
  obtain ⟨st, rfl⟩ := run_needle hkey hc hneedle
  have hopen : step quote (.value, st) = some (.str false .plain, st) := rfl
  rw [run_cons, hopen, Option.bind_some, run_append, run_str hv] at hrun
  cases hs : strRun v .plain with
  | none => simp [hs] at hrun
  | some q =>
    rw [hs, Option.map_some, Option.bind_some, run_cons] at hrun
    match q with
    | .plain => exact Or.inl rfl
    | .escape => exact Or.inr rfl
    | .hex 0 | .hex (n + 1) => cases hrun

/-- Between two quotes, text that ends in an escape takes the second quote into the string,
and a letter after the next one is no JSON. -/
theorem not_accepts_of_escape {before v rest : Bytes} {isKey : Bool} {st : List Frame} {b : UInt8}
    (hbefore : run before (.value, []) = some (.str isKey .plain, st)) (hv : quote ∉ v)
    (hescape : strRun v .plain = some .escape) (hb : isSeparator b = false)
    (hcolon : b ≠ Ascii.colon) : ¬ Accepts (before ++ (v ++ (quote :: comma :: quote :: b :: rest))) := by
  intro h
  obtain ⟨final, hrun, _⟩ := h
  have hclose : run [quote, comma, quote] (.str isKey .escape, st) =
      some (if isKey then .colon else .done, st) := rfl
  have hblank : isBlank b = false := by
    simp only [isSeparator, Bool.or_eq_false_iff] at hb
    exact hb.1.1.1
  have hsplit : quote :: comma :: quote :: b :: rest = [quote, comma, quote] ++ b :: rest := rfl
  rw [run_append_of_run hbefore, run_append, run_str hv, hescape, Option.map_some,
    Option.bind_some, hsplit, run_append_of_run hclose, run_cons] at hrun
  cases isKey with
  | true => simp [step, hblank, hcolon] at hrun
  | false => simp [step, afterValue_eq_none hb] at hrun

def numRun : Bytes → NumMode → Option NumMode
  | [], q => some q
  | b :: u, q => (numStep b q).bind (numRun u)

theorem run_num {u : Bytes} (hu : ∀ b ∈ u, isSeparator b = false) (q : NumMode)
    (st : List Frame) : run u (.num q, st) = (numRun u q).map fun q' => (.num q', st) := by
  induction u generalizing q with
  | nil => rfl
  | cons b u ih =>
    have hafter := afterValue_eq_none (hu b (List.mem_cons_self ..)) st
    rw [run_cons, numRun]
    cases hstep : numStep b q with
    | none => simp [step, hstep, hafter]
    | some q' =>
      simp only [step, hstep, Option.bind_some]
      exact ih (fun c hc => hu c (List.mem_cons_of_mem _ hc)) q'

theorem numTail_of_numRun {u : Bytes} {q q' : NumMode} (h : numRun u q = some q')
    (hq : q'.complete = true) : NumTail q u := by
  induction u generalizing q with
  | nil =>
    obtain rfl : q = q' := Option.some.inj h
    exact numTail_nil hq
  | cons b u ih =>
    obtain ⟨q'', hstep, hrun⟩ := Option.bind_eq_some_iff.mp h
    exact numTail_cons hstep (ih hrun)

theorem run_separator {m : Mode} (hm : m.Completed) {b : UInt8} (hb : isSeparator b = true)
    (t : Bytes) (st : List Frame) : run (b :: t) (m, st) = run (b :: t) (.done, st) := by
  rw [run_cons, run_cons, hm.step hb]
  rfl

theorem Number.run_then {n sep : Bytes} {st : List Frame} {d : Config} (hn : Number n)
    (hrun : Json.run sep (.done, st) = some d) {b : UInt8} {s : Bytes} (hsep : sep = b :: s)
    (hb : isSeparator b = true) (t : Bytes) :
    Json.run (n ++ (sep ++ t)) (.value, st) = Json.run t d := by
  obtain ⟨q, hq, hnumber⟩ := hn.run st
  subst hsep
  have hskip : Json.run (b :: s) (.num q, st) = some d := by
    rw [run_separator (Or.inr ⟨q, hq, rfl⟩) hb, hrun]
  rw [run_append_of_run hnumber, run_append_of_run hskip]

theorem accepts_of_run_done {t : Bytes} (h : run t (.value, []) = some (.done, [])) : Text t :=
  accepts_iff_text.mp ⟨_, h, rfl, Or.inl rfl⟩

end Json
