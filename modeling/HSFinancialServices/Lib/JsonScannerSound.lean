import HSFinancialServices.Lib.JsonScanner

/-!
# Every accepted text is in the grammar

`Lang m st` describes, with the pieces of the grammar, the texts that may follow a
configuration. One step of the scanner takes a byte off the front of such a text
(`lang_step`), so an accepting run read backwards builds a derivation.
-/

namespace Json
open Ascii

def NumTail : NumMode → Bytes → Prop
  | .minus, u => ∃ i f e, u = i ++ f ++ e ∧ IntPart i ∧ FracPart f ∧ ExpPart e
  | .zero, u => ∃ f e, u = f ++ e ∧ FracPart f ∧ ExpPart e
  | .int, u => ∃ d f e, u = d ++ f ++ e ∧ (∀ b ∈ d, isDigit b = true) ∧ FracPart f ∧ ExpPart e
  | .point, u => ∃ d e, u = d ++ e ∧ Digits d ∧ ExpPart e
  | .frac, u => ∃ d e, u = d ++ e ∧ (∀ b ∈ d, isDigit b = true) ∧ ExpPart e
  | .exp, u => Digits u ∨ ∃ sign d, u = sign :: d ∧ (sign = plus ∨ sign = Ascii.minus) ∧ Digits d
  | .expSign, u => Digits u
  | .expDigits, u => ∀ b ∈ u, isDigit b = true

theorem numTail_nil {q : NumMode} (hq : q.complete = true) : NumTail q [] := by
  cases q with
  | zero => exact ⟨[], [], rfl, .absent, .absent⟩
  | int => exact ⟨[], [], [], rfl, by simp, .absent, .absent⟩
  | frac => exact ⟨[], [], rfl, by simp, .absent⟩
  | expDigits => simp [NumTail]
  | _ => exact Bool.noConfusion hq

theorem digits_cons {b : UInt8} {u : Bytes} (hb : isDigit b = true)
    (hu : ∀ c ∈ u, isDigit c = true) : Digits (b :: u) :=
  ⟨List.cons_ne_nil b u, List.forall_mem_cons.mpr ⟨hb, hu⟩⟩

theorem expPart_cons {b : UInt8} {u : Bytes} (hb : b = letterE ∨ b = capitalE)
    (hu : NumTail .exp u) : ExpPart (b :: u) := by
  rcases hu with hu | ⟨sign, d, rfl, hsign, hd⟩
  · exact .unsigned hb hu
  · exact .signed hb hsign hd

theorem fracPart_cons {u : Bytes} (hu : NumTail .point u) :
    ∃ f e, Ascii.point :: u = f ++ e ∧ FracPart f ∧ ExpPart e := by
  obtain ⟨d, e, rfl, hd, he⟩ := hu
  exact ⟨Ascii.point :: d, e, rfl, .present hd, he⟩

theorem numTail_cons {b : UInt8} {q q' : NumMode} {u : Bytes} (hstep : numStep b q = some q')
    (hu : NumTail q' u) : NumTail q (b :: u) := by
  cases q with
  | minus =>
    simp only [numStep] at hstep
    split_ifs at hstep with h0 hd <;> cases hstep
    · obtain ⟨f, e, rfl, hf, he⟩ := hu
      exact ⟨[b], f, e, by simp, h0 ▸ .zero, hf, he⟩
    · obtain ⟨d, f, e, rfl, hdigits, hf, he⟩ := hu
      exact ⟨b :: d, f, e, by simp, .positive hd h0 hdigits, hf, he⟩
  | zero =>
    simp only [numStep] at hstep
    split_ifs at hstep with hp he <;> cases hstep
    · exact hp ▸ fracPart_cons hu
    · exact ⟨[], b :: u, rfl, .absent, expPart_cons he hu⟩
  | int =>
    simp only [numStep] at hstep
    split_ifs at hstep with hd hp he <;> cases hstep
    · obtain ⟨d, f, e, rfl, hdigits, hf, he⟩ := hu
      exact ⟨b :: d, f, e, by simp, List.forall_mem_cons.mpr ⟨hd, hdigits⟩, hf, he⟩
    · obtain ⟨f, e, hfe, hf, he⟩ := fracPart_cons hu
      exact ⟨[], f, e, by rw [hp, hfe, List.nil_append], by simp, hf, he⟩
    · exact ⟨[], [], b :: u, rfl, by simp, .absent, expPart_cons he hu⟩
  | point =>
    simp only [numStep] at hstep
    split_ifs at hstep with hd
    cases hstep
    obtain ⟨d, e, rfl, hdigits, he⟩ := hu
    exact ⟨b :: d, e, rfl, digits_cons hd hdigits, he⟩
  | frac =>
    simp only [numStep] at hstep
    split_ifs at hstep with hd he <;> cases hstep
    · obtain ⟨d, e, rfl, hdigits, he⟩ := hu
      exact ⟨b :: d, e, rfl, List.forall_mem_cons.mpr ⟨hd, hdigits⟩, he⟩
    · exact ⟨[], b :: u, rfl, by simp, expPart_cons he hu⟩
  | exp =>
    simp only [numStep] at hstep
    split_ifs at hstep with hd hs <;> cases hstep
    · exact Or.inl (digits_cons hd hu)
    · exact Or.inr ⟨b, u, rfl, hs, hu⟩
  | expSign =>
    simp only [numStep] at hstep
    split_ifs at hstep with hd
    cases hstep
    exact digits_cons hd hu
  | expDigits =>
    simp only [numStep] at hstep
    split_ifs at hstep with hd
    cases hstep
    exact List.forall_mem_cons.mpr ⟨hd, hu⟩

theorem number_of_minus {u : Bytes} (hu : NumTail .minus u) : Number (Ascii.minus :: u) := by
  obtain ⟨i, f, e, rfl, hi, hf, he⟩ := hu
  exact .negative hi hf he

theorem number_of_zero {u : Bytes} (hu : NumTail .zero u) : Number (48 :: u) := by
  obtain ⟨f, e, rfl, hf, he⟩ := hu
  exact .positive .zero hf he

theorem number_of_digit {b : UInt8} {u : Bytes} (hb : isDigit b = true) (h0 : b ≠ 48)
    (hu : NumTail .int u) : Number (b :: u) := by
  obtain ⟨d, f, e, rfl, hdigits, hf, he⟩ := hu
  exact .positive (.positive hb h0 hdigits) hf he

def InString : StrMode → Bytes → Prop
  | .plain, s => Chars s
  | .escape, s => Chars (backslash :: s)
  | .hex n, s => ∃ d u, s = d ++ u ∧ d.length = n + 1 ∧ (∀ b ∈ d, isHex b = true) ∧ Chars u

theorem inString_cons {b : UInt8} {q q' : StrMode} {s : Bytes} (hstep : strStep b q = some q')
    (hs : InString q' s) : InString q (b :: s) := by
  rcases q with _ | _ | _ | n
  · simp only [strStep] at hstep
    split_ifs at hstep with hback hplain <;> cases hstep
    · exact hback ▸ hs
    · exact .plain hplain hs
  · simp only [strStep] at hstep
    split_ifs at hstep with hesc hu <;> cases hstep
    · exact .escape hesc hs
    · obtain ⟨d, u, rfl, hlen, hhex, hu'⟩ := hs
      obtain ⟨a, t, rfl⟩ := List.exists_cons_of_length_eq_add_one hlen
      obtain ⟨b', c, d', rfl⟩ := List.length_eq_three.mp (Nat.succ.inj hlen)
      rw [hu]
      exact .unicode (hhex a (by simp)) (hhex b' (by simp)) (hhex c (by simp))
        (hhex d' (by simp)) hu'
  · simp only [strStep] at hstep
    split_ifs at hstep with hb
    cases hstep
    exact ⟨[b], s, rfl, rfl, by simpa using hb, hs⟩
  · simp only [strStep] at hstep
    split_ifs at hstep with hb
    cases hstep
    obtain ⟨d, u, rfl, hlen, hhex, hu⟩ := hs
    exact ⟨b :: d, u, rfl, by simp [hlen], List.forall_mem_cons.mpr ⟨hb, hhex⟩, hu⟩

def Suffix : List Frame → Bytes → Prop
  | [], t => Blank t
  | .array :: st, t => ∃ (w : Bytes) (is : List Item) (r : Bytes),
      t = w ++ (is.map Item.text).flatMap (fun u => comma :: u) ++ closeBracket :: r ∧
      Blank w ∧ (∀ i ∈ is, i.Layout) ∧ (∀ i ∈ is, Value i.value) ∧ Suffix st r
  | .object :: st, t => ∃ (w : Bytes) (ms : List Member) (r : Bytes),
      t = w ++ (ms.map Member.text).flatMap (fun u => comma :: u) ++ closeBrace :: r ∧
      Blank w ∧ (∀ m ∈ ms, m.Layout) ∧ (∀ m ∈ ms, Value m.value) ∧ Suffix st r

def ValueThen (st : List Frame) (t : Bytes) : Prop :=
  ∃ w v r, t = w ++ v ++ r ∧ Blank w ∧ Value v ∧ Suffix st r

def ColonThen (st : List Frame) (t : Bytes) : Prop :=
  ∃ w r, t = w ++ Ascii.colon :: r ∧ Blank w ∧ ValueThen st r

def KeyThen (st : List Frame) (t : Bytes) : Prop :=
  ∃ w s r, t = w ++ quote :: s ++ quote :: r ∧ Blank w ∧ Chars s ∧ ColonThen st r

def Lang : Mode → List Frame → Bytes → Prop
  | .value, st, t => ValueThen st t
  | .firstItem, st, t =>
      (∃ w r, t = w ++ closeBracket :: r ∧ Blank w ∧ Suffix st.tail r) ∨ ValueThen st t
  | .key, st, t => KeyThen st t
  | .firstKey, st, t =>
      (∃ w r, t = w ++ closeBrace :: r ∧ Blank w ∧ Suffix st.tail r) ∨ KeyThen st t
  | .colon, st, t => ColonThen st t
  | .str isKey q, st, t => ∃ s r, t = s ++ quote :: r ∧ InString q s ∧
      if isKey then ColonThen st r else Suffix st r
  | .num q, st, t => ∃ u r, t = u ++ r ∧ NumTail q u ∧ Suffix st r
  | .literal b rest, st, t => ∃ r, t = b :: rest ++ r ∧ Suffix st r
  | .done, st, t => Suffix st t

theorem blank_cons {b : UInt8} {w : Bytes} (hb : isBlank b = true) (hw : Blank w) :
    Blank (b :: w) :=
  List.forall_mem_cons.mpr ⟨hb, hw⟩

theorem blank_nil : Blank [] := by simp [Blank]

theorem member_of_keyThen {st : List Frame} {t : Bytes} (h : KeyThen (.object :: st) t) :
    ∃ m ms r, t = commaSeparated m.text (ms.map Member.text) ++ closeBrace :: r ∧
      (∀ n ∈ m :: ms, n.Layout) ∧ (∀ n ∈ m :: ms, Value n.value) ∧ Suffix st r := by
  obtain ⟨w, s, t₁, rfl, hw, hs, w₁, t₂, rfl, hw₁, w₂, v, t₃, rfl, hw₂, hv, w₃, ms, r, rfl, hw₃,
    hl, hval, hr⟩ := h
  refine ⟨⟨w, s, w₁, w₂, v, w₃⟩, ms, r, by simp [commaSeparated, Member.text], ?_, ?_, hr⟩
  · exact List.forall_mem_cons.mpr ⟨⟨hw, hs, hw₁, hw₂, hw₃⟩, hl⟩
  · exact List.forall_mem_cons.mpr ⟨hv, hval⟩

theorem item_of_valueThen {st : List Frame} {t : Bytes} (h : ValueThen (.array :: st) t) :
    ∃ i is r, t = commaSeparated i.text (is.map Item.text) ++ closeBracket :: r ∧
      (∀ j ∈ i :: is, j.Layout) ∧ (∀ j ∈ i :: is, Value j.value) ∧ Suffix st r := by
  obtain ⟨w, v, t₁, rfl, hw, hv, w₁, is, r, rfl, hw₁, hl, hval, hr⟩ := h
  refine ⟨⟨w, v, w₁⟩, is, r, by simp [commaSeparated, Item.text], ?_, ?_, hr⟩
  · exact List.forall_mem_cons.mpr ⟨⟨hw, hw₁⟩, hl⟩
  · exact List.forall_mem_cons.mpr ⟨hv, hval⟩

theorem suffix_cons {b : UInt8} {st st' : List Frame} {m : Mode} {t : Bytes}
    (hstep : afterValue b st = some (m, st')) (ht : Lang m st' t) : Suffix st (b :: t) := by
  rcases st with _ | ⟨_ | _, st⟩
  · simp only [afterValue] at hstep
    split_ifs at hstep with hb
    cases hstep
    have hblank : Blank t := ht
    exact blank_cons hb hblank
  · simp only [afterValue] at hstep
    split_ifs at hstep with hb hc he <;> cases hstep
    · obtain ⟨w, is, r, rfl, hw, hrest⟩ := ht
      exact ⟨b :: w, is, r, rfl, blank_cons hb hw, hrest⟩
    · obtain ⟨i, is, r, rfl, hl, hv, hr⟩ := item_of_valueThen ht
      exact ⟨[], i :: is, r, by simp [hc, commaSeparated], blank_nil, hl, hv, hr⟩
    · exact ⟨[], [], t, by simp [he], blank_nil, by simp, by simp, ht⟩
  · simp only [afterValue] at hstep
    split_ifs at hstep with hb hc he <;> cases hstep
    · obtain ⟨w, ms, r, rfl, hw, hrest⟩ := ht
      exact ⟨b :: w, ms, r, rfl, blank_cons hb hw, hrest⟩
    · obtain ⟨m, ms, r, rfl, hl, hv, hr⟩ := member_of_keyThen ht
      exact ⟨[], m :: ms, r, by simp [hc, commaSeparated], blank_nil, hl, hv, hr⟩
    · exact ⟨[], [], t, by simp [he], blank_nil, by simp, by simp, ht⟩

theorem valueThen_start {b : UInt8} {st st' : List Frame} {m : Mode} {t : Bytes}
    (hstep : startValue b st = some (m, st')) (ht : Lang m st' t) : ValueThen st (b :: t) := by
  simp only [startValue] at hstep
  split_ifs at hstep with h₁ h₂ h₃ h₄ h₅ h₆ h₇ h₈ h₉ <;> cases hstep
  · obtain ⟨s, r, rfl, hs, hr⟩ := ht
    exact ⟨[], quote :: s ++ [quote], r, by simp [h₁], blank_nil, .string hs, by simpa using hr⟩
  · rcases ht with ⟨w, r, rfl, hw, hr⟩ | hkey
    · exact ⟨[], openBrace :: w ++ [closeBrace], r, by simp [h₂], blank_nil, .emptyObject hw, hr⟩
    · obtain ⟨m, ms, r, rfl, hl, hv, hr⟩ := member_of_keyThen hkey
      exact ⟨[], _, r, by simp [h₂], blank_nil, .object hl hv, hr⟩
  · rcases ht with ⟨w, r, rfl, hw, hr⟩ | hval
    · exact ⟨[], openBracket :: w ++ [closeBracket], r, by simp [h₃], blank_nil, .emptyArray hw, hr⟩
    · obtain ⟨i, is, r, rfl, hl, hv, hr⟩ := item_of_valueThen hval
      exact ⟨[], _, r, by simp [h₃], blank_nil, .array hl hv, hr⟩
  · obtain ⟨u, r, rfl, hu, hr⟩ := ht
    exact ⟨[], Ascii.minus :: u, r, by simp [h₄], blank_nil, .number (number_of_minus hu), hr⟩
  · obtain ⟨u, r, rfl, hu, hr⟩ := ht
    exact ⟨[], 48 :: u, r, by simp [h₅], blank_nil, .number (number_of_zero hu), hr⟩
  · obtain ⟨u, r, rfl, hu, hr⟩ := ht
    exact ⟨[], b :: u, r, by simp, blank_nil, .number (number_of_digit h₆ h₅ hu), hr⟩
  · obtain ⟨r, rfl, hr⟩ := ht
    exact ⟨[], ascii "null", r, by simp [h₇, ascii], blank_nil, .literalNull, hr⟩
  · obtain ⟨r, rfl, hr⟩ := ht
    exact ⟨[], ascii "true", r, by simp [h₈, ascii], blank_nil, .literalTrue, hr⟩
  · obtain ⟨r, rfl, hr⟩ := ht
    exact ⟨[], ascii "false", r, by simp [h₉, ascii], blank_nil, .literalFalse, hr⟩

theorem valueThen_blank {b : UInt8} {st : List Frame} {t : Bytes} (hb : isBlank b = true)
    (ht : ValueThen st t) : ValueThen st (b :: t) := by
  obtain ⟨w, v, r, rfl, hw, hrest⟩ := ht
  exact ⟨b :: w, v, r, rfl, blank_cons hb hw, hrest⟩

theorem keyThen_blank {b : UInt8} {st : List Frame} {t : Bytes} (hb : isBlank b = true)
    (ht : KeyThen st t) : KeyThen st (b :: t) := by
  obtain ⟨w, s, r, rfl, hw, hrest⟩ := ht
  exact ⟨b :: w, s, r, rfl, blank_cons hb hw, hrest⟩

theorem keyThen_quote {st : List Frame} {t : Bytes} (ht : Lang (.str true .plain) st t) :
    KeyThen st (quote :: t) := by
  obtain ⟨s, r, rfl, hs, hr⟩ := ht
  exact ⟨[], s, r, rfl, blank_nil, hs, by simpa using hr⟩

theorem lang_step {b : UInt8} {m m' : Mode} {st st' : List Frame} {t : Bytes}
    (hstep : step b (m, st) = some (m', st')) (ht : Lang m' st' t) : Lang m st (b :: t) := by
  cases m with
  | value =>
    simp only [step] at hstep
    split_ifs at hstep with hb
    · cases hstep
      exact valueThen_blank hb ht
    · exact valueThen_start hstep ht
  | firstItem =>
    simp only [step] at hstep
    split_ifs at hstep with hb hc
    · cases hstep
      rcases ht with ⟨w, r, rfl, hw, hr⟩ | hv
      · exact Or.inl ⟨b :: w, r, rfl, blank_cons hb hw, hr⟩
      · exact Or.inr (valueThen_blank hb hv)
    · cases hstep
      exact Or.inl ⟨[], t, by simp [hc], blank_nil, ht⟩
    · exact Or.inr (valueThen_start hstep ht)
  | key =>
    simp only [step] at hstep
    split_ifs at hstep with hb hq <;> cases hstep
    · exact keyThen_blank hb ht
    · exact hq ▸ keyThen_quote ht
  | firstKey =>
    simp only [step] at hstep
    split_ifs at hstep with hb hc hq <;> cases hstep
    · rcases ht with ⟨w, r, rfl, hw, hr⟩ | hk
      · exact Or.inl ⟨b :: w, r, rfl, blank_cons hb hw, hr⟩
      · exact Or.inr (keyThen_blank hb hk)
    · exact Or.inl ⟨[], t, by simp [hc], blank_nil, ht⟩
    · exact Or.inr (hq ▸ keyThen_quote ht)
  | colon =>
    simp only [step] at hstep
    split_ifs at hstep with hb hc <;> cases hstep
    · obtain ⟨w, r, rfl, hw, hr⟩ := ht
      exact ⟨b :: w, r, rfl, blank_cons hb hw, hr⟩
    · exact ⟨[], t, by simp [hc], blank_nil, ht⟩
  | str isKey q =>
    by_cases hq : b = quote ∧ q = .plain
    · simp only [step, if_pos hq, Option.some.injEq] at hstep
      obtain ⟨rfl, rfl⟩ := hq
      cases isKey with
      | true =>
        cases hstep
        exact ⟨[], t, rfl, .nil, ht⟩
      | false =>
        cases hstep
        exact ⟨[], t, rfl, .nil, ht⟩
    · simp only [step, if_neg hq] at hstep
      obtain ⟨q', hq', heq⟩ := Option.map_eq_some_iff.mp hstep
      cases heq
      obtain ⟨s, r, rfl, hs, hr⟩ := ht
      exact ⟨b :: s, r, rfl, inString_cons hq' hs, hr⟩
  | num q =>
    simp only [step] at hstep
    split at hstep
    · rename_i q' hq'
      cases hstep
      obtain ⟨u, r, rfl, hu, hr⟩ := ht
      exact ⟨b :: u, r, rfl, numTail_cons hq' hu, hr⟩
    · split_ifs at hstep with hc
      exact ⟨[], b :: t, rfl, numTail_nil hc, suffix_cons hstep ht⟩
  | literal c rest =>
    simp only [step] at hstep
    by_cases hc : b = c
    · subst hc
      cases rest with
      | nil =>
        simp only [if_pos, Option.some.injEq] at hstep
        cases hstep
        exact ⟨t, rfl, ht⟩
      | cons d rest =>
        simp only [if_pos, Option.some.injEq] at hstep
        cases hstep
        obtain ⟨r, rfl, hr⟩ := ht
        exact ⟨r, rfl, hr⟩
    · simp only [if_neg hc, reduceCtorEq] at hstep
  | done => exact suffix_cons hstep ht

theorem lang_of_run {t : Bytes} {c d : Config} (h : run t c = some d) (hd : Final d) :
    Lang c.1 c.2 t := by
  induction t generalizing c with
  | nil =>
    obtain ⟨m, st⟩ := c
    cases h
    obtain ⟨hst, rfl | ⟨q, hq, rfl⟩⟩ := hd
    · cases hst
      exact blank_nil
    · cases hst
      exact ⟨[], [], rfl, numTail_nil hq, blank_nil⟩
  | cons b t ih =>
    rw [run_cons] at h
    obtain ⟨c', hstep, hrun⟩ := Option.bind_eq_some_iff.mp h
    exact lang_step hstep (ih hrun)

/-- The scanner decides the grammar. -/
theorem accepts_iff_text {t : Bytes} : Accepts t ↔ Text t := by
  constructor
  · intro h
    obtain ⟨d, hrun, hd⟩ := h
    have hlang : ValueThen [] t := lang_of_run hrun hd
    obtain ⟨w, v, r, rfl, hw, hv, hr⟩ := hlang
    have hblank : Blank r := hr
    exact ⟨w, v, r, hw, hv, hblank, rfl⟩
  · exact Text.accepts

end Json
