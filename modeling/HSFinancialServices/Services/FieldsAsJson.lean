import HSFinancialServices.Lib.JsonLength
import HSFinancialServices.Services.Handlers

/-!
# The extracted fields against the JSON value

The extractors work on bytes, the requests are JSON. A string field is read as its JSON
value where its member is written without blanks and escapes and nothing before it looks
like it, and a number exactly where it has no exponent.
-/

namespace HSFinancialServices.Services
open Ascii TextSearch Json

def IsStringMember (m : Member) (key v : Bytes) : Prop :=
  Decodes m.key key ∧ v ≠ [] ∧ ∃ s, m.value = quote :: s ++ [quote] ∧ Decodes s v

structure FirstString (ms before : List Member) (m : Member) (after : List Member)
    (key v : Bytes) : Prop where
  split : ms = before ++ m :: after
  member : IsStringMember m key v
  first : ∀ n ∈ before, ∀ v', ¬ IsStringMember n key v'

def FirstStringMember (ms : List Member) (key v : Bytes) : Prop :=
  ∃ before m after, FirstString ms before m after key v

/-- The member is written without escapes and without blanks around its colon, and nowhere
before it does the text spell the key in quotes, a colon and a quote. -/
structure Legible (json : Bytes) (before : List Member) (m : Member) (key v : Bytes) : Prop where
  sameKey : m.key = key
  afterKey : m.afterKey = []
  beforeValue : m.beforeValue = []
  value : m.value = quote :: v ++ [quote]
  first : ∀ i < keyPlace json before m, ¬ stringNeedle key <+: json.drop i

theorem cons_prefix_blank_iff {b : UInt8} {t w rest : Bytes} (hb : isBlank b = false)
    (hw : Blank w) : b :: t <+: w ++ b :: rest ↔ w = [] ∧ t <+: rest := by
  constructor
  · intro h
    cases w with
    | nil => exact ⟨rfl, (List.cons_prefix_cons.mp h).2⟩
    | cons c w =>
      have hhead : b = c := (List.cons_prefix_cons.mp h).1
      have hblank := hw c List.mem_cons_self
      rw [← hhead, hb] at hblank
      cases hblank
  · rintro ⟨rfl, h⟩
    exact List.cons_prefix_cons.mpr ⟨rfl, h⟩

/-- What the extractor takes at the place of a member is its value exactly where the member has
no escapes and no blanks around its colon. -/
theorem value_at_key_iff {m : Member} {key v : Bytes} (hm : IsStringMember m key v)
    (hafter : Blank m.afterKey) (hbefore : Blank m.beforeValue) (back : Bytes) :
    stringNeedle key ++ (v ++ [quote]) <+: quote :: (m.key ++ quote :: (m.afterKey ++
        colon :: (m.beforeValue ++ (m.value ++ back)))) ↔
      m.key = key ∧ m.afterKey = [] ∧ m.beforeValue = [] ∧ m.value = quote :: v ++ [quote] := by
  obtain ⟨hkey, -, s, hs, hv⟩ := hm
  have hneedle : stringNeedle key ++ (v ++ [quote]) =
      quote :: (key ++ quote :: (colon :: quote :: (v ++ [quote]))) := by simp [stringNeedle]
  have hvalue : m.value ++ back = quote :: (s ++ quote :: back) := by simp [hs]
  have hsame : s = v ↔ m.value = quote :: v ++ [quote] := by simp [hs]
  rw [hneedle, List.cons_prefix_cons, hkey.prefix_quote_iff,
    cons_prefix_blank_iff (by decide) hafter, hvalue, cons_prefix_blank_iff (by decide) hbefore,
    hv.prefix_quote_iff, hsame]
  simp

theorem legible_iff {json : Bytes} {before after : List Member} {m : Member} {key v : Bytes}
    (hjson : ObjectText json (before ++ m :: after)) (hm : IsStringMember m key v) :
    Legible json before m key v ↔ FirstAt (stringNeedle key) json (keyPlace json before m) ∧
      v ++ [quote] <+: json.drop (keyPlace json before m + (stringNeedle key).length) := by
  obtain ⟨-, -, hafter, hbefore, -⟩ := (hjson.1 m (by simp)).1
  obtain ⟨front, back, hplace, htext⟩ := hjson.member_split
  have hdrop : json.drop (keyPlace json before m) = quote :: (m.key ++ quote :: (m.afterKey ++
      colon :: (m.beforeValue ++ (m.value ++ back)))) := by
    rw [← hplace, htext, List.drop_left]
  have hat := value_at_key_iff hm hafter hbefore back
  rw [← hdrop, append_prefix_iff, List.drop_drop] at hat
  constructor
  · intro h
    obtain ⟨hneedle, hvalue⟩ := hat.mpr ⟨h.sameKey, h.afterKey, h.beforeValue, h.value⟩
    exact ⟨⟨hneedle, h.first⟩, hvalue⟩
  · rintro ⟨⟨hneedle, hfirst⟩, hvalue⟩
    obtain ⟨hkey, hafterKey, hbeforeValue, hplain⟩ := hat.mp ⟨hneedle, hvalue⟩
    exact ⟨hkey, hafterKey, hbeforeValue, hplain, hfirst⟩

/-- A value that stands in the text as it is has nothing to decode. -/
theorem Legible.quote_notMem {json : Bytes} {before : List Member} {m : Member} {key v : Bytes}
    (h : Legible json before m key v) (hm : IsStringMember m key v) : quote ∉ v := by
  obtain ⟨-, -, s, hs, hv⟩ := hm
  have hsame : s = v := by simpa [hs] using h.value
  subst hsame
  obtain ⟨hplain, -⟩ := hv.length_le.2 le_rfl
  intro hmem
  exact absurd (hplain quote hmem) (by decide)

/-- The first string member with the key is read where it is legible. Where it is not, the
value comes out only if it also stands behind the same spelling of the key at another place
of the text, and the extractor reads that place. -/
theorem extractString_reads_member (json : Bytes) {ms before after : List Member} {m : Member}
    {key v : Bytes} (hjson : ObjectText json ms) (hfirst : FirstString ms before m after key v) :
    (Legible json before m key v → extractString json key = v) ∧
      (extractString json key = v → Legible json before m key v ∨
        ∃ i ≠ keyPlace json before m, FirstAt (stringNeedle key) json i ∧
          v ++ [quote] <+: json.drop (i + (stringNeedle key).length)) := by
  obtain ⟨rfl, hm, -⟩ := hfirst
  have hlegible := legible_iff hjson hm
  rw [extractString_eq_cut, cut_eq_iff (stringNeedle_ne_nil key) hm.2.1]
  constructor
  · intro h
    obtain ⟨hat, hvalue⟩ := hlegible.mp h
    exact ⟨_, hat, hvalue, h.quote_notMem hm⟩
  · rintro ⟨i, hat, hvalue, -⟩
    by_cases heq : i = keyPlace json before m
    · subst heq
      exact Or.inl (hlegible.mpr ⟨hat, hvalue⟩)
    · exact Or.inr ⟨i, heq, hat, hvalue⟩

def accountMember (blank : Bytes) : Member :=
  ⟨blank, ascii "account", [], blank, ascii "\"ACC-001\"", blank⟩

theorem isPlain_account : ∀ b ∈ ascii "account", isPlain b = true :=
  List.all_eq_true.mp (by decide)

def accountRequest (blank : Bytes) : Bytes :=
  openBrace :: (accountMember blank).text ++ [closeBrace]

theorem accountRequest_object {blank : Bytes} (hblank : Blank blank) :
    ObjectText (accountRequest blank) [accountMember blank] := by
  refine ⟨?_, [], [], by simp [Blank], by simp [Blank], ?_⟩
  · intro n hn
    obtain rfl := List.mem_singleton.mp hn
    refine ⟨⟨hblank, chars_of_plain isPlain_account, by simp [Blank, accountMember], hblank,
      hblank⟩, ?_⟩
    exact Value.string (s := ascii "ACC-001") (chars_of_plain (List.all_eq_true.mp (by decide)))
  · simp [accountRequest, commaSeparated]

theorem accountRequest_first (blank : Bytes) : FirstString [accountMember blank] []
    (accountMember blank) [] (ascii "account") (ascii "ACC-001") where
  split := rfl
  member := ⟨decodes_of_plain isPlain_account, by decide, ascii "ACC-001", rfl,
    decodes_of_plain (List.all_eq_true.mp (by decide))⟩
  first := by simp

theorem extractString_reads_member_compact :
    Legible (accountRequest []) [] (accountMember []) (ascii "account") (ascii "ACC-001") ∧
      extractString (accountRequest []) (ascii "account") = ascii "ACC-001" := by
  have hlegible :
      Legible (accountRequest []) [] (accountMember []) (ascii "account") (ascii "ACC-001") :=
    ⟨rfl, rfl, rfl, rfl, by decide⟩
  have hreads := extractString_reads_member (accountRequest [])
    (accountRequest_object (by simp [Blank])) (accountRequest_first [])
  exact ⟨hlegible, hreads.1 hlegible⟩

-- the value of the member that is not legible, read from within the one before it
example : extractString (ascii "\x7b\"x\":\x7b\"account\":\"A\"\x7d,\"account\" : \"A\"\x7d")
    (ascii "account") = ascii "A" := by decide

theorem not_extractString_eq_value :
    ¬ ∀ (json : Bytes) (ms : List Member) (key v : Bytes), ObjectText json ms →
      FirstStringMember ms key v → extractString json key = v := by
  intro h
  have hread := h (accountRequest [space]) [accountMember [space]] (ascii "account")
    (ascii "ACC-001") (accountRequest_object (by simp [Blank, isBlank]))
    ⟨_, _, _, accountRequest_first [space]⟩
  revert hread
  decide

def NoExponent (n : Bytes) : Prop := letterE ∉ n ∧ capitalE ∉ n

theorem isNumberChar_of_isDigit {b : UInt8} (h : isDigit b = true) : isNumberChar b = true := by
  simp [isNumberChar, h]

theorem isNumberChar_of_digits {t : Bytes} (h : Digits t) : ∀ b ∈ t, isNumberChar b = true :=
  fun b hb => isNumberChar_of_isDigit (h.2 b hb)

theorem isNumberChar_of_intPart {i : Bytes} (h : IntPart i) : ∀ b ∈ i, isNumberChar b = true := by
  cases h with
  | zero => exact List.all_eq_true.mp (by decide)
  | positive hb _ ht =>
    exact List.forall_mem_cons.mpr
      ⟨isNumberChar_of_isDigit hb, fun c hc => isNumberChar_of_isDigit (ht c hc)⟩

theorem isNumberChar_of_fracPart {f : Bytes} (h : FracPart f) : ∀ b ∈ f, isNumberChar b = true := by
  cases h with
  | absent => simp
  | present ht => exact List.forall_mem_cons.mpr ⟨rfl, isNumberChar_of_digits ht⟩

theorem expPart_eq_nil_or {e : Bytes} (h : ExpPart e) :
    e = [] ∨ ∃ b t, e = b :: t ∧ (b = letterE ∨ b = capitalE) := by
  cases h with
  | absent => exact Or.inl rfl
  | unsigned hb _ => exact Or.inr ⟨_, _, rfl, hb⟩
  | signed hb _ _ => exact Or.inr ⟨_, _, rfl, hb⟩

theorem not_noExponent {b : UInt8} {n : Bytes} (hb : b = letterE ∨ b = capitalE) (hmem : b ∈ n) :
    ¬ NoExponent n := by
  intro h
  cases hb with
  | inl heq => exact h.1 (heq ▸ hmem)
  | inr heq => exact h.2 (heq ▸ hmem)

theorem forall_isNumberChar_iff {n : Bytes} (h : Number n) :
    (∀ b ∈ n, isNumberChar b = true) ↔ NoExponent n := by
  constructor
  · intro hall
    refine ⟨fun hmem => ?_, fun hmem => ?_⟩
    · exact absurd (hall _ hmem) (by decide)
    · exact absurd (hall _ hmem) (by decide)
  · intro hno
    cases h with
    | positive hi hf he =>
      cases expPart_eq_nil_or he with
      | inl hnil =>
        subst hnil
        rw [List.append_nil, List.forall_mem_append]
        exact ⟨isNumberChar_of_intPart hi, isNumberChar_of_fracPart hf⟩
      | inr hexp =>
        obtain ⟨b, t, rfl, hb⟩ := hexp
        exact absurd hno (not_noExponent hb (by simp))
    | negative hi hf he =>
      cases expPart_eq_nil_or he with
      | inl hnil =>
        subst hnil
        rw [List.append_nil, List.cons_append, List.forall_mem_cons, List.forall_mem_append]
        exact ⟨rfl, isNumberChar_of_intPart hi, isNumberChar_of_fracPart hf⟩
      | inr hexp =>
        obtain ⟨b, t, rfl, hb⟩ := hexp
        exact absurd hno (not_noExponent hb (by simp))

theorem number_head {n : Bytes} (h : Number n) :
    ∃ b t, n = b :: t ∧ isNumberChar b = true ∧ b ≠ space ∧ b ≠ tab := by
  have hdigit : ∀ b, isDigit b = true → isNumberChar b = true ∧ b ≠ space ∧ b ≠ tab := by
    intro b hb
    refine ⟨isNumberChar_of_isDigit hb, ?_, ?_⟩
    · intro heq
      exact absurd (heq ▸ hb) (by decide)
    · intro heq
      exact absurd (heq ▸ hb) (by decide)
  cases h with
  | positive hi _ _ =>
    cases hi with
    | zero => exact ⟨48, _, rfl, hdigit 48 rfl⟩
    | positive hb _ _ => exact ⟨_, _, rfl, hdigit _ hb⟩
  | negative _ _ _ => exact ⟨minus, _, rfl, rfl, by decide, by decide⟩

structure NumberField (json key n : Bytes) : Prop where
  number : Number n
  layout : ∃ before blanks rest, json = before ++ numberNeedle key ++ (blanks ++ n ++ rest) ∧
    FirstAt (numberNeedle key) json before.length ∧ (∀ b ∈ blanks, b = space ∨ b = tab) ∧
    (rest = [] ∨ ∃ r, rest = comma :: r ∨ rest = closeBrace :: r)

theorem extractNumber_eq_takeWhile {json key n : Bytes} (h : NumberField json key n) :
    extractNumber json key = n.takeWhile isNumberChar := by
  obtain ⟨before, blanks, rest, htext, hfirst, hblanks, hrest⟩ := h.layout
  obtain ⟨b, t, hn, hb, hspace, htab⟩ := number_head h.number
  have hdrop : json.drop (before.length + (numberNeedle key).length) = blanks ++ n ++ rest := by
    rw [htext, ← List.length_append, List.drop_left]
  have hskip : (blanks ++ n ++ rest).dropWhile (fun b => b == space || b == tab) = n ++ rest := by
    rw [List.append_assoc, List.dropWhile_append_of_pos (by simpa using hblanks), hn,
      List.cons_append, List.dropWhile_cons_of_neg (by simp [hspace, htab])]
  have hstop : rest.takeWhile isNumberChar = [] := by
    rcases hrest with rfl | ⟨r, rfl | rfl⟩ <;> rfl
  simp only [extractNumber, (find_eq_some_iff (numberNeedle_ne_nil key)).mpr hfirst, hdrop, hskip]
  rw [List.takeWhile_append]
  split_ifs with hlen
  · rw [hstop, List.append_nil]
    exact ((List.takeWhile_prefix _).eq_of_length hlen).symm
  · rfl

theorem extractNumber_eq_iff {json key n : Bytes} (h : NumberField json key n) :
    extractNumber json key = n ↔ NoExponent n := by
  rw [extractNumber_eq_takeWhile h, List.takeWhile_eq_self_iff]
  exact forall_isNumberChar_iff h.number

theorem orDefault_extractNumber {json key n : Bytes} (h : NumberField json key n) :
    orDefault (extractNumber json key) (ascii "0") = extractNumber json key := by
  obtain ⟨b, t, hn, hb, _, _⟩ := number_head h.number
  have hne : extractNumber json key ≠ [] := by
    rw [extractNumber_eq_takeWhile h, hn, List.takeWhile_cons_of_pos hb]
    exact List.cons_ne_nil _ _
  rw [orDefault, if_neg hne]

/-- A number is read, and acknowledged by an order, exactly as it is written if and only if
it is written without an exponent. -/
theorem order_numbers_survive_iff (json key n : Bytes) (h : NumberField json key n) :
    (extractNumber json key = n ↔ NoExponent n) ∧
      (key = ascii "qty" → ((readOrder json).qty = n ↔ NoExponent n)) ∧
      (key = ascii "price" → ((readOrder json).price = n ↔ NoExponent n)) := by
  have hread := extractNumber_eq_iff h
  refine ⟨hread, fun hkey => ?_, fun hkey => ?_⟩
  · subst hkey
    rw [readOrder, orDefault_extractNumber h]
    exact hread
  · subst hkey
    rw [readOrder, orDefault_extractNumber h]
    exact hread

def millionOrder : Bytes :=
  ascii "\x7b\"symbol\":\"AAPL\",\"qty\":100,\"price\":1e+06,\"account\":\"ACC-001\"\x7d"

theorem millionOrder_price : NumberField millionOrder (ascii "price") (ascii "1e+06") where
  number := Number.positive (i := ascii "1") (f := []) (e := ascii "e+06")
    (.positive rfl (by decide) (by simp)) .absent
    (.signed (Or.inl rfl) (Or.inl rfl) ⟨by decide, List.all_eq_true.mp (by decide)⟩)
  layout := ⟨ascii "\x7b\"symbol\":\"AAPL\",\"qty\":100,", [],
    ascii ",\"account\":\"ACC-001\"\x7d", by decide, by decide, by simp,
    Or.inr ⟨ascii "\"account\":\"ACC-001\"\x7d", Or.inl rfl⟩⟩

theorem order_numbers_survive_iff_million :
    NumberField millionOrder (ascii "price") (ascii "1e+06") ∧
      (extractNumber millionOrder (ascii "price") = ascii "1e+06" ↔
        NoExponent (ascii "1e+06")) :=
  ⟨millionOrder_price, (order_numbers_survive_iff _ _ _ millionOrder_price).1⟩

theorem not_order_numbers_survive :
    ¬ ∀ json key n : Bytes, NumberField json key n → extractNumber json key = n := by
  intro h
  have hread := h millionOrder (ascii "price") (ascii "1e+06") millionOrder_price
  revert hread
  decide

end HSFinancialServices.Services
