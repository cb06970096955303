import HSFinancialServices.Lib.JsonGrammar

/-!
# A JSON text has one derivation

The first byte of a value says what it is, and what follows a value says where it ends.
Two readings of a text as an object have the same members, and a string has one value.
-/

namespace Json
open Ascii

def Stops (p : UInt8 → Bool) (r : Bytes) : Prop := ∀ b ∈ r.head?, p b = false

theorem stops_cons {p : UInt8 → Bool} {b : UInt8} (h : p b = false) (r : Bytes) :
    Stops p (b :: r) := by
  intro c hc
  rwa [← Option.mem_some.mp hc]

instance (p : UInt8 → Bool) (r : Bytes) : Decidable (Stops p r) :=
  match r with
  | [] => isTrue (by intro b hb; cases hb)
  | b :: r => decidable_of_iff (p b = false) ⟨fun h => stops_cons h r, fun h => h b rfl⟩

theorem takeWhile_append_of_stops {p : UInt8 → Bool} {w r : Bytes} (hw : ∀ b ∈ w, p b = true)
    (hr : Stops p r) : (w ++ r).takeWhile p = w := by
  rw [List.takeWhile_append_of_pos hw]
  cases r with
  | nil => simp
  | cons b r =>
    have hb : ¬ p b = true := by
      rw [hr b rfl]
      exact Bool.false_ne_true
    rw [List.takeWhile_cons_of_neg hb, List.append_nil]

theorem run_inj {p : UInt8 → Bool} {w w' r r' : Bytes} (hw : ∀ b ∈ w, p b = true)
    (hw' : ∀ b ∈ w', p b = true) (hr : Stops p r) (hr' : Stops p r') (h : w ++ r = w' ++ r') :
    w = w' ∧ r = r' := by
  have hrun := congrArg (List.takeWhile p) h
  rw [takeWhile_append_of_stops hw hr, takeWhile_append_of_stops hw' hr'] at hrun
  subst hrun
  exact ⟨rfl, List.append_cancel_left h⟩

theorem chars_quote_inj {s s' r r' : Bytes} (hs : Chars s) (hs' : Chars s')
    (h : s ++ quote :: r = s' ++ quote :: r') : s = s' ∧ r = r' := by
  induction hs generalizing s' with
  | nil =>
    cases hs' with
    | nil => exact ⟨rfl, (List.cons.inj h).2⟩
    | plain hb _ =>
      rw [← (List.cons.inj h).1] at hb
      exact absurd hb (by decide)
    | escape hb _ => exact absurd (List.cons.inj h).1 (by decide)
    | unicode _ _ _ _ _ => exact absurd (List.cons.inj h).1 (by decide)
  | @plain b s hb _ ih =>
    cases hs' with
    | nil =>
      rw [(List.cons.inj h).1] at hb
      exact absurd hb (by decide)
    | plain hb' hs' =>
      obtain ⟨rfl, htail⟩ := List.cons.inj h
      obtain ⟨rfl, hrest⟩ := ih hs' htail
      exact ⟨rfl, hrest⟩
    | escape hb' _ =>
      rw [(List.cons.inj h).1] at hb
      exact absurd hb (by decide)
    | unicode _ _ _ _ _ =>
      rw [(List.cons.inj h).1] at hb
      exact absurd hb (by decide)
  | @escape b s hb _ ih =>
    cases hs' with
    | nil => exact absurd (List.cons.inj h).1 (by decide)
    | plain hb' _ =>
      rw [← (List.cons.inj h).1] at hb'
      exact absurd hb' (by decide)
    | escape hb' hs' =>
      obtain ⟨rfl, htail⟩ := List.cons.inj (List.cons.inj h).2
      obtain ⟨rfl, hrest⟩ := ih hs' htail
      exact ⟨rfl, hrest⟩
    | unicode _ _ _ _ _ =>
      rw [(List.cons.inj (List.cons.inj h).2).1] at hb
      exact absurd hb (by decide)
  | @unicode a b c d s _ _ _ _ _ ih =>
    cases hs' with
    | nil => exact absurd (List.cons.inj h).1 (by decide)
    | plain hb' _ =>
      rw [← (List.cons.inj h).1] at hb'
      exact absurd hb' (by decide)
    | escape hb' _ =>
      rw [← (List.cons.inj (List.cons.inj h).2).1] at hb'
      exact absurd hb' (by decide)
    | unicode _ _ _ _ hs' =>
      simp only [List.cons_append, List.cons.injEq, true_and] at h
      obtain ⟨rfl, rfl, rfl, rfl, htail⟩ := h
      obtain ⟨rfl, hrest⟩ := ih hs' htail
      exact ⟨rfl, hrest⟩

theorem not_surrogate (ch : Char) : ¬ (0xD800 ≤ ch.toNat ∧ ch.toNat < 0xE000) := by
  have hvalid : ch.toNat < 0xD800 ∨ (0xDFFF < ch.toNat ∧ ch.toNat < 0x110000) := ch.valid
  omega

theorem Decodes.unique {s v v' : Bytes} (h : Decodes s v) (h' : Decodes s v') : v = v' := by
  induction h generalizing v' with
  | nil =>
    cases h'
    rfl
  | plain hb _ ih =>
    cases h' with
    | plain _ h' => rw [ih h']
    | escape _ _ => exact absurd hb (by decide)
    | unicode _ _ _ _ _ _ _ => exact absurd hb (by decide)
    | surrogates _ _ _ _ _ _ _ _ _ _ _ _ _ _ _ => exact absurd hb (by decide)
  | escape hb _ ih =>
    cases h' with
    | plain hb' _ => exact absurd hb' (by decide)
    | escape _ h' => rw [ih h']
    | unicode _ _ _ _ _ _ _ => exact absurd hb (by decide)
    | surrogates _ _ _ _ _ _ _ _ _ _ _ _ _ _ _ => exact absurd hb (by decide)
  | unicode ch _ _ _ _ hch _ ih =>
    cases h' with
    | plain hb' _ => exact absurd hb' (by decide)
    | escape hb' _ => exact absurd hb' (by decide)
    | unicode ch' _ _ _ _ hch' h' =>
      rw [ih h', Char.toNat_inj.mp (hch.symm.trans hch')]
    | surrogates _ _ _ _ _ _ _ _ _ hlow hhigh _ _ _ _ =>
      exact absurd ⟨hch ▸ hlow, by omega⟩ (not_surrogate ch)
  | surrogates ch _ _ _ _ _ _ _ _ hlow hhigh _ _ hch _ ih =>
    cases h' with
    | plain hb' _ => exact absurd hb' (by decide)
    | escape hb' _ => exact absurd hb' (by decide)
    | unicode ch' _ _ _ _ hch' _ =>
      exact absurd ⟨hch' ▸ hlow, by omega⟩ (not_surrogate ch')
    | surrogates ch' _ _ _ _ _ _ _ _ _ _ _ _ hch' h' =>
      rw [ih h', Char.toNat_inj.mp (hch.trans hch'.symm)]

def isNumeric (b : UInt8) : Bool :=
  isDigit b || b == point || b == minus || b == plus || b == letterE || b == capitalE

theorem isNumeric_of_isDigit {b : UInt8} (h : isDigit b = true) : isNumeric b = true := by
  simp [isNumeric, h]

theorem Digits.isNumeric {t : Bytes} (h : Digits t) : ∀ b ∈ t, isNumeric b = true :=
  fun b hb => isNumeric_of_isDigit (h.2 b hb)

theorem IntPart.isNumeric {t : Bytes} (h : IntPart t) : ∀ b ∈ t, isNumeric b = true := by
  cases h with
  | zero => exact List.all_eq_true.mp (by decide)
  | positive hb _ ht =>
    exact List.forall_mem_cons.mpr
      ⟨isNumeric_of_isDigit hb, fun c hc => isNumeric_of_isDigit (ht c hc)⟩

theorem FracPart.isNumeric {t : Bytes} (h : FracPart t) : ∀ b ∈ t, isNumeric b = true := by
  cases h with
  | absent => exact List.forall_mem_nil _
  | present ht => exact List.forall_mem_cons.mpr ⟨rfl, ht.isNumeric⟩

theorem ExpPart.isNumeric {t : Bytes} (h : ExpPart t) : ∀ b ∈ t, isNumeric b = true := by
  cases h with
  | absent => exact List.forall_mem_nil _
  | unsigned he ht =>
    refine List.forall_mem_cons.mpr ⟨?_, ht.isNumeric⟩
    obtain rfl | rfl := he <;> rfl
  | signed he hsign ht =>
    refine List.forall_mem_cons.mpr ⟨?_, List.forall_mem_cons.mpr ⟨?_, ht.isNumeric⟩⟩
    · obtain rfl | rfl := he <;> rfl
    · obtain rfl | rfl := hsign <;> rfl

theorem Number.isNumeric {t : Bytes} (h : Number t) : ∀ b ∈ t, isNumeric b = true := by
  cases h with
  | positive hi hf he =>
    exact List.forall_mem_append.mpr
      ⟨List.forall_mem_append.mpr ⟨hi.isNumeric, hf.isNumeric⟩, he.isNumeric⟩
  | negative hi hf he =>
    exact List.forall_mem_append.mpr
      ⟨List.forall_mem_append.mpr
        ⟨List.forall_mem_cons.mpr ⟨rfl, hi.isNumeric⟩, hf.isNumeric⟩, he.isNumeric⟩

theorem Number.head {t : Bytes} (h : Number t) :
    ∃ b u, t = b :: u ∧ (isDigit b = true ∨ b = minus) := by
  cases h with
  | positive hi _ _ =>
    cases hi with
    | zero => exact ⟨_, _, rfl, .inl rfl⟩
    | positive hb _ _ => exact ⟨_, _, rfl, .inl hb⟩
  | negative _ _ _ => exact ⟨_, _, rfl, .inr rfl⟩

inductive Kind
  | literalNull
  | literalTrue
  | literalFalse
  | number
  | string
  | array
  | object
  deriving DecidableEq

def kindOf (b : UInt8) : Kind :=
  if b = 110 then .literalNull else if b = 116 then .literalTrue
  else if b = 102 then .literalFalse else if b = quote then .string
  else if b = openBracket then .array else if b = openBrace then .object else .number

inductive Layer : Kind → Bytes → Prop
  | literalNull : Layer .literalNull (ascii "null")
  | literalTrue : Layer .literalTrue (ascii "true")
  | literalFalse : Layer .literalFalse (ascii "false")
  | number {t : Bytes} : Number t → Layer .number t
  | string {s : Bytes} : Chars s → Layer .string (quote :: s ++ [quote])
  | emptyArray {w : Bytes} : Blank w → Layer .array (openBracket :: w ++ [closeBracket])
  | array {i : Item} {is : List Item} : (∀ j ∈ i :: is, j.Layout ∧ Value j.value) →
      Layer .array (openBracket :: commaSeparated i.text (is.map Item.text) ++ [closeBracket])
  | emptyObject {w : Bytes} : Blank w → Layer .object (openBrace :: w ++ [closeBrace])
  | object {m : Member} {ms : List Member} : (∀ n ∈ m :: ms, n.Layout ∧ Value n.value) →
      Layer .object (openBrace :: commaSeparated m.text (ms.map Member.text) ++ [closeBrace])

def isClosing (b : UInt8) : Bool :=
  isBlank b || b == comma || b == colon || b == closeBracket || b == closeBrace

theorem isDigit_or_minus_kind {b : UInt8} (h : isDigit b = true ∨ b = minus) :
    kindOf b = .number ∧ isClosing b = false := by
  obtain h | rfl := h
  · obtain rfl | rfl | rfl | rfl | rfl | rfl | rfl | rfl | rfl | rfl := digit_cases h <;> decide
  · decide

theorem Value.layer {v : Bytes} (h : Value v) :
    ∃ b t, v = b :: t ∧ Layer (kindOf b) v ∧ isClosing b = false := by
  cases h with
  | literalNull => exact ⟨_, _, rfl, .literalNull, by decide⟩
  | literalTrue => exact ⟨_, _, rfl, .literalTrue, by decide⟩
  | literalFalse => exact ⟨_, _, rfl, .literalFalse, by decide⟩
  | number hn =>
    obtain ⟨b, u, rfl, hb⟩ := hn.head
    obtain ⟨hkind, hclosing⟩ := isDigit_or_minus_kind hb
    exact ⟨b, u, rfl, hkind ▸ .number hn, hclosing⟩
  | string hs => exact ⟨_, _, rfl, .string hs, by decide⟩
  | emptyArray hw => exact ⟨_, _, rfl, .emptyArray hw, by decide⟩
  | array hl hv => exact ⟨_, _, rfl, .array fun j hj => ⟨hl j hj, hv j hj⟩, by decide⟩
  | emptyObject hw => exact ⟨_, _, rfl, .emptyObject hw, by decide⟩
  | object hl hv => exact ⟨_, _, rfl, .object fun n hn => ⟨hl n hn, hv n hn⟩, by decide⟩

/-- A value that ends where the text stops being a number, if it is one, ends in one place. -/
def EndsAt (v : Bytes) : Prop :=
  ∀ v' r r', Value v' → Stops isNumeric r → Stops isNumeric r' → v ++ r = v' ++ r' →
    v = v' ∧ r = r'

def Delimited (close : UInt8) (r : Bytes) : Prop := ∃ b u, r = b :: u ∧ (b = comma ∨ b = close)

section Sequences
variable {ι : Type*} {text : ι → Bytes} {P : ι → Prop} {close : UInt8}

theorem delimited_rest (is : List ι) (r : Bytes) :
    Delimited close (((is.map text).flatMap fun t => comma :: t) ++ close :: r) := by
  cases is with
  | nil => exact ⟨close, r, rfl, .inr rfl⟩
  | cons i is => exact ⟨comma, _, rfl, .inl rfl⟩

theorem separated_inj (hclose : close ≠ comma) {i i' : ι} {is is' : List ι} {r r' : Bytes}
    (hends : ∀ j ∈ i :: is, ∀ j' s s', P j' → Delimited close s → Delimited close s' →
      text j ++ s = text j' ++ s' → j = j' ∧ s = s')
    (hP : ∀ j ∈ i' :: is', P j)
    (h : commaSeparated (text i) (is.map text) ++ close :: r =
      commaSeparated (text i') (is'.map text) ++ close :: r') :
    i = i' ∧ is = is' ∧ r = r' := by
  have hhead : ∀ (k : ι) (ks : List ι) (t : Bytes),
      commaSeparated (text k) (ks.map text) ++ close :: t =
        text k ++ (((ks.map text).flatMap fun u => comma :: u) ++ close :: t) := by
    intro k ks t
    rw [commaSeparated, List.append_assoc]
  induction is generalizing i i' is' with
  | nil =>
    rw [hhead, hhead] at h
    obtain ⟨rfl, hrest⟩ := hends i List.mem_cons_self i' _ _ (hP i' List.mem_cons_self)
      (delimited_rest [] r) (delimited_rest is' r') h
    cases is' with
    | nil => exact ⟨rfl, rfl, (List.cons.inj hrest).2⟩
    | cons j' js' => exact absurd (List.cons.inj hrest).1 hclose
  | cons j js ih =>
    rw [hhead, hhead] at h
    obtain ⟨rfl, hrest⟩ := hends i List.mem_cons_self i' _ _ (hP i' List.mem_cons_self)
      (delimited_rest (j :: js) r) (delimited_rest is' r') h
    cases is' with
    | nil => exact absurd (List.cons.inj hrest).1.symm hclose
    | cons j' js' =>
      have htail : commaSeparated (text j) (js.map text) ++ close :: r =
          commaSeparated (text j') (js'.map text) ++ close :: r' := by
        rw [hhead, hhead]
        simpa only [List.map_cons, List.flatMap_cons, List.cons_append, List.cons.injEq, true_and,
          List.append_assoc] using hrest
      obtain ⟨rfl, rfl, hr⟩ := ih (fun k hk => hends k (List.mem_cons_of_mem _ hk))
        (fun k hk => hP k (List.mem_cons_of_mem _ hk)) htail
      exact ⟨rfl, rfl, hr⟩

end Sequences

theorem stops_of_value {v : Bytes} (h : Value v) (r : Bytes) : Stops isBlank (v ++ r) := by
  obtain ⟨b, t, rfl, -, hb⟩ := h.layer
  refine stops_cons ?_ (t ++ r)
  simp only [isClosing, Bool.or_eq_false_iff] at hb
  exact hb.1.1.1.1

theorem isNumeric_of_isBlank {b : UInt8} (h : isBlank b = true) : isNumeric b = false := by
  simp only [isBlank, Bool.or_eq_true, beq_iff_eq] at h
  obtain ((rfl | rfl) | rfl) | rfl := h <;> decide

theorem stops_of_delimited {close : UInt8} (hclose : isNumeric close = false) {w r : Bytes}
    (hw : Blank w) (hr : Delimited close r) : Stops isNumeric (w ++ r) := by
  cases w with
  | nil =>
    obtain ⟨b, u, rfl, rfl | rfl⟩ := hr
    · exact stops_cons (by decide) u
    · exact stops_cons hclose u
  | cons b w => exact stops_cons (isNumeric_of_isBlank (hw b List.mem_cons_self)) (w ++ r)

theorem stops_blank_of_delimited {close : UInt8} (hclose : isBlank close = false) {r : Bytes}
    (hr : Delimited close r) : Stops isBlank r := by
  obtain ⟨b, u, rfl, rfl | rfl⟩ := hr
  · exact stops_cons (by decide) u
  · exact stops_cons hclose u

theorem item_ends {i i' : Item} {s s' : Bytes} (hl : i.Layout) (hv : Value i.value)
    (hends : EndsAt i.value) (h' : i'.Layout ∧ Value i'.value) (hs : Delimited closeBracket s)
    (hs' : Delimited closeBracket s') (h : i.text ++ s = i'.text ++ s') : i = i' ∧ s = s' := by
  simp only [Item.text, List.append_assoc] at h
  obtain ⟨hbefore, h⟩ := run_inj hl.1 h'.1.1 (stops_of_value hv _) (stops_of_value h'.2 _) h
  obtain ⟨hvalue, h⟩ := hends _ _ _ h'.2 (stops_of_delimited (by decide) hl.2 hs)
    (stops_of_delimited (by decide) h'.1.2 hs') h
  obtain ⟨hafter, h⟩ := run_inj hl.2 h'.1.2 (stops_blank_of_delimited (by decide) hs)
    (stops_blank_of_delimited (by decide) hs') h
  cases i
  cases i'
  simp_all only [and_self]

theorem member_ends {m m' : Member} {s s' : Bytes} (hl : m.Layout) (hv : Value m.value)
    (hends : EndsAt m.value) (h' : m'.Layout ∧ Value m'.value) (hs : Delimited closeBrace s)
    (hs' : Delimited closeBrace s') (h : m.text ++ s = m'.text ++ s') : m = m' ∧ s = s' := by
  obtain ⟨hbefore, hkey, hafterKey, hbeforeValue, hafter⟩ := hl
  obtain ⟨⟨hbefore', hkey', hafterKey', hbeforeValue', hafter'⟩, hv'⟩ := h'
  simp only [Member.text, List.append_assoc, List.cons_append] at h
  obtain ⟨h₁, h⟩ := run_inj hbefore hbefore' (stops_cons (by decide) _) (stops_cons (by decide) _) h
  obtain ⟨h₂, h⟩ := chars_quote_inj hkey hkey' (List.cons.inj h).2
  obtain ⟨h₃, h⟩ := run_inj hafterKey hafterKey' (stops_cons (by decide) _)
    (stops_cons (by decide) _) h
  obtain ⟨h₄, h⟩ := run_inj hbeforeValue hbeforeValue' (stops_of_value hv _) (stops_of_value hv' _)
    (List.cons.inj h).2
  obtain ⟨h₅, h⟩ := hends _ _ _ hv' (stops_of_delimited (by decide) hafter hs)
    (stops_of_delimited (by decide) hafter' hs') h
  obtain ⟨h₆, h⟩ := run_inj hafter hafter' (stops_blank_of_delimited (by decide) hs)
    (stops_blank_of_delimited (by decide) hs') h
  cases m
  cases m'
  simp_all only [and_self]

theorem blank_ne_value {close : UInt8} (hblank : isBlank close = false)
    (hclosing : isClosing close = true) {w before value r r' : Bytes} (hw : Blank w)
    (hbefore : Blank before) (hv : Value value) : w ++ close :: r ≠ before ++ (value ++ r') := by
  intro h
  obtain ⟨-, hrest⟩ := run_inj hw hbefore (stops_cons hblank _) (stops_of_value hv _) h
  obtain ⟨b, t, rfl, -, hb⟩ := hv.layer
  rw [← (List.cons.inj hrest).1, hclosing] at hb
  cases hb

theorem blank_ne_member {w r r' : Bytes} (hw : Blank w) {m : Member} (hm : m.Layout) :
    w ++ closeBrace :: r ≠ m.text ++ r' := by
  intro h
  simp only [Member.text, List.append_assoc, List.cons_append] at h
  obtain ⟨-, hrest⟩ := run_inj hw hm.1 (stops_cons (by decide) _) (stops_cons (by decide) _) h
  exact absurd (List.cons.inj hrest).1 (by decide)

theorem Value.layer_of_append {b : UInt8} {t v r r' : Bytes} (h : Value v)
    (heq : b :: (t ++ r) = v ++ r') : Layer (kindOf b) v := by
  obtain ⟨c, u, rfl, hlayer, -⟩ := h.layer
  rwa [(List.cons.inj heq).1]

theorem Value.endsAt {v : Bytes} (h : Value v) : EndsAt v := by
  induction h with
  | literalNull =>
    intro v' r r' hv' _ _ heq
    have hlayer : Layer .literalNull v' := hv'.layer_of_append (b := 110) (t := ascii "ull") heq
    cases hlayer
    exact ⟨rfl, List.append_cancel_left heq⟩
  | literalTrue =>
    intro v' r r' hv' _ _ heq
    have hlayer : Layer .literalTrue v' := hv'.layer_of_append (b := 116) (t := ascii "rue") heq
    cases hlayer
    exact ⟨rfl, List.append_cancel_left heq⟩
  | literalFalse =>
    intro v' r r' hv' _ _ heq
    have hlayer : Layer .literalFalse v' := hv'.layer_of_append (b := 102) (t := ascii "alse") heq
    cases hlayer
    exact ⟨rfl, List.append_cancel_left heq⟩
  | number hn =>
    intro v' r r' hv' hr hr' heq
    obtain ⟨b, t, rfl, hb⟩ := hn.head
    have hlayer := hv'.layer_of_append heq
    rw [(isDigit_or_minus_kind hb).1] at hlayer
    cases hlayer with
    | number hn' => exact run_inj hn.isNumeric hn'.isNumeric hr hr' heq
  | string hs =>
    intro v' r r' hv' _ _ heq
    have hlayer : Layer .string v' := hv'.layer_of_append heq
    cases hlayer with
    | string hs' =>
      simp only [List.cons_append, List.append_assoc, List.cons.injEq, true_and,
        List.nil_append] at heq
      obtain ⟨rfl, hrest⟩ := chars_quote_inj hs hs' heq
      exact ⟨rfl, hrest⟩
  | emptyArray hw =>
    intro v' r r' hv' _ _ heq
    have hlayer : Layer .array v' := hv'.layer_of_append heq
    cases hlayer with
    | emptyArray hw' =>
      simp only [List.cons_append, List.append_assoc, List.cons.injEq, true_and,
        List.nil_append] at heq
      obtain ⟨rfl, hrest⟩ :=
        run_inj hw hw' (stops_cons (by decide) _) (stops_cons (by decide) _) heq
      exact ⟨rfl, (List.cons.inj hrest).2⟩
    | @array i is hall =>
      obtain ⟨hl, hv⟩ := hall i List.mem_cons_self
      simp only [commaSeparated, Item.text, List.cons_append, List.append_assoc, List.cons.injEq,
        true_and, List.nil_append] at heq
      exact absurd heq (blank_ne_value (by decide) (by decide) hw hl.1 hv)
  | @array i is hl hv ih =>
    intro v' r r' hv' _ _ heq
    have hlayer : Layer .array v' := hv'.layer_of_append heq
    cases hlayer with
    | emptyArray hw' =>
      simp only [commaSeparated, Item.text, List.cons_append, List.append_assoc, List.cons.injEq,
        true_and, List.nil_append] at heq
      exact absurd heq.symm (blank_ne_value (by decide) (by decide) hw'
        (hl i List.mem_cons_self).1 (hv i List.mem_cons_self))
    | @array i' is' hall =>
      simp only [List.cons_append, List.append_assoc, List.cons.injEq, true_and,
        List.nil_append] at heq
      obtain ⟨rfl, rfl, hrest⟩ := separated_inj (by decide)
        (fun j hj j' s s' hj' => item_ends (hl j hj) (hv j hj) (ih j hj) hj') hall heq
      exact ⟨rfl, hrest⟩
  | emptyObject hw =>
    intro v' r r' hv' _ _ heq
    have hlayer : Layer .object v' := hv'.layer_of_append heq
    cases hlayer with
    | emptyObject hw' =>
      simp only [List.cons_append, List.append_assoc, List.cons.injEq, true_and,
        List.nil_append] at heq
      obtain ⟨rfl, hrest⟩ :=
        run_inj hw hw' (stops_cons (by decide) _) (stops_cons (by decide) _) heq
      exact ⟨rfl, (List.cons.inj hrest).2⟩
    | @object m ms hall =>
      simp only [commaSeparated, List.cons_append, List.append_assoc, List.cons.injEq, true_and,
        List.nil_append] at heq
      exact absurd heq (blank_ne_member hw (hall m List.mem_cons_self).1)
  | @object m ms hl hv ih =>
    intro v' r r' hv' _ _ heq
    have hlayer : Layer .object v' := hv'.layer_of_append heq
    cases hlayer with
    | emptyObject hw' =>
      simp only [commaSeparated, List.cons_append, List.append_assoc, List.cons.injEq, true_and,
        List.nil_append] at heq
      exact absurd heq.symm (blank_ne_member hw' (hl m List.mem_cons_self))
    | @object m' ms' hall =>
      simp only [List.cons_append, List.append_assoc, List.cons.injEq, true_and,
        List.nil_append] at heq
      obtain ⟨rfl, rfl, hrest⟩ := separated_inj (by decide)
        (fun n hn n' s s' hn' => member_ends (hl n hn) (hv n hn) (ih n hn) hn') hall heq
      exact ⟨rfl, hrest⟩

theorem ObjectText.inside {t : Bytes} {ms : List Member} (h : ObjectText t ms) :
    ∃ w inner, Blank w ∧ t = w ++ openBrace :: inner ∧
      ((ms = [] ∧ ∃ u r, Blank u ∧ inner = u ++ closeBrace :: r) ∨
        ∃ m ns r, ms = m :: ns ∧
          inner = commaSeparated m.text (ns.map Member.text) ++ closeBrace :: r) := by
  obtain ⟨-, w, w', hw, -, hshape⟩ := h
  cases ms with
  | nil =>
    obtain ⟨u, hu, rfl⟩ := hshape
    exact ⟨w, _, hw, by rw [List.append_assoc, List.cons_append], .inl ⟨rfl, u, w', hu, rfl⟩⟩
  | cons m ns =>
    exact ⟨w, _, hw, by rw [hshape, List.append_assoc, List.cons_append],
      .inr ⟨m, ns, w', rfl, rfl⟩⟩

/-- A text has one reading as an object. -/
theorem ObjectText.unique {t : Bytes} {ms ms' : List Member} (h : ObjectText t ms)
    (h' : ObjectText t ms') : ms = ms' := by
  obtain ⟨w, inner, hw, htext, hshape⟩ := h.inside
  obtain ⟨w', inner', hw', htext', hshape'⟩ := h'.inside
  obtain ⟨-, heq⟩ := run_inj hw hw' (stops_cons (by decide) _) (stops_cons (by decide) _)
    (htext.symm.trans htext')
  obtain rfl := (List.cons.inj heq).2
  obtain ⟨rfl, u, r, hu, hinner⟩ | ⟨m, ns, r, rfl, hinner⟩ := hshape
  · obtain ⟨rfl, -⟩ | ⟨m', ns', r', rfl, hinner'⟩ := hshape'
    · rfl
    · have hmember := hinner.symm.trans hinner'
      rw [commaSeparated, List.append_assoc] at hmember
      exact absurd hmember (blank_ne_member hu (h'.1 m' List.mem_cons_self).1)
  · obtain ⟨rfl, u', r', hu', hinner'⟩ | ⟨m', ns', r', rfl, hinner'⟩ := hshape'
    · have hmember := hinner'.symm.trans hinner
      rw [commaSeparated, List.append_assoc] at hmember
      exact absurd hmember (blank_ne_member hu' (h.1 m List.mem_cons_self).1)
    · obtain ⟨rfl, rfl, -⟩ := separated_inj (by decide)
        (fun n hn n' s s' hn' => member_ends (h.1 n hn).1 (h.1 n hn).2 (h.1 n hn).2.endsAt hn')
        h'.1 (hinner.symm.trans hinner')
      rfl

def StringMember (ms : List Member) (key v : Bytes) : Prop :=
  ∃ m ∈ ms, Decodes m.key key ∧ (∃ s, m.value = quote :: s ++ [quote] ∧ Decodes s v) ∧
    ∀ n ∈ ms, Decodes n.key key → n = m

theorem StringMember.unique {ms : List Member} {key v v' : Bytes} (h : StringMember ms key v)
    (h' : StringMember ms key v') : v = v' := by
  obtain ⟨m, hm, hkey, ⟨s, hs, hv⟩, honly⟩ := h
  obtain ⟨m', hm', hkey', ⟨s', hs', hv'⟩, -⟩ := h'
  obtain rfl := honly m' hm' hkey'
  rw [hs] at hs'
  obtain rfl := List.append_cancel_right (List.cons.inj hs').2
  exact hv.unique hv'

end Json
