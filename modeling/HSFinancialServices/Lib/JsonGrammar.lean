import HSFinancialServices.Lib.Ascii
import Mathlib.Data.List.Basic

/-!
# The JSON grammar of RFC 8259 on bytes

Texts are byte lists. A byte of 0x80 or above belongs to a UTF-8 coded character
and is an unescaped string character wherever it stands. Whitespace is part of
the grammar, so a derivation fixes the layout of a text and not only its value.
-/

namespace Json
open Ascii

def isBlank (b : UInt8) : Bool := b == space || b == tab || b == newline || b == carriageReturn

def Blank (w : Bytes) : Prop := ∀ b ∈ w, isBlank b = true

def isPlain (b : UInt8) : Bool := 0x20 ≤ b && b != quote && b != backslash

def isSimpleEscape (b : UInt8) : Bool := (ascii "\"\\/bfnrt").contains b

def isHex (b : UInt8) : Bool := isDigit b || (97 ≤ b && b ≤ 102) || (65 ≤ b && b ≤ 70)

abbrev letterU : UInt8 := 117

inductive Chars : Bytes → Prop
  | nil : Chars []
  | plain {b : UInt8} {s : Bytes} : isPlain b = true → Chars s → Chars (b :: s)
  | escape {b : UInt8} {s : Bytes} :
      isSimpleEscape b = true → Chars s → Chars (backslash :: b :: s)
  | unicode {a b c d : UInt8} {s : Bytes} :
      isHex a = true → isHex b = true → isHex c = true → isHex d = true →
      Chars s → Chars (backslash :: letterU :: a :: b :: c :: d :: s)

def hexValue (b : UInt8) : ℕ :=
  if isDigit b then b.toNat - 48 else if 97 ≤ b then b.toNat - 87 else b.toNat - 55

def hex4 (a b c d : UInt8) : ℕ :=
  ((hexValue a * 16 + hexValue b) * 16 + hexValue c) * 16 + hexValue d

def unescape (b : UInt8) : UInt8 :=
  if b = 98 then 8 else if b = 102 then 12 else if b = 110 then newline
  else if b = 114 then carriageReturn else if b = 116 then tab else b

/-- The decoded value of a string. A lone surrogate stands for no character and has none. -/
inductive Decodes : Bytes → Bytes → Prop
  | nil : Decodes [] []
  | plain {b : UInt8} {s v : Bytes} : isPlain b = true → Decodes s v → Decodes (b :: s) (b :: v)
  | escape {b : UInt8} {s v : Bytes} : isSimpleEscape b = true → Decodes s v →
      Decodes (backslash :: b :: s) (unescape b :: v)
  | unicode {a b c d : UInt8} {s v : Bytes} (ch : Char) :
      isHex a = true → isHex b = true → isHex c = true → isHex d = true →
      hex4 a b c d = ch.toNat → Decodes s v →
      Decodes (backslash :: letterU :: a :: b :: c :: d :: s) (String.utf8EncodeChar ch ++ v)
  | surrogates {a b c d a' b' c' d' : UInt8} {s v : Bytes} (ch : Char) :
      isHex a = true → isHex b = true → isHex c = true → isHex d = true →
      isHex a' = true → isHex b' = true → isHex c' = true → isHex d' = true →
      0xD800 ≤ hex4 a b c d → hex4 a b c d < 0xDC00 →
      0xDC00 ≤ hex4 a' b' c' d' → hex4 a' b' c' d' < 0xE000 →
      ch.toNat = 0x10000 + (hex4 a b c d - 0xD800) * 0x400 + (hex4 a' b' c' d' - 0xDC00) →
      Decodes s v →
      Decodes (backslash :: letterU :: a :: b :: c :: d ::
        backslash :: letterU :: a' :: b' :: c' :: d' :: s) (String.utf8EncodeChar ch ++ v)

theorem Decodes.chars {s v : Bytes} (h : Decodes s v) : Chars s := by
  induction h with
  | nil => exact .nil
  | plain hb _ ih => exact .plain hb ih
  | escape hb _ ih => exact .escape hb ih
  | unicode ch ha hb hc hd _ _ ih => exact .unicode ha hb hc hd ih
  | surrogates ch ha hb hc hd ha' hb' hc' hd' _ _ _ _ _ _ ih =>
    exact .unicode ha hb hc hd (.unicode ha' hb' hc' hd' ih)

theorem Chars.append {s t : Bytes} (hs : Chars s) (ht : Chars t) : Chars (s ++ t) := by
  induction hs with
  | nil => exact ht
  | plain hb _ ih => exact .plain hb ih
  | escape hb _ ih => exact .escape hb ih
  | unicode ha hb hc hd _ ih => exact .unicode ha hb hc hd ih

theorem chars_of_plain {s : Bytes} (h : ∀ b ∈ s, isPlain b = true) : Chars s := by
  induction s with
  | nil => exact .nil
  | cons b s ih =>
    exact .plain (h b (by simp)) (ih fun c hc => h c (by simp [hc]))

theorem decodes_of_plain {s : Bytes} (h : ∀ b ∈ s, isPlain b = true) : Decodes s s := by
  induction s with
  | nil => exact .nil
  | cons b s ih =>
    exact .plain (h b (by simp)) (ih fun c hc => h c (by simp [hc]))

def Digits (t : Bytes) : Prop := t ≠ [] ∧ ∀ b ∈ t, isDigit b = true

inductive IntPart : Bytes → Prop
  | zero : IntPart [48]
  | positive {b : UInt8} {t : Bytes} : isDigit b = true → b ≠ 48 →
      (∀ c ∈ t, isDigit c = true) → IntPart (b :: t)

inductive FracPart : Bytes → Prop
  | absent : FracPart []
  | present {t : Bytes} : Digits t → FracPart (point :: t)

abbrev letterE : UInt8 := 101
abbrev capitalE : UInt8 := 69
abbrev plus : UInt8 := 43

inductive ExpPart : Bytes → Prop
  | absent : ExpPart []
  | unsigned {e : UInt8} {t : Bytes} : e = letterE ∨ e = capitalE → Digits t → ExpPart (e :: t)
  | signed {e sign : UInt8} {t : Bytes} : e = letterE ∨ e = capitalE →
      sign = plus ∨ sign = minus → Digits t → ExpPart (e :: sign :: t)

inductive Number : Bytes → Prop
  | positive {i f e : Bytes} : IntPart i → FracPart f → ExpPart e → Number (i ++ f ++ e)
  | negative {i f e : Bytes} : IntPart i → FracPart f → ExpPart e → Number (minus :: i ++ f ++ e)

structure Item where
  before : Bytes
  value : Bytes
  after : Bytes

def Item.text (i : Item) : Bytes := i.before ++ i.value ++ i.after

def Item.Layout (i : Item) : Prop := Blank i.before ∧ Blank i.after

structure Member where
  before : Bytes
  key : Bytes
  afterKey : Bytes
  beforeValue : Bytes
  value : Bytes
  after : Bytes

def Member.text (m : Member) : Bytes :=
  m.before ++ quote :: m.key ++ quote :: m.afterKey ++
    colon :: m.beforeValue ++ m.value ++ m.after

def Member.Layout (m : Member) : Prop :=
  Blank m.before ∧ Chars m.key ∧ Blank m.afterKey ∧ Blank m.beforeValue ∧ Blank m.after

def commaSeparated (first : Bytes) (rest : List Bytes) : Bytes :=
  first ++ rest.flatMap fun t => comma :: t

inductive Value : Bytes → Prop
  | literalNull : Value (ascii "null")
  | literalTrue : Value (ascii "true")
  | literalFalse : Value (ascii "false")
  | number {t : Bytes} : Number t → Value t
  | string {s : Bytes} : Chars s → Value (quote :: s ++ [quote])
  | emptyArray {w : Bytes} : Blank w → Value (openBracket :: w ++ [closeBracket])
  | array {i : Item} {is : List Item} : (∀ j ∈ i :: is, j.Layout) → (∀ j ∈ i :: is, Value j.value) →
      Value (openBracket :: commaSeparated i.text (is.map Item.text) ++ [closeBracket])
  | emptyObject {w : Bytes} : Blank w → Value (openBrace :: w ++ [closeBrace])
  | object {m : Member} {ms : List Member} : (∀ n ∈ m :: ms, n.Layout) →
      (∀ n ∈ m :: ms, Value n.value) →
      Value (openBrace :: commaSeparated m.text (ms.map Member.text) ++ [closeBrace])

def Text (t : Bytes) : Prop := ∃ w v w', Blank w ∧ Value v ∧ Blank w' ∧ t = w ++ v ++ w'

/-- A JSON text that is an object with the given members. -/
def ObjectText (t : Bytes) (ms : List Member) : Prop :=
  (∀ n ∈ ms, n.Layout ∧ Value n.value) ∧
  ∃ w w', Blank w ∧ Blank w' ∧
    match ms with
    | [] => ∃ u, Blank u ∧ t = w ++ openBrace :: u ++ closeBrace :: w'
    | m :: ms => t = w ++ openBrace :: commaSeparated m.text (ms.map Member.text) ++ closeBrace :: w'

theorem ObjectText.text {t : Bytes} {ms : List Member} (h : ObjectText t ms) : Text t := by
  obtain ⟨hms, w, w', hw, hw', ht⟩ := h
  cases ms with
  | nil =>
    obtain ⟨u, hu, rfl⟩ := ht
    exact ⟨w, _, w', hw, .emptyObject hu, hw', by simp⟩
  | cons m ms =>
    exact ⟨w, _, w', hw, .object (fun n hn => (hms n hn).1) (fun n hn => (hms n hn).2), hw',
      by simp [ht]⟩

end Json
