import HSFinancialServices.Services.PriceHistory

/-!
# The arguments of `isdigit`

The loops of `extract_number` and `extract_int` ask for the class of each byte they reach, the
one they stop at among them. They pass it as a `char`, which is signed.
-/

namespace HSFinancialServices.Services
open Ascii TextSearch

/-- The bytes a loop takes while the condition holds, and the arguments of its calls. -/
def scan (continues : UInt8 → Bool) : Bytes → Bytes × List ℤ
  | [] => ([], [])
  | b :: text =>
    if continues b then
      (b :: (scan continues text).1, signedChar b :: (scan continues text).2)
    else ([], [signedChar b])

theorem scan_taken (continues : UInt8 → Bool) (text : Bytes) :
    (scan continues text).1 = text.takeWhile continues := by
  induction text with
  | nil => rfl
  | cons b text ih =>
    rw [scan, List.takeWhile_cons]
    split
    · rw [ih]
    · rfl

theorem scan_arguments (continues : UInt8 → Bool) (text : Bytes) :
    (scan continues text).2 = (text.takeWhile continues).map signedChar ++
      ((text.dropWhile continues).head?.map signedChar).toList := by
  induction text with
  | nil => rfl
  | cons b text ih =>
    rw [scan, List.takeWhile_cons, List.dropWhile_cons]
    split
    · rw [ih]
      rfl
    · rfl

def InDomain (c : ℤ) : Prop := c = -1 ∨ (0 ≤ c ∧ c ≤ 255)

theorem inDomain_signedChar_iff (b : UInt8) :
    InDomain (signedChar b) ↔ b < 0x80 ∨ b = 0xFF := by
  have hlt := b.toNat_lt
  have heq : b = 0xFF ↔ b.toNat = 255 := UInt8.toNat_inj.symm
  rw [heq, UInt8.lt_iff_toNat_lt]
  simp only [InDomain, signedChar, UInt8.lt_iff_toNat_lt, UInt8.reduceToNat]
  split <;> omega

/-- A loop that goes on only below 0x80 leaves the domain at the byte it stops at, or not at
all. -/
theorem scan_inDomain_iff {continues : UInt8 → Bool}
    (hascii : ∀ b, continues b = true → b < 0x80) (text : Bytes) :
    (∀ c ∈ (scan continues text).2, InDomain c) ↔
      ∀ b ∈ (text.dropWhile continues).head?, b < 0x80 ∨ b = 0xFF := by
  have htaken : ∀ c ∈ (text.takeWhile continues).map signedChar, InDomain c := by
    intro c hc
    obtain ⟨b, hb, rfl⟩ := List.mem_map.mp hc
    exact (inDomain_signedChar_iff b).mpr (.inl (hascii b (List.mem_takeWhile_imp hb)))
  rw [scan_arguments, List.forall_mem_append, and_iff_right htaken]
  cases (text.dropWhile continues).head? with
  | none => simp
  | some b => simp [inDomain_signedChar_iff]

theorem isDigit_lt {b : UInt8} (h : isDigit b = true) : b < 0x80 := by
  have hdigit := isDigit_iff.mp h
  rw [UInt8.lt_iff_toNat_lt]
  exact hdigit.2.trans_lt (by decide)

theorem isNumberChar_lt {b : UInt8} (h : isNumberChar b = true) : b < 0x80 := by
  simp only [isNumberChar, Bool.or_eq_true, beq_iff_eq] at h
  obtain (hdigit | rfl) | rfl := h
  · exact isDigit_lt hdigit
  · decide
  · decide

def numberText (json key : Bytes) : Option Bytes :=
  (find (numberNeedle key) json).map fun pos =>
    (json.drop (pos + (numberNeedle key).length)).dropWhile fun b => b == space || b == tab

def intText (json key : Bytes) : Option Bytes :=
  (find (numberNeedle key) json).map fun pos =>
    (json.drop (pos + (numberNeedle key).length)).dropWhile fun b => b == space

theorem extractNumber_eq_scan (json key : Bytes) : extractNumber json key =
    ((numberText json key).map fun text => (scan isNumberChar text).1).getD (ascii "0") := by
  simp only [extractNumber, numberText, scan_taken]
  cases find (numberNeedle key) json <;> rfl

theorem extractInt_eq_scan (json key : Bytes) (dflt : ℤ) : extractInt json key dflt =
    ((intText json key).map fun text =>
      if (scan isDigit text).1 = [] then dflt
      else (scan isDigit text).1.foldl
        (fun val b => wrapInt (val * 10 + (b.toNat - 48 : ℤ))) 0).getD dflt := by
  simp only [extractInt, intText, scan_taken]
  cases find (numberNeedle key) json <;> rfl

def numberArguments (json key : Bytes) : List ℤ :=
  ((numberText json key).map fun text => (scan isNumberChar text).2).getD []

def intArguments (json key : Bytes) : List ℤ :=
  ((intText json key).map fun text => (scan isDigit text).2).getD []

theorem isdigit_arguments_iff (json key : Bytes) :
    ((∀ c ∈ numberArguments json key, InDomain c) ↔
      ∀ text ∈ numberText json key, ∀ b ∈ (text.dropWhile isNumberChar).head?,
        b < 0x80 ∨ b = 0xFF) ∧
    ((∀ c ∈ intArguments json key, InDomain c) ↔
      ∀ text ∈ intText json key, ∀ b ∈ (text.dropWhile isDigit).head?, b < 0x80 ∨ b = 0xFF) := by
  constructor
  · rw [numberArguments]
    cases numberText json key with
    | none => simp
    | some text => simpa using scan_inDomain_iff (fun _ => isNumberChar_lt) text
  · rw [intArguments]
    cases intText json key with
    | none => simp
    | some text => simpa using scan_inDomain_iff (fun _ => isDigit_lt) text

theorem isdigit_argument_negative : ¬ ∀ json key : Bytes,
    (∀ c ∈ numberArguments json key, InDomain c) ∧ ∀ c ∈ intArguments json key, InDomain c := by
  intro h
  have harguments : numberArguments
      (ascii "\x7b\"qty\":" ++ [0xC3, 0xA9] ++ ascii "\x7d") (ascii "qty") = [-61] := by
    decide
  have hdomain := (h (ascii "\x7b\"qty\":" ++ [0xC3, 0xA9] ++ ascii "\x7d") (ascii "qty")).1 (-61)
    (harguments ▸ List.mem_cons_self)
  simp only [InDomain] at hdomain
  omega

end HSFinancialServices.Services
