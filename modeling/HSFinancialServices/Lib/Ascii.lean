import Mathlib.Data.Nat.Digits.Lemmas

/-!
# Byte texts, ASCII literals and decimal numerals

A text is a list of bytes. Bytes of 0x80 and above are kept as they are; no
operation of this module looks inside a multi-byte character.
-/

abbrev Bytes := List UInt8

namespace Ascii

def ascii (s : String) : Bytes := s.toList.map fun c => UInt8.ofNat c.toNat

abbrev quote : UInt8 := 34
abbrev backslash : UInt8 := 92
abbrev comma : UInt8 := 44
abbrev colon : UInt8 := 58
abbrev minus : UInt8 := 45
abbrev point : UInt8 := 46
abbrev space : UInt8 := 32
abbrev tab : UInt8 := 9
abbrev newline : UInt8 := 10
abbrev carriageReturn : UInt8 := 13
abbrev openBrace : UInt8 := 123
abbrev closeBrace : UInt8 := 125
abbrev openBracket : UInt8 := 91
abbrev closeBracket : UInt8 := 93

@[simp] theorem backslash_ne_quote : backslash ≠ quote := by decide

def isDigit (b : UInt8) : Bool := 48 ≤ b && b ≤ 57

def digit (d : ℕ) : UInt8 := UInt8.ofNat (48 + d)

theorem toNat_digit {d : ℕ} (h : d < 10) : (digit d).toNat = 48 + d := by
  simp only [digit, UInt8.toNat_ofNat']
  omega

theorem isDigit_iff {b : UInt8} : isDigit b = true ↔ 48 ≤ b.toNat ∧ b.toNat ≤ 57 := by
  simp [isDigit, UInt8.le_iff_toNat_le]

theorem digit_cases {b : UInt8} (h : isDigit b = true) :
    b = 48 ∨ b = 49 ∨ b = 50 ∨ b = 51 ∨ b = 52 ∨ b = 53 ∨ b = 54 ∨ b = 55 ∨ b = 56 ∨ b = 57 := by
  rw [isDigit_iff] at h
  simp only [← UInt8.toNat_inj, UInt8.reduceToNat]
  omega

theorem isDigit_digit {d : ℕ} (h : d < 10) : isDigit (digit d) = true := by
  rw [isDigit_iff, toNat_digit h]
  omega

def decimal (n : ℕ) : Bytes :=
  if n = 0 then ascii "0" else ((Nat.digits 10 n).map digit).reverse

def decimalInt (z : ℤ) : Bytes :=
  if z < 0 then minus :: decimal z.natAbs else decimal z.natAbs

theorem decimal_ne_nil (n : ℕ) : decimal n ≠ [] := by
  by_cases h : n = 0
  · subst h
    decide
  · simp [decimal, h, Nat.digits_ne_nil_iff_ne_zero]

theorem isDigit_of_mem_decimal {n : ℕ} {b : UInt8} (h : b ∈ decimal n) : isDigit b = true := by
  by_cases hn : n = 0
  · subst hn
    exact List.all_eq_true.mp (by decide) b h
  · simp only [decimal, hn, if_false, List.mem_reverse, List.mem_map] at h
    obtain ⟨d, hd, rfl⟩ := h
    exact isDigit_digit (Nat.digits_lt_base (by decide) hd)

def value (text : Bytes) : ℕ := Nat.ofDigits 10 (text.reverse.map fun b => b.toNat - 48)

theorem value_decimal (n : ℕ) : value (decimal n) = n := by
  by_cases h : n = 0
  · subst h
    decide
  · have hmap : ((Nat.digits 10 n).map digit).map (fun b => b.toNat - 48) = Nat.digits 10 n := by
      rw [List.map_map]
      conv_rhs => rw [← List.map_id (Nat.digits 10 n)]
      refine List.map_congr_left fun d hd => ?_
      simp [toNat_digit (Nat.digits_lt_base (by decide) hd)]
    simp only [value, decimal, h, if_false, List.reverse_reverse, hmap, Nat.ofDigits_digits]

theorem decimal_injective : Function.Injective decimal :=
  Function.LeftInverse.injective value_decimal

theorem decimal_head {n : ℕ} (h : n ≠ 0) :
    ∃ d rest, decimal n = digit d :: rest ∧ 0 < d ∧ d < 10 := by
  have hne : Nat.digits 10 n ≠ [] := Nat.digits_ne_nil_iff_ne_zero.mpr h
  obtain ⟨init, d, hd⟩ : ∃ init d, Nat.digits 10 n = init ++ [d] :=
    ⟨_, _, (List.dropLast_append_getLast hne).symm⟩
  have hlast := Nat.getLast_digit_ne_zero 10 h
  have hmem : d ∈ Nat.digits 10 n := by simp [hd]
  have hlt : d < 10 := Nat.digits_lt_base (by decide) hmem
  refine ⟨d, (init.map digit).reverse, by simp [decimal, h, hd], ?_, hlt⟩
  simp only [hd, List.getLast_append_singleton] at hlast
  omega

end Ascii
