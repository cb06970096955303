import Mathlib.Data.Nat.Bitwise

/-!
# Words and their bytes

`be32` and `be16` put bytes together most significant first, `swap32` and
`swap16` reverse them. Every word is `be32` of its four bytes, so that a fact
about shifts and masks becomes a fact about a rearrangement of bytes.
-/

namespace WordBytes

def be32 (a b c d : UInt8) : UInt32 :=
  (a.toUInt32 <<< 24) ||| (b.toUInt32 <<< 16) ||| (c.toUInt32 <<< 8) ||| d.toUInt32

def be16 (a b : UInt8) : UInt16 := (a.toUInt16 <<< 8) ||| b.toUInt16

def swap32 (x : UInt32) : UInt32 :=
  be32 x.toUInt8 (x >>> 8).toUInt8 (x >>> 16).toUInt8 (x >>> 24).toUInt8

def swap16 (x : UInt16) : UInt16 := be16 x.toUInt8 (x >>> 8).toUInt8

theorem toNat_be32 (a b c d : UInt8) :
    (be32 a b c d).toNat = 16777216 * a.toNat + 65536 * b.toNat + 256 * c.toNat + d.toNat := by
  have ha := a.toNat_lt
  have hb := b.toNat_lt
  have hc := c.toNat_lt
  have hd := d.toNat_lt
  have hA : a.toNat <<< 24 % 4294967296 = 16777216 * a.toNat := by
    rw [Nat.shiftLeft_eq]
    omega
  have hB : b.toNat <<< 16 % 4294967296 = 65536 * b.toNat := by
    rw [Nat.shiftLeft_eq]
    omega
  have hC : c.toNat <<< 8 % 4294967296 = 256 * c.toNat := by
    rw [Nat.shiftLeft_eq]
    omega
  -- each byte lies below the ones already joined, so the disjunctions are sums
  have hAB : 16777216 * a.toNat ||| 65536 * b.toNat =
      16777216 * a.toNat + 65536 * b.toNat :=
    (Nat.two_pow_add_eq_or_of_lt (show 65536 * b.toNat < 2 ^ 24 by omega) a.toNat).symm
  have hABC : 65536 * (256 * a.toNat + b.toNat) ||| 256 * c.toNat =
      65536 * (256 * a.toNat + b.toNat) + 256 * c.toNat :=
    (Nat.two_pow_add_eq_or_of_lt (show 256 * c.toNat < 2 ^ 16 by omega) _).symm
  have hABCD : 256 * (65536 * a.toNat + 256 * b.toNat + c.toNat) ||| d.toNat =
      256 * (65536 * a.toNat + 256 * b.toNat + c.toNat) + d.toNat :=
    (Nat.two_pow_add_eq_or_of_lt (show d.toNat < 2 ^ 8 by omega) _).symm
  have h3 : 16777216 * a.toNat + 65536 * b.toNat = 65536 * (256 * a.toNat + b.toNat) := by omega
  have h2 : 65536 * (256 * a.toNat + b.toNat) + 256 * c.toNat =
      256 * (65536 * a.toNat + 256 * b.toNat + c.toNat) := by omega
  have hor : (be32 a b c d).toNat =
      a.toNat <<< 24 % 4294967296 ||| b.toNat <<< 16 % 4294967296 |||
        c.toNat <<< 8 % 4294967296 ||| d.toNat := by
    simp [be32]
  rw [hor, hA, hB, hC, hAB, h3, hABC, h2, hABCD]

theorem toNat_be16 (a b : UInt8) : (be16 a b).toNat = 256 * a.toNat + b.toNat := by
  have ha := a.toNat_lt
  have hb := b.toNat_lt
  have hA : a.toNat <<< 8 % 65536 = 256 * a.toNat := by
    rw [Nat.shiftLeft_eq]
    omega
  have hAB : 256 * a.toNat ||| b.toNat = 256 * a.toNat + b.toNat :=
    (Nat.two_pow_add_eq_or_of_lt (show b.toNat < 2 ^ 8 by omega) a.toNat).symm
  have hor : (be16 a b).toNat = a.toNat <<< 8 % 65536 ||| b.toNat := by simp [be16]
  rw [hor, hA, hAB]

theorem mask32 (x : UInt32) : (x &&& 0xFF).toUInt8 = x.toUInt8 := by
  apply UInt8.toNat_inj.mp
  have hmask := Nat.and_two_pow_sub_one_eq_mod (x.toNat % 256) 8
  simpa using hmask

theorem mask16 (x : UInt16) : (x &&& 0xFF).toUInt8 = x.toUInt8 := by
  apply UInt8.toNat_inj.mp
  have hmask := Nat.and_two_pow_sub_one_eq_mod (x.toNat % 256) 8
  simpa using hmask

theorem be32_byte3 (a b c d : UInt8) : (be32 a b c d >>> 24).toUInt8 = a := by
  apply UInt8.toNat_inj.mp
  have ha := a.toNat_lt
  have hb := b.toNat_lt
  have hc := c.toNat_lt
  have hd := d.toNat_lt
  simp [toNat_be32, Nat.shiftRight_eq_div_pow]
  omega

theorem be32_byte2 (a b c d : UInt8) : (be32 a b c d >>> 16).toUInt8 = b := by
  apply UInt8.toNat_inj.mp
  have hb := b.toNat_lt
  have hc := c.toNat_lt
  have hd := d.toNat_lt
  simp [toNat_be32, Nat.shiftRight_eq_div_pow]
  omega

theorem be32_byte1 (a b c d : UInt8) : (be32 a b c d >>> 8).toUInt8 = c := by
  apply UInt8.toNat_inj.mp
  have hc := c.toNat_lt
  have hd := d.toNat_lt
  simp [toNat_be32, Nat.shiftRight_eq_div_pow]
  omega

theorem be32_byte0 (a b c d : UInt8) : (be32 a b c d).toUInt8 = d := by
  apply UInt8.toNat_inj.mp
  have hd := d.toNat_lt
  simp [toNat_be32]
  omega

theorem be16_byte1 (a b : UInt8) : (be16 a b >>> 8).toUInt8 = a := by
  apply UInt8.toNat_inj.mp
  have ha := a.toNat_lt
  have hb := b.toNat_lt
  simp [toNat_be16, Nat.shiftRight_eq_div_pow]
  omega

theorem be16_byte0 (a b : UInt8) : (be16 a b).toUInt8 = b := by
  apply UInt8.toNat_inj.mp
  simp [toNat_be16]

theorem be32_bytes (x : UInt32) :
    be32 (x >>> 24).toUInt8 (x >>> 16).toUInt8 (x >>> 8).toUInt8 x.toUInt8 = x := by
  apply UInt32.toNat_inj.mp
  have hx := x.toNat_lt
  simp [toNat_be32, Nat.shiftRight_eq_div_pow]
  omega

theorem be16_bytes (x : UInt16) : be16 (x >>> 8).toUInt8 x.toUInt8 = x := by
  apply UInt16.toNat_inj.mp
  have hx := x.toNat_lt
  simp [toNat_be16, Nat.shiftRight_eq_div_pow]
  omega

theorem swap32_be32 (a b c d : UInt8) : swap32 (be32 a b c d) = be32 d c b a := by
  rw [swap32, be32_byte0, be32_byte1, be32_byte2, be32_byte3]

theorem swap16_be16 (a b : UInt8) : swap16 (be16 a b) = be16 b a := by
  rw [swap16, be16_byte0, be16_byte1]

@[simp] theorem swap32_swap32 (x : UInt32) : swap32 (swap32 x) = x := by
  conv_lhs => rw [swap32.eq_1 x, swap32_be32, be32_bytes]

@[simp] theorem swap16_swap16 (x : UInt16) : swap16 (swap16 x) = x := by
  conv_lhs => rw [swap16.eq_1 x, swap16_be16, be16_bytes]

end WordBytes
