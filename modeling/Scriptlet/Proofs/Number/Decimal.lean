import Mathlib
import Scriptlet.Proofs.Number.Rounding

/-!
# The double nearest to a decimal

The mantissa and the exponent of a finite double are in canonical form, so the
double is the one that its value is rounded to. Which double a decimal is read as
depends on its value only: neither on how the value is split into a coefficient
and a power of ten, nor on which of the ways to compute the double is taken.
-/

namespace Scriptlet.Number

open Float.Model (UnpackedFloat Format)
open Float.Model.UnpackedFloat (Sign unpack pack_unpack_of_valid divCore roundWithAccuracy)

section Parts

variable {x : Float} {sign : Sign} {m : ℕ} {e : ℤ} {h : 0 < m}

/-- The first digit, which is not kept, is put before the mantissa. -/
theorem toNat_one_append (mantissa : BitVec 52) :
    (1#1 ++ mantissa).toNat = 2 ^ 52 + mantissa.toNat := by
  rw [BitVec.toNat_append, Nat.shiftLeft_eq, BitVec.toNat_one one_pos, one_mul, Nat.or_comm,
    Nat.or_two_pow_eq_add_of_lt mantissa.isLt, Nat.add_comm]

/-- The bias of the exponent. -/
theorem exponentBias_eq : Format.binary64.exponentBias = 1023 :=
  rfl

/-- The mantissa and the exponent of a finite double are in canonical form. -/
theorem canonical_of_parts (hfinite : parts x = .finite sign m e h) : Canonical m e := by
  rw [parts, Float.Model.unpack] at hfinite
  revert hfinite
  fun_cases unpack Format.binary64 x.toModel.toBits.toBitVec with
  | case1 => exact nofun
  | case2 => exact nofun
  | case3 => exact nofun
  | case4 mantissa exponent power _ _ _ hexponent =>
    intro hfinite
    injection hfinite with _ hmantissa hpower
    have hleast : power + 1 = -1074 := by
      simp [power, hexponent, exponentBias_eq]
    have hlt : mantissa.toNat < 2 ^ 52 := mantissa.isLt
    exact ⟨h, by omega, by omega, .inr (by omega)⟩
  | case5 mantissa exponent power _ _ _ hnormal =>
    intro hfinite
    injection hfinite with _ hmantissa hpower
    have hbiased : power = exponent.toNat - 1075 := by
      simp [power, exponentBias_eq]
    have hpos : 0 < exponent.toNat := BitVec.toNat_pos_of_ne_zero hnormal
    have hlt : mantissa.toNat < 2 ^ 52 := mantissa.isLt
    have hvalue : m = 2 ^ 52 + mantissa.toNat := hmantissa.symm.trans (toNat_one_append mantissa)
    exact ⟨h, by omega, by omega, .inl (by omega)⟩

/-- A double is put together again from its parts. -/
theorem ofParts_parts (x : Float) : ofParts (parts x) = x := by
  obtain ⟨⟨bits, hvalid⟩⟩ := x
  have hbits := pack_unpack_of_valid hvalid
  simp only [ofParts, parts, Float.Model.pack, Float.Model.unpack, hbits]

/-- A zero is put together from its sign. -/
theorem parts_ofParts_zero (sign : Sign) : parts (ofParts (.zero sign)) = .zero sign := by
  cases sign <;> rfl

/-- An infinity is put together from its sign. -/
theorem parts_ofParts_infinity (sign : Sign) :
    parts (ofParts (.infinity sign)) = .infinity sign := by
  cases sign <;> rfl

end Parts

/-- Whether a double is the one that a positive number is rounded to. -/
def RoundsTo (q : ℚ) (x : Float) : Prop :=
  ∃ mantissa exponent accuracy, StandsFor mantissa exponent accuracy q ∧
    x = ofParts (roundWithAccuracy Format.binary64 .positive mantissa exponent accuracy)

section RoundsTo

variable {x y : Float} {q : ℚ} {m : ℕ} {e : ℤ} {hm : 0 < m}

/-- A number is rounded to one double. -/
theorem RoundsTo.unique (hx : RoundsTo q x) (hy : RoundsTo q y) : x = y := by
  obtain ⟨_, _, _, hstands, rfl⟩ := hx
  obtain ⟨_, _, _, hstands', rfl⟩ := hy
  rw [hstands.roundWithAccuracy_eq hstands']

/-- The value of a double is rounded to that double. -/
theorem roundsTo_of_parts (h : parts x = .finite .positive m e hm) : RoundsTo (m * 2 ^ e) x := by
  have hcanonical := canonical_of_parts h
  refine ⟨m, e, .exact, hcanonical.standsFor, ?_⟩
  rw [hcanonical.roundWithAccuracy_exact, ← h, ofParts_parts]

/-- A mantissa and an exponent are rounded as their value. -/
theorem roundsTo_ofBinary (hm : 0 < m) : RoundsTo (m * 2 ^ e) (ofBinary .positive m e) := by
  obtain ⟨n, f, hstands, hround⟩ := round_standsFor hm .positive
  refine ⟨n, f, .exact, hstands, ?_⟩
  rw [ofBinary, if_neg hm.ne', hround]

end RoundsTo

namespace Decimal

/-- The number that a decimal denotes. -/
def value (d : Decimal) : ℚ :=
  d.coefficient * 10 ^ d.exponent

variable {d : Decimal} {c : ℕ} {e : ℤ}

/-- A negative power of ten divides by the positive one. -/
theorem zpow_eq_inv (he : e < 0) : (10 : ℚ) ^ e = ((10 ^ (-e).toNat : ℕ) : ℚ)⁻¹ := by
  have hneg : e = -((-e).toNat : ℤ) := by omega
  conv_lhs => rw [hneg]
  rw [zpow_neg, zpow_natCast, Nat.cast_pow, Nat.cast_ofNat]

/-- The digits of a coefficient do not make up for a much smaller power of ten. -/
theorem log2_ge_of_value (he : e < 0) (hleast : (2 : ℚ) ^ (-1074 : ℤ) ≤ c * 10 ^ e) :
    -1075 - e < c.log2 := by
  have hdigits : (c : ℚ) < 2 ^ ((c.log2 : ℤ) + 1) := by
    have hlt : c < 2 ^ (c.log2 + 1) := Nat.lt_log2_self
    exact_mod_cast hlt
  have hpower : (10 : ℚ) ^ e ≤ 2 ^ e := by
    have hneg : e = -((-e).toNat : ℤ) := by omega
    rw [hneg, zpow_neg, zpow_neg, zpow_natCast, zpow_natCast]
    gcongr
    norm_num
  have hlt : (2 : ℚ) ^ (-1074 : ℤ) < 2 ^ ((c.log2 : ℤ) + 1 + e) := by
    calc (2 : ℚ) ^ (-1074 : ℤ) ≤ c * 10 ^ e := hleast
      _ ≤ c * 2 ^ e := by gcongr
      _ < 2 ^ ((c.log2 : ℤ) + 1) * 2 ^ e := by gcongr
      _ = 2 ^ ((c.log2 : ℤ) + 1 + e) := by rw [← zpow_add₀ two_ne_zero]
  rw [zpow_lt_zpow_iff_right₀ one_lt_two] at hlt
  omega

/-- A coefficient times a negative power of ten is divided by the positive one. -/
theorem ofScientific_eq (hc : 0 < c) (he : e < 0) (hleast : (2 : ℚ) ^ (-1074 : ℤ) ≤ c * 10 ^ e) :
    UnpackedFloat.ofScientific Format.binary64 c e =
      let quotient := divCore Format.binary64 c 0 (10 ^ (-e).toNat) 0
      roundWithAccuracy Format.binary64 .positive quotient.1 quotient.2.1 quotient.2.2 := by
  have hlog := log2_ge_of_value he hleast
  have hlow : ¬ e < -((2 ^ Format.binary64.exponentBits : ℤ) + c.log2) := by
    norm_num
    omega
  have hhigh : ¬ 2 ^ Format.binary64.exponentBits < e := by
    norm_num
    omega
  rw [UnpackedFloat.ofScientific, dif_neg hc.ne', if_neg hhigh, if_neg hlow, if_neg (by omega)]
  rfl

/-- The coefficient of a positive decimal. -/
theorem coefficient_pos (hvalue : 0 < d.value) : 0 < d.coefficient := by
  by_contra hzero
  have hcoefficient : d.coefficient = 0 := by omega
  simp [value, hcoefficient] at hvalue

/-- A decimal is read as the double that its value is rounded to. -/
theorem roundsTo_toFloat (hleast : (2 : ℚ) ^ (-1074 : ℤ) ≤ d.value)
    (hbound : d.exponent < exponentBound) : RoundsTo d.value d.toFloat := by
  have hc : 0 < d.coefficient := coefficient_pos (lt_of_lt_of_le (by positivity) hleast)
  rw [toFloat]
  split
  case isTrue hneg =>
    rw [ofScientific_eq hc hneg hleast]
    refine ⟨_, _, _, ?_, rfl⟩
    rw [value, zpow_eq_inv hneg, ← div_eq_mul_inv] at hleast ⊢
    exact divCore_standsFor hc (by positivity) hleast
  case isFalse hneg =>
    rw [if_neg (by omega)]
    have hvalue : d.value = (d.coefficient * Nat.pow 10 d.exponent.toNat : ℕ) * 2 ^ (0 : ℤ) := by
      have hpower : (10 : ℚ) ^ d.exponent = 10 ^ d.exponent.toNat := by
        rw [← zpow_natCast, Int.toNat_of_nonneg (by omega)]
      rw [value, hpower, Nat.pow_eq, Nat.cast_mul, Nat.cast_pow, Nat.cast_ofNat, zpow_zero, mul_one]
    rw [hvalue]
    exact roundsTo_ofBinary (Nat.mul_pos hc (Nat.pow_pos (by norm_num)))

end Decimal

end Scriptlet.Number
