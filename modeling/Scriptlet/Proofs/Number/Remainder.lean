import Mathlib
import Scriptlet.Number.Operator
import Scriptlet.Proofs.Number.Distinct

/-!
# The remainder of doubles

A finite double has a rational value, and every number with at most 53 binary digits
within the range of the exponents is the value of a double. The remainder of two
integers on the least of the two exponents has no more digits than one of them, so the
remainder of two finite doubles is itself a double and nothing is rounded: the dividend
is the divisor times their quotient, cut off towards zero, plus the remainder.
-/

namespace Scriptlet.Number

open Float.Model (UnpackedFloat Format)
open Float.Model.UnpackedFloat (Sign unpack packComponents unpackSign_packComponents
  unpackExponent_packComponents unpackMantissa_packComponents)

section Parts

variable {x : Float} {sign : Sign} {m : ℕ} {e : ℤ} {hm : 0 < m}

/-- A greater exponent than all doubles have is that of an infinity. -/
theorem ofParts_of_exponent_gt (h : 971 < e) (sign : Sign) (hm : 0 < m) :
    ofParts (.finite sign m e hm) = ofParts (.infinity sign) := by
  have hbiased : 2 ^ Format.binary64.exponentBits ≤ (e + Format.binary64.exponentBias +
      Format.binary64.mantissaBitsWithoutImplicit).toNat + 1 := by
    rw [exponentBias_eq]
    change 2 ^ 11 ≤ (e + 1023 + 52).toNat + 1
    omega
  have hpack : UnpackedFloat.pack Format.binary64 (.finite sign m e hm) =
      UnpackedFloat.pack Format.binary64 (.infinity sign) := by
    unfold UnpackedFloat.pack
    exact if_pos hbiased
  simp only [ofParts, Float.Model.pack, hpack]

/-- The exponent of a finite double is not above the greatest one. -/
theorem exponent_le_of_parts (hparts : parts x = .finite sign m e hm) : e ≤ 971 := by
  by_contra hgt
  have hx := ofParts_parts x
  rw [hparts, ofParts_of_exponent_gt (by omega)] at hx
  rw [← hx, parts_ofParts_infinity] at hparts
  cases hparts

/-- Every sign and every two fields are those of a double, unless all digits of the
exponent are set. -/
theorem exists_parts_eq_unpack (sign : Sign) (exponent : BitVec 11) (h : exponent ≠ -1#11)
    (mantissa : BitVec 52) :
    ∃ x, parts x = unpack Format.binary64
      (packComponents Format.binary64 sign exponent mantissa) := by
  have hvalid : Format.binary64.Valid
      (packComponents Format.binary64 sign exponent mantissa) := by
    refine ⟨fun hall _ => absurd ?_ h⟩
    rwa [unpackExponent_packComponents] at hall
  exact ⟨.ofModel ⟨⟨_⟩, hvalid⟩, rfl⟩

/-- A double whose exponent has some digits set, but not all of them. -/
theorem exists_parts_normal (sign : Sign) {exponent : BitVec 11} (hfinite : exponent ≠ -1#11)
    (hnonzero : exponent ≠ 0#11) (mantissa : BitVec 52) :
    ∃ x h, parts x = .finite sign (1#1 ++ mantissa).toNat (exponent.toNat - 1075) h := by
  obtain ⟨x, hx⟩ := exists_parts_eq_unpack sign exponent hfinite mantissa
  rw [unpack] at hx
  simp only [unpackMantissa_packComponents, unpackExponent_packComponents,
    unpackSign_packComponents, Sign.ofBitVec_toBitVec] at hx
  rw [if_neg hfinite, if_neg hnonzero] at hx
  exact ⟨x, _, hx⟩

/-- A double whose exponent has no digit set. -/
theorem exists_parts_subnormal (sign : Sign) {mantissa : BitVec 52} (hnonzero : mantissa ≠ 0#52) :
    ∃ x h, parts x = .finite sign mantissa.toNat (-1074) h := by
  obtain ⟨x, hx⟩ := exists_parts_eq_unpack sign 0#11 (by decide) mantissa
  rw [unpack] at hx
  simp only [unpackMantissa_packComponents, unpackExponent_packComponents,
    unpackSign_packComponents, Sign.ofBitVec_toBitVec] at hx
  rw [if_neg (by decide), if_pos trivial, dif_neg hnonzero] at hx
  exact ⟨x, _, hx⟩

/-- Every canonical form up to the greatest exponent is that of a double. The first of
all 53 digits is not kept, and the exponent is kept with its bias. -/
theorem Canonical.exists_parts (h : Canonical m e) (hle : e ≤ 971) (sign : Sign) :
    ∃ x, parts x = .finite sign m e h.pos := by
  have hlt := h.lt
  have hleast := h.exponent_ge
  rcases le_or_gt (2 ^ 52) m with hnormal | hsubnormal
  · have hexponent : (BitVec.ofNat 11 (e + 1075).toNat).toNat = (e + 1075).toNat := by
      rw [BitVec.toNat_ofNat]
      omega
    have hfinite : BitVec.ofNat 11 (e + 1075).toNat ≠ -1#11 := by
      intro hall
      have hsame : (e + 1075).toNat = 2 ^ 11 - 1 :=
        hexponent.symm.trans (congrArg BitVec.toNat hall)
      omega
    have hnonzero : BitVec.ofNat 11 (e + 1075).toNat ≠ 0#11 := by
      intro hzero
      have hsame : (e + 1075).toNat = 0 := hexponent.symm.trans (congrArg BitVec.toNat hzero)
      omega
    have hmantissa : (1#1 ++ BitVec.ofNat 52 m).toNat = m := by
      rw [toNat_one_append, BitVec.toNat_ofNat]
      omega
    have hpower : ((BitVec.ofNat 11 (e + 1075).toNat).toNat : ℤ) - 1075 = e := by
      rw [hexponent]
      omega
    obtain ⟨x, _, hx⟩ := exists_parts_normal sign hfinite hnonzero (BitVec.ofNat 52 m)
    refine ⟨x, hx.trans ?_⟩
    congr 1
  · obtain rfl : e = -1074 := h.normal.resolve_left (by omega)
    have hmantissa : (BitVec.ofNat 52 m).toNat = m := by
      rw [BitVec.toNat_ofNat]
      omega
    have hnonzero : BitVec.ofNat 52 m ≠ 0#52 := by
      intro hzero
      have hsame : m = 0 := hmantissa.symm.trans (congrArg BitVec.toNat hzero)
      exact h.pos.ne' hsame
    obtain ⟨x, _, hx⟩ := exists_parts_subnormal sign hnonzero
    refine ⟨x, hx.trans ?_⟩
    congr 1

/-- A finite double is put together from its canonical form. -/
theorem Canonical.parts_ofParts (h : Canonical m e) (hle : e ≤ 971) (sign : Sign) :
    parts (ofParts (.finite sign m e h.pos)) = .finite sign m e h.pos := by
  obtain ⟨x, hx⟩ := h.exists_parts hle sign
  rw [← hx, ofParts_parts]

end Parts

/-- The number that a finite double stands for, and nought for the others. -/
def value (x : Float) : ℚ :=
  match parts x with
  | .finite sign mantissa exponent _ => sign.apply mantissa * 2 ^ exponent
  | _ => 0

section Value

variable {x : Float} {sign : Sign} {m n : ℕ} {e f : ℤ} {hm : 0 < m}

/-- A sign is that of the whole product. -/
theorem apply_mul (sign : Sign) (m : ℕ) (q : ℚ) :
    (sign.apply m : ℚ) * q = sign.apply 1 * (m * q) := by
  cases sign <;> simp [Sign.apply]

/-- The value of a finite double, for any smaller exponent. -/
theorem value_of_parts (hparts : parts x = .finite sign m e hm) (h : f ≤ e) :
    value x = sign.apply (m * 2 ^ (e - f).toNat : ℕ) * 2 ^ f := by
  rw [apply_mul, mul_zpow_shift m h, ← apply_mul, value, hparts]

/-- A sign does not make a number nought. -/
theorem apply_ne_zero (sign : Sign) (hm : 0 < m) : sign.apply m ≠ 0 := by
  cases sign <;> simp only [Sign.apply] <;> omega

/-- The value of a double that is no zero. -/
theorem value_ne_zero_of_parts (hparts : parts x = .finite sign m e hm) : value x ≠ 0 := by
  rw [value, hparts]
  exact mul_ne_zero (Int.cast_ne_zero.2 (apply_ne_zero sign hm)) (by positivity)

/-- A number with at most 53 digits has a canonical form. -/
theorem exists_canonical (hm : 0 < m) (hlt : m < 2 ^ 53) (he : -1074 ≤ e) :
    ∃ n f, Canonical n f ∧ f ≤ e ∧ n = m * 2 ^ (e - f).toNat := by
  have hlog : m.log2 < 53 := (Nat.log2_lt hm.ne').2 hlt
  set f := max (m.log2 + e - 52) (-1074) with hf
  have hshift : (e - f).toNat ≤ 52 - m.log2 := by omega
  refine ⟨m * 2 ^ (e - f).toNat, f, ⟨by positivity, ?_, by omega, ?_⟩, by omega, rfl⟩
  · calc m * 2 ^ (e - f).toNat < 2 ^ (m.log2 + 1) * 2 ^ (e - f).toNat :=
          Nat.mul_lt_mul_of_pos_right Nat.lt_log2_self (by positivity)
      _ = 2 ^ (m.log2 + 1 + (e - f).toNat) := (pow_add ..).symm
      _ ≤ 2 ^ 53 := Nat.pow_le_pow_right two_pos (by omega)
  · rcases le_or_gt (m.log2 + e - 52) (-1074) with hle | hgt
    · exact .inr (by omega)
    · refine .inl ?_
      calc 2 ^ 52 = 2 ^ (m.log2 + (e - f).toNat) := by
            congr 1
            omega
        _ = 2 ^ m.log2 * 2 ^ (e - f).toNat := pow_add ..
        _ ≤ m * 2 ^ (e - f).toNat := Nat.mul_le_mul_right _ (Nat.log2_self_le hm.ne')

/-- A number that has a canonical form is rounded to it. -/
theorem Canonical.round_eq (h : Canonical n f) (hm : 0 < m) (hvalue : (n : ℚ) * 2 ^ f = m * 2 ^ e)
    (sign : Sign) : UnpackedFloat.round Format.binary64 sign m e = .finite sign n f h.pos := by
  obtain ⟨k, g, hstands, hround⟩ := round_standsFor (e := e) hm sign
  rw [hround, hstands.roundWithAccuracy_eq (hvalue ▸ h.standsFor), h.roundWithAccuracy_exact]

/-- A number with at most 53 digits, within the range of the exponents, is the value of
a double, which has the sign also if it is a zero. -/
theorem ofBinary_exact (hlt : m < 2 ^ 53) (he : -1074 ≤ e) (hle : e ≤ 971) (sign : Sign) :
    (ofBinary sign m e).isFinite = true ∧ value (ofBinary sign m e) = sign.apply m * 2 ^ e ∧
      sign? (parts (ofBinary sign m e)) = some sign := by
  rcases Nat.eq_zero_or_pos m with rfl | hm
  · have hparts : parts (ofBinary sign 0 e) = .zero sign := parts_ofParts_zero sign
    refine ⟨congrArg UnpackedFloat.isFinite hparts, ?_, congrArg sign? hparts⟩
    rw [value, hparts]
    cases sign <;> simp [Sign.apply]
  · obtain ⟨n, f, hcanonical, hfe, rfl⟩ := exists_canonical hm hlt he
    have hparts : parts (ofBinary sign m e) = .finite sign _ f hcanonical.pos := by
      rw [ofBinary, if_neg hm.ne', hcanonical.round_eq hm (mul_zpow_shift m hfe),
        hcanonical.parts_ofParts (hfe.trans hle)]
    refine ⟨congrArg UnpackedFloat.isFinite hparts, ?_, congrArg sign? hparts⟩
    rw [value_of_parts hparts le_rfl, sub_self, Int.toNat_zero, pow_zero, mul_one, apply_mul,
      mul_zpow_shift m hfe, ← apply_mul]

end Value

/-- A number without its fraction. -/
def truncated (q : ℚ) : ℤ :=
  if 0 ≤ q then ⌊q⌋ else ⌈q⌉

/-- The sign of a number does not matter for what is cut off. -/
theorem truncated_neg (q : ℚ) : truncated (-q) = -truncated q := by
  rcases lt_trichotomy q 0 with h | rfl | h
  · rw [truncated, truncated, if_pos (by linarith), if_neg (by linarith), Int.floor_neg]
  · rfl
  · rw [truncated, truncated, if_neg (by linarith), if_pos h.le, Int.ceil_neg]

/-- Cutting off the fraction of a quotient of integers is their division towards
zero. -/
theorem truncated_div (a b : ℤ) : truncated ((a : ℚ) / b) = a.tdiv b := by
  have hnat (m n : ℕ) : truncated ((m : ℚ) / n) = (m : ℤ).tdiv n := by
    rw [truncated, if_pos (by positivity), Int.tdiv_eq_ediv_of_nonneg (Int.natCast_nonneg m),
      ← Rat.floor_intCast_div_natCast, Int.cast_natCast]
  obtain ⟨m, rfl | rfl⟩ := a.eq_nat_or_neg <;> obtain ⟨n, rfl | rfl⟩ := b.eq_nat_or_neg <;>
    simp only [Int.cast_neg, Int.cast_natCast, div_neg, neg_div, truncated_neg, Int.neg_tdiv,
      Int.tdiv_neg, hnat]

/-- The remainder of a division towards zero takes the sign of the dividend. -/
theorem apply_tmod (sign other : Sign) (m n : ℕ) :
    (sign.apply m).tmod (other.apply n) = sign.apply (m % n : ℕ) := by
  cases sign <;> cases other <;>
    simp only [Sign.apply, Int.neg_tmod, Int.tmod_neg, Int.ofNat_tmod]

/-- Whether a double is the exact remainder of two others. -/
structure IsRemainder (a b r : Float) : Prop where
  /-- It is a finite double. -/
  finite : r.isFinite = true
  /-- The divisor times the quotient without its fraction, plus the remainder, is the
  dividend. -/
  split : value a = truncated (value a / value b) * value b + value r
  /-- It is less than the divisor. -/
  lt : |value r| < |value b|
  /-- It has the sign of the dividend, also if it is a zero. -/
  sign : sign? (parts r) = sign? (parts a)

section Remainder

variable {a b : Float} {s t : Sign} {m n : ℕ} {e f : ℤ} {hm : 0 < m} {hn : 0 < n}

/-- The remainder on the least of two exponents has at most 53 digits: it is less than
the divisor, if that is not shifted, and otherwise not more than the dividend. -/
theorem mod_shifted_lt (hdividend : Canonical m e) (hdivisor : Canonical n f) :
    m * 2 ^ (e - min e f).toNat % (n * 2 ^ (f - min e f).toNat) < 2 ^ 53 := by
  rcases le_total e f with hle | hle
  · rw [min_eq_left hle, sub_self, Int.toNat_zero, pow_zero, mul_one]
    exact lt_of_le_of_lt (Nat.mod_le _ _) hdividend.lt
  · rw [min_eq_right hle, sub_self, Int.toNat_zero, pow_zero, mul_one]
    exact (Nat.mod_lt _ hdivisor.pos).trans hdivisor.lt

/-- The remainder of two numbers on one exponent is exact. -/
theorem value_split {p q r : ℚ} {i j : ℤ} (hp : p = i * 2 ^ e) (hq : q = j * 2 ^ e)
    (hr : r = (i.tmod j : ℤ) * 2 ^ e) (hj : j ≠ 0) :
    p = truncated (p / q) * q + r ∧ |r| < |q| := by
  have hpower : (0 : ℚ) < 2 ^ e := by positivity
  have hquotient : truncated (p / q) = i.tdiv j := by
    rw [hp, hq, mul_div_mul_right _ _ hpower.ne', truncated_div]
  have hlt : |i.tmod j| < |j| := by
    rw [Int.abs_eq_natAbs, Int.abs_eq_natAbs, Int.natAbs_tmod]
    exact_mod_cast Nat.mod_lt _ (Int.natAbs_pos.2 hj)
  constructor
  · have hsplit : (i : ℚ) = i.tdiv j * j + i.tmod j := by
      exact_mod_cast (Int.tdiv_mul_add_tmod i j).symm
    rw [hquotient, hq, hr, hp, ← mul_assoc, ← add_mul, ← hsplit]
  · rw [hr, hq, abs_mul, abs_mul]
    refine mul_lt_mul_of_pos_right ?_ (abs_pos.2 hpower.ne')
    exact_mod_cast hlt

/-- The remainder of two doubles that are no zeros is exact. -/
theorem isRemainder_of_parts (ha : parts a = .finite s m e hm) (hb : parts b = .finite t n f hn) :
    IsRemainder a b (remainder a b) := by
  have hdividend := canonical_of_parts ha
  have hdivisor := canonical_of_parts hb
  have hremainder : remainder a b = ofBinary s
      (m * 2 ^ (e - min e f).toNat % (n * 2 ^ (f - min e f).toNat)) (min e f) := by
    rw [remainder, ha, hb]
    rfl
  obtain ⟨hfinite, hvalue, hsign⟩ := ofBinary_exact (mod_shifted_lt hdividend hdivisor)
    (le_min hdividend.exponent_ge hdivisor.exponent_ge)
    ((min_le_left e f).trans (exponent_le_of_parts ha)) s
  rw [← hremainder] at hfinite hvalue hsign
  rw [← apply_tmod s t] at hvalue
  have hpos : 0 < n * 2 ^ (f - min e f).toNat := Nat.mul_pos hn (by positivity)
  obtain ⟨hsplit, hlt⟩ := value_split (value_of_parts ha (min_le_left e f))
    (value_of_parts hb (min_le_right e f)) hvalue (apply_ne_zero t hpos)
  exact ⟨hfinite, hsplit, hlt, hsign.trans (congrArg sign? ha).symm⟩

/-- The remainder of two finite doubles is exact, if the divisor is no zero. -/
theorem isRemainder_of_isFinite (ha : a.isFinite = true) (hb : b.isFinite = true)
    (hne : value b ≠ 0) : IsRemainder a b (remainder a b) := by
  change (parts a).isFinite = true at ha
  change (parts b).isFinite = true at hb
  cases hdivisor : parts b with
  | notANumber => simp [hdivisor, UnpackedFloat.isFinite] at hb
  | infinity t => simp [hdivisor, UnpackedFloat.isFinite] at hb
  | zero t => exact absurd (by rw [value, hdivisor]) hne
  | finite t n f hn =>
    cases hdividend : parts a with
    | notANumber => simp [hdividend, UnpackedFloat.isFinite] at ha
    | infinity s => simp [hdividend, UnpackedFloat.isFinite] at ha
    | zero s =>
      have hremainder : remainder a b = a := by rw [remainder, hdividend, hdivisor]
      have hvalue : value a = 0 := by rw [value, hdividend]
      rw [hremainder]
      refine ⟨ha, ?_, ?_, rfl⟩
      · rw [hvalue, zero_div]
        simp [truncated]
      · rw [hvalue, abs_zero]
        exact abs_pos.2 hne
    | finite s m e hm => exact isRemainder_of_parts hdividend hdivisor

/-- A finite double is its own remainder, if the divisor is infinite. -/
theorem remainder_of_isInf (ha : a.isFinite = true) (hb : b.isInf = true) : remainder a b = a := by
  change (parts a).isFinite = true at ha
  change (parts b).isInf = true at hb
  cases hdivisor : parts b <;> simp [hdivisor, UnpackedFloat.isInf] at hb
  cases hdividend : parts a <;> simp [hdividend, UnpackedFloat.isFinite] at ha
  all_goals rw [remainder, hdividend, hdivisor]

/-- There is no remainder of a dividend that is not finite. -/
theorem remainder_of_not_isFinite (b : Float) (ha : ¬ a.isFinite = true) :
    remainder a b = nan := by
  change ¬ (parts a).isFinite = true at ha
  cases hdividend : parts a with
  | notANumber => rw [remainder, hdividend]
  | infinity s => rw [remainder, hdividend]
  | zero s => exact absurd (congrArg UnpackedFloat.isFinite hdividend) ha
  | finite s m e hm => exact absurd (congrArg UnpackedFloat.isFinite hdividend) ha

/-- A divisor has a remainder only if it is infinite, or finite and no zero. -/
theorem remainder_of_divisor (a : Float)
    (hb : ¬ (b.isInf = true ∨ b.isFinite = true ∧ value b ≠ 0)) : remainder a b = nan := by
  change ¬ ((parts b).isInf = true ∨ (parts b).isFinite = true ∧ value b ≠ 0) at hb
  cases hdivisor : parts b with
  | notANumber => cases hdividend : parts a <;> rw [remainder, hdividend, hdivisor]
  | zero t => cases hdividend : parts a <;> rw [remainder, hdividend, hdivisor]
  | infinity t => exact absurd (.inl (congrArg UnpackedFloat.isInf hdivisor)) hb
  | finite t n f hn =>
    have hfinite : (parts b).isFinite = true := congrArg UnpackedFloat.isFinite hdivisor
    exact absurd (.inr ⟨hfinite, value_ne_zero_of_parts hdivisor⟩) hb

end Remainder

/-- The operator `%` has a result for all doubles. If the dividend is finite, and the
divisor is finite and no zero, the result is the exact remainder; if the dividend is
finite and the divisor is infinite, it is the dividend; otherwise it is not a
number. -/
theorem operate?_remainder (a b : Float) :
    ∃ r, operate? "%" a b = some r ∧
      (a.isFinite = true → b.isFinite = true → value b ≠ 0 → IsRemainder a b r) ∧
      (a.isFinite = true → b.isInf = true → r = a) ∧
      (¬ (a.isFinite = true ∧ (b.isInf = true ∨ b.isFinite = true ∧ value b ≠ 0)) →
        r.isNaN = true) := by
  refine ⟨remainder a b, rfl, isRemainder_of_isFinite, remainder_of_isInf, ?_⟩
  intro h
  have hnan : remainder a b = nan := by
    by_cases ha : a.isFinite = true
    · exact remainder_of_divisor a fun hb => h ⟨ha, hb⟩
    · exact remainder_of_not_isFinite b ha
  rw [hnan]
  rfl

/-- The divisor is three times the least double, and the dividend is the least of all
finite ones, so the quotient has more than two thousand digits. -/
theorem operate?_remainder_far_apart :
    let a := ofBinary .negative (2 ^ 53 - 1) 971
    let b := ofBinary .positive 3 (-1074)
    let r := ofBinary .negative 2 (-1074)
    a.isFinite = true ∧ b.isFinite = true ∧ value b ≠ 0 ∧ operate? "%" a b = some r ∧
      IsRemainder a b r := by
  intro a b r
  have ha : a.isFinite = true := by decide +kernel
  have hb : b.isFinite = true := by decide +kernel
  have hne : value b ≠ 0 := by
    rw [(ofBinary_exact (by decide) (by decide) (by decide) .positive).2.1]
    exact mul_ne_zero (by norm_num [Sign.apply]) (by positivity)
  have hr : operate? "%" a b = some r := by decide +kernel
  obtain ⟨r', hr', hexact, -⟩ := operate?_remainder a b
  obtain rfl : r = r' := Option.some.inj (hr.symm.trans hr')
  exact ⟨ha, hb, hne, hr, hexact ha hb hne⟩

end Scriptlet.Number
