import Scriptlet.Number.Printed
import Scriptlet.Proofs.Number.Decimal
import Scriptlet.Proofs.Token.Numeral

/-!
# Positional numerals

A numeral of the digits from zero to nine, with digits before its point if it
has one, denotes a number. It is read as the double that this number is rounded
to. A decimal that is not below `0.0001` is written as a numeral that denotes its
value, whatever zeros are taken off its end.
-/

namespace Scriptlet.Number

open Character

/-- Whether a text consists of the digits from zero to nine. -/
def IsDigits (text : List Char) : Prop :=
  ∀ c ∈ text, c.isDigit = true

/-- Whether a text is a positional numeral for a number. -/
inductive Denotes : List Char → ℚ → Prop
  | whole {digits : List Char} :
      digits ≠ [] → IsDigits digits → Denotes digits (Nat.ofDigitChars 10 digits 0)
  | point {whole fraction : List Char} :
      whole ≠ [] → IsDigits whole → IsDigits fraction →
        Denotes (whole ++ '.' :: fraction)
          (Nat.ofDigitChars 10 (whole ++ fraction) 0 / 10 ^ fraction.length)

section Reading

variable {c : Char} {digits text : List Char} {q : ℚ} {x : Float}

/-- The digits from zero to nine have codes in a row. -/
theorem toNat_bounds_of_isDigit (h : c.isDigit = true) : 48 ≤ c.toNat ∧ c.toNat ≤ 57 := by
  simp only [Char.isDigit, ge_iff_le, Bool.and_eq_true, decide_eq_true_eq] at h
  exact ⟨UInt32.le_iff_toNat_le.1 h.1, UInt32.le_iff_toNat_le.1 h.2⟩

/-- The digits from zero to nine are digits. -/
theorem isDigit_of_isDigit (h : c.isDigit = true) : isDigit c = true := by
  obtain ⟨hlow, hhigh⟩ := toNat_bounds_of_isDigit h
  simp [isDigit, digitIntervals, within, hlow, hhigh]

/-- The digits from zero to nine have their values. -/
theorem IsDigits.values (hdigits : IsDigits digits) :
    ∀ c ∈ digits, decimalValue? c = some (c.toNat - 48) := by
  intro c hc
  obtain ⟨hlow, hhigh⟩ := toNat_bounds_of_isDigit (hdigits c hc)
  have hlt : (c.toNat - 48) % 10 = c.toNat - 48 := Nat.mod_eq_of_lt (by omega)
  simp [decimalValue?, decimalIntervals, offsetWithin, hlow, hhigh, hlt]

/-- The values of digits denote what the digits denote. -/
theorem ofDigits_map (digits : List Char) :
    ofDigits (digits.map fun c => c.toNat - 48) = Nat.ofDigitChars 10 digits 0 := by
  rw [ofDigits, List.foldl_map, Nat.ofDigitChars_eq_foldl]
  rfl

namespace Denotes

/-- A positional numeral is a numeral in every place. -/
theorem numeral (h : Denotes text q) (afterOperand : Bool) : Lexeme.Numeral afterOperand text := by
  cases h with
  | whole hne hdigits => exact .whole hne fun c hc => isDigit_of_isDigit (hdigits c hc)
  | point hne hwhole hfraction =>
    exact .point (fun c hc => isDigit_of_isDigit (hwhole c hc))
      (fun c hc => isDigit_of_isDigit (hfraction c hc)) (.inl hne)

/-- A positional numeral is complete. -/
theorem completeNumber_eq (h : Denotes text q) : Lexeme.completeNumber text = text := by
  cases h with
  | @whole digits hne hdigits =>
    obtain ⟨c, rest, rfl⟩ := List.exists_cons_of_ne_nil hne
    exact Lexeme.completeNumber_of_isDigit (isDigit_of_isDigit (hdigits c (by simp)))
  | @point whole fraction hne hwhole hfraction =>
    obtain ⟨c, rest, rfl⟩ := List.exists_cons_of_ne_nil hne
    exact Lexeme.completeNumber_of_isDigit (isDigit_of_isDigit (hwhole c (by simp)))

/-- A positional numeral is read as the decimal that it denotes. -/
theorem exists_decimal (h : Denotes text q) :
    ∃ d : Decimal, readDecimal text = some d ∧ d.value = q ∧ d.exponent ≤ 0 := by
  cases h with
  | whole hne hdigits =>
    refine ⟨_, readDecimal_whole hne hdigits.values, ?_, le_rfl⟩
    rw [Decimal.value, ofDigits_map, zpow_zero, mul_one]
  | @point whole fraction hne hwhole hfraction =>
    refine ⟨_, readDecimal_point (.inl hne) hwhole.values hfraction.values, ?_, by simp⟩
    rw [Decimal.value, ofDigits_map, zpow_neg, zpow_natCast, div_eq_mul_inv]

/-- A positional numeral is read as the double that its number is rounded to. -/
theorem read?_eq (h : Denotes text q) (hleast : (2 : ℚ) ^ (-1074 : ℤ) ≤ q) (hx : RoundsTo q x) :
    read? (String.ofList text) = some x := by
  obtain ⟨d, hread, rfl, hexponent⟩ := h.exists_decimal
  have hbound : d.exponent < Decimal.exponentBound := lt_of_le_of_lt hexponent (by decide)
  have hfloat : d.toFloat = x := (Decimal.roundsTo_toFloat hleast hbound).unique hx
  rw [read?_of_plain (h.numeral true).plain, hread, Option.map_some, hfloat]

end Denotes

end Reading

section Writing

variable {digits : List Char} {n : ℕ} {d : Decimal}

/-- The digits of an integer. -/
theorem isDigits_toDigits (n : ℕ) : IsDigits (Nat.toDigits 10 n) := by
  intro c hc
  exact Nat.isDigit_of_mem_toDigits (by norm_num) (by norm_num) hc

/-- Zeros are digits. -/
theorem isDigits_replicate (n : ℕ) : IsDigits (List.replicate n '0') := by
  intro c hc
  rw [List.eq_of_mem_replicate hc]
  rfl

/-- Digits after digits are digits. -/
theorem IsDigits.append {digits digits' : List Char} (h : IsDigits digits) (h' : IsDigits digits') :
    IsDigits (digits ++ digits') := by
  intro c hc
  rcases List.mem_append.1 hc with hc | hc
  · exact h c hc
  · exact h' c hc

/-- Some of the digits are digits. -/
theorem IsDigits.subset {digits digits' : List Char} (h : IsDigits digits)
    (hsubset : digits' ⊆ digits) : IsDigits digits' :=
  fun c hc => h c (hsubset hc)

/-- The digits of an integer denote it. -/
theorem denotes_toDigits (n : ℕ) : Denotes (Nat.toDigits 10 n) n := by
  have hdenotes := Denotes.whole Nat.toDigits_ne_nil (isDigits_toDigits n)
  rwa [Nat.ofDigitChars_ten_toDigits] at hdenotes

/-- Zeros before digits do not count. -/
theorem ofDigitChars_zeros_append (zeros : ℕ) (digits : List Char) :
    Nat.ofDigitChars 10 (List.replicate zeros '0' ++ digits) 0 = Nat.ofDigitChars 10 digits 0 := by
  rw [Nat.ofDigitChars_append, Nat.ofDigitChars_replicate_zero, mul_zero]

/-- Zeros after digits multiply by ten. -/
theorem ofDigitChars_append_zeros (zeros : ℕ) (digits : List Char) :
    Nat.ofDigitChars 10 (digits ++ List.replicate zeros '0') 0 =
      10 ^ zeros * Nat.ofDigitChars 10 digits 0 := by
  rw [Nat.ofDigitChars_append, Nat.ofDigitChars_replicate_zero]

/-- Zeros between the point and the digits divide them by more. -/
theorem denotes_zeros_digits (hdigits : IsDigits digits) (zeros : ℕ) :
    Denotes ('0' :: '.' :: (List.replicate zeros '0' ++ digits))
      (Nat.ofDigitChars 10 digits 0 / 10 ^ (zeros + digits.length)) := by
  have hzero : List.replicate 1 '0' ≠ [] := by simp
  have hpoint := Denotes.point hzero (isDigits_replicate 1)
    ((isDigits_replicate zeros).append hdigits)
  rw [ofDigitChars_zeros_append, ofDigitChars_zeros_append, List.length_append,
    List.length_replicate] at hpoint
  exact hpoint

/-- Zeros between the digits and the point multiply them. -/
theorem denotes_digits_zeros (hne : digits ≠ []) (hdigits : IsDigits digits) (zeros : ℕ) :
    Denotes (digits ++ List.replicate zeros '0' ++ ['.', '0'])
      (Nat.ofDigitChars 10 digits 0 * 10 ^ zeros) := by
  have hpoint := Denotes.point (List.append_ne_nil_of_left_ne_nil hne _)
    (hdigits.append (isDigits_replicate zeros)) (isDigits_replicate 1)
  have hvalue : ((10 ^ 1 * (10 ^ zeros * Nat.ofDigitChars 10 digits 0) : ℕ) : ℚ) / 10 ^ 1 =
      Nat.ofDigitChars 10 digits 0 * 10 ^ zeros := by
    rw [Nat.cast_mul, Nat.cast_mul, Nat.cast_pow, Nat.cast_pow, Nat.cast_ofNat]
    field_simp
  rw [ofDigitChars_append_zeros, ofDigitChars_append_zeros, List.length_replicate, hvalue] at hpoint
  exact hpoint

/-- A point among the digits divides them by as many tens as digits follow it. -/
theorem denotes_take_drop (hne : digits ≠ []) (hdigits : IsDigits digits) {before : ℕ}
    (hbefore : before ≠ 0) :
    Denotes (digits.take before ++ '.' :: digits.drop before)
      (Nat.ofDigitChars 10 digits 0 / 10 ^ (digits.length - before)) := by
  have hwhole : digits.take before ≠ [] := by simp [hbefore, hne]
  have hpoint := Denotes.point hwhole (hdigits.subset (List.take_subset before digits))
    (hdigits.subset (List.drop_subset before digits))
  rwa [List.take_append_drop, List.length_drop] at hpoint

/-- Digits with the point moved denote them times a power of ten. -/
theorem denotes_positional (hne : digits ≠ []) (hdigits : IsDigits digits) (before : ℤ) :
    Denotes (positional digits before)
      (Nat.ofDigitChars 10 digits 0 * 10 ^ (before - digits.length)) := by
  rw [positional]
  split
  case isTrue hbefore =>
    have hexponent : before - digits.length = -(((-before).toNat + digits.length : ℕ) : ℤ) := by
      omega
    rw [hexponent, zpow_neg, zpow_natCast, ← div_eq_mul_inv]
    exact denotes_zeros_digits hdigits (-before).toNat
  case isFalse hbefore =>
    dsimp only
    split
    case isTrue hlength =>
      have hexponent : before - digits.length = ((before.toNat - digits.length : ℕ) : ℤ) := by omega
      rw [hexponent, zpow_natCast, List.take_of_length_le hlength]
      exact denotes_digits_zeros hne hdigits _
    case isFalse hlength =>
      have hexponent : before - digits.length = -((digits.length - before.toNat : ℕ) : ℤ) := by
        omega
      have hzeros : before.toNat - digits.length = 0 := by omega
      rw [hexponent, zpow_neg, zpow_natCast, ← div_eq_mul_inv, hzeros, List.replicate_zero,
        List.append_nil]
      exact denotes_take_drop hne hdigits (by omega)

/-- Only zeros are taken off the end of digits. -/
theorem exists_dropFinalZeros (digits : List Char) :
    ∃ zeros, digits = dropFinalZeros digits ++ List.replicate zeros '0' := by
  set final := digits.reverse.takeWhile (· == '0') with hfinal
  have hzeros : final = List.replicate final.length '0' := by
    refine List.eq_replicate_of_mem fun c hc => ?_
    simpa using Lexeme.forall_mem_takeWhile _ _ c hc
  refine ⟨final.length, ?_⟩
  calc digits = (final ++ digits.reverse.dropWhile (· == '0')).reverse := by
        rw [List.takeWhile_append_dropWhile, List.reverse_reverse]
    _ = dropFinalZeros digits ++ final.reverse := by rw [List.reverse_append, dropFinalZeros]
    _ = dropFinalZeros digits ++ List.replicate final.length '0' := by
        rw [hzeros, List.reverse_replicate, List.length_replicate]

/-- A decimal that is not below `0.0001` has its point among its digits, or before them
with at most three zeros between. -/
theorem Decimal.before_gt (h : 1 / 10000 ≤ d.value) :
    -4 < d.exponent + (Nat.toDigits 10 d.coefficient).length := by
  set length := (Nat.toDigits 10 d.coefficient).length with hlength
  have hpos : 0 < length := List.length_pos_iff.2 Nat.toDigits_ne_nil
  have hlt : d.coefficient < 10 ^ length :=
    (Nat.length_toDigits_le_iff (by norm_num) hpos).1 le_rfl
  have hlt' : (d.coefficient : ℚ) < 10 ^ length := by exact_mod_cast hlt
  have hvalue : (10 : ℚ) ^ (-4 : ℤ) < 10 ^ (d.exponent + length) := by
    calc (10 : ℚ) ^ (-4 : ℤ) = 1 / 10000 := by norm_num
      _ ≤ d.coefficient * 10 ^ d.exponent := h
      _ < 10 ^ length * 10 ^ d.exponent := by gcongr
      _ = 10 ^ (d.exponent + length) := by
        rw [zpow_add₀ (by norm_num), zpow_natCast, mul_comm]
  rwa [zpow_lt_zpow_iff_right₀ (by norm_num)] at hvalue

/-- The digits that are left of a positive integer. -/
theorem dropFinalZeros_toDigits (hn : 0 < n) :
    dropFinalZeros (Nat.toDigits 10 n) ≠ [] ∧ IsDigits (dropFinalZeros (Nat.toDigits 10 n)) := by
  obtain ⟨zeros, hdigits⟩ := exists_dropFinalZeros (Nat.toDigits 10 n)
  constructor
  · intro hnil
    have hvalue : n = 10 ^ zeros * Nat.ofDigitChars 10 [] 0 := by
      rw [← hnil, ← ofDigitChars_append_zeros, ← hdigits, Nat.ofDigitChars_ten_toDigits]
    rw [Nat.ofDigitChars_nil, mul_zero] at hvalue
    omega
  · refine (isDigits_toDigits n).subset ?_
    conv_rhs => rw [hdigits]
    exact List.subset_append_left _ _

/-- The value of a decimal does not change with the zeros at its end. -/
theorem Decimal.value_eq (d : Decimal) :
    let digits := Nat.toDigits 10 d.coefficient
    d.value = Nat.ofDigitChars 10 (dropFinalZeros digits) 0 *
      10 ^ (d.exponent + digits.length - (dropFinalZeros digits).length) := by
  intro digits
  obtain ⟨zeros, hdigits⟩ := exists_dropFinalZeros digits
  have hlength : digits.length = (dropFinalZeros digits).length + zeros := by
    conv_lhs => rw [hdigits, List.length_append, List.length_replicate]
  have hexponent : d.exponent + digits.length - (dropFinalZeros digits).length =
      d.exponent + zeros := by omega
  have hcoefficient : d.coefficient = 10 ^ zeros * Nat.ofDigitChars 10 (dropFinalZeros digits) 0 := by
    rw [← ofDigitChars_append_zeros, ← hdigits, Nat.ofDigitChars_ten_toDigits]
  have hcast : (d.coefficient : ℚ) =
      10 ^ zeros * Nat.ofDigitChars 10 (dropFinalZeros digits) 0 := by
    exact_mod_cast hcoefficient
  rw [value, hcast, hexponent, zpow_add₀ (by norm_num), zpow_natCast]
  ring

/-- A decimal with at most three zeros between its point and its digits is written as a
numeral that denotes its value. -/
theorem Decimal.denotes_print_of_lt (hpos : 0 < d.coefficient)
    (hbefore : -4 < d.exponent + (Nat.toDigits 10 d.coefficient).length) :
    Denotes d.print d.value := by
  obtain ⟨hne, hdigits⟩ := dropFinalZeros_toDigits hpos
  rw [print, if_neg (by omega), value_eq]
  exact denotes_positional hne hdigits _

/-- A decimal that is not below `0.0001` is written as a numeral that denotes its
value. -/
theorem Decimal.denotes_print (h : 1 / 10000 ≤ d.value) : Denotes d.print d.value :=
  denotes_print_of_lt (coefficient_pos (lt_of_lt_of_le (by norm_num) h)) (before_gt h)

end Writing

end Scriptlet.Number
