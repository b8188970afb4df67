import Mathlib.Algebra.Order.Field.Power
import Mathlib.Algebra.Order.Field.Rat
import Mathlib.Tactic.FieldSimp
import Mathlib.Tactic.Linarith
import Mathlib.Tactic.NormNum
import Mathlib.Tactic.Positivity
import Mathlib.Tactic.Ring
import Scriptlet.Number.Decimal

/-!
# Rounding to doubles

A number is rounded by cutting its binary digits off at some place, with a note
on what was cut off, and shifting from there to the exponent that the number
has as a double. The note is exact enough for the result to depend on the
number only, and not on the place where its digits were cut off first. In
particular a number that is a double is rounded to itself.
-/

namespace Scriptlet.Number

open Float.Model (UnpackedFloat Format totalExponent)
open Float.Model.UnpackedFloat (Sign Accuracy ExtendedMantissa accuracyOfFraction divCore
  decreaseExponent roundWithAccuracy shiftToTargetExponent shiftToExponent)

/-- Whether a number lies where a mantissa with its accuracy says: at the mantissa,
or after it and before, at or after the middle between it and the next one. -/
def Located (mantissa : ℕ) : Accuracy → ℚ → Prop
  | .exact, y => y = mantissa
  | .inexact .lt, y => mantissa < y ∧ y < mantissa + 1 / 2
  | .inexact .eq, y => y = mantissa + 1 / 2
  | .inexact .gt, y => mantissa + 1 / 2 < y ∧ y < mantissa + 1

section Located

variable {m n : ℕ} {a b : Accuracy} {y : ℚ}

/-- What is cut off is less than one. -/
theorem Located.lt_of_inexact {order : Ordering} (h : Located m (.inexact order) y) :
    (m : ℚ) < y ∧ y < m + 1 := by
  cases order <;> simp only [Located] at h <;> constructor <;> linarith

/-- A number lies between its mantissa and the next one. -/
theorem Located.bounds (h : Located m a y) : (m : ℚ) ≤ y ∧ y < m + 1 := by
  cases a with
  | exact =>
    simp only [Located] at h
    constructor <;> linarith
  | inexact order => exact ⟨h.lt_of_inexact.1.le, h.lt_of_inexact.2⟩

/-- A number lies in one place only: the four places exclude each other. -/
theorem Located.unique (h : Located m a y) (h' : Located n b y) : m = n ∧ a = b := by
  have hm := h.bounds
  have hn := h'.bounds
  have hlt : (m : ℚ) < n + 1 := by linarith
  have hgt : (n : ℚ) < m + 1 := by linarith
  have hle : m < n + 1 := by exact_mod_cast hlt
  have hge : n < m + 1 := by exact_mod_cast hgt
  obtain rfl : m = n := by omega
  refine ⟨rfl, ?_⟩
  rcases a with _ | (_ | _ | _) <;> rcases b with _ | (_ | _ | _) <;>
    simp only [Located] at h h' <;> first | rfl | (exfalso; linarith)

/-- The half of a number after an even mantissa lies before the middle. -/
theorem Located.half_even {k : ℕ} (h : Located (2 * k) a y) :
    Located k (match a with | .exact => .exact | .inexact _ => .inexact .lt) (y / 2) := by
  cases a with
  | exact =>
    have hy : y = (2 * k : ℕ) := h
    change y / 2 = k
    rw [hy]
    push_cast
    ring
  | inexact order =>
    obtain ⟨hlow, hhigh⟩ := h.lt_of_inexact
    push_cast at hlow hhigh
    constructor <;> linarith

/-- The half of a number after an odd mantissa lies at the middle or after it. -/
theorem Located.half_odd {k : ℕ} (h : Located (2 * k + 1) a y) :
    Located k (match a with | .exact => .inexact .eq | .inexact _ => .inexact .gt) (y / 2) := by
  cases a with
  | exact =>
    have hy : y = (2 * k + 1 : ℕ) := h
    change y / 2 = k + 1 / 2
    rw [hy]
    push_cast
    ring
  | inexact order =>
    obtain ⟨hlow, hhigh⟩ := h.lt_of_inexact
    push_cast at hlow hhigh
    constructor <;> linarith

/-- Whether a number lies where an extended mantissa says. -/
def LocatedBy (em : ExtendedMantissa) (y : ℚ) : Prop :=
  Located em.mantissa em.accuracy y

/-- An accuracy is kept in the two residual bits. -/
theorem locatedBy_ofMantissaAndAccuracy (h : Located m a y) :
    LocatedBy (.ofMantissaAndAccuracy m a) y := by
  rcases a with _ | (_ | _ | _) <;> exact h

/-- Shifting by one bit halves the number: the bit that is shifted out becomes the round
bit, and the other two become the sticky bit. -/
theorem LocatedBy.shiftRightOne {em : ExtendedMantissa} (h : LocatedBy em y) :
    LocatedBy em.shiftRightOne (y / 2) := by
  obtain ⟨m, roundBit, stickyBit⟩ := em
  rcases Nat.even_or_odd' m with ⟨k, rfl | rfl⟩
  · have hmantissa : 2 * k / 2 = k := by omega
    have hbit : (2 * k % 2 != 0) = false := by simp
    simp only [LocatedBy, ExtendedMantissa.shiftRightOne, hmantissa, hbit]
    cases roundBit <;> cases stickyBit <;> exact Located.half_even h
  · have hmantissa : (2 * k + 1) / 2 = k := by omega
    have hbit : ((2 * k + 1) % 2 != 0) = true := by simp
    simp only [LocatedBy, ExtendedMantissa.shiftRightOne, hmantissa, hbit]
    cases roundBit <;> cases stickyBit <;> exact Located.half_odd h

/-- Shifting by bits halves the number as often. -/
theorem LocatedBy.shiftRight {em : ExtendedMantissa} (h : LocatedBy em y) (k : ℕ) :
    LocatedBy (em >>> k) (y / 2 ^ k) := by
  change LocatedBy (k.repeat ExtendedMantissa.shiftRightOne em) _
  induction k with
  | zero => simpa [Nat.repeat] using h
  | succ k ih =>
    rw [Nat.repeat, pow_succ, ← div_div]
    exact ih.shiftRightOne

end Located

/-- Whether `mantissa · 2 ^ exponent`, with an accuracy, stands for a number and has
digits enough for it to be rounded. -/
structure StandsFor (mantissa : ℕ) (exponent : ℤ) (accuracy : Accuracy) (q : ℚ) : Prop where
  /-- There is a first digit. -/
  pos : 0 < mantissa
  /-- The number lies where the mantissa and the accuracy say. -/
  located : Located mantissa accuracy (q / 2 ^ exponent)
  /-- No digit that the double has is cut off. -/
  exponent_le : exponent ≤ Format.binary64.targetExponent (totalExponent mantissa exponent)

section StandsFor

variable {m n : ℕ} {e f : ℤ} {a b : Accuracy} {q : ℚ}

/-- A mantissa with more digits and a smaller exponent has the same value. -/
theorem mul_zpow_shift (m : ℕ) (h : f ≤ e) :
    ((m * 2 ^ (e - f).toNat : ℕ) : ℚ) * 2 ^ f = m * 2 ^ e := by
  have hsplit : e = (e - f).toNat + f := by omega
  conv_rhs => rw [hsplit, zpow_add₀ two_ne_zero, zpow_natCast]
  push_cast
  ring

/-- A mantissa and an exponent lie where they say. -/
theorem located_exact (m : ℕ) (e : ℤ) : Located m .exact ((m * 2 ^ e : ℚ) / 2 ^ e) :=
  mul_div_cancel_right₀ (m : ℚ) (by positivity)

/-- The total exponent says between which powers of two a number lies. -/
theorem totalExponent_bounds (hm : 0 < m) (h : Located m a (q / 2 ^ e)) :
    (2 : ℚ) ^ (totalExponent m e - 1) ≤ q ∧ q < 2 ^ totalExponent m e := by
  have hpos : (0 : ℚ) < 2 ^ e := by positivity
  have hlow : 2 ^ m.log2 ≤ m := Nat.log2_self_le hm.ne'
  have hhigh : m + 1 ≤ 2 ^ (m.log2 + 1) := Nat.lt_log2_self
  have hlow' : (2 : ℚ) ^ m.log2 ≤ m := by exact_mod_cast hlow
  have hhigh' : (m : ℚ) + 1 ≤ 2 ^ (m.log2 + 1) := by exact_mod_cast hhigh
  obtain ⟨hle, hlt⟩ := h.bounds
  rw [le_div_iff₀ hpos] at hle
  rw [div_lt_iff₀ hpos] at hlt
  have hsplit : (2 : ℚ) ^ (totalExponent m e - 1) = 2 ^ m.log2 * 2 ^ e := by
    rw [← zpow_natCast, ← zpow_add₀ two_ne_zero]
    congr 1
    simp only [totalExponent]
    omega
  have hsplit' : (2 : ℚ) ^ totalExponent m e = 2 ^ (m.log2 + 1) * 2 ^ e := by
    rw [← zpow_natCast, ← zpow_add₀ two_ne_zero]
    rfl
  rw [hsplit, hsplit']
  constructor
  · calc (2 : ℚ) ^ m.log2 * 2 ^ e ≤ m * 2 ^ e := by gcongr
      _ ≤ q := hle
  · calc q < (m + 1) * 2 ^ e := hlt
      _ ≤ 2 ^ (m.log2 + 1) * 2 ^ e := by gcongr

/-- A number lies between powers of two in one way only. -/
theorem eq_of_zpow_bounds {s t : ℤ} (hs : (2 : ℚ) ^ (s - 1) ≤ q ∧ q < 2 ^ s)
    (ht : (2 : ℚ) ^ (t - 1) ≤ q ∧ q < 2 ^ t) : s = t := by
  have hst : (2 : ℚ) ^ (s - 1) < 2 ^ t := lt_of_le_of_lt hs.1 ht.2
  have hts : (2 : ℚ) ^ (t - 1) < 2 ^ s := lt_of_le_of_lt ht.1 hs.2
  rw [zpow_lt_zpow_iff_right₀ one_lt_two] at hst hts
  omega

/-- A number has one total exponent. -/
theorem StandsFor.totalExponent_eq (h : StandsFor m e a q) (h' : StandsFor n f b q) :
    totalExponent m e = totalExponent n f :=
  eq_of_zpow_bounds (totalExponent_bounds h.pos h.located) (totalExponent_bounds h'.pos h'.located)

/-- Shifting to the exponent of the double leads to where the number lies there. -/
theorem StandsFor.shift (h : StandsFor m e a q) :
    let shifted := shiftToTargetExponent Format.binary64 m e a
    let target := Format.binary64.targetExponent (totalExponent m e)
    LocatedBy shifted.1 (q / 2 ^ target) ∧ shifted.2 = target := by
  intro shifted target
  have htarget : e + (target - e).toNat = target := by
    have hle := h.exponent_le
    omega
  refine ⟨?_, htarget⟩
  have hshift := (locatedBy_ofMantissaAndAccuracy h.located).shiftRight (target - e).toNat
  have hquotient : q / 2 ^ e / 2 ^ (target - e).toNat = q / 2 ^ target := by
    rw [div_div, ← zpow_natCast, ← zpow_add₀ two_ne_zero, htarget]
  rwa [hquotient] at hshift

/-- Rounding depends on the number only, and not on what stands for it. -/
theorem StandsFor.roundWithAccuracy_eq (h : StandsFor m e a q) (h' : StandsFor n f b q)
    (sign : Sign) :
    roundWithAccuracy Format.binary64 sign m e a = roundWithAccuracy Format.binary64 sign n f b := by
  have htotal := h.totalExponent_eq h'
  obtain ⟨hleft, hexponent⟩ := h.shift
  obtain ⟨hright, hexponent'⟩ := h'.shift
  rw [← htotal] at hright hexponent'
  obtain ⟨hmantissa, haccuracy⟩ := Located.unique hleft hright
  have hrounded : (shiftToTargetExponent Format.binary64 m e a).1.roundedMantissa =
      (shiftToTargetExponent Format.binary64 n f b).1.roundedMantissa := by
    rw [ExtendedMantissa.roundedMantissa, ExtendedMantissa.roundedMantissa, hmantissa, haccuracy]
  unfold roundWithAccuracy
  dsimp only
  rw [hrounded, hexponent, hexponent']

end StandsFor

/-- Whether `mantissa · 2 ^ exponent` is in the form that a double has: with all 53
digits, or with the least exponent. -/
structure Canonical (mantissa : ℕ) (exponent : ℤ) : Prop where
  /-- There is a first digit. -/
  pos : 0 < mantissa
  /-- There are 53 digits at most. -/
  lt : mantissa < 2 ^ 53
  /-- The exponent is not below the least one. -/
  exponent_ge : -1074 ≤ exponent
  /-- Only with the least exponent there may be fewer digits. -/
  normal : 2 ^ 52 ≤ mantissa ∨ exponent = -1074

section Canonical

variable {m : ℕ} {e : ℤ}

/-- The exponent of the double nearest to a number with a total exponent. -/
theorem targetExponent_eq (t : ℤ) : Format.binary64.targetExponent t = max (t - 53) (-1074) :=
  rfl

/-- The canonical form has the exponent of the double. -/
theorem Canonical.targetExponent (h : Canonical m e) :
    Format.binary64.targetExponent (totalExponent m e) = e := by
  have hne : m ≠ 0 := h.pos.ne'
  have hlog : m.log2 < 53 := (Nat.log2_lt hne).2 h.lt
  have hleast := h.exponent_ge
  rw [targetExponent_eq, totalExponent]
  rcases h.normal with hnormal | hsubnormal
  · have hlog' : 52 ≤ m.log2 := (Nat.le_log2 hne).2 hnormal
    omega
  · omega

/-- The canonical form stands for its value. -/
theorem Canonical.standsFor (h : Canonical m e) : StandsFor m e .exact (m * 2 ^ e) where
  pos := h.pos
  located := located_exact m e
  exponent_le := h.targetExponent.ge

/-- The canonical form is rounded to itself. -/
theorem Canonical.roundWithAccuracy_exact (h : Canonical m e) (sign : Sign) :
    roundWithAccuracy Format.binary64 sign m e .exact = .finite sign m e h.pos := by
  have hshift : shiftToTargetExponent Format.binary64 m e .exact = (⟨m, false, false⟩, e) := by
    simp only [shiftToTargetExponent, shiftToExponent, h.targetExponent, sub_self, Int.toNat_zero,
      Int.ofNat_zero, add_zero]
    rfl
  have hrounded : ExtendedMantissa.roundedMantissa ⟨m, false, false⟩ = m := rfl
  unfold roundWithAccuracy
  rw [hshift]
  dsimp only
  rw [hrounded, hshift]
  exact dif_neg h.pos.ne'

end Canonical

section Quotient

variable {m n : ℕ} {e : ℤ}

/-- A mantissa and an exponent are rounded as their value. Shifting to the left changes
neither the value nor the total exponent. -/
theorem round_standsFor (hm : 0 < m) (sign : Sign) :
    ∃ n f, StandsFor n f .exact (m * 2 ^ e) ∧
      UnpackedFloat.round Format.binary64 sign m e =
        roundWithAccuracy Format.binary64 sign n f .exact := by
  set target := Format.binary64.targetExponent (totalExponent m e) with htarget
  set shift := (e - target).toNat with hshift
  have hvalue : ((m <<< shift : ℕ) : ℚ) * 2 ^ (e - shift) = m * 2 ^ e := by
    rw [Nat.shiftLeft_eq, Nat.cast_mul, Nat.cast_pow, Nat.cast_ofNat, mul_assoc, ← zpow_natCast,
      ← zpow_add₀ two_ne_zero]
    congr 2
    omega
  have hpos : 0 < m <<< shift := by
    rw [Nat.shiftLeft_eq]
    positivity
  have hshifted : Located (m <<< shift) .exact ((m * 2 ^ e : ℚ) / 2 ^ (e - shift)) := by
    rw [← hvalue]
    exact located_exact _ _
  have htotal : totalExponent (m <<< shift) (e - shift) = totalExponent m e :=
    eq_of_zpow_bounds (totalExponent_bounds hpos hshifted)
      (totalExponent_bounds hm (located_exact m e))
  refine ⟨m <<< shift, e - shift, ⟨hpos, hshifted, ?_⟩, rfl⟩
  rw [htotal, ← htarget]
  omega

/-- The quotient and the remainder of a division say where the fraction lies. -/
theorem located_accuracyOfFraction (n : ℕ) {d : ℕ} (hd : 0 < d) :
    Located (n / d) (accuracyOfFraction (n % d) d) ((n : ℚ) / d) := by
  have hd' : (0 : ℚ) < d := by exact_mod_cast hd
  have hsplit : (n : ℚ) / d = (n / d : ℕ) + (n % d : ℕ) / d := by
    rw [eq_comm, ← mul_div_cancel_left₀ ((n / d : ℕ) : ℚ) hd'.ne', ← add_div]
    congr 1
    exact_mod_cast Nat.div_add_mod n d
  have hlt : ((n % d : ℕ) : ℚ) < d := by exact_mod_cast Nat.mod_lt n hd
  generalize n % d = r at hsplit hlt ⊢
  rw [hsplit, accuracyOfFraction]
  split
  case isTrue hzero => simp [Located, hzero]
  case isFalse hzero =>
    have hr : (0 : ℚ) < r := by exact_mod_cast Nat.pos_of_ne_zero hzero
    rcases hcompare : compare (2 * r) d with _ | _ | _
    · have hhalf : ((2 * r : ℕ) : ℚ) < d := by exact_mod_cast Nat.compare_eq_lt.1 hcompare
      push_cast at hhalf
      refine ⟨by linarith [div_pos hr hd'], ?_⟩
      have hquotient : (r : ℚ) / d < 1 / 2 := by
        rw [div_lt_div_iff₀ hd' two_pos]
        linarith
      linarith
    · have hhalf : ((2 * r : ℕ) : ℚ) = d := by exact_mod_cast Nat.compare_eq_eq.1 hcompare
      push_cast at hhalf
      have hquotient : (r : ℚ) / d = 1 / 2 := by
        rw [div_eq_div_iff hd'.ne' two_ne_zero]
        linarith
      simp only [Located, hquotient]
    · have hhalf : (d : ℚ) < (2 * r : ℕ) := by exact_mod_cast Nat.compare_eq_gt.1 hcompare
      push_cast at hhalf
      have hquotient : 1 / 2 < (r : ℚ) / d := by
        rw [div_lt_div_iff₀ two_pos hd']
        linarith
      have hone : (r : ℚ) / d < 1 := by rwa [div_lt_one hd']
      constructor <;> linarith

/-- The leading digits of two numbers bound their quotient from below. -/
theorem zpow_le_quotient (hm : 0 < m) (hn : 0 < n) :
    (2 : ℚ) ^ (totalExponent m 0 - totalExponent n 0 - 1) ≤ m / n := by
  have hn' : (0 : ℚ) < n := by exact_mod_cast hn
  have hleft := (totalExponent_bounds hm (located_exact m 0)).1
  have hright := (totalExponent_bounds hn (located_exact n 0)).2
  rw [zpow_zero, mul_one] at hleft hright
  rw [le_div_iff₀ hn']
  calc (2 : ℚ) ^ (totalExponent m 0 - totalExponent n 0 - 1) * n
      ≤ 2 ^ (totalExponent m 0 - totalExponent n 0 - 1) * 2 ^ totalExponent n 0 := by gcongr
    _ = 2 ^ (totalExponent m 0 - 1) := by
        rw [← zpow_add₀ two_ne_zero]
        congr 1
        omega
    _ ≤ m := hleft

/-- The quotient of two numbers is computed with digits enough, unless it is below the
least double: its exponent is the least one, or it leaves all digits of the double. -/
theorem divCore_standsFor (hm : 0 < m) (hn : 0 < n) (hq : (2 : ℚ) ^ (-1074 : ℤ) ≤ m / n) :
    let quotient := divCore Format.binary64 m 0 n 0
    StandsFor quotient.1 quotient.2.1 quotient.2.2 (m / n) := by
  intro quotient
  set total := totalExponent m 0 - totalExponent n 0 with htotal
  set target := min 0 (Format.binary64.targetExponent total) with htarget
  set shift := (0 - target).toNat with hshift
  change StandsFor (m <<< shift / n) target (accuracyOfFraction (m <<< shift % n) n) _
  have hvalue : (m / n : ℚ) / 2 ^ target = (m <<< shift : ℕ) / n := by
    have hneg : target = -(shift : ℤ) := by omega
    rw [Nat.shiftLeft_eq, hneg, zpow_neg, div_inv_eq_mul, zpow_natCast]
    push_cast
    ring
  have hlocated := located_accuracyOfFraction (m <<< shift) hn
  rw [← hvalue] at hlocated
  have hlow : (2 : ℚ) ^ (total - 1) ≤ m / n := zpow_le_quotient hm hn
  have hleast : (2 : ℚ) ^ target ≤ m / n := by
    rcases le_or_gt target (-1074) with hle | hgt
    · exact (zpow_le_zpow_right₀ one_le_two hle).trans hq
    · refine (zpow_le_zpow_right₀ one_le_two ?_).trans hlow
      rw [targetExponent_eq] at htarget
      omega
  have hpos : 0 < m <<< shift / n := by
    have hone : (1 : ℚ) ≤ m / n / 2 ^ target := by rwa [one_le_div (by positivity)]
    have hlt := hlocated.bounds.2
    have hcast : (0 : ℚ) < (m <<< shift / n : ℕ) := by linarith
    exact_mod_cast hcast
  refine ⟨hpos, hlocated, ?_⟩
  have hhigh := (totalExponent_bounds hpos hlocated).2
  have hexponent := lt_of_le_of_lt hlow hhigh
  rw [zpow_lt_zpow_iff_right₀ one_lt_two] at hexponent
  rw [targetExponent_eq] at htarget ⊢
  omega

end Quotient

end Scriptlet.Number
