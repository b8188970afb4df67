import Scriptlet.Proofs.Number.Positional

/-!
# Printed numbers are read back

A finite double without a negative sign that is integral or not below `0.0001` is
printed as a positional numeral, and the numeral is read as that double. The
digits of an integral double denote it, and so it is the double that they are
rounded to. Any other double is printed with the first digits found that are
read as it, or with all its digits.
-/

namespace Scriptlet.Number

section Shortest

variable {numerator denominator : ℕ} {exponent : ℤ} {d : Decimal}

/-- Scaling up stops at a power that is great enough, if there is one within reach. -/
theorem le_scaleUp {k fuel start : ℕ} (hk : k ≤ start + fuel)
    (h : denominator ≤ numerator * 10 ^ k) :
    denominator ≤ numerator * 10 ^ scaleUp numerator denominator fuel start := by
  induction fuel generalizing start with
  | zero => exact h.trans (Nat.mul_le_mul_left _ (Nat.pow_le_pow_right (by norm_num) hk))
  | succ fuel ih =>
    rw [scaleUp]
    split
    case isTrue hle => exact hle
    case isFalse => exact ih (by omega)

/-- An integer has no more digits than it needs. -/
theorem pow_length_toDigits_le {n : ℕ} (hn : 0 < n) : 10 ^ ((Nat.toDigits 10 n).length - 1) ≤ n := by
  by_contra hlt
  rw [not_le] at hlt
  rcases Nat.eq_zero_or_pos ((Nat.toDigits 10 n).length - 1) with hzero | hpos
  · rw [hzero, pow_zero] at hlt
    omega
  · have hle := (Nat.length_toDigits_le_iff (by norm_num) hpos).2 hlt
    omega

/-- The magnitude counts no digit in vain, as long as it is within reach. -/
theorem zpow_magnitude_le (hdenominator : 0 < denominator)
    (h : (10 : ℚ) ^ (-400 : ℤ) ≤ numerator / denominator) :
    (10 : ℚ) ^ (magnitude numerator denominator - 1) ≤ numerator / denominator := by
  have hpos : (0 : ℚ) < denominator := by exact_mod_cast hdenominator
  rw [magnitude]
  split
  case isTrue hle =>
    have hquotient : 0 < numerator / denominator := Nat.div_pos hle hdenominator
    set length := (Nat.toDigits 10 (numerator / denominator)).length with hlength
    have hlength' : 0 < length := List.length_pos_iff.2 Nat.toDigits_ne_nil
    have hpower : (10 : ℚ) ^ ((length : ℤ) - 1) = (10 ^ (length - 1) : ℕ) := by
      rw [Nat.cast_pow, Nat.cast_ofNat, ← zpow_natCast]
      congr 1
      omega
    calc (10 : ℚ) ^ ((length : ℤ) - 1) = (10 ^ (length - 1) : ℕ) := hpower
      _ ≤ (numerator / denominator : ℕ) := by exact_mod_cast pow_length_toDigits_le hquotient
      _ ≤ numerator / denominator := Nat.cast_div_le
  case isFalse hlt =>
    have hreach : denominator ≤ numerator * 10 ^ 400 := by
      have hcast : (denominator : ℚ) ≤ numerator * 10 ^ 400 := by
        rw [zpow_neg, le_div_iff₀ hpos, inv_mul_le_iff₀ (by positivity), mul_comm] at h
        exact_mod_cast h
      exact_mod_cast hcast
    have hle : denominator ≤ numerator * 10 ^ scaleUp numerator denominator 400 1 :=
      le_scaleUp (by norm_num) hreach
    set k := scaleUp numerator denominator 400 1 with hk
    have hcast : (denominator : ℚ) ≤ numerator * 10 ^ k := by exact_mod_cast hle
    have hexponent : (1 : ℤ) - k - 1 = -k := by omega
    rw [hexponent, zpow_neg, zpow_natCast, le_div_iff₀ hpos, inv_mul_le_iff₀ (by positivity)]
    linarith

/-- A neighbour is a multiple of the power of ten and not below the lower one. -/
theorem of_mem_neighbours (hmem : d ∈ neighbours numerator denominator exponent) :
    d.exponent = exponent ∧
      numerator * 10 ^ (-exponent).toNat / (denominator * 10 ^ exponent.toNat) ≤
        d.coefficient := by
  rw [neighbours] at hmem
  split at hmem <;> simp only [List.mem_cons, List.not_mem_nil, or_false] at hmem <;>
    rcases hmem with rfl | rfl <;> simp

/-- A power of ten that a fraction is not below is not above its lower neighbour. -/
theorem pow_le_below (hdenominator : 0 < denominator) {t : ℤ} (ht : exponent ≤ t)
    (hle : (10 : ℚ) ^ t ≤ numerator / denominator) :
    10 ^ (t - exponent).toNat ≤
      numerator * 10 ^ (-exponent).toNat / (denominator * 10 ^ exponent.toNat) := by
  have hpos : (0 : ℚ) < denominator := by exact_mod_cast hdenominator
  have hpower : (10 : ℚ) ^ (t - exponent).toNat * 10 ^ exponent.toNat =
      10 ^ t * 10 ^ (-exponent).toNat := by
    simp only [← zpow_natCast]
    rw [← zpow_add₀ (by norm_num), ← zpow_add₀ (by norm_num)]
    congr 1
    omega
  rw [le_div_iff₀ hpos] at hle
  rw [Nat.le_div_iff_mul_le (by positivity)]
  have hscaled : (10 : ℚ) ^ (t - exponent).toNat * (denominator * 10 ^ exponent.toNat) ≤
      numerator * 10 ^ (-exponent).toNat := by
    calc (10 : ℚ) ^ (t - exponent).toNat * (denominator * 10 ^ exponent.toNat)
        = 10 ^ (t - exponent).toNat * 10 ^ exponent.toNat * denominator := by ring
      _ = 10 ^ t * denominator * 10 ^ (-exponent).toNat := by
          rw [hpower]
          ring
      _ ≤ numerator * 10 ^ (-exponent).toNat := by gcongr
  exact_mod_cast hscaled

/-- The neighbours of a fraction are not below a power of ten that the fraction is not
below. -/
theorem zpow_le_of_mem_neighbours (hdenominator : 0 < denominator)
    (hmem : d ∈ neighbours numerator denominator exponent) {t : ℤ} (ht : exponent ≤ t)
    (hle : (10 : ℚ) ^ t ≤ numerator / denominator) : (10 : ℚ) ^ t ≤ d.value := by
  obtain ⟨rfl, hbelow⟩ := of_mem_neighbours hmem
  have hmultiple : (10 : ℚ) ^ (t - d.exponent).toNat ≤ d.coefficient := by
    exact_mod_cast (pow_le_below hdenominator ht hle).trans hbelow
  calc (10 : ℚ) ^ t = 10 ^ (t - d.exponent).toNat * 10 ^ d.exponent := by
        rw [← zpow_natCast, ← zpow_add₀ (by norm_num)]
        congr 1
        omega
    _ ≤ d.value := by
        rw [Decimal.value]
        gcongr

variable {m places : ℕ}

/-- The shortest digits are those of a neighbour that is read as the double, or all
digits. -/
theorem shortest_cases (m places : ℕ) :
    ((shortest m places).toFloat = ofBinary .positive m (-places) ∧
      ∃ count ∈ digitCounts, shortest m places ∈
        neighbours m (2 ^ places) (magnitude m (2 ^ places) - (count : ℕ))) ∨
      shortest m places = expansion m places := by
  unfold shortest
  simp only [Nat.pow_eq]
  cases hfind : (digitCounts.flatMap fun (count : ℕ) =>
      neighbours m (2 ^ places) (magnitude m (2 ^ places) - count)).find? fun d =>
        d.toFloat.toBits == (ofBinary .positive m (-places)).toBits with
  | none => exact .inr rfl
  | some d =>
    have hbits := List.find?_some hfind
    obtain ⟨count, hcount, hmem⟩ := List.mem_flatMap.1 (List.mem_of_find?_eq_some hfind)
    exact .inl ⟨Float.toBits_inj.1 (by simpa using hbits), count, hcount, hmem⟩

/-- All digits of a fraction denote it. -/
theorem value_expansion (m places : ℕ) : (expansion m places).value = m / 2 ^ places := by
  rw [expansion, Decimal.value, zpow_neg, zpow_natCast, Nat.pow_eq, Nat.cast_mul, Nat.cast_pow]
  have hten : (10 : ℚ) ^ places = 2 ^ places * 5 ^ places := by
    rw [← mul_pow]
    norm_num
  rw [hten]
  field_simp
  norm_num

/-- The shortest digits of a number that is not below `0.0001` do not go below it,
whether they go below the fourth place or not. -/
theorem value_shortest_ge (h : (1 / 10000 : ℚ) ≤ m / 2 ^ places) :
    1 / 10000 ≤ (shortest m places).value := by
  rcases shortest_cases m places with ⟨-, count, hcount, hmem⟩ | hexpansion
  · have hpos : 0 < 2 ^ places := by positivity
    have hcast : (m : ℚ) / (2 ^ places : ℕ) = m / 2 ^ places := by rw [Nat.cast_pow, Nat.cast_ofNat]
    have hone : 1 ≤ count := by
      have hall : ∀ k ∈ digitCounts, 1 ≤ k := by decide
      exact hall count hcount
    have hfour : (10 : ℚ) ^ (-4 : ℤ) = 1 / 10000 := by norm_num
    rw [← hfour] at h ⊢
    rw [← hcast] at h
    have hreach : (10 : ℚ) ^ (-400 : ℤ) ≤ 10 ^ (-4 : ℤ) :=
      zpow_le_zpow_right₀ (by norm_num) (by norm_num)
    have hmagnitude := zpow_magnitude_le hpos (hreach.trans h)
    rcases le_or_gt (magnitude m (2 ^ places) - (count : ℤ)) (-4) with hle | hgt
    · exact zpow_le_of_mem_neighbours hpos hmem hle h
    · refine le_trans ?_ (zpow_le_of_mem_neighbours hpos hmem (by omega) hmagnitude)
      exact zpow_le_zpow_right₀ (by norm_num) (by omega)
  · rwa [hexpansion, value_expansion]

variable {x : Float} {hm : 0 < m}

/-- The least double is below `0.0001`. -/
theorem least_le : (2 : ℚ) ^ (-1074 : ℤ) ≤ 1 / 10000 := by
  calc (2 : ℚ) ^ (-1074 : ℤ) ≤ 2 ^ (-14 : ℤ) := zpow_le_zpow_right₀ (by norm_num) (by norm_num)
    _ ≤ 1 / 10000 := by norm_num

/-- A decimal that is read as a finite double is not above all doubles. -/
theorem exponent_lt_of_toFloat (hparts : parts x = .finite .positive m exponent hm)
    (hx : d.toFloat = x) (hpos : 0 < d.value) : d.exponent < Decimal.exponentBound := by
  by_contra hle
  have hbound : 0 ≤ Decimal.exponentBound := by decide
  have hinfinity : d.toFloat = ofParts (.infinity .positive) := by
    have hc := (Decimal.coefficient_pos hpos).ne'
    rw [Decimal.toFloat, if_neg (by omega), if_pos ⟨hc, by omega⟩]
  rw [← hx, hinfinity, parts_ofParts_infinity] at hparts
  cases hparts

/-- The shortest digits of a double are read as that double, as long as they do not
go below the least one. -/
theorem roundsTo_shortest (hparts : parts x = .finite .positive m (-places) hm)
    (hleast : (2 : ℚ) ^ (-1074 : ℤ) ≤ (shortest m places).value) :
    RoundsTo (shortest m places).value x := by
  have hvalue : (m : ℚ) * 2 ^ (-places : ℤ) = m / 2 ^ places := by
    rw [zpow_neg, zpow_natCast, div_eq_mul_inv]
  have hx := roundsTo_of_parts hparts
  rcases shortest_cases m places with ⟨hfloat, -⟩ | hexpansion
  · have hfloat' : (shortest m places).toFloat = x := by
      rw [hfloat]
      exact (roundsTo_ofBinary hm).unique hx
    have hbound := exponent_lt_of_toFloat hparts hfloat' (lt_of_lt_of_le (by positivity) hleast)
    rw [← hfloat']
    exact Decimal.roundsTo_toFloat hleast hbound
  · rwa [hexpansion, value_expansion, ← hvalue]

end Shortest

section Print

variable {m n : ℕ} {e : ℤ} {hm : 0 < m} {x : Float}

/-- The number that a finite double without a negative sign stands for. -/
def unsigned? (x : Float) : Option ℚ :=
  match parts x with
  | .zero .positive => some 0
  | .finite .positive mantissa exponent _ => some (mantissa * 2 ^ exponent)
  | _ => none

/-- Whether a double is printed as a positional numeral: it is finite, has no negative
sign, and is integral or not below `0.0001`. -/
def IsPositional (x : Float) : Prop :=
  ∃ q, unsigned? x = some q ∧ ((∃ n : ℕ, q = n) ∨ 1 / 10000 ≤ q)

/-- A negative exponent divides by a power of two. -/
theorem mul_zpow_of_neg (he : e < 0) : (m : ℚ) * 2 ^ e = m / (2 ^ (-e).toNat : ℕ) := by
  have hneg : e = -((-e).toNat : ℤ) := by omega
  conv_lhs => rw [hneg]
  rw [zpow_neg, zpow_natCast, Nat.cast_pow, Nat.cast_ofNat, div_eq_mul_inv]

/-- The integer that is found is the number. -/
theorem eq_of_integer? (h : integer? m e = some n) : (m : ℚ) * 2 ^ e = n := by
  rw [integer?] at h
  split at h
  case isTrue he =>
    obtain rfl := Option.some.inj h
    rw [Nat.pow_eq, Nat.cast_mul, Nat.cast_pow, Nat.cast_ofNat, ← zpow_natCast,
      Int.toNat_of_nonneg he]
  case isFalse he =>
    dsimp only at h
    split at h
    case isTrue hmod =>
      obtain rfl := Option.some.inj h
      have hne : ((2 ^ (-e).toNat : ℕ) : ℚ) ≠ 0 := by positivity
      rw [mul_zpow_of_neg (by omega)]
      exact (Nat.cast_div (Nat.dvd_of_mod_eq_zero hmod) hne).symm
    case isFalse => cases h

/-- Only a fraction is found to be no integer. -/
theorem ne_of_integer? (h : integer? m e = none) : e < 0 ∧ ∀ n : ℕ, (m : ℚ) * 2 ^ e ≠ n := by
  rw [integer?] at h
  split at h
  case isTrue he => cases h
  case isFalse he =>
    dsimp only at h
    split at h
    case isTrue => cases h
    case isFalse hmod =>
      refine ⟨by omega, fun n heq => hmod ?_⟩
      have hpos : (0 : ℚ) < (2 ^ (-e).toNat : ℕ) := by positivity
      rw [mul_zpow_of_neg (by omega), div_eq_iff hpos.ne'] at heq
      have hmultiple : m = n * 2 ^ (-e).toNat := by exact_mod_cast heq
      rw [hmultiple]
      exact Nat.mul_mod_left _ _

/-- What is printed for a positive double denotes a number that is rounded to it. -/
theorem denotes_printPositive (hparts : parts x = .finite .positive m e hm)
    (h : (∃ n : ℕ, (m : ℚ) * 2 ^ e = n) ∨ 1 / 10000 ≤ (m : ℚ) * 2 ^ e) :
    ∃ q, Denotes (printPositive m e) q ∧ 2 ^ (-1074 : ℤ) ≤ q ∧ RoundsTo q x := by
  have hx := roundsTo_of_parts hparts
  rw [printPositive]
  split
  case h_1 n hinteger =>
    have hvalue := eq_of_integer? hinteger
    rw [hvalue] at hx
    refine ⟨n, denotes_toDigits n, ?_, hx⟩
    have hpos : (0 : ℚ) < n := by
      rw [← hvalue]
      positivity
    have hone : (1 : ℚ) ≤ n := by exact_mod_cast hpos
    linarith [least_le]
  case h_2 hfraction =>
    obtain ⟨he, hne⟩ := ne_of_integer? hfraction
    have hge := h.resolve_left fun ⟨n, hn⟩ => hne n hn
    have hexponent : e = -((-e).toNat : ℤ) := by omega
    rw [mul_zpow_of_neg he, Nat.cast_pow, Nat.cast_ofNat] at hge
    rw [hexponent] at hparts
    have hleast := least_le.trans (value_shortest_ge hge)
    exact ⟨_, Decimal.denotes_print (value_shortest_ge hge), hleast,
      roundsTo_shortest hparts hleast⟩

/-- Nought is read as the zero without a sign. -/
theorem read?_zero : read? "0" = some (ofParts (.zero .positive)) := by
  rfl

/-- What is printed for a double is a positional numeral that is read as the double. -/
theorem read?_print (h : IsPositional x) :
    (∃ q, Denotes (print x).toList q) ∧ read? (print x) = some x := by
  obtain ⟨q, hq, h⟩ := h
  rw [unsigned?] at hq
  split at hq
  case h_1 hparts =>
    have hprint : print x = "0" := by simp only [print, hparts]
    have hx : ofParts (.zero .positive) = x := by rw [← hparts, ofParts_parts]
    rw [hprint, ← hx]
    exact ⟨⟨_, denotes_toDigits 0⟩, read?_zero⟩
  case h_2 m e hm hparts =>
    obtain rfl := Option.some.inj hq
    have hprint : print x = String.ofList (printPositive m e) := by simp only [print, hparts]
    obtain ⟨q, hdenotes, hleast, hrounds⟩ := denotes_printPositive hparts h
    rw [hprint, String.toList_ofList]
    exact ⟨⟨q, hdenotes⟩, hdenotes.read?_eq hleast hrounds⟩
  case h_3 => cases hq

end Print

end Scriptlet.Number
