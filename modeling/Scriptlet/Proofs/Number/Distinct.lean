import Scriptlet.Proofs.Number.Printed

/-!
# Printed numbers tell doubles apart

What is printed for a double is a word, nought, or a numeral for a positive number,
with an exponent or without one. The text tells this number, and the number tells the
double: the double is the one that the number is rounded to, except that the digits of
the least positive double may be below it. So two doubles that are printed alike are
the same, unless they are zeros with different signs. A numeral of digits is read as a
double without a negative sign.
-/

namespace Scriptlet.Number

open Float.Model (UnpackedFloat Format)
open Float.Model.UnpackedFloat (Sign Accuracy roundWithAccuracy unpackSign
  unpackSign_packComponents)

section Signs

variable {number : UnpackedFloat} {sign other : Sign}

/-- The sign of a number, if it is one. -/
def sign? : UnpackedFloat → Option Sign
  | .notANumber => none
  | .infinity sign | .zero sign | .finite sign _ _ _ => some sign

/-- Rounding keeps the sign. -/
theorem sign?_roundWithAccuracy (sign : Sign) (m : ℕ) (e : ℤ) (a : Accuracy) :
    sign? (roundWithAccuracy Format.binary64 sign m e a) = some sign := by
  unfold roundWithAccuracy
  dsimp only
  split <;> rfl

/-- A fraction of tens has no negative sign. -/
theorem sign?_ofScientific (c : ℕ) {e : ℤ} (he : e < 0) :
    sign? (.ofScientific Format.binary64 c e) = some .positive := by
  unfold UnpackedFloat.ofScientific
  split_ifs
  · rfl
  · rfl
  · rfl
  · omega
  · exact sign?_roundWithAccuracy ..

/-- The sign is kept in its bit. -/
theorem unpackSign_pack (h : sign? number = some sign) :
    unpackSign (UnpackedFloat.pack Format.binary64 number) = sign.toBitVec := by
  cases number with
  | notANumber => cases h
  | infinity s =>
    obtain rfl := Option.some.inj h
    exact unpackSign_packComponents ..
  | zero s =>
    obtain rfl := Option.some.inj h
    exact unpackSign_packComponents ..
  | finite s m e hm =>
    obtain rfl := Option.some.inj h
    unfold UnpackedFloat.pack
    dsimp only
    split_ifs
    · exact unpackSign_packComponents ..
    · exact unpackSign_packComponents ..
    · exact unpackSign_packComponents ..

/-- The sign is found in its bit. -/
theorem sign?_unpack {bits : BitVec Format.binary64.numBits}
    (h : sign? (UnpackedFloat.unpack Format.binary64 bits) = some sign) :
    sign = .ofBitVec (unpackSign bits) := by
  unfold UnpackedFloat.unpack at h
  dsimp only at h
  split_ifs at h
  · exact (Option.some.inj h).symm
  · cases h
  · exact (Option.some.inj h).symm
  · exact (Option.some.inj h).symm
  · exact (Option.some.inj h).symm

/-- A double that is put together has the sign that it was given. -/
theorem eq_of_sign?_ofParts (h : sign? number = some sign)
    (hother : sign? (parts (ofParts number)) = some other) : other = sign := by
  have hbit := congrArg Sign.ofBitVec (unpackSign_pack h)
  exact (sign?_unpack hother).trans (hbit.trans (Sign.ofBitVec_toBitVec sign))

/-- A decimal is read as a double without a negative sign. -/
theorem Decimal.sign?_toFloat (d : Decimal) : sign? (parts d.toFloat) ≠ some .negative := by
  have hpositive (number : UnpackedFloat) (h : sign? number = some .positive) :
      sign? (parts (ofParts number)) ≠ some .negative := by
    intro hnegative
    cases eq_of_sign?_ofParts h hnegative
  rw [toFloat]
  split_ifs with hneg
  · exact hpositive _ (sign?_ofScientific d.coefficient hneg)
  · exact hpositive _ rfl
  · rw [ofBinary]
    split_ifs
    · exact hpositive _ rfl
    · exact hpositive _ (sign?_roundWithAccuracy ..)

/-- A numeral of digits is read as a double without a negative sign. -/
theorem sign?_of_read? {afterOperand : Bool} {digits : List Char} {x : Float}
    (hdigits : Lexeme.Numeral afterOperand digits)
    (h : read? (String.ofList digits) = some x) : sign? (parts x) ≠ some .negative := by
  rw [read?_of_plain hdigits.plain] at h
  obtain ⟨d, -, rfl⟩ := Option.map_eq_some_iff.1 h
  exact d.sign?_toFloat

end Signs

section Expresses

variable {text digits digits' : List Char} {q r : ℚ}

/-- Whether a text is a numeral for a number, with an exponent or without one. -/
inductive Expresses : List Char → ℚ → Prop
  | positional {text : List Char} {q : ℚ} : Denotes text q → Expresses text q
  | scientific {digits : List Char} (power : ℕ) :
      digits ≠ [] → IsDigits digits →
        Expresses (scientific digits power)
          (Nat.ofDigitChars 10 digits 0 * 10 ^ (1 - power - digits.length : ℤ))

/-- What is no digit from zero to nine does not stand among them. -/
theorem IsDigits.notMem (h : IsDigits digits) {c : Char} (hc : c.isDigit = false) :
    c ∉ digits := by
  intro hmem
  rw [h c hmem] at hc
  cases hc

/-- A positional numeral denotes one number. -/
theorem Denotes.unique (hq : Denotes text q) (hr : Denotes text r) : q = r := by
  obtain ⟨d, hd, rfl, -⟩ := hq.exists_decimal
  obtain ⟨d', hd', rfl, -⟩ := hr.exists_decimal
  rw [Option.some.inj (hd.symm.trans hd')]

/-- A positional numeral has no exponent. -/
theorem Denotes.notMem_mark (h : Denotes text q) : 'e' ∉ text := by
  cases h with
  | whole _ hdigits => exact hdigits.notMem rfl
  | point _ hwhole hfraction =>
    have hw := hwhole.notMem (c := 'e') rfl
    have hf := hfraction.notMem (c := 'e') rfl
    simp [hw, hf]

/-- The digits before the exponent, with a point after the first one. -/
def withPoint (digits : List Char) : List Char :=
  digits.take 1 ++ if digits.length ≤ 1 then [] else '.' :: digits.drop 1

/-- The digits are told by what is written before the exponent. -/
theorem filter_withPoint (h : IsDigits digits) : (withPoint digits).filter (· ≠ '.') = digits := by
  have hpoint := h.notMem (c := '.') rfl
  have hall : ∀ c ∈ digits, decide (c ≠ '.') = true := by
    intro c hc
    have hne : c ≠ '.' := by
      rintro rfl
      exact hpoint hc
    simp [hne]
  have hkept : (digits.take 1 ++ digits.drop 1).filter (· ≠ '.') = digits := by
    rw [List.take_append_drop, List.filter_eq_self.2 hall]
  rw [withPoint]
  split
  case isTrue hlength =>
    rw [List.append_nil, List.take_of_length_le hlength, List.filter_eq_self.2 hall]
  case isFalse => simpa using hkept

/-- No mark of an exponent stands before the exponent. -/
theorem notMem_withPoint (h : IsDigits digits) : 'e' ∉ withPoint digits := by
  intro hmem
  have hkept : 'e' ∈ (withPoint digits).filter (· ≠ '.') :=
    List.mem_filter.2 ⟨hmem, by decide⟩
  rw [filter_withPoint h] at hkept
  exact h.notMem rfl hkept

/-- The digits and the exponent are told by what is written. -/
theorem scientific_inj (h : IsDigits digits) (h' : IsDigits digits') {power power' : ℕ}
    (heq : scientific digits power = scientific digits' power') :
    digits = digits' ∧ power = power' := by
  have hvalue (n : ℕ) : Nat.ofDigitChars 10 (if (Nat.toDigits 10 n).length < 2 then
      '0' :: Nat.toDigits 10 n else Nat.toDigits 10 n) 0 = n := by
    split
    · exact (ofDigitChars_zeros_append 1 _).trans Nat.ofDigitChars_ten_toDigits
    · exact Nat.ofDigitChars_ten_toDigits
  obtain ⟨hdigits, hpower⟩ :=
    Lexeme.append_cons_inj (notMem_withPoint h) (notMem_withPoint h') heq
  constructor
  · rw [← filter_withPoint h, hdigits, filter_withPoint h']
  · have hsame := congrArg (Nat.ofDigitChars 10 · 0) (List.cons.inj hpower).2
    simpa only [hvalue] using hsame

namespace Expresses

/-- A numeral is one for one number. -/
theorem unique (hq : Expresses text q) (hr : Expresses text r) : q = r := by
  have hmark (digits : List Char) (power : ℕ) : 'e' ∈ Number.scientific digits power := by
    simp [Number.scientific]
  cases hq with
  | positional hq =>
    cases hr with
    | positional hr => exact hq.unique hr
    | scientific power => exact absurd (hmark _ power) hq.notMem_mark
  | @scientific digits power _ hdigits =>
    generalize htext : Number.scientific digits power = text at hr
    cases hr with
    | positional hr => exact absurd (htext ▸ hmark _ power) hr.notMem_mark
    | scientific power' _ hdigits' =>
      obtain ⟨rfl, rfl⟩ := scientific_inj hdigits hdigits' htext
      rfl

/-- A numeral starts with a digit. -/
theorem head (h : Expresses text q) : ∃ c rest, text = c :: rest ∧ c.isDigit = true := by
  have hfirst {digits : List Char} (hne : digits ≠ []) (hdigits : IsDigits digits) :
      ∃ c rest, digits = c :: rest ∧ c.isDigit = true := by
    obtain ⟨c, rest, rfl⟩ := List.exists_cons_of_ne_nil hne
    exact ⟨c, rest, rfl, hdigits c (by simp)⟩
  cases h with
  | positional h =>
    cases h with
    | whole hne hdigits => exact hfirst hne hdigits
    | point hne hwhole _ =>
      obtain ⟨c, rest, rfl, hc⟩ := hfirst hne hwhole
      exact ⟨c, _, rfl, hc⟩
  | scientific power hne hdigits =>
    obtain ⟨c, rest, rfl, hc⟩ := hfirst hne hdigits
    exact ⟨c, _, rfl, hc⟩

/-- A numeral consists of digits and three marks. -/
theorem mem_cases (h : Expresses text q) {c : Char} (hc : c ∈ text) :
    c.isDigit = true ∨ c ∈ ['.', 'e', '-'] := by
  cases h with
  | positional h =>
    cases h with
    | whole _ hdigits => exact .inl (hdigits c hc)
    | point _ hwhole hfraction =>
      rcases List.mem_append.1 hc with hc | hc
      · exact .inl (hwhole c hc)
      · rcases List.mem_cons.1 hc with rfl | hc
        · exact .inr (by decide)
        · exact .inl (hfraction c hc)
  | @scientific digits power _ hdigits =>
    have hpower := isDigits_toDigits power
    simp only [Number.scientific, List.mem_append, List.mem_cons] at hc
    rcases hc with (hc | hc) | rfl | rfl | hc
    · exact .inl (hdigits c (List.mem_of_mem_take hc))
    · split at hc
      · cases hc
      · rcases List.mem_cons.1 hc with rfl | hc
        · exact .inr (by decide)
        · exact .inl (hdigits c (List.mem_of_mem_drop hc))
    · exact .inr (by decide)
    · exact .inr (by decide)
    · split at hc
      · rcases List.mem_cons.1 hc with rfl | hc
        · exact .inl rfl
        · exact .inl (hpower c hc)
      · exact .inl (hpower c hc)

end Expresses

/-- A positive decimal is written as a numeral for its value. -/
theorem Decimal.expresses_print {d : Decimal} (hpos : 0 < d.coefficient) :
    Expresses d.print d.value := by
  by_cases hbefore : -4 < d.exponent + (Nat.toDigits 10 d.coefficient).length
  · exact .positional (denotes_print_of_lt hpos hbefore)
  · obtain ⟨hne, hdigits⟩ := dropFinalZeros_toDigits hpos
    have hscientific := Expresses.scientific
      (1 - (d.exponent + (Nat.toDigits 10 d.coefficient).length)).toNat hne hdigits
    rw [Int.toNat_of_nonneg (by omega), sub_sub_cancel] at hscientific
    rwa [print, if_pos (by omega), value_eq]

end Expresses

section Least

variable {numerator denominator m places : ℕ} {exponent e : ℤ} {d : Decimal} {x : Float}
  {hm : 0 < m}

/-- The neighbours of a fraction are more than half of it, if the lower one is not
nought. -/
theorem lt_two_mul_of_mem_neighbours (hdenominator : 0 < denominator)
    (hmem : d ∈ neighbours numerator denominator exponent)
    (hle : (10 : ℚ) ^ exponent ≤ numerator / denominator) :
    (numerator : ℚ) / denominator < 2 * d.value := by
  obtain ⟨rfl, hbelow⟩ := of_mem_neighbours hmem
  have hone := pow_le_below hdenominator le_rfl hle
  set scaled := denominator * 10 ^ d.exponent.toNat with hscaled
  set below := numerator * 10 ^ (-d.exponent).toNat / scaled with hquotient
  rw [sub_self, Int.toNat_zero, pow_zero] at hone
  have hpos : (0 : ℚ) < denominator := by exact_mod_cast hdenominator
  have hlt : numerator * 10 ^ (-d.exponent).toNat < scaled * (below + 1) :=
    Nat.lt_mul_div_succ _ (by positivity)
  have htwice : below + 1 ≤ 2 * d.coefficient := by omega
  have hbound : numerator * 10 ^ (-d.exponent).toNat < scaled * (2 * d.coefficient) :=
    lt_of_lt_of_le hlt (Nat.mul_le_mul_left _ htwice)
  have hcast : (numerator : ℚ) * 10 ^ (-d.exponent).toNat <
      denominator * 10 ^ d.exponent.toNat * (2 * d.coefficient) := by
    rw [hscaled] at hbound
    exact_mod_cast hbound
  have hpower : (10 : ℚ) ^ d.exponent.toNat = 10 ^ d.exponent * 10 ^ (-d.exponent).toNat := by
    rw [← zpow_natCast, ← zpow_natCast, ← zpow_add₀ (by norm_num)]
    congr 1
    omega
  rw [div_lt_iff₀ hpos, Decimal.value]
  refine lt_of_mul_lt_mul_right ?_ (by positivity : (0 : ℚ) ≤ 10 ^ (-d.exponent).toNat)
  calc (numerator : ℚ) * 10 ^ (-d.exponent).toNat
      < denominator * 10 ^ d.exponent.toNat * (2 * d.coefficient) := hcast
    _ = 2 * (d.coefficient * 10 ^ d.exponent) * denominator * 10 ^ (-d.exponent).toNat := by
        rw [hpower]
        ring

/-- The shortest digits of a fraction are more than half of it. -/
theorem lt_two_mul_shortest (h : (10 : ℚ) ^ (-400 : ℤ) ≤ m / (2 ^ places : ℕ)) :
    (m : ℚ) / (2 ^ places : ℕ) < 2 * (shortest m places).value := by
  have hpos : 0 < 2 ^ places := by positivity
  rcases shortest_cases m places with ⟨-, count, hcount, hmem⟩ | hexpansion
  · have hone : 1 ≤ count := by
      have hall : ∀ k ∈ digitCounts, 1 ≤ k := by decide
      exact hall count hcount
    refine lt_two_mul_of_mem_neighbours hpos hmem (le_trans ?_ (zpow_magnitude_le hpos h))
    exact zpow_le_zpow_right₀ (by norm_num) (by omega)
  · have hvalue : (shortest m places).value = m / (2 ^ places : ℕ) := by
      rw [hexpansion, value_expansion, Nat.cast_pow, Nat.cast_ofNat]
    have hlow : (0 : ℚ) < m / (2 ^ places : ℕ) := lt_of_lt_of_le (by positivity) h
    rw [hvalue]
    linarith

/-- The least double is within the reach of the magnitude. -/
theorem reach_le_least : (10 : ℚ) ^ (-400 : ℤ) ≤ 2 ^ (-1074 : ℤ) := by
  calc (10 : ℚ) ^ (-400 : ℤ) ≤ 10 ^ (-358 : ℤ) :=
        zpow_le_zpow_right₀ (by norm_num) (by norm_num)
    _ ≤ 8 ^ (-358 : ℤ) := by
        have hpower : (8 : ℚ) ^ (358 : ℤ) ≤ 10 ^ (358 : ℤ) :=
          zpow_le_zpow_left₀ (by norm_num) (by norm_num) (by norm_num)
        rw [zpow_neg, zpow_neg]
        exact inv_anti₀ (by positivity) hpower
    _ = (2 ^ (3 : ℤ)) ^ (-358 : ℤ) := by norm_num
    _ = 2 ^ (-1074 : ℤ) := by
        rw [← zpow_mul]
        norm_num

/-- A finite double is not below the least one. -/
theorem least_le_of_parts (hparts : parts x = .finite .positive m e hm) :
    (2 : ℚ) ^ (-1074 : ℤ) ≤ m * 2 ^ e := by
  have hcanonical := canonical_of_parts hparts
  have hone : (1 : ℚ) ≤ m := by exact_mod_cast hm
  calc (2 : ℚ) ^ (-1074 : ℤ) ≤ 2 ^ e := zpow_le_zpow_right₀ (by norm_num) hcanonical.exponent_ge
    _ = 1 * 2 ^ e := (one_mul _).symm
    _ ≤ m * 2 ^ e := by gcongr

/-- The least double is the only one that is less than twice as great. -/
theorem eq_least_of_parts (hparts : parts x = .finite .positive m e hm)
    (hlt : (m : ℚ) * 2 ^ e < 2 * 2 ^ (-1074 : ℤ)) : (m : ℚ) * 2 ^ e = 2 ^ (-1074 : ℤ) := by
  have hcanonical := canonical_of_parts hparts
  have hvalue := mul_zpow_shift m hcanonical.exponent_ge
  set steps := m * 2 ^ (e - -1074).toNat
  rw [← hvalue] at hlt ⊢
  have hfew : (steps : ℚ) < 2 := lt_of_mul_lt_mul_right hlt (by positivity)
  have hfew' : steps < 2 := by exact_mod_cast hfew
  have hsome : 0 < steps := by positivity
  obtain h : steps = 1 := by omega
  rw [h, Nat.cast_one, one_mul]

/-- What is printed for a positive double is a numeral for a number that is rounded to
it, or that is below all doubles, and then the double is the least one. -/
theorem expresses_printPositive (hparts : parts x = .finite .positive m e hm) :
    ∃ q, Expresses (printPositive m e) q ∧ 0 < q ∧ RoundsTo (max q (2 ^ (-1074 : ℤ))) x := by
  have hx := roundsTo_of_parts hparts
  have hleast := least_le_of_parts hparts
  rw [printPositive]
  split
  case h_1 n hinteger =>
    have hvalue := eq_of_integer? hinteger
    rw [hvalue] at hx hleast
    refine ⟨n, .positional (denotes_toDigits n), lt_of_lt_of_le (by positivity) hleast, ?_⟩
    rwa [max_eq_left hleast]
  case h_2 hfraction =>
    obtain ⟨he, -⟩ := ne_of_integer? hfraction
    have hexponent : e = -((-e).toNat : ℤ) := by omega
    have hvalue := mul_zpow_of_neg (m := m) he
    have hhalf := lt_two_mul_shortest (hvalue ▸ reach_le_least.trans hleast)
    rw [← hvalue] at hhalf
    have hpos : 0 < (shortest m (-e).toNat).value := by
      have hlow : (0 : ℚ) < m * 2 ^ e := by positivity
      linarith
    refine ⟨_, Decimal.expresses_print (Decimal.coefficient_pos hpos), hpos, ?_⟩
    rcases le_or_gt ((2 : ℚ) ^ (-1074 : ℤ)) (shortest m (-e).toNat).value with hle | hlt
    · rw [max_eq_left hle]
      rw [hexponent] at hparts
      exact roundsTo_shortest hparts hle
    · rw [max_eq_right hlt.le, ← eq_least_of_parts hparts (by linarith)]
      exact hx

end Least

/-- Whether a text tells a double without a negative sign. -/
inductive Tells : List Char → Float → Prop
  | nan : Tells "nan".toList (ofParts .notANumber)
  | infinity : Tells "inf".toList (ofParts (.infinity .positive))
  | zero {text : List Char} : Expresses text 0 → Tells text (ofParts (.zero .positive))
  | positive {text : List Char} {q : ℚ} {x : Float} :
      Expresses text q → 0 < q → RoundsTo (max q (2 ^ (-1074 : ℤ))) x → Tells text x

variable {text : List Char} {x y : Float}

/-- A numeral is no word. -/
theorem Expresses.ne_word {q : ℚ} (h : Expresses text q) :
    text ≠ "nan".toList ∧ text ≠ "inf".toList := by
  obtain ⟨c, rest, rfl, hc⟩ := h.head
  constructor
  · intro hword
    obtain ⟨rfl, -⟩ := List.cons.inj hword
    cases hc
  · intro hword
    obtain ⟨rfl, -⟩ := List.cons.inj hword
    cases hc

/-- A text tells one double. -/
theorem Tells.unique (hx : Tells text x) (hy : Tells text y) : x = y := by
  cases hx with
  | nan =>
    generalize htext : "nan".toList = text at hy
    cases hy with
    | nan => rfl
    | infinity => cases htext
    | zero h => exact absurd htext.symm h.ne_word.1
    | positive h => exact absurd htext.symm h.ne_word.1
  | infinity =>
    generalize htext : "inf".toList = text at hy
    cases hy with
    | nan => cases htext
    | infinity => rfl
    | zero h => exact absurd htext.symm h.ne_word.2
    | positive h => exact absurd htext.symm h.ne_word.2
  | zero hzero =>
    cases hy with
    | nan => exact absurd rfl hzero.ne_word.1
    | infinity => exact absurd rfl hzero.ne_word.2
    | zero => rfl
    | positive h hpos => exact absurd (hzero.unique h) hpos.ne
  | positive h hpos hrounds =>
    cases hy with
    | nan => exact absurd rfl h.ne_word.1
    | infinity => exact absurd rfl h.ne_word.2
    | zero hzero => exact absurd (hzero.unique h) hpos.ne
    | positive h' _ hrounds' =>
      obtain rfl := h.unique h'
      exact hrounds.unique hrounds'

/-- What is printed for a double without a negative sign tells the double. -/
theorem tells_print (hsign : sign? (parts x) ≠ some .negative) : Tells (print x).toList x := by
  have hx := ofParts_parts x
  rw [print]
  cases hparts : parts x with
  | notANumber =>
    rw [← hx, hparts]
    exact .nan
  | infinity sign =>
    cases sign with
    | positive =>
      rw [← hx, hparts]
      exact .infinity
    | negative => exact absurd (congrArg sign? hparts) hsign
  | zero sign =>
    cases sign with
    | positive =>
      rw [← hx, hparts]
      exact .zero (.positional (denotes_toDigits 0))
    | negative => exact absurd (congrArg sign? hparts) hsign
  | finite sign m e hm =>
    cases sign with
    | positive =>
      obtain ⟨q, hq, hpos, hrounds⟩ := expresses_printPositive hparts
      dsimp only
      rw [String.toList_ofList]
      exact .positive hq hpos hrounds
    | negative => exact absurd (congrArg sign? hparts) hsign

/-- A printed double has no line break. -/
theorem Tells.notMem_newline (h : Tells text x) : '\n' ∉ text := by
  have hnumeral {text : List Char} {q : ℚ} (h : Expresses text q) : '\n' ∉ text := by
    intro hmem
    rcases h.mem_cases hmem with hdigit | hmark
    · revert hdigit
      decide
    · revert hmark
      decide
  cases h with
  | nan => decide
  | infinity => decide
  | zero h => exact hnumeral h
  | positive h => exact hnumeral h

/-- Two doubles without negative signs that are printed alike are the same. -/
theorem eq_of_print_eq (hx : sign? (parts x) ≠ some .negative)
    (hy : sign? (parts y) ≠ some .negative) (h : print x = print y) : x = y := by
  have htells := tells_print hx
  rw [h] at htells
  exact htells.unique (tells_print hy)

end Scriptlet.Number
