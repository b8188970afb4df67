import Scriptlet.Number.Numeral

/-!
# Numerals without ornament

A numeral in a source text has neither sign nor padding nor underscores: it
consists of digits and points. Reading it comes down to reading a decimal, and
a zero before a leading point changes nothing.
-/

namespace Scriptlet.Number

open Character

/-- Whether a text consists of digits and points. -/
def Plain (text : List Char) : Prop :=
  ∀ c ∈ text, isDigit c = true ∨ c = '.'

section Plain

variable {c : Char} {text : List Char}

/-- Digits and points are no padding. -/
theorem isPadding_of_plain (h : isDigit c = true ∨ c = '.') : isPadding c = false := by
  rcases h with h | rfl
  · have hapart : apart digitIntervals blankIntervals = true := by decide
    rw [isPadding, isBlank, within_eq_false_of_apart hapart h, Bool.false_and]
  · decide

/-- Digits and points are not upper case. -/
theorem toLower_of_plain (h : isDigit c = true ∨ c = '.') : c.toLower = c := by
  unfold Char.toLower
  split
  · rename_i hupper
    exfalso
    rcases h with h | rfl
    · have hapart : apart digitIntervals [(0x41, 0x5a)] = true := by decide
      have hcase : within c.toNat [(0x41, 0x5a)] = true := by
        have hlow : 0x41 ≤ c.toNat := UInt32.le_iff_toNat_le.1 hupper.1
        have hhigh : c.toNat ≤ 0x5a := UInt32.le_iff_toNat_le.1 hupper.2
        simp [within]
        omega
      rw [within_eq_false_of_apart hapart h] at hcase
      exact Bool.noConfusion hcase
    · revert hupper
      decide
  · rfl

/-- Digits and points are no other character. -/
theorem ne_of_plain (h : isDigit c = true ∨ c = '.') {d : Char} (hdigit : isDigit d = false)
    (hpoint : d ≠ '.') : c ≠ d := by
  rintro rfl
  rcases h with h | h
  · rw [hdigit] at h
    exact Bool.noConfusion h
  · exact hpoint h

/-- There is nothing to take off a plain text. -/
theorem dropWhile_of_plain (h : Plain text) : text.dropWhile isPadding = text := by
  cases text with
  | nil => rfl
  | cons c rest => simp [isPadding_of_plain (h c (by simp))]

/-- A plain text has no sign. -/
theorem takeSign_of_plain (h : Plain text) : takeSign text = (false, text) := by
  cases text with
  | nil => rfl
  | cons c rest =>
    have hminus : c ≠ '-' := ne_of_plain (h c (by simp)) (by decide) (by decide)
    have hplus : c ≠ '+' := ne_of_plain (h c (by simp)) (by decide) (by decide)
    unfold takeSign
    split
    · simp_all
    · simp_all
    · rfl

/-- A plain text has no underscores. -/
theorem dropUnderscores_of_plain (h : Plain text) (afterDigit : Bool) :
    dropUnderscores afterDigit text = some text := by
  induction text generalizing afterDigit with
  | nil => rfl
  | cons c rest ih =>
    have hunderscore : c ≠ '_' := ne_of_plain (h c (by simp)) (by decide) (by decide)
    have hrest : Plain rest := fun d hd => h d (by simp [hd])
    simp [dropUnderscores, hunderscore, ih hrest]

/-- A plain text is no word for a number. -/
theorem ofList_ne_of_plain (h : Plain text) {word : String} (hc : c ∈ word.toList)
    (hdigit : isDigit c = false) (hpoint : c ≠ '.') : String.ofList text ≠ word := by
  rintro rfl
  rw [String.toList_ofList] at hc
  exact ne_of_plain (h c hc) hdigit hpoint rfl

/-- Without sign and padding, reading a plain text is reading a decimal. -/
theorem readUnsigned_of_plain (h : Plain text) :
    readUnsigned text = (readDecimal text).map Decimal.toFloat := by
  have hlower : text.map Char.toLower = text := by
    have hid : text.map Char.toLower = text.map id :=
      List.map_congr_left fun c hc => toLower_of_plain (h c hc)
    rw [hid, List.map_id]
  have hword : ∀ word : String, 'n' ∈ word.toList → String.ofList text ≠ word :=
    fun word hn => ofList_ne_of_plain h hn (by decide) (by decide)
  unfold readUnsigned
  rw [hlower]
  split
  · rename_i heq
    exact absurd heq (hword _ (by decide))
  · rename_i heq
    exact absurd heq (hword _ (by decide))
  · rename_i heq
    exact absurd heq (hword _ (by decide))
  · rw [dropUnderscores_of_plain h, Option.bind_some]

/-- Reading a plain text is reading a decimal. -/
theorem read?_of_plain (h : Plain text) :
    read? (String.ofList text) = (readDecimal text).map Decimal.toFloat := by
  have hreverse : Plain text.reverse := fun c hc => h c (List.mem_reverse.1 hc)
  unfold read?
  simp only [String.toList_ofList, dropWhile_of_plain h, dropWhile_of_plain hreverse,
    List.reverse_reverse, takeSign_of_plain h, readUnsigned_of_plain h]
  cases readDecimal text with
  | none => rfl
  | some d => rfl

end Plain

/-- Digits have no mark of an exponent among them. -/
theorem readExponent_of_isDigit {c : Char} {text : List Char} (h : isDigit c = true) :
    readExponent (c :: text) = none := by
  have hlower : c ≠ 'e' := ne_of_plain (.inl h) (by decide) (by decide)
  have hupper : c ≠ 'E' := ne_of_plain (.inl h) (by decide) (by decide)
  simp [readExponent, hlower, hupper]

/-- A zero before a leading point does not change the decimal. A digit without a value
is left over, and no exponent starts with it. -/
theorem readDecimal_leadingZero {digits : List Char} (hne : digits ≠ [])
    (hdigits : ∀ c ∈ digits, isDigit c = true) :
    readDecimal ('0' :: '.' :: digits) = readDecimal ('.' :: digits) := by
  have hzero : decimalValue? '0' = some 0 := by decide
  have hpoint : decimalValue? '.' = none := by decide
  obtain ⟨d, rest, rfl⟩ := List.exists_cons_of_ne_nil hne
  have hd := hdigits d (by simp)
  cases hvalue : decimalValue? d with
  | none =>
    simp [readDecimal, takeDigits, hzero, hpoint, hvalue, readExponent_of_isDigit hd]
  | some value => simp [readDecimal, takeDigits, hzero, hpoint, hvalue, ofDigits]

/-- A zero before a leading point does not change the number. -/
theorem read?_leadingZero {digits : List Char} (hne : digits ≠ [])
    (hdigits : ∀ c ∈ digits, isDigit c = true) :
    read? (String.ofList ('0' :: '.' :: digits)) = read? (String.ofList ('.' :: digits)) := by
  have hpoint : Plain ('.' :: digits) := by
    intro c hc
    rcases List.mem_cons.1 hc with rfl | hc
    · exact .inr rfl
    · exact .inl (hdigits c hc)
  have hzero : Plain ('0' :: '.' :: digits) := by
    intro c hc
    rcases List.mem_cons.1 hc with rfl | hc
    · exact .inl (by decide)
    · exact hpoint c hc
  rw [read?_of_plain hzero, read?_of_plain hpoint, readDecimal_leadingZero hne hdigits]

end Scriptlet.Number
