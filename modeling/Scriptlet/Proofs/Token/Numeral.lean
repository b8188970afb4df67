import Scriptlet.Proofs.Number.Numeral
import Scriptlet.Proofs.Token.Cutting

/-!
# The numbers of a source text

The text of a number token is a numeral whose leading point, if it has one, is
completed by a zero. Completing a numeral does not change the number, and a
numeral of decimal digits can always be read. So the only numbers in a source
text that cannot be read are those with a digit that is no decimal digit.
-/

namespace Scriptlet

open Character

/-- A number that starts with a digit is complete. -/
theorem Lexeme.completeNumber_of_isDigit {c : Char} {rest : List Char} (h : isDigit c = true) :
    completeNumber (c :: rest) = c :: rest := by
  have hpoint : c ≠ '.' := by
    rintro rfl
    revert h
    decide
  unfold completeNumber
  split
  · simp_all
  · rfl

/-- A numeral starts with a digit, or with a point that a digit follows. -/
theorem Lexeme.Numeral.cases {afterOperand : Bool} {digits : List Char}
    (h : Numeral afterOperand digits) :
    completeNumber digits = digits ∧ (∀ other, Numeral other digits) ∨
      ∃ fraction, digits = '.' :: fraction ∧ fraction ≠ [] ∧ ∀ c ∈ fraction, isDigit c = true := by
  cases h with
  | whole hne hdigits =>
    refine .inl ⟨?_, fun other => .whole hne hdigits⟩
    obtain ⟨c, rest, rfl⟩ := List.exists_cons_of_ne_nil hne
    exact completeNumber_of_isDigit (hdigits c (by simp))
  | @point whole fraction hwhole hfraction hlead =>
    cases whole with
    | cons c rest =>
      refine .inl ⟨?_, fun other => .point hwhole hfraction (.inl (by simp))⟩
      exact completeNumber_of_isDigit (hwhole c (by simp))
    | nil => exact .inr ⟨fraction, rfl, by simpa using hlead.imp_right And.right, hfraction⟩

/-- Completing a numeral does not change what it is read as. -/
theorem read?_completeNumber {afterOperand : Bool} {digits : List Char}
    (h : Lexeme.Numeral afterOperand digits) :
    Number.read? (String.ofList (Lexeme.completeNumber digits)) =
      Number.read? (String.ofList digits) := by
  rcases h.cases with ⟨hcomplete, -⟩ | ⟨fraction, rfl, hne, hfraction⟩
  · rw [hcomplete]
  · exact Number.read?_leadingZero hne hfraction

namespace Number

variable {value : Char → Nat} {digits whole fraction rest : List Char}

/-- A decimal digit has a value. -/
theorem decimalValue?_of_isDecimal {c : Char} (h : isDecimal c = true) :
    decimalValue? c = some ((decimalValue? c).getD 0) := by
  obtain ⟨d, hd⟩ := Option.isSome_iff_exists.1 h
  rw [hd, Option.getD_some]

/-- Digits are taken, each with its value, up to the first character that is no decimal
digit. -/
theorem takeDigits_append (hdigits : ∀ c ∈ digits, decimalValue? c = some (value c))
    (hrest : ∀ c ∈ rest.head?, isDecimal c = false) :
    takeDigits (digits ++ rest) = (digits.map value, rest) := by
  induction digits with
  | nil =>
    cases rest with
    | nil => rfl
    | cons c rest =>
      have hnone : decimalValue? c = none := by simpa [isDecimal] using hrest c rfl
      simp [takeDigits, hnone]
  | cons c digits ih =>
    have hvalue := hdigits c (by simp)
    have htail := ih fun d hd => hdigits d (by simp [hd])
    simp only [List.cons_append, takeDigits, hvalue, htail, List.map_cons]

/-- Digits alone are taken to the end. -/
theorem takeDigits_all (hdigits : ∀ c ∈ digits, decimalValue? c = some (value c)) :
    takeDigits digits = (digits.map value, []) := by
  have hend : ∀ c ∈ ([] : List Char).head?, isDecimal c = false := by simp
  have htake := takeDigits_append hdigits hend
  rwa [List.append_nil] at htake

/-- Digits denote a decimal without places. -/
theorem readDecimal_whole (hne : digits ≠ [])
    (hdigits : ∀ c ∈ digits, decimalValue? c = some (value c)) :
    readDecimal digits = some ⟨ofDigits (digits.map value), 0⟩ := by
  simp [readDecimal, takeDigits_all hdigits, hne, readExponent]

/-- Digits with a point among them denote a decimal with a place for each digit after the
point. -/
theorem readDecimal_point (hne : whole ≠ [] ∨ fraction ≠ [])
    (hwhole : ∀ c ∈ whole, decimalValue? c = some (value c))
    (hfraction : ∀ c ∈ fraction, decimalValue? c = some (value c)) :
    readDecimal (whole ++ '.' :: fraction) =
      some ⟨ofDigits ((whole ++ fraction).map value), -fraction.length⟩ := by
  have hpoint : ∀ c ∈ ('.' :: fraction).head?, isDecimal c = false := by
    intro c hc
    obtain rfl := Option.some.inj hc
    decide
  have hsome : whole = [] → ¬ fraction = [] := fun h => hne.resolve_left fun hwhole => hwhole h
  simpa [readDecimal, takeDigits_append hwhole hpoint, takeDigits_all hfraction, readExponent]
    using hsome

end Number

/-- A numeral consists of digits and points. -/
theorem Lexeme.Numeral.plain {afterOperand : Bool} {span : List Char}
    (h : Numeral afterOperand span) : Number.Plain span := by
  cases h with
  | whole _ hdigits => exact fun c hc => .inl (hdigits c hc)
  | point hwhole hfraction =>
    intro c hc
    rcases List.mem_append.1 hc with hc | hc
    · exact .inl (hwhole c hc)
    · rcases List.mem_cons.1 hc with rfl | hc
      · exact .inr rfl
      · exact .inl (hfraction c hc)

/-- A numeral of decimal digits can be read. -/
theorem Lexeme.Numeral.exists_read? {afterOperand : Bool} {span : List Char}
    (h : Numeral afterOperand span)
    (hdecimal : ∀ c ∈ span, isDigit c = true → Number.isDecimal c = true) :
    ∃ value, Number.read? (String.ofList span) = some value := by
  have hvalue : ∀ c ∈ span, isDigit c = true → decimalValue? c = some ((decimalValue? c).getD 0) :=
    fun c hc hdigit => Number.decimalValue?_of_isDecimal (hdecimal c hc hdigit)
  have hread : ∃ d, Number.readDecimal span = some d := by
    cases h with
    | whole hne hdigits =>
      exact ⟨_, Number.readDecimal_whole hne fun c hc => hvalue c hc (hdigits c hc)⟩
    | point hwhole hfraction hlead =>
      exact ⟨_, Number.readDecimal_point (hlead.imp_right And.right)
        (fun c hc => hvalue c (by simp [hc]) (hwhole c hc))
        fun c hc => hvalue c (by simp [hc]) (hfraction c hc)⟩
  obtain ⟨d, hd⟩ := hread
  rw [Number.read?_of_plain h.plain, hd]
  exact ⟨d.toFloat, rfl⟩

/-- A lexeme of a number is a numeral. -/
theorem Lexeme.Formed.numeral {afterOperand : Bool} {lexeme : Lexeme}
    (h : Formed afterOperand lexeme) (hkind : lexeme.kind = some .number) :
    Numeral afterOperand lexeme.span ∧ lexeme.text = completeNumber lexeme.span := by
  cases h with
  | number hspan => exact ⟨hspan, rfl⟩
  | @punctuation c kind hmark =>
    have hall : ∀ mark ∈ punctuationMarks, some mark.2 ≠ some Kind.number := by decide
    exact absurd hkind (hall (c, kind) (mem_punctuationMarks hmark))
  | @word span => rcases wordKind_cases span with h | h | h | h <;> simp [h] at hkind
  | blank | operator | string => simp [single] at hkind

/-- The text of a number token is a numeral of the source text, completed. -/
theorem exists_numeral_of_tokenize {source : String} {tokens : List Token} {t : Token}
    (h : tokenize source = .ok tokens) (ht : t ∈ tokens) (hkind : t.kind = .number) :
    ∃ other span, Lexeme.Numeral other span ∧
      t.text = String.ofList (Lexeme.completeNumber span) ∧ span ⊆ source.toList := by
  obtain ⟨lexemes, hcuts, rfl⟩ := tokenize_eq_ok_iff.1 h
  rcases List.mem_append.1 ht with ht | ht
  · obtain ⟨lexeme, hlexeme, hsymbol⟩ := Lexeme.exists_mem_of_mem_tokensFrom ht
    obtain ⟨hsource, hformed⟩ := hcuts.formed
    obtain ⟨other, hformed⟩ := hformed lexeme hlexeme
    obtain ⟨kind, hlexemeKind, hsame⟩ := Option.map_eq_some_iff.1 hsymbol
    obtain rfl : kind = .number := (congrArg Symbol.kind hsame).trans hkind
    obtain ⟨hnumeral, hspan⟩ := hformed.numeral hlexemeKind
    refine ⟨other, lexeme.span, hnumeral, ?_, fun c hc => ?_⟩
    · rw [← hspan]
      exact (congrArg Symbol.text hsame).symm
    · rw [hsource]
      exact List.mem_flatMap.2 ⟨lexeme, hlexeme, hc⟩
  · rw [List.mem_singleton.1 ht] at hkind
    cases hkind

/-- A number token that cannot be read has a digit that is no decimal digit. -/
theorem exists_digit_of_read?_eq_none {source : String} {tokens : List Token} {t : Token}
    (h : tokenize source = .ok tokens) (ht : t ∈ tokens) (hkind : t.kind = .number)
    (hnone : Number.read? t.text = none) :
    ∃ c ∈ t.text.toList, c ∈ source.toList ∧ isDigit c = true ∧ Number.isDecimal c = false := by
  obtain ⟨other, span, hnumeral, htext, hsource⟩ := exists_numeral_of_tokenize h ht hkind
  have hsub : span ⊆ Lexeme.completeNumber span := by
    unfold Lexeme.completeNumber
    split
    · exact List.subset_cons_self _ _
    · exact fun c hc => hc
  rw [htext, read?_completeNumber hnumeral] at hnone
  rw [htext, String.toList_ofList]
  refine Classical.byContradiction fun hno => ?_
  have hdecimal : ∀ c ∈ span, isDigit c = true → Number.isDecimal c = true := fun c hc hdigit =>
    Bool.of_not_eq_false fun hother => hno ⟨c, hsub hc, hsource hc, hdigit, hother⟩
  obtain ⟨value, hvalue⟩ := hnumeral.exists_read? hdecimal
  rw [hnone] at hvalue
  cases hvalue

end Scriptlet
