import Scriptlet.Token.Lexeme

/-!
# Well-formed lexemes

The next lexeme of a text is the well-formed one that the text starts with and
that the character after it does not continue. Both conditions say what a
lexeme is without saying how it is found.
-/

namespace Scriptlet

open Character

namespace Lexeme

/-- Whether a text can stand between two quotes. A backslash takes the
character after it along, and no other quote is inside. -/
inductive Enclosed (quote : Char) : List Char → Prop
  | nil : Enclosed quote []
  | escape {c : Char} {body : List Char} :
      Enclosed quote body → Enclosed quote ('\\' :: c :: body)
  | plain {c : Char} {body : List Char} :
      c ≠ quote → c ≠ '\\' → Enclosed quote body → Enclosed quote (c :: body)

/-- Whether a text is a number: digits with a point among them or none. The
point may stand before all digits unless an operand has just ended. -/
inductive Numeral (afterOperand : Bool) : List Char → Prop
  | whole {digits : List Char} :
      digits ≠ [] → (∀ c ∈ digits, isDigit c = true) → Numeral afterOperand digits
  | point {whole fraction : List Char} :
      (∀ c ∈ whole, isDigit c = true) → (∀ c ∈ fraction, isDigit c = true) →
        (whole ≠ [] ∨ afterOperand = false ∧ fraction ≠ []) →
          Numeral afterOperand (whole ++ '.' :: fraction)

/-- Whether a lexeme is well-formed where it stands. -/
inductive Formed (afterOperand : Bool) : Lexeme → Prop
  | blank {span : List Char} :
      span ≠ [] → (∀ c ∈ span, isSeparator c = true) → Formed afterOperand ⟨none, span, []⟩
  | number {span : List Char} :
      Numeral afterOperand span →
        Formed afterOperand ⟨some .number, span, completeNumber span⟩
  | punctuation {c : Char} {kind : Kind} :
      punctuation? c = some kind → Formed afterOperand (single kind c)
  | operator {c : Char} :
      isOperator c = true → Formed afterOperand (single .operator c)
  | string {quote : Char} {body : List Char} :
      isQuote quote = true → Enclosed quote body →
        Formed afterOperand ⟨some .string, quote :: body ++ [quote], body⟩
  | word {span : List Char} :
      span ≠ [] → (∀ c ∈ span, isLetter c = true) →
        Formed afterOperand ⟨some (wordKind span), span, span⟩

/-- Whether a lexeme goes on, or becomes another one, if a character follows
it. -/
def continues (afterOperand : Bool) (lexeme : Lexeme) (c : Char) : Bool :=
  match lexeme.kind with
  | none => isSeparator c
  | some .number => isDigit c || (c == '.' && !lexeme.span.contains '.')
  | some .dot => isDigit c && !afterOperand
  | some .ident | some .letWord | some .constWord | some .fnWord => isLetter c
  | some _ => false

section Characters

variable {c : Char}

/-- A separator is no digit. -/
theorem isDigit_of_isSeparator (h : isSeparator c = true) : isDigit c = false := by
  simp only [isSeparator, Bool.or_eq_true, beq_iff_eq] at h
  rcases h with ((rfl | rfl) | rfl) | rfl <;> decide

/-- A separator is no letter. -/
theorem isLetter_of_isSeparator (h : isSeparator c = true) : isLetter c = false := by
  simp only [isSeparator, Bool.or_eq_true, beq_iff_eq] at h
  rcases h with ((rfl | rfl) | rfl) | rfl <;> decide

/-- A digit is no letter. -/
theorem isLetter_of_isDigit (h : isDigit c = true) : isLetter c = false := by
  have hapart : apart digitIntervals letterIntervals = true := by decide +kernel
  exact within_eq_false_of_apart hapart h

/-- The punctuation marks with their kinds. -/
def punctuationMarks : List (Char × Kind) :=
  [('(', .lpar), (')', .rpar), ('{', .lbrace), ('}', .rbrace), ('[', .lsqb), (']', .rsqb),
    (',', .comma), ('.', .dot), (':', .colon), (';', .semi), ('=', .equals)]

/-- What has a kind as a punctuation mark is one of them. -/
theorem mem_punctuationMarks {kind : Kind} (h : punctuation? c = some kind) :
    (c, kind) ∈ punctuationMarks := by
  have hall : ∀ mark ∈ punctuationMarks, punctuation? mark.1 = some mark.2 := by decide
  by_cases hc : c ∈ punctuationMarks.map Prod.fst
  · obtain ⟨mark, hmark, rfl⟩ := List.mem_map.1 hc
    obtain rfl := Option.some.inj ((hall mark hmark).symm.trans h)
    exact hmark
  · have hnone : punctuation? c = none := by
      simp only [punctuationMarks, List.map_cons, List.map_nil, List.mem_cons, not_or] at hc
      simp [punctuation?, hc]
    rw [hnone] at h
    cases h

/-- The characters that are a token of their own, or start a string. -/
def marks : List Char :=
  punctuationMarks.map Prod.fst ++ ['+', '-', '*', '/', '%', Text.doubleQuote, Text.singleQuote]

/-- A mark is no separator, no digit and no letter. -/
theorem class_of_mem_marks (h : c ∈ marks) :
    isSeparator c = false ∧ isDigit c = false ∧ isLetter c = false := by
  have hall : marks.all (fun c => !isSeparator c && !isDigit c && !isLetter c) = true := by decide
  have hc := List.all_eq_true.1 hall c h
  simpa [and_assoc] using hc

/-- A punctuation mark is a mark. -/
theorem mem_marks_of_punctuation {kind : Kind} (h : punctuation? c = some kind) : c ∈ marks :=
  List.mem_append_left _ (List.mem_map_of_mem (mem_punctuationMarks h))

/-- An operator is a mark, and no punctuation. -/
theorem mem_marks_of_isOperator (h : isOperator c = true) :
    c ∈ marks ∧ punctuation? c = none := by
  simp only [isOperator, Bool.or_eq_true, beq_iff_eq] at h
  rcases h with (((rfl | rfl) | rfl) | rfl) | rfl <;> decide

/-- A quote is a mark, and neither punctuation nor an operator. -/
theorem mem_marks_of_isQuote (h : isQuote c = true) :
    c ∈ marks ∧ punctuation? c = none ∧ isOperator c = false ∧ c ≠ '\\' := by
  simp only [isQuote, Bool.or_eq_true, beq_iff_eq, Text.doubleQuote, Text.singleQuote] at h
  rcases h with rfl | rfl <;> decide

/-- A letter is nothing else. -/
theorem class_of_isLetter (h : isLetter c = true) :
    isSeparator c = false ∧ isDigit c = false ∧ punctuation? c = none ∧ isOperator c = false ∧
      isQuote c = false := by
  have hmarks : c ∉ marks := by
    intro hc
    rw [(class_of_mem_marks hc).2.2] at h
    exact Bool.noConfusion h
  refine ⟨?_, ?_, ?_, ?_, ?_⟩
  · refine Bool.eq_false_iff.2 fun hs => ?_
    rw [isLetter_of_isSeparator hs] at h
    exact Bool.noConfusion h
  · refine Bool.eq_false_iff.2 fun hd => ?_
    rw [isLetter_of_isDigit hd] at h
    exact Bool.noConfusion h
  · refine Option.eq_none_iff_forall_ne_some.2 fun kind hk => ?_
    exact hmarks (mem_marks_of_punctuation hk)
  · exact Bool.eq_false_iff.2 fun ho => hmarks (mem_marks_of_isOperator ho).1
  · exact Bool.eq_false_iff.2 fun hq => hmarks (mem_marks_of_isQuote hq).1

end Characters

section Runs

variable {p : Char → Bool} {span rest : List Char}

/-- A run that the next character does not continue is the longest one. -/
theorem takeWhile_run (hspan : ∀ c ∈ span, p c = true) (hrest : ∀ c ∈ rest.head?, p c = false) :
    (span ++ rest).takeWhile p = span := by
  rw [List.takeWhile_append_of_pos hspan]
  cases rest with
  | nil => simp
  | cons c rest => simp [hrest c rfl]

/-- What follows a run that the next character does not continue is left. -/
theorem dropWhile_run (hspan : ∀ c ∈ span, p c = true) (hrest : ∀ c ∈ rest.head?, p c = false) :
    (span ++ rest).dropWhile p = rest := by
  rw [List.dropWhile_append_of_pos hspan]
  cases rest with
  | nil => rfl
  | cons c rest => simp [hrest c rfl]

/-- A longest run goes on as long as the condition holds. -/
theorem forall_mem_takeWhile (p : Char → Bool) (text : List Char) :
    ∀ c ∈ text.takeWhile p, p c = true :=
  List.all_eq_true.1 List.all_takeWhile

/-- The character after a longest run does not continue it. -/
theorem head?_dropWhile {text : List Char} {c : Char} (hc : c ∈ (text.dropWhile p).head?) :
    p c = false := by
  have h := List.head?_dropWhile_not p text
  rw [Option.mem_def.1 hc] at h
  exact h

/-- A text is split in one way at the first place where a character stands. -/
theorem append_cons_inj {c : Char} {before before' after after' : List Char} (hc : c ∉ before)
    (hc' : c ∉ before') (h : before ++ c :: after = before' ++ c :: after') :
    before = before' ∧ after = after' := by
  induction before generalizing before' with
  | nil =>
    cases before' with
    | nil => exact ⟨rfl, (List.cons.inj h).2⟩
    | cons d before' => exact absurd (by simp [(List.cons.inj h).1]) hc'
  | cons d before ih =>
    cases before' with
    | nil => exact absurd (by simp [(List.cons.inj h).1]) hc
    | cons d' before' =>
      obtain ⟨rfl, htail⟩ := List.cons.inj h
      obtain ⟨rfl, rfl⟩ := ih (fun hd => hc (by simp [hd])) (fun hd => hc' (by simp [hd])) htail
      exact ⟨rfl, rfl⟩

end Runs

/-- A number starts with a digit, or with a point. -/
theorem startsNumber_eq_false {c : Char} (hdigit : isDigit c = false)
    (hpunctuation : punctuation? c = none) (afterOperand : Bool) (rest : List Char) :
    startsNumber afterOperand c rest = false := by
  have hpoint : c ≠ '.' := by
    rintro rfl
    simp [punctuation?] at hpunctuation
  simp [startsNumber, hdigit, hpoint]

/-- A number ends where the next character does not continue it. -/
theorem numberSpan_run {afterOperand : Bool} {span rest : List Char}
    (hspan : Numeral afterOperand span)
    (hrest : ∀ c ∈ rest.head?, (isDigit c || (c == '.' && !span.contains '.')) = false) :
    numberSpan (span ++ rest) = span := by
  have hdigit : ∀ c ∈ rest.head?, isDigit c = false := by
    intro c hc
    exact (Bool.or_eq_false_iff.1 (hrest c hc)).1
  unfold numberSpan
  cases hspan with
  | whole hne hdigits =>
    rw [takeWhile_run hdigits hdigit, dropWhile_run hdigits hdigit]
    have hpoint : span.contains '.' = false := by
      rw [Bool.eq_false_iff]
      intro hc
      have h := hdigits '.' (by simpa using hc)
      revert h
      decide
    split
    · rename_i tail
      have h := hrest '.' rfl
      rw [hpoint] at h
      simp at h
    · simp
  | @point whole fraction hwhole hfraction _ =>
    have hhead : ∀ c ∈ ('.' :: (fraction ++ rest)).head?, isDigit c = false := by
      intro c hc
      obtain rfl := Option.some.inj hc
      decide
    rw [List.append_assoc, List.cons_append, takeWhile_run hwhole hhead,
      dropWhile_run hwhole hhead]
    change whole ++ '.' :: (fraction ++ rest).takeWhile isDigit = _
    rw [takeWhile_run hfraction hdigit]

/-- A number starts one wherever it is well-formed. -/
theorem Numeral.startsNumber {afterOperand : Bool} {span : List Char}
    (h : Numeral afterOperand span) :
    ∃ c tail, span = c :: tail ∧ isSeparator c = false ∧
      ∀ rest, startsNumber afterOperand c (tail ++ rest) = true := by
  have hdigit : ∀ c, isDigit c = true → isSeparator c = false := by
    intro c hc
    refine Bool.eq_false_iff.2 fun hs => ?_
    rw [isDigit_of_isSeparator hs] at hc
    exact Bool.noConfusion hc
  cases h with
  | whole hne hdigits =>
    obtain ⟨c, tail, rfl⟩ := List.exists_cons_of_ne_nil hne
    have hc := hdigits c (by simp)
    exact ⟨c, tail, rfl, hdigit c hc, fun rest => by simp [Lexeme.startsNumber, hc]⟩
  | @point whole fraction hwhole hfraction hlead =>
    cases whole with
    | cons c tail =>
      have hc := hwhole c (by simp)
      exact ⟨c, tail ++ '.' :: fraction, rfl, hdigit c hc,
        fun rest => by simp [Lexeme.startsNumber, hc]⟩
    | nil =>
      obtain ⟨rfl, hne⟩ : afterOperand = false ∧ fraction ≠ [] := by simpa using hlead
      obtain ⟨d, tail, rfl⟩ := List.exists_cons_of_ne_nil hne
      have hd := hfraction d (by simp)
      exact ⟨'.', d :: tail, rfl, by decide, fun rest => by simp [Lexeme.startsNumber, hd]⟩

/-- What starts a number is one, up to the first character that does not
continue it. -/
theorem numeral_numberSpan {afterOperand : Bool} {c : Char} {text : List Char}
    (h : startsNumber afterOperand c text = true) :
    ∃ rest, c :: text = numberSpan (c :: text) ++ rest ∧
      Numeral afterOperand (numberSpan (c :: text)) ∧
      ∀ d ∈ rest.head?, (isDigit d || (d == '.' && !(numberSpan (c :: text)).contains '.')) =
        false := by
  have hall := forall_mem_takeWhile isDigit (c :: text)
  have hsplit := (List.takeWhile_append_dropWhile (p := isDigit) (l := c :: text)).symm
  have hlead : isDigit c = false → c = '.' ∧ afterOperand = false ∧
      (text.head?.map isDigit).getD false = true := by
    intro hc
    simp only [startsNumber, hc, Bool.false_or, Bool.and_eq_true, beq_iff_eq,
      Bool.not_eq_true'] at h
    exact ⟨h.1.1, h.2, h.1.2⟩
  have hwhole : isDigit c = true → (c :: text).takeWhile isDigit ≠ [] := by
    intro hc
    simp [hc]
  unfold numberSpan
  split
  · rename_i tail htail
    rw [htail] at hsplit
    refine ⟨tail.dropWhile isDigit, ?_, .point hall (forall_mem_takeWhile isDigit tail) ?_, ?_⟩
    · rw [List.append_assoc, List.cons_append, List.takeWhile_append_dropWhile]
      exact hsplit
    · cases hc : isDigit c with
      | true => exact .inl (hwhole hc)
      | false =>
        obtain ⟨rfl, ha, hdigit⟩ := hlead hc
        have htext : text = tail := by simpa [hc] using htail
        subst htext
        cases text with
        | nil => simp at hdigit
        | cons d text =>
          have hd : isDigit d = true := by simpa using hdigit
          exact .inr ⟨ha, by simp [hd]⟩
    · intro d hd
      rw [head?_dropWhile hd]
      simp
  · rename_i hno
    refine ⟨(c :: text).dropWhile isDigit, ?_, .whole ?_ ?_, ?_⟩
    · rwa [List.append_nil]
    · rw [List.append_nil]
      cases hc : isDigit c with
      | true => exact hwhole hc
      | false =>
        obtain ⟨rfl, -, -⟩ := hlead hc
        exact absurd (by simp [hc]) (hno text)
    · rwa [List.append_nil]
    · intro d hd
      have hne : d ≠ '.' := by
        rintro rfl
        obtain ⟨tail, htail⟩ := List.head?_eq_some_iff.1 hd
        exact hno tail htail
      simp [head?_dropWhile hd, hne]

/-- The body of a string is what stands before its closing quote. -/
theorem stringBody?_eq_some_iff {quote : Char} (hquote : quote ≠ '\\') {text body : List Char} :
    stringBody? quote text = some body ↔
      Enclosed quote body ∧ ∃ rest, text = body ++ quote :: rest := by
  constructor
  · intro h
    fun_induction stringBody? quote text generalizing body with
    | case1 => simp at h
    | case2 rest =>
      obtain rfl := Option.some.inj h
      exact ⟨.nil, rest, rfl⟩
    | case3 => simp at h
    | case4 hne d rest ih =>
      obtain ⟨inner, hinner, rfl⟩ := Option.map_eq_some_iff.1 h
      obtain ⟨henclosed, tail, rfl⟩ := ih hinner
      exact ⟨.escape henclosed, tail, rfl⟩
    | case5 c rest hne hback ih =>
      obtain ⟨inner, hinner, rfl⟩ := Option.map_eq_some_iff.1 h
      obtain ⟨henclosed, tail, rfl⟩ := ih hinner
      exact ⟨.plain hne hback henclosed, tail, rfl⟩
  · rintro ⟨henclosed, rest, rfl⟩
    induction henclosed with
    | nil => rw [List.nil_append, stringBody?.eq_def]; simp
    | escape _ ih => rw [List.cons_append, stringBody?.eq_def]; simp [hquote.symm, ih]
    | plain hne hback _ ih => rw [List.cons_append, stringBody?.eq_def]; simp [hne, hback, ih]

/-- A word is a keyword or a name. -/
theorem wordKind_cases (span : List Char) :
    wordKind span = .letWord ∨ wordKind span = .constWord ∨ wordKind span = .fnWord ∨
      wordKind span = .ident := by
  unfold wordKind
  repeat' split
  all_goals simp

/-- A word goes on with letters. -/
theorem continues_word {afterOperand : Bool} {span text : List Char} {c : Char} :
    continues afterOperand ⟨some (wordKind span), span, text⟩ c = isLetter c := by
  rcases wordKind_cases span with h | h | h | h <;> simp [continues, h]

/-- A punctuation mark goes on only if it is a point before a digit. -/
theorem continues_punctuation {afterOperand : Bool} {c d : Char} {kind : Kind}
    (h : punctuation? c = some kind) :
    continues afterOperand (single kind c) d = (c == '.' && isDigit d && !afterOperand) := by
  have hall : ∀ mark ∈ punctuationMarks,
      continues afterOperand (single mark.2 mark.1) d =
        (mark.1 == '.' && isDigit d && !afterOperand) := by
    simp [punctuationMarks, continues, single]
  exact hall (c, kind) (mem_punctuationMarks h)

/-- The next lexeme is well-formed, and what follows does not continue it. -/
theorem formed_of_next {afterOperand : Bool} {text : List Char} {lexeme : Lexeme}
    (h : next afterOperand text = .ok lexeme) :
    Formed afterOperand lexeme ∧ ∃ rest, text = lexeme.span ++ rest ∧
      ∀ c ∈ rest.head?, continues afterOperand lexeme c = false := by
  cases text with
  | nil => simp [next] at h
  | cons c text =>
    simp only [next] at h
    repeat' split at h
    all_goals simp only [reduceCtorEq, Except.ok.injEq] at h
    all_goals subst h
    · rename_i hblank
      refine ⟨.blank (by simp [hblank]) (forall_mem_takeWhile _ _),
        (c :: text).dropWhile isSeparator, ?_, ?_⟩
      · exact List.takeWhile_append_dropWhile.symm
      · exact fun d hd => head?_dropWhile hd
    · rename_i hnumber
      obtain ⟨rest, hsplit, hnumeral, hrest⟩ := numeral_numberSpan hnumber
      exact ⟨.number hnumeral, rest, hsplit, hrest⟩
    · rename_i hnumber _ kind hkind
      refine ⟨.punctuation hkind, text, rfl, fun d hd => ?_⟩
      rw [continues_punctuation hkind]
      rw [Bool.not_eq_true, startsNumber, Option.mem_def.1 hd, Bool.or_eq_false_iff] at hnumber
      exact hnumber.2
    · rename_i hoperator
      exact ⟨.operator hoperator, text, rfl, fun d hd => rfl⟩
    · rename_i hquote _ lexeme hstring
      obtain ⟨body, hbody, rfl⟩ := Option.map_eq_some_iff.1 hstring
      obtain ⟨henclosed, rest, rfl⟩ :=
        (stringBody?_eq_some_iff (mem_marks_of_isQuote hquote).2.2.2).1 hbody
      exact ⟨.string hquote henclosed, rest, by simp, fun d hd => rfl⟩
    · rename_i hletter
      refine ⟨.word (by simp [hletter]) (forall_mem_takeWhile _ _),
        (c :: text).dropWhile isLetter, ?_, ?_⟩
      · exact List.takeWhile_append_dropWhile.symm
      · intro d hd
        rw [word, continues_word]
        exact head?_dropWhile hd

/-- A well-formed lexeme that what follows does not continue is the next one. -/
theorem Formed.next {afterOperand : Bool} {lexeme : Lexeme} {rest : List Char}
    (h : Formed afterOperand lexeme)
    (hrest : ∀ c ∈ rest.head?, continues afterOperand lexeme c = false) :
    next afterOperand (lexeme.span ++ rest) = .ok lexeme := by
  cases h with
  | @blank span hne hspan =>
    obtain ⟨c, span, rfl⟩ := List.exists_cons_of_ne_nil hne
    simp only [List.cons_append, Lexeme.next, hspan c (by simp), if_true]
    have hrun := takeWhile_run hspan hrest
    simp only [List.cons_append] at hrun
    rw [Lexeme.blank, hrun]
  | @number span hspan =>
    have hrun := numberSpan_run hspan hrest
    obtain ⟨c, tail, rfl, hseparator, hstarts⟩ := hspan.startsNumber
    simp only [List.cons_append, Lexeme.next, hseparator, hstarts rest, if_true, Bool.false_eq_true,
      if_false]
    simp only [List.cons_append] at hrun
    rw [Lexeme.number, hrun]
  | @punctuation c kind hkind =>
    have hclass := class_of_mem_marks (mem_marks_of_punctuation hkind)
    have hnumber : startsNumber afterOperand c rest = false := by
      rw [startsNumber, hclass.2.1, Bool.false_or]
      cases rest with
      | nil => simp
      | cons d rest =>
        have hd := hrest d rfl
        rw [continues_punctuation hkind] at hd
        exact hd
    simp [single, Lexeme.next, hclass.1, hnumber, hkind]
  | @operator c hoperator =>
    have hmark := mem_marks_of_isOperator hoperator
    have hclass := class_of_mem_marks hmark.1
    have hnumber := startsNumber_eq_false hclass.2.1 hmark.2 afterOperand rest
    simp [single, Lexeme.next, hclass.1, hnumber, hmark.2, hoperator]
  | @string quote body hquote hbody =>
    obtain ⟨hmark, hpunctuation, hoperator, hback⟩ := mem_marks_of_isQuote hquote
    have hclass := class_of_mem_marks hmark
    have hnumber := startsNumber_eq_false hclass.2.1 hpunctuation afterOperand
    have hstring : stringBody? quote (body ++ quote :: rest) = some body :=
      (stringBody?_eq_some_iff hback).2 ⟨hbody, rest, rfl⟩
    simp [Lexeme.next, hclass.1, hnumber, hpunctuation, hoperator, hquote, string?, hstring]
  | @word span hne hspan =>
    have hrun : (span ++ rest).takeWhile isLetter = span := by
      refine takeWhile_run hspan fun d hd => ?_
      have h := hrest d hd
      rw [continues_word] at h
      exact h
    obtain ⟨c, span, rfl⟩ := List.exists_cons_of_ne_nil hne
    obtain ⟨hseparator, hdigit, hpunctuation, hoperator, hquote⟩ :=
      class_of_isLetter (hspan c (by simp))
    have hnumber := startsNumber_eq_false hdigit hpunctuation afterOperand
    simp only [List.cons_append] at hrun
    simp [Lexeme.next, hseparator, hnumber, hpunctuation, hoperator, hquote, hspan c (by simp),
      Lexeme.word, hrun]

end Lexeme

end Scriptlet
