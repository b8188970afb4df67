import Mathlib.Data.List.DropRight
import Scriptlet.Proofs.Grammar.Placement
import Scriptlet.Proofs.Prompt.Survival
import Scriptlet.Proofs.Token.Thinning
import Scriptlet.Proofs.Token.Tiling
import Scriptlet.Proofs.Token.Written

/-!
# Submitting a program and running it

The prompt takes characters out of a text before it runs it. In a program these
are carriage returns, which separate symbols like other white space. So a program
that is submitted first in a session is answered with what running it leads to,
unless two of its symbols run together because nothing but carriage returns
stands between them.
-/

namespace Scriptlet

open Character Lexeme

/-- A text that spells a single name is that name with separators around it. -/
theorem Lexes.exists_eq_name {afterOperand : Bool} {text : List Char} {name : String}
    (h : Lexes afterOperand text [.ofName name]) :
    ∃ lead gap, (∀ c ∈ lead, isSeparator c = true) ∧ (∀ c ∈ gap, isSeparator c = true) ∧
      text = lead ++ (name.toList ++ gap) := by
  obtain ⟨lexemes, hcuts, hsymbols⟩ := h
  obtain ⟨lead, tiles, hlead, rfl, hlaid, htokens⟩ := hcuts.exists_laid []
  rw [← map_symbol_tokensFrom (.ofText []), htokens, List.map_map] at hsymbols
  obtain ⟨tile, rfl, hname⟩ := List.map_eq_singleton_iff.1 hsymbols
  obtain ⟨hkind, htext⟩ : tile.token.kind = .ident ∧ tile.token.text = name := by
    simpa [Token.symbol, Symbol.ofName] using hname
  have hfits := hlaid.1
  have hspan : tile.span = name.toList := by
    have hspelled := hfits.spelled
    generalize tile.span = span at hspelled
    cases hspelled with
    | plain => rw [htext]
    | quoted hstring => simp [hkind] at hstring
    | pointed hnumber => simp [hkind] at hnumber
  exact ⟨lead, tile.gap, hlead, hfits.blank, by simp [Tile.text, hspan]⟩

/-- A name with separators around it spells that name. -/
theorem IsName.lexes {name : String} (h : IsName name) {lead gap : List Char}
    (hlead : ∀ c ∈ lead, isSeparator c = true) (hgap : ∀ c ∈ gap, isSeparator c = true)
    (afterOperand : Bool) : Lexes afterOperand (lead ++ (name.toList ++ gap)) [.ofName name] := by
  obtain ⟨lexeme, hformed, hsymbol, hspan⟩ := h.spelledBy afterOperand
  rw [← hspan]
  have hnil : Lexes (Symbol.ofName name).kind.endsOperand gap [] := by
    simpa using lexes_nil.separators hgap
  have hends : ∀ c ∈ gap.head?, continues afterOperand lexeme c = false := fun c hc =>
    hformed.continues_separator hsymbol (hgap c (List.mem_of_mem_head? hc))
  exact (Lexes.symbol hformed hsymbol hends hnil).separators hlead

section Trimming

variable {kept : Char → Bool}

/-- Separators are white space. -/
theorem isBlank_of_isSeparator {c : Char} (h : isSeparator c = true) : isBlank c = true := by
  simp only [isSeparator, Bool.or_eq_true, beq_iff_eq] at h
  rcases h with ((rfl | rfl) | rfl) | rfl <;> decide

/-- White space at the start of a text can be dropped before some of the white space in
it is taken out. -/
theorem dropWhile_isBlank_filter {text : List Char}
    (h : ∀ c ∈ text, kept c = false → isBlank c = true) :
    (text.filter kept).dropWhile isBlank = (text.dropWhile isBlank).filter kept := by
  induction text with
  | nil => rfl
  | cons c text ih =>
    have ih := ih fun d hd => h d (by simp [hd])
    cases hblank : isBlank c with
    | true =>
      rw [List.dropWhile_cons_of_pos hblank]
      cases hkept : kept c with
      | true => rw [List.filter_cons_of_pos hkept, List.dropWhile_cons_of_pos hblank, ih]
      | false => rw [List.filter_cons_of_neg (by simp [hkept]), ih]
    | false =>
      have hkept : kept c = true := by
        cases hkept : kept c with
        | true => rfl
        | false => rw [h c (by simp) hkept] at hblank; cases hblank
      rw [List.dropWhile_cons_of_neg (by simp [hblank]), List.filter_cons_of_pos hkept,
        List.dropWhile_cons_of_neg (by simp [hblank])]

/-- A trimmed text does not start with white space. -/
theorem isBlank_head?_trim {text : String} {c : Char} (hc : c ∈ (Text.trim text).toList.head?) :
    isBlank c = false := by
  rw [Text.trim, String.toList_ofList] at hc
  obtain ⟨rest, hrest⟩ := List.head?_eq_some_iff.1 hc
  obtain ⟨trail, htrail⟩ : c :: rest <+: text.toList.dropWhile isBlank :=
    hrest ▸ List.rdropWhile_prefix isBlank _
  exact head?_dropWhile (by rw [← htrail]; rfl)

/-- White space around a word is trimmed. -/
theorem trim_eq {word : String} {lead gap : List Char} (hne : word.toList ≠ [])
    (hword : ∀ c ∈ word.toList, isBlank c = false) (hlead : ∀ c ∈ lead, isBlank c = true)
    (hgap : ∀ c ∈ gap, isBlank c = true) :
    Text.trim (String.ofList (lead ++ (word.toList ++ gap))) = word := by
  have hstart : ∀ c ∈ (word.toList ++ gap).head?, isBlank c = false := by
    intro c hc
    rw [List.head?_append_of_ne_nil _ hne] at hc
    exact hword c (List.mem_of_mem_head? hc)
  have hend : ∀ c ∈ word.toList.reverse.head?, isBlank c = false := fun c hc =>
    hword c (List.mem_reverse.1 (List.mem_of_mem_head? hc))
  rw [Text.trim, String.toList_ofList, dropWhile_run hlead hstart, List.reverse_append,
    dropWhile_run (fun c hc => hgap c (List.mem_reverse.1 hc)) hend, List.reverse_reverse,
    String.ofList_toList]

/-- A text is its trimmed form with white space around it. -/
theorem exists_eq_trim (text : String) :
    ∃ lead gap, (∀ c ∈ lead, isBlank c = true) ∧ (∀ c ∈ gap, isBlank c = true) ∧
      text.toList = lead ++ ((Text.trim text).toList ++ gap) := by
  refine ⟨text.toList.takeWhile isBlank,
    ((text.toList.dropWhile isBlank).reverse.takeWhile isBlank).reverse,
    forall_mem_takeWhile _ _, fun c hc => ?_, ?_⟩
  · exact forall_mem_takeWhile _ _ c (List.mem_reverse.1 hc)
  · rw [Text.trim, String.toList_ofList, ← List.reverse_append, List.takeWhile_append_dropWhile,
      List.reverse_reverse, List.takeWhile_append_dropWhile]

end Trimming

namespace Prompt

/-- Whether a character stays in a submitted text. -/
def isVisible (c : Char) : Bool :=
  !invisible.contains c

/-- The visible characters of a text are left. -/
theorem toList_normalize (text : String) :
    (normalize text).toList = text.toList.filter isVisible :=
  String.toList_ofList

/-- Digits, letters and marks are visible, and no white space. -/
theorem isVisible_of_class {c : Char} (h : isDigit c = true ∨ isLetter c = true ∨ c ∈ marks) :
    isVisible c = true ∧ isBlank c = false := by
  have hinvisible : invisible.all
      (fun c => !isDigit c && !isLetter c && !marks.contains c) = true := by decide +kernel
  have hdigits : apart digitIntervals blankIntervals = true := by decide +kernel
  have hletters : apart letterIntervals blankIntervals = true := by decide +kernel
  have hmarks : marks.all (fun c => !isBlank c) = true := by decide +kernel
  constructor
  · have hnot : c ∉ invisible := by
      intro hc
      obtain ⟨⟨hdigit, hletter⟩, hmark⟩ : (isDigit c = false ∧ isLetter c = false) ∧ c ∉ marks := by
        simpa using List.all_eq_true.1 hinvisible c hc
      simp [hdigit, hletter, hmark] at h
    simpa [isVisible] using hnot
  · rcases h with h | h | h
    · exact within_eq_false_of_apart hdigits h
    · exact within_eq_false_of_apart hletters h
    · simpa using List.all_eq_true.1 hmarks c h

/-- Whether a text consists of separators and of visible characters that are no white
space. -/
def IsPlain (text : List Char) : Prop :=
  ∀ c ∈ text, isSeparator c = true ∨ isVisible c = true ∧ isBlank c = false

/-- A text without strings is plain. -/
theorem isPlain_of_cuts {text : List Char} {lexemes : List Lexeme} (h : Cuts false text lexemes)
    (hstring : ∀ x ∈ lexemes.filterMap symbol?, x.kind ≠ .string) :
    IsPlain text ∧ KeepsSymbols isVisible lexemes := by
  have hkind : ∀ lexeme ∈ lexemes, lexeme.kind ≠ some .string := by
    intro lexeme hlexeme hkind
    exact hstring ⟨.string, String.ofList lexeme.text⟩
      (List.mem_filterMap.2 ⟨lexeme, hlexeme, by simp [symbol?, hkind]⟩) rfl
  obtain ⟨rfl, hformed⟩ := h.formed
  have hvisible : ∀ lexeme ∈ lexemes, lexeme.symbol? ≠ none →
      ∀ c ∈ lexeme.span, isVisible c = true ∧ isBlank c = false := by
    intro lexeme hlexeme hsymbol c hc
    obtain ⟨before, hlexeme'⟩ := hformed lexeme hlexeme
    exact isVisible_of_class (hlexeme'.class_of_mem_span hsymbol (hkind lexeme hlexeme) hc)
  refine ⟨fun c hc => ?_, fun lexeme hlexeme hsymbol c hc =>
    (hvisible lexeme hlexeme hsymbol c hc).1⟩
  obtain ⟨lexeme, hlexeme, hc⟩ := List.mem_flatMap.1 hc
  by_cases hsymbol : lexeme.symbol? = none
  · obtain ⟨before, hlexeme'⟩ := hformed lexeme hlexeme
    obtain ⟨span, rfl, hspan⟩ := hlexeme'.blank_of_symbol? hsymbol
    exact .inl (hspan c hc)
  · exact .inr (hvisible lexeme hlexeme hsymbol c hc)

/-- What is not visible in a plain text is white space. -/
theorem IsPlain.isBlank {text : List Char} (h : IsPlain text) :
    ∀ c ∈ text, isVisible c = false → isBlank c = true := by
  intro c hc hhidden
  rcases h c hc with hseparator | ⟨hvisible, -⟩
  · exact isBlank_of_isSeparator hseparator
  · rw [hvisible] at hhidden
    cases hhidden

/-- The white space of a plain text consists of separators. -/
theorem IsPlain.isSeparator {text : List Char} (h : IsPlain text) :
    ∀ c ∈ text, Character.isBlank c = true → Character.isSeparator c = true := by
  intro c hc hblank
  rcases h c hc with hseparator | ⟨-, hsolid⟩
  · exact hseparator
  · rw [hblank] at hsolid
    cases hsolid

/-- A plain text can be trimmed before its invisible characters are taken out. -/
theorem trim_normalize {text : String} (h : IsPlain text.toList) :
    Text.trim (normalize text) = normalize (Text.trim text) := by
  have hdrop := dropWhile_isBlank_filter h.isBlank
  have hreverse : ∀ c ∈ (text.toList.dropWhile Character.isBlank).reverse,
      isVisible c = false → Character.isBlank c = true := fun c hc =>
    h.isBlank c ((List.dropWhile_suffix _).subset (List.mem_reverse.1 hc))
  apply String.toList_injective
  rw [toList_normalize, Text.trim, Text.trim, String.toList_ofList, String.toList_ofList,
    toList_normalize, hdrop, ← List.filter_reverse, dropWhile_isBlank_filter hreverse,
    List.filter_reverse]

/-- The first character of a trimmed text that is plain stays the first one. -/
theorem head?_trim_normalize {text : String} (h : IsPlain text.toList) :
    (Text.trim (normalize text)).toList.head? = (Text.trim text).toList.head? := by
  rw [trim_normalize h, toList_normalize]
  cases htrim : (Text.trim text).toList with
  | nil => rfl
  | cons c rest =>
    have hsolid : Character.isBlank c = false := isBlank_head?_trim (by rw [htrim]; rfl)
    have hmem : c ∈ text.toList := by
      obtain ⟨lead, gap, -, -, htext⟩ := exists_eq_trim text
      rw [htext, htrim]
      simp
    have hvisible : isVisible c = true := by
      rw [← Bool.not_eq_false]
      intro hhidden
      rw [h.isBlank c hmem hhidden] at hsolid
      cases hsolid
    rw [List.filter_cons_of_pos hvisible]
    rfl

/-- A plain text is run as a program without its invisible characters if it is one with
them. -/
theorem isProgram_normalize {text : String} (h : IsPlain text.toList) :
    isProgram (normalize text) = isProgram text := by
  have hhead := head?_trim_normalize h
  have hblank : ∀ text : String, (Text.trim text != "") = (Text.trim text).toList.head?.isSome := by
    intro text
    generalize Text.trim text = trimmed
    rw [Bool.eq_iff_iff]
    simp
  rw [isProgram, isProgram, isCommand, isCommand, hblank, hblank, hhead]

/-- The words that end a session are names. -/
theorem isName_of_mem_exitWords {word : String} (h : word ∈ exitWords) : IsName word := by
  have hall : ∀ word ∈ exitWords, IsName word := by decide +kernel
  exact hall word h

/-- A plain text that ends the session without its invisible characters does so with
them, if it spells the same symbols. -/
theorem endsSession_of_normalize {text : String} {w : List Symbol} (h : IsPlain text.toList)
    (htext : Lexes false text.toList w) (hthin : Lexes false (normalize text).toList w)
    (hends : endsSession (normalize text) = true) : endsSession text = true := by
  have hword : Text.trim (normalize text) ∈ exitWords := by simpa [endsSession] using hends
  have hname := isName_of_mem_exitWords hword
  obtain ⟨lead, gap, hlead, hgap, heq⟩ := exists_eq_trim (normalize text)
  generalize Text.trim (normalize text) = word at hword hname heq
  have hseparator : ∀ c ∈ (normalize text).toList, Character.isBlank c = true →
      Character.isSeparator c = true := by
    intro c hc
    rw [toList_normalize] at hc
    exact h.isSeparator c (List.mem_filter.1 hc).1
  have hsingle : Lexes false (normalize text).toList [.ofName word] := by
    rw [heq]
    exact hname.lexes (fun c hc => hseparator c (by simp [heq, hc]) (hlead c hc))
      (fun c hc => hseparator c (by simp [heq, hc]) (hgap c hc)) false
  obtain rfl := hthin.unique hsingle
  obtain ⟨lead, gap, hlead, hgap, hsource⟩ := htext.exists_eq_name
  have hsolid : ∀ c ∈ word.toList, Character.isBlank c = false := fun c hc =>
    (isVisible_of_class (.inr (.inl (hname.2.1 c hc)))).2
  have htrim : Text.trim text = word := by
    rw [← String.ofList_toList (s := text), hsource]
    exact trim_eq hname.1 hsolid (fun c hc => isBlank_of_isSeparator (hlead c hc))
      fun c hc => isBlank_of_isSeparator (hgap c hc)
  simpa [endsSession, htrim] using hword

/-- The answer that shows what running a text in a new environment leads to. -/
def direct (trace : Trace) (source : String) : Answer :=
  match run source .global with
  | .ok value env =>
    .next (if value.isNull then [] else [.result value]) { start trace with environment := env }
  | .error failure env =>
    .next ((start trace).report failure) { start trace with environment := env }

/-- A text that is parsed is run at the start of a session as it is run elsewhere, and does
not end the session. -/
theorem evalText_start {text : String} {n : Node} (trace : Trace) (h : parse text = .ok n) :
    ((start trace).evalText text).escaped = none ∧
      .next ((start trace).evalText text).outputs ((start trace).evalText text).prompt =
        direct trace text := by
  unfold evalText direct run
  rw [h]
  dsimp only [start]
  cases heval : evaluate n .global with
  | ok value env => exact ⟨rfl, rfl⟩
  | error failure env =>
    have hreported := (proper_of_evaluate h heval).isReported
    dsimp only [fail]
    rw [if_pos hreported]
    exact ⟨rfl, rfl⟩

/-- A text that is a program without its invisible characters is answered with what
running it leads to. -/
theorem respond_start {text : String} {n : Node} (trace : Trace)
    (hparse : parse (normalize text) = .ok n) (hprogram : isProgram (normalize text) = true)
    (hends : endsSession (normalize text) = false) :
    (start trace).respond text = direct trace (normalize text) := by
  obtain ⟨hblank, hcommand⟩ :
      Text.trim (normalize text) ≠ "" ∧ isCommand (normalize text) = false := by
    simpa [isProgram] using hprogram
  rw [endsSession] at hends
  obtain ⟨hescaped, hdirect⟩ := evalText_start trace hparse
  rw [← hdirect]
  simp only [respond, hblank, if_false, hends, Bool.false_eq_true, slash?,
    ofLine?_eq_none hcommand, Option.map_none, hescaped]

/-- A program that is submitted first in a session means what it means when it is run: its
value or its failure is shown, and the prompt goes on in the environment that it leaves.
Its symbols have to stay apart without the invisible characters. -/
theorem respond_eq_direct {source : String} {n : Node} {lexemes : List Lexeme} (trace : Trace)
    (hparse : parse source = .ok n) (hprogram : isProgram source = true)
    (hends : endsSession source = false) (hcuts : Cuts false source.toList lexemes)
    (hapart : staysApart isVisible lexemes = true) :
    run (normalize source) = run source ∧
      (start trace).respond source = direct trace source := by
  obtain ⟨w, hlexes, hderives⟩ := parse_eq_ok_iff.1 hparse
  obtain rfl := hlexes.unique ⟨lexemes, hcuts, rfl⟩
  obtain ⟨hplain, hkept⟩ := isPlain_of_cuts hcuts hderives.placed.kind_ne_string
  have hthin : Lexes false (normalize source).toList (lexemes.filterMap symbol?) := by
    rw [toList_normalize]
    exact hcuts.lexes_filter hkept hapart
  have hsame : run (normalize source) = run source := by
    unfold run
    rw [hthin.parse hderives, hparse]
  have hprogram' : isProgram (normalize source) = true := by
    rw [isProgram_normalize hplain, hprogram]
  have hends' : endsSession (normalize source) = false := by
    rw [← Bool.not_eq_true] at hends ⊢
    exact fun h => hends (endsSession_of_normalize hplain hlexes hthin h)
  refine ⟨hsame, ?_⟩
  rw [respond_start trace (hthin.parse hderives) hprogram' hends', direct, direct, hsame]

/-- Two statements, with a carriage return before the semicolon and one after it. -/
theorem respond_eq_direct_two_statements :
    let source := "true\r;\r\nfalse"
    let lexemes : List Lexeme :=
      [⟨some .ident, ['t', 'r', 'u', 'e'], ['t', 'r', 'u', 'e']⟩, ⟨none, ['\r'], []⟩,
        ⟨some .semi, [';'], [';']⟩, ⟨none, ['\r', '\n'], []⟩,
        ⟨some .ident, ['f', 'a', 'l', 's', 'e'], ['f', 'a', 'l', 's', 'e']⟩]
    parse source = .ok (.program [.identifier "true", .identifier "false"]) ∧
      isProgram source = true ∧ endsSession source = false ∧
      Cuts false source.toList lexemes ∧ staysApart isVisible lexemes = true ∧
      run (normalize source) = run source ∧
      (start ⟨none⟩).respond source = direct ⟨none⟩ source := by
  intro source lexemes
  have htokens : tokenize source = .ok [⟨.ident, "true", ⟨1, 1⟩⟩, ⟨.semi, ";", ⟨1, 6⟩⟩,
      ⟨.ident, "false", ⟨2, 1⟩⟩, ⟨.eof, Token.endText, ⟨2, 6⟩⟩] := by decide +kernel
  have hparse : parse source = .ok (.program [.identifier "true", .identifier "false"]) :=
    parse_eq_ok_iff_parseTokens.2 ⟨_, htokens, rfl⟩
  have hprogram : isProgram source = true := by decide +kernel
  have hends : endsSession source = false := by decide +kernel
  have hcuts : Cuts false source.toList lexemes := by
    have htext : source.toList = lexemes.flatMap span := by decide +kernel
    rw [htext]
    exact .cons (by decide +kernel) (.cons (by decide +kernel) (.cons (by decide +kernel)
      (.cons (by decide +kernel) (.cons (by decide +kernel) .nil))))
  have hapart : staysApart isVisible lexemes = true := by decide +kernel
  exact ⟨hparse, hprogram, hends, hcuts, hapart,
    respond_eq_direct ⟨none⟩ hparse hprogram hends hcuts hapart⟩

/-- What an answer writes to the standard error. -/
def Answer.err : Answer → String
  | next outputs _ => Output.allErr outputs
  | exit => ""
  | crash outputs _ _ => Output.allErr outputs

/-- Two names that only a carriage return keeps apart become one name at the prompt, which
cannot be resolved. -/
theorem exists_respond_ne_direct :
    ¬ ∀ trace source n, parse source = .ok n → isProgram source = true →
      endsSession source = false → (start trace).respond source = direct trace source := by
  intro h
  have htokens : tokenize "true\rfalse" = .ok [⟨.ident, "true", ⟨1, 1⟩⟩,
      ⟨.ident, "false", ⟨1, 6⟩⟩, ⟨.eof, Token.endText, ⟨1, 11⟩⟩] := by decide +kernel
  have hparse : parse "true\rfalse" = .ok (.program [.identifier "true", .identifier "false"]) :=
    parse_eq_ok_iff_parseTokens.2 ⟨_, htokens, rfl⟩
  have hanswer := h ⟨none⟩ _ _ hparse (by decide +kernel) (by decide +kernel)
  have herr : ((start ⟨none⟩).respond "true\rfalse").err ≠ (direct ⟨none⟩ "true\rfalse").err := by
    decide +kernel
  exact herr (congrArg Answer.err hanswer)

end Prompt

end Scriptlet
