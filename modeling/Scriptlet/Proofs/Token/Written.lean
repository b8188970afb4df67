import Scriptlet.Proofs.Token.Spelling

/-!
# Written symbols

A mark or a keyword has a single spelling, a name and an operator are spelled
by themselves. What is written so is spelled in every place, after an operand
or not.
-/

namespace Scriptlet

open Character Lexeme

/-- Whether a text can be a name: a word that is no keyword. -/
def IsName (name : String) : Prop :=
  name.toList ≠ [] ∧ (∀ c ∈ name.toList, isLetter c = true) ∧
    name ≠ "let" ∧ name ≠ "const" ∧ name ≠ "fn"

instance (name : String) : Decidable (IsName name) :=
  decidable_of_iff (name.toList ≠ [] ∧ name.toList.all isLetter = true ∧
    name ≠ "let" ∧ name ≠ "const" ∧ name ≠ "fn") (by rw [List.all_eq_true, IsName])

/-- The operators between the terms of a sum. -/
def sumOperators : List String :=
  ["+", "-"]

/-- The operators between the factors of a product. -/
def productOperators : List String :=
  ["*", "/", "%"]

/-- No operator is in both lists. -/
theorem not_mem_sumOperators {operator : String} (h : operator ∈ productOperators) :
    operator ∉ sumOperators := by
  have hall : ∀ o ∈ productOperators, o ∉ sumOperators := by decide
  exact hall operator h

/-- The only text of a symbol whose kind allows no other. -/
def Kind.spelling : Kind → String
  | letWord => "let"
  | constWord => "const"
  | fnWord => "fn"
  | equals => "="
  | comma => ","
  | dot => "."
  | colon => ":"
  | semi => ";"
  | lpar => "("
  | rpar => ")"
  | lbrace => "\x7b"
  | rbrace => "\x7d"
  | lsqb => "["
  | rsqb => "]"
  | _ => ""

/-- The symbol of a kind that allows only one. -/
def Kind.symbol (kind : Kind) : Symbol :=
  ⟨kind, kind.spelling⟩

namespace Symbol

/-- The symbol of a name. -/
def ofName (name : String) : Symbol :=
  ⟨.ident, name⟩

/-- The symbol of a numeral. -/
def ofDigits (digits : List Char) : Symbol :=
  ⟨.number, String.ofList (completeNumber digits)⟩

/-- The symbol of an operator. -/
def ofOperator (operator : String) : Symbol :=
  ⟨.operator, operator⟩

end Symbol

/-- A symbol whose kind allows no other is spelled by its text. -/
theorem Kind.spelledBy (kind : Kind) (h : ¬ kind.spelling = "") (afterOperand : Bool) :
    kind.symbol.SpelledBy afterOperand kind.spelling.toList := by
  have hword : kind.spelling.toList ≠ [] → kind.spelling.toList.all isLetter = true →
      wordKind kind.spelling.toList = kind →
        kind.symbol.SpelledBy afterOperand kind.spelling.toList := by
    intro hne hletters hkind
    exact ⟨_, .word hne (List.all_eq_true.1 hletters), by simp [symbol?, hkind, Kind.symbol], rfl⟩
  have hmark : ∀ c, punctuation? c = some kind → kind.spelling = String.ofList [c] →
      kind.symbol.SpelledBy afterOperand kind.spelling.toList := by
    intro c hkind hspelling
    exact ⟨_, .punctuation hkind, by simp [symbol?, single, Kind.symbol, hspelling],
      by simp [single, hspelling]⟩
  cases kind with
  | number | ident | string | operator | eof => exact absurd rfl h
  | letWord | constWord | fnWord => exact hword (by decide) (by decide) rfl
  | equals => exact hmark '=' rfl rfl
  | comma => exact hmark ',' rfl rfl
  | dot => exact hmark '.' rfl rfl
  | colon => exact hmark ':' rfl rfl
  | semi => exact hmark ';' rfl rfl
  | lpar => exact hmark '(' rfl rfl
  | rpar => exact hmark ')' rfl rfl
  | lbrace => exact hmark '{' rfl rfl
  | rbrace => exact hmark '}' rfl rfl
  | lsqb => exact hmark '[' rfl rfl
  | rsqb => exact hmark ']' rfl rfl

/-- A name is spelled by itself. -/
theorem IsName.spelledBy {name : String} (h : IsName name) (afterOperand : Bool) :
    (Symbol.ofName name).SpelledBy afterOperand name.toList := by
  obtain ⟨hne, hletters, hlet, hconst, hfn⟩ := h
  have hkind : wordKind name.toList = .ident := by
    have hlet : name.toList ≠ ['l', 'e', 't'] := fun h => hlet (String.toList_injective h)
    have hconst : name.toList ≠ ['c', 'o', 'n', 's', 't'] :=
      fun h => hconst (String.toList_injective h)
    have hfn : name.toList ≠ ['f', 'n'] := fun h => hfn (String.toList_injective h)
    simp [wordKind, hlet, hconst, hfn]
  exact ⟨_, .word hne hletters, by simp [symbol?, hkind, Symbol.ofName], rfl⟩

/-- An operator is spelled by itself. -/
theorem spelledBy_ofOperator {operator : String} (h : operator ∈ sumOperators ++ productOperators)
    (afterOperand : Bool) :
    (Symbol.ofOperator operator).SpelledBy afterOperand operator.toList := by
  obtain ⟨c, rfl, hc⟩ : ∃ c, operator = String.ofList [c] ∧ isOperator c = true := by
    simp only [sumOperators, productOperators, List.cons_append, List.nil_append, List.mem_cons,
      List.not_mem_nil, or_false] at h
    rcases h with rfl | rfl | rfl | rfl | rfl
    · exact ⟨'+', rfl, rfl⟩
    · exact ⟨'-', rfl, rfl⟩
    · exact ⟨'*', rfl, rfl⟩
    · exact ⟨'/', rfl, rfl⟩
    · exact ⟨'%', rfl, rfl⟩
  exact ⟨_, .operator hc, rfl, by simp [single]⟩

end Scriptlet
