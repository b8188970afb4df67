import Scriptlet.Token

/-!
# Symbols

A symbol is what is left of a token when its place in the source is forgotten:
its kind and its text.
-/

namespace Scriptlet

/-- A token without its place in the source. -/
structure Symbol where
  /-- Its kind. -/
  kind : Kind
  /-- The text it stands for. -/
  text : String
deriving DecidableEq, Repr

/-- The symbol that a token is an occurrence of. -/
def Token.symbol (t : Token) : Symbol :=
  ⟨t.kind, t.text⟩

/-- A symbol has the kind of its token. -/
@[simp]
theorem Token.symbol_kind (t : Token) : t.symbol.kind = t.kind :=
  rfl

/-- A symbol has the text of its token. -/
@[simp]
theorem Token.symbol_text (t : Token) : t.symbol.text = t.text :=
  rfl

namespace Symbol

/-- Whether a symbol is an operator between the terms of a sum. -/
def IsAdditive (x : Symbol) : Prop :=
  x.kind = .operator ∧ (x.text = "+" ∨ x.text = "-")

/-- Whether a symbol is an operator between the factors of a product. -/
def IsMultiplicative (x : Symbol) : Prop :=
  x.kind = .operator ∧ (x.text = "*" ∨ x.text = "/" ∨ x.text = "%")

end Symbol

end Scriptlet
