import Scriptlet.Node
import Scriptlet.Number.Numeral
import Scriptlet.Proofs.Token.Symbol

/-!
# The grammar

The grammar says which sequences of symbols spell which trees. Each level of
expressions has a relation of its own; chains of operators, accesses and
argument lists are grouped to the left, assignments to the right. Statements
stand next to each other without separators, and only one rule is needed to
tell where an expression that no semicolon closes ends: a parenthesis after it
starts the next statement only if the expression ends with a brace.

The relations are specification only. They say nothing about how the symbols
are read, and they look neither ahead nor back.
-/

namespace Scriptlet

namespace Grammar

mutual

/-- A name, a number, or an expression between parentheses. -/
inductive Primary : List Symbol → Node → Prop
  | name {x : Symbol} : x.kind = .ident → Primary [x] (.identifier x.text)
  | number {x : Symbol} {value : Float} :
      x.kind = .number → Number.read? x.text = some value → Primary [x] (.number value)
  | group {l r : Symbol} {w : List Symbol} {n : Node} :
      l.kind = .lpar → Expression w n → r.kind = .rpar → Primary (l :: (w ++ [r])) n

/-- A primary expression with accesses to members. What follows a point is a
primary expression, too, as long as it is the use of a name. -/
inductive Member : List Symbol → Node → Prop
  | primary {w : List Symbol} {n : Node} : Primary w n → Member w n
  | field {d : Symbol} {w v : List Symbol} {object : Node} {name : String} :
      Member w object → d.kind = .dot → Primary v (.identifier name) →
        Member (w ++ d :: v) (.member object (.identifier name) false)
  | index {l r : Symbol} {w v : List Symbol} {object property : Node} :
      Member w object → l.kind = .lsqb → Expression v property → r.kind = .rsqb →
        Member (w ++ l :: (v ++ [r])) (.member object property true)

/-- A member with the argument lists of calls. -/
inductive Call : List Symbol → Node → Prop
  | member {w : List Symbol} {n : Node} : Member w n → Call w n
  | call {w v : List Symbol} {callee : Node} {arguments : List Node} :
      Call w callee → Arguments v arguments → Call (w ++ v) (.call callee arguments)

/-- A product, grouped to the left. -/
inductive Product : List Symbol → Node → Prop
  | call {w : List Symbol} {n : Node} : Call w n → Product w n
  | operator {o : Symbol} {w v : List Symbol} {left right : Node} :
      Product w left → o.IsMultiplicative → Call v right →
        Product (w ++ o :: v) (.binary left right o.text)

/-- A sum, grouped to the left. -/
inductive Sum : List Symbol → Node → Prop
  | product {w : List Symbol} {n : Node} : Product w n → Sum w n
  | operator {o : Symbol} {w v : List Symbol} {left right : Node} :
      Sum w left → o.IsAdditive → Product v right →
        Sum (w ++ o :: v) (.binary left right o.text)

/-- An argument list in its parentheses. -/
inductive Arguments : List Symbol → List Node → Prop
  | none {l r : Symbol} : l.kind = .lpar → r.kind = .rpar → Arguments [l, r] []
  | some {l r : Symbol} {w : List Symbol} {arguments : List Node} :
      l.kind = .lpar → ArgumentList w arguments → r.kind = .rpar →
        Arguments (l :: (w ++ [r])) arguments

/-- Expressions between commas, at least one. -/
inductive ArgumentList : List Symbol → List Node → Prop
  | last {w : List Symbol} {n : Node} : Expression w n → ArgumentList w [n]
  | more {c : Symbol} {w v : List Symbol} {n : Node} {arguments : List Node} :
      Expression w n → c.kind = .comma → ArgumentList v arguments →
        ArgumentList (w ++ c :: v) (n :: arguments)

/-- A property of an object: a key alone, or a key with a value. -/
inductive Entry : List Symbol → Property → Prop
  | shorthand {k : Symbol} : k.kind = .ident → Entry [k] (.shorthand k.text)
  | pair {k c : Symbol} {w : List Symbol} {value : Node} :
      k.kind = .ident → c.kind = .colon → Expression w value →
        Entry (k :: c :: w) (.pair k.text value)

/-- Properties between commas, at least one, where a comma may follow the last
one. -/
inductive EntryList : List Symbol → List Property → Prop
  | last {w : List Symbol} {p : Property} : Entry w p → EntryList w [p]
  | lastComma {c : Symbol} {w : List Symbol} {p : Property} :
      Entry w p → c.kind = .comma → EntryList (w ++ [c]) [p]
  | more {c : Symbol} {w v : List Symbol} {p : Property} {properties : List Property} :
      Entry w p → c.kind = .comma → EntryList v properties →
        EntryList (w ++ c :: v) (p :: properties)

/-- An object literal, or else a sum. -/
inductive ObjectOrSum : List Symbol → Node → Prop
  | empty {l r : Symbol} : l.kind = .lbrace → r.kind = .rbrace → ObjectOrSum [l, r] (.object [])
  | object {l r : Symbol} {w : List Symbol} {properties : List Property} :
      l.kind = .lbrace → EntryList w properties → r.kind = .rbrace →
        ObjectOrSum (l :: (w ++ [r])) (.object properties)
  | sum {w : List Symbol} {n : Node} : Sum w n → ObjectOrSum w n

/-- An assignment, grouped to the right, or else what could be its target. -/
inductive Expression : List Symbol → Node → Prop
  | plain {w : List Symbol} {n : Node} : ObjectOrSum w n → Expression w n
  | assignment {e : Symbol} {w v : List Symbol} {target value : Node} :
      ObjectOrSum w target → e.kind = .equals → Expression v value →
        Expression (w ++ e :: v) (.assignment target value)

end

/-- Whether a sequence of symbols starts with one whose kind is as told. -/
def Starts (w : List Symbol) (P : Kind → Prop) : Prop :=
  ∃ x v, w = x :: v ∧ P x.kind

/-- Whether a sequence of symbols ends with one whose kind is as told. -/
def Ends (w : List Symbol) (P : Kind → Prop) : Prop :=
  ∃ v x, w = v ++ [x] ∧ P x.kind

mutual

/-- A statement that shows where it ends: a declaration, or an expression with
a semicolon. -/
inductive Statement : List Symbol → Node → Prop
  | uninitialized {k x e : Symbol} :
      k.kind = .letWord → x.kind = .ident → e.kind = .semi →
        Statement [k, x, e] (.declaration x.text false none)
  | initialized {k x q e : Symbol} {w : List Symbol} {value : Node} :
      k.kind = .letWord → x.kind = .ident → q.kind = .equals → Expression w value →
        e.kind = .semi →
          Statement (k :: x :: q :: (w ++ [e])) (.declaration x.text false (some value))
  | constant {k x q e : Symbol} {w : List Symbol} {value : Node} :
      k.kind = .constWord → x.kind = .ident → q.kind = .equals → Expression w value →
        e.kind = .semi →
          Statement (k :: x :: q :: (w ++ [e])) (.declaration x.text true (some value))
  | function {k x l r : Symbol} {w v : List Symbol} {names : List String} {body : List Node} :
      k.kind = .fnWord → x.kind = .ident → Arguments w (names.map .identifier) →
        l.kind = .lbrace → Statements v body → r.kind = .rbrace →
          Statement (k :: x :: (w ++ l :: (v ++ [r]))) (.function x.text names body)
  | closed {e : Symbol} {w : List Symbol} {n : Node} :
      Expression w n → e.kind = .semi → Statement (w ++ [e]) n

/-- Statements one after the other. An expression without a semicolon may
stand before a parenthesis only if it ends with a brace. -/
inductive Statements : List Symbol → List Node → Prop
  | nil : Statements [] []
  | cons {w v : List Symbol} {n : Node} {body : List Node} :
      Statement w n → Statements v body → Statements (w ++ v) (n :: body)
  | bare {w v : List Symbol} {n : Node} {body : List Node} :
      Expression w n → Statements v body → (Starts v (· = .lpar) → Ends w (· = .rbrace)) →
        Statements (w ++ v) (n :: body)

end

/-- A program is a sequence of statements. -/
inductive Program : List Symbol → Node → Prop
  | statements {w : List Symbol} {body : List Node} : Statements w body → Program w (.program body)

section Ends

variable {w v : List Symbol} {P Q : Kind → Prop}

/-- What starts a sequence starts a longer one. -/
theorem Starts.append (h : Starts w P) (v : List Symbol) : Starts (w ++ v) P := by
  obtain ⟨x, u, rfl, hx⟩ := h
  exact ⟨x, u ++ v, rfl, hx⟩

/-- What is told of the first kind may be weakened. -/
theorem Starts.imp (h : Starts w P) (hPQ : ∀ k, P k → Q k) : Starts w Q := by
  obtain ⟨x, u, rfl, hx⟩ := h
  exact ⟨x, u, rfl, hPQ _ hx⟩

/-- What ends a sequence ends a longer one. -/
theorem Ends.append (h : Ends v P) (w : List Symbol) : Ends (w ++ v) P := by
  obtain ⟨u, x, rfl, hx⟩ := h
  exact ⟨w ++ u, x, by simp, hx⟩

/-- A sequence that ends with something ends with it after a first symbol, too. -/
theorem Ends.cons (h : Ends w P) (x : Symbol) : Ends (x :: w) P :=
  h.append [x]

/-- A sequence with a last symbol is not empty. -/
theorem Ends.ne_nil (h : Ends w P) : w ≠ [] := by
  obtain ⟨u, x, rfl, -⟩ := h
  simp

/-- What is told of the last kind may be weakened. -/
theorem Ends.imp (h : Ends w P) (hPQ : ∀ k, P k → Q k) : Ends w Q := by
  obtain ⟨u, x, rfl, hx⟩ := h
  exact ⟨u, x, rfl, hPQ _ hx⟩

/-- A last symbol ends its sequence. -/
theorem ends_concat (w : List Symbol) {x : Symbol} (hx : P x.kind) : Ends (w ++ [x]) P :=
  ⟨w, x, rfl, hx⟩

/-- The last symbol of a sequence stands in its last part, unless that is
empty. -/
theorem Ends.of_append (h : Ends (w ++ v) P) (hv : v ≠ []) : Ends v P := by
  obtain ⟨u, x, he, hx⟩ := h
  obtain ⟨v, y, rfl⟩ := (List.eq_nil_or_concat v).resolve_left hv
  rw [List.concat_eq_append, ← List.append_assoc] at he
  obtain ⟨-, hyx⟩ := List.append_inj' he rfl
  obtain rfl : y = x := by simpa using hyx
  exact ⟨v, y, by simp, hx⟩

/-- There is only one last symbol. -/
theorem Ends.and (hP : Ends w P) (hQ : Ends w Q) : Ends w fun k => P k ∧ Q k := by
  obtain ⟨u, x, rfl, hx⟩ := hP
  obtain ⟨u', x', he, hx'⟩ := hQ
  obtain ⟨-, hxx⟩ := List.append_inj' he rfl
  obtain rfl : x = x' := by simpa using hxx
  exact ⟨u, x, rfl, hx, hx'⟩

end Ends

/-- Whether a sum can start with a symbol of this kind. -/
def StartsSum (k : Kind) : Prop :=
  k = .ident ∨ k = .number ∨ k = .lpar

/-- Whether an expression can start with a symbol of this kind. -/
def StartsExpression (k : Kind) : Prop :=
  StartsSum k ∨ k = .lbrace

/-- Whether a statement can start with a symbol of this kind. -/
def StartsStatement (k : Kind) : Prop :=
  k = .letWord ∨ k = .constWord ∨ k = .fnWord ∨ StartsExpression k

/-- Whether a sum can end with a symbol of this kind. -/
def EndsSum (k : Kind) : Prop :=
  k = .ident ∨ k = .number ∨ k = .rpar ∨ k = .rsqb

/-- Whether an expression can end with a symbol of this kind. -/
def EndsExpression (k : Kind) : Prop :=
  EndsSum k ∨ k = .rbrace

theorem Primary.starts {w : List Symbol} {n : Node} (h : Primary w n) : Starts w StartsSum := by
  cases h with
  | name hx => exact ⟨_, _, rfl, .inl hx⟩
  | number hx _ => exact ⟨_, _, rfl, .inr (.inl hx)⟩
  | group hl _ _ => exact ⟨_, _, rfl, .inr (.inr hl)⟩

theorem Member.starts {w : List Symbol} {n : Node} (h : Member w n) : Starts w StartsSum := by
  match h with
  | .primary hp => exact hp.starts
  | .field ho _ _ => exact ho.starts.append _
  | .index ho _ _ _ => exact ho.starts.append _

theorem Call.starts {w : List Symbol} {n : Node} (h : Call w n) : Starts w StartsSum := by
  match h with
  | .member hm => exact hm.starts
  | .call hc _ => exact hc.starts.append _

theorem Product.starts {w : List Symbol} {n : Node} (h : Product w n) : Starts w StartsSum := by
  match h with
  | .call hc => exact hc.starts
  | .operator hl _ _ => exact hl.starts.append _

theorem Sum.starts {w : List Symbol} {n : Node} (h : Sum w n) : Starts w StartsSum := by
  match h with
  | .product hp => exact hp.starts
  | .operator hl _ _ => exact hl.starts.append _

theorem ObjectOrSum.starts {w : List Symbol} {n : Node} (h : ObjectOrSum w n) :
    Starts w StartsExpression := by
  cases h with
  | empty hl _ => exact ⟨_, _, rfl, .inr hl⟩
  | object hl _ _ => exact ⟨_, _, rfl, .inr hl⟩
  | sum hs => exact hs.starts.imp fun _ => .inl

/-- An expression starts with a name, a number, a parenthesis or a brace. -/
theorem Expression.starts {w : List Symbol} {n : Node} (h : Expression w n) :
    Starts w StartsExpression := by
  cases h with
  | plain ho => exact ho.starts
  | assignment ho _ _ => exact ho.starts.append _

theorem Arguments.starts {w : List Symbol} {arguments : List Node} (h : Arguments w arguments) :
    Starts w (· = .lpar) := by
  cases h with
  | none hl _ => exact ⟨_, _, rfl, hl⟩
  | some hl _ _ => exact ⟨_, _, rfl, hl⟩

theorem ArgumentList.starts {w : List Symbol} {arguments : List Node}
    (h : ArgumentList w arguments) : Starts w StartsExpression := by
  cases h with
  | last hn => exact hn.starts
  | more hn _ _ => exact hn.starts.append _

theorem Entry.starts {w : List Symbol} {p : Property} (h : Entry w p) :
    Starts w (· = .ident) := by
  cases h with
  | shorthand hk => exact ⟨_, _, rfl, hk⟩
  | pair hk _ _ => exact ⟨_, _, rfl, hk⟩

theorem Statement.starts {w : List Symbol} {n : Node} (h : Statement w n) :
    Starts w StartsStatement := by
  cases h with
  | uninitialized hk _ _ => exact ⟨_, _, rfl, .inl hk⟩
  | initialized hk _ _ _ _ => exact ⟨_, _, rfl, .inl hk⟩
  | constant hk _ _ _ _ => exact ⟨_, _, rfl, .inr (.inl hk)⟩
  | function hk _ _ _ _ _ => exact ⟨_, _, rfl, .inr (.inr (.inl hk))⟩
  | closed hn _ => exact (hn.starts.imp fun _ hk => .inr (.inr (.inr hk))).append _

/-- Statements start with a keyword or an expression, if there are any. -/
theorem Statements.starts {w : List Symbol} {body : List Node} (h : Statements w body) :
    w = [] ∨ Starts w StartsStatement := by
  cases h with
  | nil => exact .inl rfl
  | cons hn _ => exact .inr (hn.starts.append _)
  | bare hn _ _ =>
    exact .inr ((hn.starts.imp fun _ hk => .inr (.inr (.inr hk))).append _)

theorem Primary.ends {w : List Symbol} {n : Node} (h : Primary w n) : Ends w EndsSum := by
  cases h with
  | name hx => exact ⟨[], _, rfl, .inl hx⟩
  | number hx _ => exact ⟨[], _, rfl, .inr (.inl hx)⟩
  | group _ _ hr => exact (ends_concat _ (.inr (.inr (.inl hr)))).cons _

theorem Member.ends {w : List Symbol} {n : Node} (h : Member w n) : Ends w EndsSum := by
  cases h with
  | primary hp => exact hp.ends
  | field _ _ hp => exact (hp.ends.cons _).append _
  | index _ _ _ hr => exact ((ends_concat _ (.inr (.inr (.inr hr)))).cons _).append _

theorem Arguments.ends {w : List Symbol} {arguments : List Node} (h : Arguments w arguments) :
    Ends w (· = .rpar) := by
  cases h with
  | none _ hr => exact ⟨[_], _, rfl, hr⟩
  | some _ _ hr => exact (ends_concat _ hr).cons _

theorem Call.ends {w : List Symbol} {n : Node} (h : Call w n) : Ends w EndsSum := by
  cases h with
  | member hm => exact hm.ends
  | call _ ha => exact (ha.ends.imp fun _ hr => .inr (.inr (.inl hr))).append _

theorem Product.ends {w : List Symbol} {n : Node} (h : Product w n) : Ends w EndsSum := by
  cases h with
  | call hc => exact hc.ends
  | operator _ _ hr => exact (hr.ends.cons _).append _

theorem Sum.ends {w : List Symbol} {n : Node} (h : Sum w n) : Ends w EndsSum := by
  cases h with
  | product hp => exact hp.ends
  | operator _ _ hr => exact (hr.ends.cons _).append _

/-- A sum does not end with a brace. -/
theorem Sum.not_ends_brace {w : List Symbol} {n : Node} (h : Sum w n) : ¬Ends w (· = .rbrace) := by
  intro hb
  obtain ⟨-, x, -, hx, hk⟩ := h.ends.and hb
  simp [EndsSum, hk] at hx

theorem ObjectOrSum.ends {w : List Symbol} {n : Node} (h : ObjectOrSum w n) :
    Ends w EndsExpression := by
  cases h with
  | empty _ hr => exact ⟨[_], _, rfl, .inr hr⟩
  | object _ _ hr => exact (ends_concat _ (.inr hr)).cons _
  | sum hs => exact hs.ends.imp fun _ => .inl

/-- An expression ends with a name, a number, or a closing parenthesis, bracket
or brace. -/
theorem Expression.ends {w : List Symbol} {n : Node} (h : Expression w n) :
    Ends w EndsExpression := by
  match h with
  | .plain ho => exact ho.ends
  | .assignment _ _ hv => exact (hv.ends.cons _).append _

end Grammar

end Scriptlet
