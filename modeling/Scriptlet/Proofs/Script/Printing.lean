import Scriptlet.Proofs.Script.Parse
import Scriptlet.Proofs.Token.Numeral
import Scriptlet.Proofs.Token.Written

/-!
# Printing programs

A program is printed by writing its symbols with separators between them. Each
place of an expression demands a level of binding, and an expression whose own
level is lower is written in parentheses there; parentheses that are not
demanded may be written, too. Every well-formed program can be printed, and
parsing what was printed gives the program back.
-/

namespace Scriptlet

open Character Lexeme

/-- Whether a number has a numeral. -/
def IsNumber (value : Float) : Prop :=
  ∃ digits, Numeral false digits ∧ Number.read? (String.ofList digits) = some value

namespace WellFormed

mutual

/-- Whether a node is a well-formed expression. -/
inductive Expression : Node → Prop
  | identifier {name : String} : IsName name → Expression (.identifier name)
  | number {value : Float} : IsNumber value → Expression (.number value)
  | binary {left right : Node} {operator : String} :
      Expression left → Expression right → operator ∈ sumOperators ++ productOperators →
        Expression (.binary left right operator)
  | call {callee : Node} {arguments : List Node} :
      Expression callee → (∀ n ∈ arguments, Expression n) → Expression (.call callee arguments)
  | field {object : Node} {name : String} :
      Expression object → IsName name → Expression (.member object (.identifier name) false)
  | index {object property : Node} :
      Expression object → Expression property → Expression (.member object property true)
  | object {properties : List Property} :
      (∀ p ∈ properties, Entry p) → Expression (.object properties)
  | assignment {target value : Node} :
      Expression target → Expression value → Expression (.assignment target value)

/-- Whether a property is well-formed. -/
inductive Entry : Property → Prop
  | shorthand {key : String} : IsName key → Entry (.shorthand key)
  | pair {key : String} {value : Node} : IsName key → Expression value → Entry (.pair key value)

end

/-- Whether a node is a well-formed statement. A constant has a value, and only
statements are declarations. -/
inductive Statement : Node → Prop
  | uninitialized {name : String} : IsName name → Statement (.declaration name false none)
  | initialized {name : String} {constant : Bool} {value : Node} :
      IsName name → Expression value → Statement (.declaration name constant (some value))
  | function {name : String} {parameters : List String} {body : List Node} :
      IsName name → (∀ p ∈ parameters, IsName p) → (∀ n ∈ body, Statement n) →
        Statement (.function name parameters body)
  | expression {n : Node} : Expression n → Statement n

/-- Whether a node is a well-formed program. -/
inductive Program : Node → Prop
  | statements {body : List Node} : (∀ n ∈ body, Statement n) → Program (.program body)

end WellFormed

/-- How strongly an expression binds. -/
inductive Level where
  | assignment | object | sum | product | call | member | primary
deriving DecidableEq, Repr

namespace Level

/-- The place of a level in their order, the weakest first. -/
def rank : Level → Nat
  | assignment => 0
  | object => 1
  | sum => 2
  | product => 3
  | call => 4
  | member => 5
  | primary => 6

instance : LE Level :=
  ⟨fun a b => a.rank ≤ b.rank⟩

instance (a b : Level) : Decidable (a ≤ b) :=
  inferInstanceAs (Decidable (a.rank ≤ b.rank))

/-- Nothing binds more strongly than a primary expression. -/
theorem le_primary (a : Level) : a ≤ primary := by
  cases a <;> decide

end Level

/-- The level of an expression without parentheses. -/
def Node.level : Node → Level
  | .assignment .. => .assignment
  | .object _ => .object
  | .binary _ _ operator => if operator ∈ sumOperators then .sum else .product
  | .call .. => .call
  | .member .. => .member
  | _ => .primary

namespace Printed

mutual

/-- How an expression is written where a level is demanded: without parentheses
only if its own level is not lower. -/
inductive Expression : Level → Node → List Symbol → Prop
  | bare {demanded : Level} {n : Node} {w : List Symbol} :
      demanded ≤ n.level → Bare n w → Expression demanded n w
  | group {demanded : Level} {n : Node} {w : List Symbol} :
      Expression .assignment n w →
        Expression demanded n (Kind.lpar.symbol :: (w ++ [Kind.rpar.symbol]))

/-- How an expression is written without parentheses around it. A number may be
written as any numeral that is read as it. -/
inductive Bare : Node → List Symbol → Prop
  | identifier {name : String} : Bare (.identifier name) [.ofName name]
  | number {digits : List Char} {value : Float} :
      Numeral false digits → Number.read? (String.ofList digits) = some value →
        Bare (.number value) [.ofDigits digits]
  | sum {left right : Node} {operator : String} {w v : List Symbol} :
      operator ∈ sumOperators → Expression .sum left w → Expression .product right v →
        Bare (.binary left right operator) (w ++ .ofOperator operator :: v)
  | product {left right : Node} {operator : String} {w v : List Symbol} :
      operator ∈ productOperators → Expression .product left w → Expression .call right v →
        Bare (.binary left right operator) (w ++ .ofOperator operator :: v)
  | call {callee : Node} {arguments : List Node} {w v : List Symbol} :
      Expression .call callee w → Arguments arguments v → Bare (.call callee arguments) (w ++ v)
  | field {object : Node} {name : String} {w v : List Symbol} :
      Expression .member object w → Expression .primary (.identifier name) v →
        Bare (.member object (.identifier name) false) (w ++ Kind.dot.symbol :: v)
  | index {object property : Node} {w v : List Symbol} :
      Expression .member object w → Expression .assignment property v →
        Bare (.member object property true) (w ++ Kind.lsqb.symbol :: (v ++ [Kind.rsqb.symbol]))
  | empty : Bare (.object []) [Kind.lbrace.symbol, Kind.rbrace.symbol]
  | object {properties : List Property} {w : List Symbol} :
      EntryList properties w →
        Bare (.object properties) (Kind.lbrace.symbol :: (w ++ [Kind.rbrace.symbol]))
  | assignment {target value : Node} {w v : List Symbol} :
      Expression .object target w → Expression .assignment value v →
        Bare (.assignment target value) (w ++ Kind.equals.symbol :: v)

/-- How an argument list is written. -/
inductive Arguments : List Node → List Symbol → Prop
  | none : Arguments [] [Kind.lpar.symbol, Kind.rpar.symbol]
  | some {arguments : List Node} {w : List Symbol} :
      ArgumentList arguments w →
        Arguments arguments (Kind.lpar.symbol :: (w ++ [Kind.rpar.symbol]))

/-- How expressions are written between commas. -/
inductive ArgumentList : List Node → List Symbol → Prop
  | last {n : Node} {w : List Symbol} : Expression .assignment n w → ArgumentList [n] w
  | more {n : Node} {arguments : List Node} {w v : List Symbol} :
      Expression .assignment n w → ArgumentList arguments v →
        ArgumentList (n :: arguments) (w ++ Kind.comma.symbol :: v)

/-- How a property is written. -/
inductive Entry : Property → List Symbol → Prop
  | shorthand {key : String} : Entry (.shorthand key) [.ofName key]
  | pair {key : String} {value : Node} {w : List Symbol} :
      Expression .assignment value w →
        Entry (.pair key value) (.ofName key :: Kind.colon.symbol :: w)

/-- How properties are written between commas. -/
inductive EntryList : List Property → List Symbol → Prop
  | last {p : Property} {w : List Symbol} : Entry p w → EntryList [p] w
  | more {p : Property} {properties : List Property} {w v : List Symbol} :
      Entry p w → EntryList properties v →
        EntryList (p :: properties) (w ++ Kind.comma.symbol :: v)

end

/-- The symbol that starts a declaration. -/
def keyword (constant : Bool) : Symbol :=
  if constant then Kind.constWord.symbol else Kind.letWord.symbol

mutual

/-- How a statement is written. An expression is closed by a semicolon. -/
inductive Statement : Node → List Symbol → Prop
  | uninitialized {name : String} :
      Statement (.declaration name false none)
        [Kind.letWord.symbol, .ofName name, Kind.semi.symbol]
  | initialized {name : String} {constant : Bool} {value : Node} {w : List Symbol} :
      Expression .assignment value w →
        Statement (.declaration name constant (some value))
          (keyword constant :: .ofName name :: Kind.equals.symbol :: (w ++ [Kind.semi.symbol]))
  | function {name : String} {parameters : List String} {body : List Node} {w v : List Symbol} :
      Arguments (parameters.map .identifier) w → Statements body v →
        Statement (.function name parameters body)
          (Kind.fnWord.symbol :: .ofName name ::
            (w ++ Kind.lbrace.symbol :: (v ++ [Kind.rbrace.symbol])))
  | expression {n : Node} {w : List Symbol} :
      Expression .assignment n w → Statement n (w ++ [Kind.semi.symbol])

/-- How statements are written one after the other. -/
inductive Statements : List Node → List Symbol → Prop
  | nil : Statements [] []
  | cons {n : Node} {body : List Node} {w v : List Symbol} :
      Statement n w → Statements body v → Statements (n :: body) (w ++ v)

end

end Printed

/-- Whether a text is a printed form of a program: its symbols, in one of the
ways to write them, with separators between them. -/
inductive Node.Prints : Node → String → Prop
  | program {body : List Node} {w : List Symbol} {text : String} :
      Printed.Statements body w → Spaced false w text.toList → Prints (.program body) text

namespace Grammar

/-- The level of the grammar at which a sequence of symbols derives a node. -/
def Derives : Level → List Symbol → Node → Prop
  | .assignment => Expression
  | .object => ObjectOrSum
  | .sum => Sum
  | .product => Product
  | .call => Call
  | .member => Member
  | .primary => Primary

variable {w : List Symbol} {n : Node}

/-- What is derived at a level is derived at each lower one. -/
theorem Derives.mono {a b : Level} (hab : a ≤ b) (h : Derives b w n) : Derives a w n := by
  have hprimary : Derives .primary w n → Derives .member w n := .primary
  have hmember : Derives .member w n → Derives .call w n := .member
  have hcall : Derives .call w n → Derives .product w n := .call
  have hproduct : Derives .product w n → Derives .sum w n := .product
  have hsum : Derives .sum w n → Derives .object w n := .sum
  have hobject : Derives .object w n → Derives .assignment w n := .plain
  cases a <;> cases b <;> first | exact absurd hab (by decide) | simp_all only

end Grammar

namespace Printed

mutual

/-- What is written where a level is demanded is derived at that level. -/
theorem Expression.derives {demanded : Level} {n : Node} {w : List Symbol}
    (h : Expression demanded n w) : Grammar.Derives demanded w n := by
  match h with
  | .bare hle hbare => exact hbare.derives.mono hle
  | .group (w := w) hn =>
    have hprimary : Grammar.Derives .primary (Kind.lpar.symbol :: (w ++ [Kind.rpar.symbol])) n :=
      Grammar.Primary.group rfl hn.derives rfl
    exact hprimary.mono demanded.le_primary

/-- What is written without parentheses is derived at its own level. -/
theorem Bare.derives {n : Node} {w : List Symbol} (h : Bare n w) :
    Grammar.Derives n.level w n := by
  match h with
  | .identifier => exact Grammar.Primary.name rfl
  | .number hdigits hvalue =>
    exact Grammar.Primary.number rfl ((read?_completeNumber hdigits).trans hvalue)
  | .sum ho hleft hright =>
    rw [Node.level, if_pos ho]
    exact Grammar.Sum.operator hleft.derives
      ⟨rfl, by simpa [Symbol.ofOperator, sumOperators] using ho⟩ hright.derives
  | .product ho hleft hright =>
    have hlevel : _ ∉ sumOperators := not_mem_sumOperators ho
    rw [Node.level, if_neg hlevel]
    exact Grammar.Product.operator hleft.derives
      ⟨rfl, by simpa [Symbol.ofOperator, productOperators] using ho⟩ hright.derives
  | .call hcallee harguments => exact Grammar.Call.call hcallee.derives harguments.derives
  | .field hobject hname => exact Grammar.Member.field hobject.derives rfl hname.derives
  | .index hobject hproperty =>
    exact Grammar.Member.index hobject.derives rfl hproperty.derives rfl
  | .empty => exact Grammar.ObjectOrSum.empty rfl rfl
  | .object hproperties => exact Grammar.ObjectOrSum.object rfl hproperties.derives rfl
  | .assignment htarget hvalue =>
    exact Grammar.Expression.assignment htarget.derives rfl hvalue.derives

/-- A written argument list is derived. -/
theorem Arguments.derives {arguments : List Node} {w : List Symbol} (h : Arguments arguments w) :
    Grammar.Arguments w arguments := by
  match h with
  | .none => exact .none rfl rfl
  | .some harguments => exact .some rfl harguments.derives rfl

/-- Written arguments are derived. -/
theorem ArgumentList.derives {arguments : List Node} {w : List Symbol}
    (h : ArgumentList arguments w) : Grammar.ArgumentList w arguments := by
  match h with
  | .last hn => exact .last hn.derives
  | .more hn harguments => exact .more hn.derives rfl harguments.derives

/-- A written property is derived. -/
theorem Entry.derives {p : Property} {w : List Symbol} (h : Entry p w) : Grammar.Entry w p := by
  match h with
  | .shorthand => exact .shorthand rfl
  | .pair hvalue => exact .pair rfl rfl hvalue.derives

/-- Written properties are derived. -/
theorem EntryList.derives {properties : List Property} {w : List Symbol}
    (h : EntryList properties w) : Grammar.EntryList w properties := by
  match h with
  | .last hp => exact .last hp.derives
  | .more hp hproperties => exact .more hp.derives rfl hproperties.derives

end

mutual

/-- A written statement is derived, and shows where it ends. -/
theorem Statement.derives {n : Node} {w : List Symbol} (h : Statement n w) :
    Grammar.Statement w n := by
  match h with
  | .uninitialized => exact .uninitialized rfl rfl rfl
  | @Statement.initialized _ true _ _ hvalue => exact .constant rfl rfl rfl hvalue.derives rfl
  | @Statement.initialized _ false _ _ hvalue =>
    exact .initialized rfl rfl rfl hvalue.derives rfl
  | .function hparameters hbody =>
    exact .function rfl rfl hparameters.derives rfl hbody.derives rfl
  | .expression hn => exact .closed hn.derives rfl

/-- Written statements are derived. -/
theorem Statements.derives {body : List Node} {w : List Symbol} (h : Statements body w) :
    Grammar.Statements w body := by
  match h with
  | .nil => exact .nil
  | .cons hn hbody => exact .cons hn.derives hbody.derives

end

end Printed

/-- Whether a symbol can be spelled in every place. -/
def Symbol.Spellable (x : Symbol) : Prop :=
  ∀ afterOperand, ∃ span, x.SpelledBy afterOperand span

/-- Whether all symbols of a sequence can be spelled in every place. -/
def AllSpellable (w : List Symbol) : Prop :=
  ∀ x ∈ w, x.Spellable

section Spellable

variable {x : Symbol} {w v : List Symbol}

/-- The empty sequence can be spelled. -/
@[simp]
theorem allSpellable_nil : AllSpellable [] := by
  simp [AllSpellable]

/-- A sequence can be spelled if its first symbol and the others can. -/
@[simp]
theorem allSpellable_cons : AllSpellable (x :: w) ↔ x.Spellable ∧ AllSpellable w := by
  simp [AllSpellable]

/-- Two sequences can be spelled one after the other if each can. -/
@[simp]
theorem allSpellable_append : AllSpellable (w ++ v) ↔ AllSpellable w ∧ AllSpellable v := by
  simp [AllSpellable, or_imp, forall_and]

/-- A symbol whose kind allows no other can be spelled. -/
theorem Kind.spellable {kind : Kind} (h : ¬ kind.spelling = "") : kind.symbol.Spellable :=
  fun afterOperand => ⟨_, kind.spelledBy h afterOperand⟩

/-- A name can be spelled. -/
theorem IsName.spellable {name : String} (h : IsName name) : (Symbol.ofName name).Spellable :=
  fun afterOperand => ⟨_, h.spelledBy afterOperand⟩

/-- An operator can be spelled. -/
theorem spellable_ofOperator {operator : String} (h : operator ∈ sumOperators ++ productOperators) :
    (Symbol.ofOperator operator).Spellable :=
  fun afterOperand => ⟨_, spelledBy_ofOperator h afterOperand⟩

/-- A numeral can be spelled, with a zero before a leading point. -/
theorem spellable_ofDigits {digits : List Char} (h : Numeral false digits) :
    (Symbol.ofDigits digits).Spellable := by
  intro afterOperand
  rcases h.cases with ⟨hcomplete, hnumeral⟩ | ⟨fraction, rfl, hne, hfraction⟩
  · refine ⟨digits, _, .number (hnumeral afterOperand), ?_, rfl⟩
    simp [symbol?, Symbol.ofDigits]
  · have hdigit : isDigit '0' = true := by decide
    have hzero : Numeral afterOperand (['0'] ++ '.' :: fraction) :=
      .point (by simp [hdigit]) hfraction (.inl (by simp))
    exact ⟨'0' :: '.' :: fraction, _, .number hzero, rfl, rfl⟩

/-- A space may follow each symbol. -/
theorem Spaced.space {afterOperand : Bool} {span text : List Char}
    (hx : x.SpelledBy afterOperand span) (hw : Spaced x.kind.endsOperand w text) :
    Spaced afterOperand (x :: w) (span ++ ' ' :: text) := by
  have hseparator : isSeparator ' ' = true := by decide
  refine .symbol hx ?_ (.separator hseparator hw)
  intro c hc
  obtain rfl := Option.some.inj hc
  exact hseparator

/-- Symbols that can be spelled can be written with separators between them. -/
theorem AllSpellable.spaced (h : AllSpellable w) (afterOperand : Bool) :
    ∃ text, Spaced afterOperand w text := by
  induction w generalizing afterOperand with
  | nil => exact ⟨[], .nil⟩
  | cons x w ih =>
    obtain ⟨hx, hw⟩ := allSpellable_cons.1 h
    obtain ⟨span, hspan⟩ := hx afterOperand
    obtain ⟨text, htext⟩ := ih hw x.kind.endsOperand
    exact ⟨_, .space hspan htext⟩

end Spellable

/-- Whether an expression can be written without parentheses around it. -/
def Printable (n : Node) : Prop :=
  ∃ w, Printed.Bare n w ∧ AllSpellable w

/-- What can be written without parentheses can be written wherever a level is
demanded. -/
theorem Printable.expression {n : Node} (h : Printable n) (demanded : Level) :
    ∃ w, Printed.Expression demanded n w ∧ AllSpellable w := by
  obtain ⟨w, hbare, hw⟩ := h
  by_cases hle : demanded ≤ n.level
  · exact ⟨w, .bare hle hbare, hw⟩
  · have hn : Printed.Expression .assignment n w := .bare (Nat.zero_le _) hbare
    exact ⟨_, .group hn, by simp [hw, Kind.spellable, Kind.spelling]⟩

/-- Expressions that can be written can be written between commas. -/
theorem exists_argumentList {n : Node} {arguments : List Node}
    (h : ∀ m ∈ n :: arguments, Printable m) :
    ∃ w, Printed.ArgumentList (n :: arguments) w ∧ AllSpellable w := by
  induction arguments generalizing n with
  | nil =>
    obtain ⟨w, hn, hw⟩ := (h n (by simp)).expression .assignment
    exact ⟨w, .last hn, hw⟩
  | cons m arguments ih =>
    obtain ⟨w, hn, hw⟩ := (h n (by simp)).expression .assignment
    obtain ⟨v, harguments, hv⟩ := ih fun k hk => h k (List.mem_cons_of_mem n hk)
    exact ⟨_, .more hn harguments, by simp [hw, hv, Kind.spellable, Kind.spelling]⟩

/-- Expressions that can be written can be written as an argument list. -/
theorem exists_arguments {arguments : List Node} (h : ∀ n ∈ arguments, Printable n) :
    ∃ w, Printed.Arguments arguments w ∧ AllSpellable w := by
  cases arguments with
  | nil => exact ⟨_, .none, by simp [Kind.spellable, Kind.spelling]⟩
  | cons n arguments =>
    obtain ⟨w, harguments, hw⟩ := exists_argumentList h
    exact ⟨_, .some harguments, by simp [hw, Kind.spellable, Kind.spelling]⟩

/-- Properties that can be written can be written between commas. -/
theorem exists_entryList {p : Property} {properties : List Property}
    (h : ∀ q ∈ p :: properties, ∃ w, Printed.Entry q w ∧ AllSpellable w) :
    ∃ w, Printed.EntryList (p :: properties) w ∧ AllSpellable w := by
  induction properties generalizing p with
  | nil =>
    obtain ⟨w, hp, hw⟩ := h p (by simp)
    exact ⟨w, .last hp, hw⟩
  | cons q properties ih =>
    obtain ⟨w, hp, hw⟩ := h p (by simp)
    obtain ⟨v, hproperties, hv⟩ := ih fun r hr => h r (List.mem_cons_of_mem p hr)
    exact ⟨_, .more hp hproperties, by simp [hw, hv, Kind.spellable, Kind.spelling]⟩

/-- Properties that can be written can be written as an object. -/
theorem printable_object {properties : List Property}
    (h : ∀ p ∈ properties, ∃ w, Printed.Entry p w ∧ AllSpellable w) :
    Printable (.object properties) := by
  cases properties with
  | nil => exact ⟨_, .empty, by simp [Kind.spellable, Kind.spelling]⟩
  | cons p properties =>
    obtain ⟨w, hproperties, hw⟩ := exists_entryList h
    exact ⟨_, .object hproperties, by simp [hw, Kind.spellable, Kind.spelling]⟩

namespace WellFormed

/-- A name can be written. -/
theorem printable_identifier {name : String} (h : IsName name) : Printable (.identifier name) :=
  ⟨_, .identifier, by simp [h.spellable]⟩

mutual

/-- A well-formed expression can be written. -/
theorem Expression.printable {n : Node} (h : Expression n) : Printable n := by
  match h with
  | .identifier hname => exact printable_identifier hname
  | .number ⟨digits, hdigits, hvalue⟩ =>
    exact ⟨_, .number hdigits hvalue, by simp [spellable_ofDigits hdigits]⟩
  | .binary hleft hright ho =>
    rcases List.mem_append.1 ho with hsum | hproduct
    · obtain ⟨w, hw, hspell⟩ := hleft.printable.expression .sum
      obtain ⟨v, hv, hspell'⟩ := hright.printable.expression .product
      exact ⟨_, .sum hsum hw hv, by simp [hspell, hspell', spellable_ofOperator ho]⟩
    · obtain ⟨w, hw, hspell⟩ := hleft.printable.expression .product
      obtain ⟨v, hv, hspell'⟩ := hright.printable.expression .call
      exact ⟨_, .product hproduct hw hv, by simp [hspell, hspell', spellable_ofOperator ho]⟩
  | .call hcallee harguments =>
    obtain ⟨w, hw, hspell⟩ := hcallee.printable.expression .call
    obtain ⟨v, hv, hspell'⟩ := exists_arguments fun n hn => (harguments n hn).printable
    exact ⟨_, .call hw hv, by simp [hspell, hspell']⟩
  | .field hobject hname =>
    obtain ⟨w, hw, hspell⟩ := hobject.printable.expression .member
    obtain ⟨v, hv, hspell'⟩ := (printable_identifier hname).expression .primary
    exact ⟨_, .field hw hv, by simp [hspell, hspell', Kind.spellable, Kind.spelling]⟩
  | .index hobject hproperty =>
    obtain ⟨w, hw, hspell⟩ := hobject.printable.expression .member
    obtain ⟨v, hv, hspell'⟩ := hproperty.printable.expression .assignment
    exact ⟨_, .index hw hv, by simp [hspell, hspell', Kind.spellable, Kind.spelling]⟩
  | .object hproperties => exact printable_object fun p hp => (hproperties p hp).printed
  | .assignment htarget hvalue =>
    obtain ⟨w, hw, hspell⟩ := htarget.printable.expression .object
    obtain ⟨v, hv, hspell'⟩ := hvalue.printable.expression .assignment
    exact ⟨_, .assignment hw hv, by simp [hspell, hspell', Kind.spellable, Kind.spelling]⟩

/-- A well-formed property can be written. -/
theorem Entry.printed {p : Property} (h : Entry p) : ∃ w, Printed.Entry p w ∧ AllSpellable w := by
  match h with
  | .shorthand hkey => exact ⟨_, .shorthand, by simp [hkey.spellable]⟩
  | .pair hkey hvalue =>
    obtain ⟨w, hw, hspell⟩ := hvalue.printable.expression .assignment
    exact ⟨_, .pair hw, by simp [hspell, hkey.spellable, Kind.spellable, Kind.spelling]⟩

end

/-- Statements that can be written can be written one after the other. -/
theorem exists_statements {body : List Node}
    (h : ∀ n ∈ body, ∃ w, Printed.Statement n w ∧ AllSpellable w) :
    ∃ w, Printed.Statements body w ∧ AllSpellable w := by
  induction body with
  | nil => exact ⟨[], .nil, by simp⟩
  | cons n body ih =>
    obtain ⟨w, hn, hw⟩ := h n (by simp)
    obtain ⟨v, hbody, hv⟩ := ih fun m hm => h m (List.mem_cons_of_mem n hm)
    exact ⟨_, .cons hn hbody, by simp [hw, hv]⟩

/-- A well-formed statement can be written. -/
theorem Statement.printed {n : Node} (h : Statement n) :
    ∃ w, Printed.Statement n w ∧ AllSpellable w := by
  match h with
  | .uninitialized hname =>
    exact ⟨_, .uninitialized, by simp [hname.spellable, Kind.spellable, Kind.spelling]⟩
  | @Statement.initialized _ constant _ hname hvalue =>
    obtain ⟨w, hw, hspell⟩ := hvalue.printable.expression .assignment
    refine ⟨_, .initialized hw, ?_⟩
    cases constant with
    | true => simp [Printed.keyword, hspell, hname.spellable, Kind.spellable, Kind.spelling]
    | false => simp [Printed.keyword, hspell, hname.spellable, Kind.spellable, Kind.spelling]
  | .function hname hparameters hbody =>
    obtain ⟨w, hw, hspell⟩ := exists_arguments fun n hn => by
      obtain ⟨p, hp, rfl⟩ := List.mem_map.1 hn
      exact printable_identifier (hparameters p hp)
    obtain ⟨v, hv, hspell'⟩ := exists_statements fun m hm => (hbody m hm).printed
    refine ⟨_, .function hw hv, ?_⟩
    simp [hspell, hspell', hname.spellable, Kind.spellable, Kind.spelling]
  | .expression hn =>
    obtain ⟨w, hw, hspell⟩ := hn.printable.expression .assignment
    exact ⟨_, .expression hw, by simp [hspell, Kind.spellable, Kind.spelling]⟩

end WellFormed

/-- Every well-formed program can be printed, and parsing what was printed gives
the program back, however it was printed. -/
theorem parse_of_prints {p : Node} (h : WellFormed.Program p) :
    (∃ text, p.Prints text) ∧ ∀ text, p.Prints text → parse text = .ok p := by
  constructor
  · obtain ⟨hbody⟩ := h
    obtain ⟨w, hw, hspell⟩ := WellFormed.exists_statements fun n hn => (hbody n hn).printed
    obtain ⟨text, htext⟩ := hspell.spaced false
    refine ⟨String.ofList text, .program hw ?_⟩
    rwa [String.toList_ofList]
  · intro text htext
    obtain ⟨hw, hspaced⟩ := htext
    exact hspaced.lexes.parse (.statements hw.derives)

/-- A difference on the right of a difference has to be written in parentheses. -/
theorem parse_of_prints_difference :
    let p : Node := .program
      [.binary (.identifier "a") (.binary (.identifier "b") (.identifier "c") "-") "-"]
    let text := "a - ( b - c ) ; "
    WellFormed.Program p ∧ p.Prints text ∧ parse text = .ok p := by
  intro p text
  have ha : IsName "a" := by decide
  have hb : IsName "b" := by decide
  have hc : IsName "c" := by decide
  have hminus : "-" ∈ sumOperators := by decide
  have hoperator : "-" ∈ sumOperators ++ productOperators := by decide
  have hp : WellFormed.Program p := by
    refine .statements fun n hn => .expression ?_
    obtain rfl := List.mem_singleton.1 hn
    exact .binary (.identifier ha) (.binary (.identifier hb) (.identifier hc) hoperator) hoperator
  have hname : ∀ level name, Printed.Expression level (.identifier name) [.ofName name] :=
    fun level name => .bare level.le_primary .identifier
  have hinner : Printed.Bare (.binary (.identifier "b") (.identifier "c") "-")
      [.ofName "b", .ofOperator "-", .ofName "c"] :=
    .sum hminus (hname .sum "b") (hname .product "c")
  have houter : Printed.Bare
      (.binary (.identifier "a") (.binary (.identifier "b") (.identifier "c") "-") "-")
      [.ofName "a", .ofOperator "-", Kind.lpar.symbol, .ofName "b", .ofOperator "-", .ofName "c",
        Kind.rpar.symbol] :=
    .sum hminus (hname .sum "a") (.group (.bare (by decide) hinner))
  have hspaced := Spaced.space (ha.spelledBy false) <|
    .space (spelledBy_ofOperator hoperator true) <|
    .space (Kind.lpar.spelledBy (by decide) false) <| .space (hb.spelledBy false) <|
    .space (spelledBy_ofOperator hoperator true) <| .space (hc.spelledBy false) <|
    .space (Kind.rpar.spelledBy (by decide) true) <|
    .space (Kind.semi.spelledBy (by decide) true) .nil
  have htext : p.Prints text := by
    refine .program (.cons (.expression (.bare (by decide) houter)) .nil) ?_
    have htoList : text.toList = ['a', ' ', '-', ' ', '(', ' ', 'b', ' ', '-', ' ', 'c', ' ', ')',
      ' ', ';', ' '] := by decide
    rw [htoList]
    exact hspaced
  exact ⟨hp, htext, (parse_of_prints hp).2 text htext⟩

end Scriptlet
