import Scriptlet.Parser.Statement

/-!
# What a successful parse has done

For the parser of each construct, an equivalence says which tokens it has
seen, which parsers it has run and what it has answered when it succeeds.
What is proved about successes does not open a parser again. The reading
operations are given by equations, which also cover their failures.
-/

namespace Scriptlet.Parser

section Operations

variable {α β : Type} {s t u : TokenStream}

/-- A sequence succeeds when its parts succeed one after the other. -/
theorem bind_eq_ok_iff {p : Parser α} {f : α → Parser β} {b : β} :
    (p >>= f) s = .ok b u ↔ ∃ a t, p s = .ok a t ∧ f a t = .ok b u := by
  change EStateM.bind p f s = _ ↔ _
  unfold EStateM.bind
  cases p s with
  | ok a t =>
    constructor
    · intro h
      exact ⟨a, t, rfl, h⟩
    · rintro ⟨a, t, ⟨⟩, h⟩
      exact h
  | error failure t => simp

/-- A mere result reads nothing. -/
theorem pure_apply {a : α} : (pure a : Parser α) s = .ok a s :=
  rfl

/-- A failure reads nothing. -/
theorem throw_apply {failure : ParseFailure} :
    (throw failure : Parser α) s = .error failure s :=
  rfl

/-- A complaint reads nothing. -/
theorem reject_apply {complaint : Complaint} {token : Token} :
    (reject complaint token : Parser α) s = .error (.rejected ⟨complaint, token⟩) s :=
  rfl

/-- A choice between parsers is made before they run. -/
theorem ite_apply {c : Prop} [Decidable c] {p q : Parser α} :
    (if c then p else q) s = if c then p s else q s := by
  by_cases h : c
  · rw [if_pos h, if_pos h]
  · rw [if_neg h, if_neg h]

/-- Looking at the current token always succeeds. -/
theorem peek_bind {f : Token → Parser β} : (peek >>= f) s = f s.current s :=
  rfl

/-- Passing the current token always succeeds. -/
theorem advance_bind {f : Token → Parser β} : (advance >>= f) s = f s.current s.next :=
  rfl

/-- A test of the current kind always succeeds. -/
theorem check_bind {kinds : List Kind} {f : Bool → Parser β} :
    (check kinds >>= f) s = f (kinds.contains s.current.kind) s :=
  rfl

/-- A test for an operator always succeeds. -/
theorem checkOperator_bind {symbols : List String} {f : Bool → Parser β} :
    (checkOperator symbols >>= f) s =
      f (s.current.kind == .operator && symbols.contains s.current.text) s :=
  rfl

/-- A token that may be there is passed if it is. -/
theorem accept_bind {kinds : List Kind} {f : Bool → Parser β} :
    (accept kinds >>= f) s =
      if kinds.contains s.current.kind then f true s.next else f false s := by
  change EStateM.bind (check kinds >>= _) f s = _
  unfold EStateM.bind
  rw [check_bind, ite_apply]
  by_cases h : kinds.contains s.current.kind = true
  · rw [if_pos h, if_pos h, advance_bind, pure_apply]
  · rw [if_neg h, if_neg h, pure_apply]

/-- A token that has to be there is passed, or complained about. -/
theorem expect_bind {kind : Kind} {complaint : Complaint} {f : Token → Parser β} :
    (expect kind complaint >>= f) s =
      if s.current.kind = kind then f s.current s.next
      else .error (.rejected ⟨complaint, s.current⟩) s := by
  change EStateM.bind (peek >>= _) f s = _
  unfold EStateM.bind
  rw [peek_bind, ite_apply]
  by_cases h : s.current.kind = kind
  · rw [if_pos h, if_pos h]
    rfl
  · rw [if_neg h, if_neg h, reject_apply]

end Operations

section Expressions

variable {e operand : Parser Node} {s t : TokenStream}

/-- A primary expression is a name, a number that can be read, or a group. -/
theorem primary_eq_ok_iff {n : Node} :
    primary e s = .ok n t ↔
      (s.current.kind = .ident ∧ n = .identifier s.current.text ∧ t = s.next) ∨
      (s.current.kind = .number ∧
        ∃ value, Number.read? s.current.text = some value ∧ n = .number value ∧ t = s.next) ∨
      (s.current.kind = .lpar ∧
        ∃ u, e s.next = .ok n u ∧ u.current.kind = .rpar ∧ t = u.next) := by
  rw [primary, peek_bind]
  cases hk : s.current.kind
  case ident =>
    dsimp only
    rw [advance_bind, pure_apply]
    grind
  case number =>
    dsimp only
    rw [advance_bind]
    cases Number.read? s.current.text with
    | some value =>
      dsimp only
      rw [pure_apply]
      grind
    | none =>
      dsimp only
      rw [throw_apply]
      grind
  case lpar =>
    dsimp only
    rw [advance_bind, bind_eq_ok_iff]
    simp only [expect_bind, pure_apply]
    grind
  all_goals
    dsimp only
    rw [reject_apply]
    grind

/-- An access to a member is a point and a name, or a key in brackets. -/
theorem memberStep_eq_ok_iff {object : Node} {r : Node ⊕ Node} :
    memberStep e object s = .ok r t ↔
      (s.current.kind = .dot ∧ ∃ name, primary e s.next = .ok (.identifier name) t ∧
        r = .inl (.member object (.identifier name) false)) ∨
      (s.current.kind = .lsqb ∧ ∃ property u, e s.next = .ok property u ∧
        u.current.kind = .rsqb ∧ r = .inl (.member object property true) ∧ t = u.next) ∨
      (s.current.kind ≠ .dot ∧ s.current.kind ≠ .lsqb ∧ r = .inr object ∧ t = s) := by
  rw [memberStep, peek_bind]
  cases hk : s.current.kind
  case dot =>
    dsimp only
    rw [advance_bind, peek_bind, bind_eq_ok_iff]
    simp only [ite_apply, pure_apply, reject_apply]
    constructor
    · rintro ⟨property, u, hu, h⟩
      cases property <;> grind [Node.isIdentifier]
    · grind [Node.isIdentifier]
  case lsqb =>
    dsimp only
    rw [advance_bind, bind_eq_ok_iff]
    simp only [expect_bind, pure_apply]
    grind
  all_goals
    dsimp only
    rw [pure_apply]
    grind

/-- A member is a primary expression and the accesses after it. -/
theorem member_eq_ok_iff {n : Node} :
    member e s = .ok n t ↔
      ∃ object u, primary e s = .ok object u ∧ loop (memberStep e) object u = .ok n t :=
  bind_eq_ok_iff

/-- A further argument stands after a comma. -/
theorem argumentStep_eq_ok_iff {collected : List Node} {r : List Node ⊕ List Node} :
    argumentStep e collected s = .ok r t ↔
      (s.current.kind = .comma ∧ ∃ n, e s.next = .ok n t ∧ r = .inl (n :: collected)) ∨
      (s.current.kind ≠ .comma ∧ r = .inr collected.reverse ∧ t = s) := by
  rw [argumentStep, accept_bind]
  by_cases hk : s.current.kind = .comma
  · rw [if_pos (by simp [hk]), ite_apply, if_pos rfl, bind_eq_ok_iff]
    simp only [pure_apply]
    grind
  · rw [if_neg (by simp [hk]), ite_apply, if_neg (by simp), pure_apply]
    grind

/-- Arguments are a first one and those after commas. -/
theorem argumentList_eq_ok_iff {arguments : List Node} :
    argumentList e s = .ok arguments t ↔
      ∃ first u, e s = .ok first u ∧ loop (argumentStep e) [first] u = .ok arguments t :=
  bind_eq_ok_iff

/-- Between the parentheses of an argument list stands nothing, or arguments. -/
theorem arguments_eq_ok_iff {arguments : List Node} :
    Parser.arguments e s = .ok arguments t ↔
      s.current.kind = .lpar ∧
        ((s.next.current.kind = .rpar ∧ arguments = [] ∧ t = s.next.next) ∨
          (s.next.current.kind ≠ .rpar ∧ ∃ u, argumentList e s.next = .ok arguments u ∧
            u.current.kind = .rpar ∧ t = u.next)) := by
  rw [Parser.arguments, expect_bind]
  by_cases hl : s.current.kind = .lpar
  · rw [if_pos hl, check_bind, ite_apply]
    by_cases hr : s.next.current.kind = .rpar
    · rw [if_pos (by simp [hr]), bind_eq_ok_iff]
      simp only [pure_apply, expect_bind]
      grind
    · rw [if_neg (by simp [hr]), bind_eq_ok_iff]
      simp only [expect_bind, pure_apply]
      grind
  · rw [if_neg hl]
    grind

/-- A further call has an argument list. -/
theorem callStep_eq_ok_iff {callee : Node} {r : Node ⊕ Node} :
    callStep e callee s = .ok r t ↔
      (s.current.kind = .lpar ∧ ∃ arguments, Parser.arguments e s = .ok arguments t ∧
        r = .inl (.call callee arguments)) ∨
      (s.current.kind ≠ .lpar ∧ r = .inr callee ∧ t = s) := by
  rw [callStep, check_bind, ite_apply]
  by_cases hk : s.current.kind = .lpar
  · rw [if_pos (by simp [hk]), bind_eq_ok_iff]
    simp only [pure_apply]
    grind
  · rw [if_neg (by simp [hk]), pure_apply]
    grind

/-- A call has the argument lists after its first one, too. -/
theorem calls_eq_ok_iff {callee n : Node} :
    calls e callee s = .ok n t ↔
      ∃ arguments u, Parser.arguments e s = .ok arguments u ∧
        loop (callStep e) (.call callee arguments) u = .ok n t :=
  bind_eq_ok_iff

/-- A member is called if an argument list follows it. -/
theorem callOrMember_eq_ok_iff {n : Node} :
    callOrMember e s = .ok n t ↔
      ∃ callee u, member e s = .ok callee u ∧
        ((u.current.kind = .lpar ∧ calls e callee u = .ok n t) ∨
          (u.current.kind ≠ .lpar ∧ n = callee ∧ t = u)) := by
  rw [callOrMember, bind_eq_ok_iff]
  simp only [check_bind, ite_apply, pure_apply]
  grind

/-- A further operand stands after an operator. -/
theorem operatorStep_eq_ok_iff {symbols : List String} {left : Node} {r : Node ⊕ Node} :
    operatorStep symbols operand left s = .ok r t ↔
      (s.current.kind = .operator ∧ s.current.text ∈ symbols ∧
        ∃ right, operand s.next = .ok right t ∧
          r = .inl (.binary left right s.current.text)) ∨
      (¬(s.current.kind = .operator ∧ s.current.text ∈ symbols) ∧ r = .inr left ∧ t = s) := by
  rw [operatorStep, checkOperator_bind, ite_apply]
  by_cases hk : s.current.kind = .operator ∧ s.current.text ∈ symbols
  · rw [if_pos (by simp [hk]), advance_bind, bind_eq_ok_iff]
    simp only [pure_apply]
    grind
  · rw [if_neg (by simpa using hk), pure_apply]
    grind

/-- Operands with operators between them are a first one and those after
operators. -/
theorem operation_eq_ok_iff {symbols : List String} {n : Node} :
    operation symbols operand s = .ok n t ↔
      ∃ left u, operand s = .ok left u ∧ loop (operatorStep symbols operand) left u = .ok n t :=
  bind_eq_ok_iff

/-- The properties of an object end at its brace. A further one is a key, alone
or with a value, and a comma if the object does not end there. -/
theorem propertyStep_eq_ok_iff {collected : List Property}
    {r : List Property ⊕ List Property} :
    propertyStep e collected s = .ok r t ↔
      ((s.current.kind = .eof ∨ s.current.kind = .rbrace) ∧
        r = .inr collected.reverse ∧ t = s) ∨
      (s.current.kind = .ident ∧ r = .inl (.shorthand s.current.text :: collected) ∧
        ((s.next.current.kind = .comma ∧ t = s.next.next) ∨
          (s.next.current.kind = .rbrace ∧ t = s.next))) ∨
      (s.current.kind = .ident ∧ s.next.current.kind = .colon ∧
        ∃ value u, e s.next.next = .ok value u ∧
          r = .inl (.pair s.current.text value :: collected) ∧
          ((u.current.kind = .comma ∧ t = u.next) ∨ (u.current.kind = .rbrace ∧ t = u))) := by
  rw [propertyStep, check_bind, ite_apply]
  by_cases hk : s.current.kind = .eof ∨ s.current.kind = .rbrace
  · rw [if_pos (by simpa using hk), pure_apply]
    grind
  · rw [if_neg (by simpa using hk), expect_bind]
    by_cases hi : s.current.kind = .ident
    · rw [if_pos hi, accept_bind]
      by_cases hc : s.next.current.kind = .comma
      · rw [if_pos (by simp [hc]), ite_apply, if_pos rfl, pure_apply]
        grind
      · rw [if_neg (by simp [hc]), ite_apply, if_neg (by simp), check_bind, ite_apply]
        by_cases hb : s.next.current.kind = .rbrace
        · rw [if_pos (by simp [hb]), pure_apply]
          grind
        · rw [if_neg (by simp [hb]), expect_bind]
          by_cases hd : s.next.current.kind = .colon
          · rw [if_pos hd, bind_eq_ok_iff]
            simp only [check_bind, ite_apply, expect_bind, pure_apply]
            grind
          · rw [if_neg hd]
            grind
    · rw [if_neg hi]
      grind

/-- An object literal starts with a brace. -/
theorem objectOrSum_eq_ok_iff {n : Node} :
    objectOrSum e s = .ok n t ↔
      (s.current.kind = .lbrace ∧ ∃ properties u,
        loop (propertyStep e) [] s.next = .ok properties u ∧ u.current.kind = .rbrace ∧
          n = .object properties ∧ t = u.next) ∨
      (s.current.kind ≠ .lbrace ∧ sum e s = .ok n t) := by
  rw [objectOrSum, check_bind, ite_apply]
  by_cases hk : s.current.kind = .lbrace
  · rw [if_pos (by simp [hk]), advance_bind, bind_eq_ok_iff]
    simp only [expect_bind, pure_apply]
    grind
  · rw [if_neg (by simp [hk])]
    grind

/-- The value of an assignment stands after an equals sign. -/
theorem assignment_eq_ok_iff {n : Node} :
    assignment e s = .ok n t ↔
      ∃ left u, objectOrSum e s = .ok left u ∧
        ((u.current.kind = .equals ∧ ∃ value, e u.next = .ok value t ∧
            n = .assignment left value) ∨
          (u.current.kind ≠ .equals ∧ n = left ∧ t = u)) := by
  rw [assignment, bind_eq_ok_iff]
  refine exists_congr fun left => exists_congr fun u => and_congr_right fun _ => ?_
  rw [accept_bind]
  by_cases hk : u.current.kind = .equals
  · rw [if_pos (by simp [hk]), ite_apply, if_pos rfl, bind_eq_ok_iff]
    simp only [pure_apply]
    grind
  · rw [if_neg (by simp [hk]), ite_apply, if_neg (by simp), pure_apply]
    grind

end Expressions

section Statements

variable {inner : Parser Node} {s t : TokenStream}

/-- A declaration has a keyword, a name and, unless it is that of a variable
without a value, an equals sign and an expression. -/
theorem declaration_eq_ok_iff {n : Node} :
    declaration s = .ok n t ↔
      s.next.current.kind = .ident ∧
        ((s.next.next.current.kind = .semi ∧ s.current.kind ≠ .constWord ∧
            n = .declaration s.next.current.text false none ∧ t = s.next.next.next) ∨
          (s.next.next.current.kind = .equals ∧ ∃ value u,
            expression s.next.next.next = .ok value u ∧ u.current.kind = .semi ∧
              n = .declaration s.next.current.text (s.current.kind == .constWord) (some value) ∧
                t = u.next)) := by
  rw [declaration, advance_bind, expect_bind]
  by_cases hi : s.next.current.kind = .ident
  · rw [if_pos hi, check_bind, ite_apply]
    by_cases he : s.next.next.current.kind = .semi
    · rw [if_pos (by simp [he]), ite_apply]
      simp only [peek_bind, reject_apply, advance_bind, pure_apply]
      grind
    · rw [if_neg (by simp [he]), expect_bind]
      by_cases hq : s.next.next.current.kind = .equals
      · rw [if_pos hq, bind_eq_ok_iff]
        simp only [expect_bind, pure_apply]
        grind
      · rw [if_neg hq]
        grind
  · rw [if_neg hi]
    grind

/-- Statements go on until a token of one of the kinds. -/
theorem statementStep_eq_ok_iff {stops : List Kind} {collected : List Node}
    {r : List Node ⊕ List Node} :
    statementStep stops inner collected s = .ok r t ↔
      (s.current.kind ∈ stops ∧ r = .inr collected.reverse ∧ t = s) ∨
      (s.current.kind ∉ stops ∧ ∃ n, inner s = .ok n t ∧ r = .inl (n :: collected)) := by
  rw [statementStep, check_bind, ite_apply]
  by_cases hk : s.current.kind ∈ stops
  · rw [if_pos (by simpa using hk), pure_apply]
    grind
  · rw [if_neg (by simpa using hk), bind_eq_ok_iff]
    simp only [pure_apply]
    grind

/-- The declaration of a function has a name, parameters that are names, and a
body in braces. -/
theorem function_eq_ok_iff {n : Node} :
    function inner s = .ok n t ↔
      s.current.kind = .fnWord ∧ s.next.current.kind = .ident ∧
        ∃ parameters names u, arguments expression s.next.next = .ok parameters u ∧
          parameters.mapM Node.name? = some names ∧ u.current.kind = .lbrace ∧
            ∃ body v, statements [.eof, .rbrace] inner u.next = .ok body v ∧
              v.current.kind = .rbrace ∧ n = .function s.next.current.text names body ∧
                t = v.next := by
  rw [function, expect_bind]
  by_cases hf : s.current.kind = .fnWord
  · rw [if_pos hf, expect_bind]
    by_cases hi : s.next.current.kind = .ident
    · rw [if_pos hi, peek_bind, bind_eq_ok_iff]
      constructor
      · rintro ⟨parameters, u, hu, h⟩
        cases hm : parameters.mapM Node.name? with
        | none =>
          simp only [hm, reject_apply, reduceCtorEq] at h
        | some names =>
          simp only [hm, expect_bind] at h
          by_cases hl : u.current.kind = .lbrace
          · rw [if_pos hl, bind_eq_ok_iff] at h
            simp only [expect_bind, pure_apply] at h
            grind
          · rw [if_neg hl] at h
            simp at h
      · rintro ⟨-, -, parameters, names, u, hu, hm, hl, body, v, hv, hr, rfl, rfl⟩
        refine ⟨parameters, u, hu, ?_⟩
        simp only [hm, expect_bind, bind_eq_ok_iff, pure_apply, if_pos hl]
        exact ⟨body, v, hv, by rw [if_pos hr]⟩
    · rw [if_neg hi]
      grind
  · rw [if_neg hf]
    grind

/-- A statement that no keyword starts is an expression, which may be closed by
a semicolon. -/
theorem statementWith_eq_ok_iff {n : Node} :
    statementWith inner s = .ok n t ↔
      ((s.current.kind = .letWord ∨ s.current.kind = .constWord) ∧ declaration s = .ok n t) ∨
      (s.current.kind = .fnWord ∧ function inner s = .ok n t) ∨
      (s.current.kind ≠ .letWord ∧ s.current.kind ≠ .constWord ∧ s.current.kind ≠ .fnWord ∧
        ∃ u, expression s = .ok n u ∧
          ((u.current.kind = .semi ∧ t = u.next) ∨ (u.current.kind ≠ .semi ∧ t = u))) := by
  rw [statementWith, check_bind, ite_apply]
  by_cases hd : s.current.kind = .letWord ∨ s.current.kind = .constWord
  · rw [if_pos (by simpa using hd)]
    grind
  · rw [if_neg (by simpa using hd), check_bind, ite_apply]
    by_cases hf : s.current.kind = .fnWord
    · rw [if_pos (by simp [hf])]
      grind
    · rw [if_neg (by simp [hf]), bind_eq_ok_iff]
      simp only [accept_bind, pure_apply]
      grind

/-- A program is its statements up to the end token. -/
theorem program_eq_ok_iff {n : Node} :
    program s = .ok n t ↔
      ∃ body, statements [.eof] statement s = .ok body t ∧ n = .program body := by
  rw [program, bind_eq_ok_iff]
  simp only [pure_apply]
  grind

end Statements

end Scriptlet.Parser

namespace Scriptlet

/-- A list of tokens spells a program if the parser of programs succeeds. -/
theorem parseTokens_eq_ok_iff {tokens : List Token} {n : Node} :
    parseTokens tokens = .ok n ↔ ∃ t, Parser.program (.ofTokens tokens) = .ok n t := by
  unfold parseTokens
  cases Parser.program (.ofTokens tokens) with
  | ok m t => simp
  | error failure t => simp

end Scriptlet
