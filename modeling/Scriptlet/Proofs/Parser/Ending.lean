import Scriptlet.Proofs.Parser.Passage

/-!
# How parsing ends

On a stream that holds an end token, every parser ends with a result or with a
failure that some token of the stream is to blame for; it passes no end token,
whichever of the two it is. A parser that succeeds on the way has passed a
token, so loops and nested parsers come closer to the end token with each
round, and their bounds are never reached.
-/

namespace Scriptlet

namespace TokenStream

variable {s t u : TokenStream}

/-- Whether one stream is left of another after tokens are passed, none of which
is an end token. -/
def Reaches (s t : TokenStream) : Prop :=
  ∃ passed, s.tokens = passed ++ t.tokens ∧ t.index = s.index + passed.length ∧
    ∀ x ∈ passed, x.kind ≠ .eof

/-- A stream reaches itself. -/
theorem Reaches.refl (s : TokenStream) : s.Reaches s :=
  ⟨[], rfl, rfl, by simp⟩

/-- What is reached from where one has come to is reached. -/
theorem Reaches.trans (h : s.Reaches t) (h' : t.Reaches u) : s.Reaches u := by
  obtain ⟨passed, hs, hi, hk⟩ := h
  obtain ⟨passed', ht, hi', hk'⟩ := h'
  refine ⟨passed ++ passed', ?_, ?_, ?_⟩
  · rw [hs, ht, List.append_assoc]
  · rw [hi', hi, List.length_append]
    omega
  · intro x hx
    rcases List.mem_append.1 hx with hx | hx
    · exact hk x hx
    · exact hk' x hx

/-- No tokens come up on the way. -/
theorem Reaches.later_le (h : s.Reaches t) : t.later.length ≤ s.later.length := by
  obtain ⟨passed, hs, -, -⟩ := h
  have hlength := congrArg List.length hs
  simp only [tokens, List.length_cons, List.length_append] at hlength
  omega

/-- Whether a stream holds an end token, and only tokens of a list. -/
structure Within (s : TokenStream) (all : List Token) : Prop where
  /-- An end token is still to come. -/
  terminated : s.Terminated
  /-- The tokens are in the list. -/
  subset : s.tokens ⊆ all

/-- The current token is in the list. -/
theorem Within.current_mem {all : List Token} (hs : s.Within all) : s.current ∈ all :=
  hs.subset List.mem_cons_self

/-- The end token is still to come in a stream that is reached. -/
theorem Reaches.within {all : List Token} (h : s.Reaches t) (hs : s.Within all) :
    t.Within all := by
  obtain ⟨passed, htokens, -, hk⟩ := h
  obtain ⟨⟨x, hx, hxk⟩, hsub⟩ := hs
  rw [htokens] at hx hsub
  have hnot : x ∉ passed := fun hpassed => hk x hpassed hxk
  exact ⟨⟨x, (List.mem_append.1 hx).resolve_left hnot, hxk⟩,
    fun y hy => hsub (List.mem_append_right passed hy)⟩

/-- A token that is no end token can be passed, and is left behind. -/
theorem Terminated.reaches_next (hs : s.Terminated) (hk : s.current.kind ≠ .eof) :
    s.Reaches s.next ∧ s.next.later.length < s.later.length := by
  have hlater := hs.later_ne_nil hk
  obtain ⟨index, current, later⟩ := s
  cases later with
  | nil => exact absurd rfl hlater
  | cons token later =>
    refine ⟨⟨[current], rfl, rfl, ?_⟩, ?_⟩
    · intro x hx
      rwa [List.mem_singleton.1 hx]
    · simp only [TokenStream.next, List.length_cons]
      omega

end TokenStream

/-- Whether one of the tokens is to blame for a failure: it is the one that is
complained about, or its text cannot be read as a number. -/
def ParseFailure.BlamedOn (tokens : List Token) : ParseFailure → Prop
  | .rejected error => error.token ∈ tokens
  | .unreadable text =>
    ∃ x ∈ tokens, x.kind = .number ∧ x.text = text ∧ Number.read? text = none
  | .endless => False

namespace Parser

open TokenStream

variable {α β : Type} {all : List Token}

/-- Whether a parser ends on a stream without passing an end token, with a
result that is as told or with a failure that a token is to blame for. -/
structure Settles (all : List Token) (p : Parser α) (s : TokenStream)
    (Q : α → TokenStream → Prop) : Prop where
  /-- A result is as told. -/
  of_ok : ∀ {a t}, p s = .ok a t → s.Reaches t ∧ Q a t
  /-- A token is to blame for a failure. -/
  of_error : ∀ {failure t}, p s = .error failure t → s.Reaches t ∧ failure.BlamedOn all

/-- Whether a parser ends on every stream with fewer than `bound` tokens after
the current one, and has passed a token if it succeeds. -/
def Advances (all : List Token) (p : Parser α) (bound : Nat) : Prop :=
  ∀ ⦃s : TokenStream⦄, s.Within all → s.later.length < bound →
    Settles all p s fun _ t => t.later.length < s.later.length

section Operations

variable {p : Parser α} {f : α → Parser β} {s t : TokenStream}
  {Q : α → TokenStream → Prop} {R : β → TokenStream → Prop}

/-- A mere result ends. -/
theorem settles_pure {a : α} (h : Q a s) : Settles all (pure a) s Q := by
  constructor
  · rintro a' t ⟨⟩
    exact ⟨.refl s, h⟩
  · rintro failure t ⟨⟩

/-- A failure that a token is to blame for ends. -/
theorem settles_throw {failure : ParseFailure} (h : failure.BlamedOn all) :
    Settles all (throw failure) s Q := by
  constructor
  · rintro a t ⟨⟩
  · rintro failure' t ⟨⟩
    exact ⟨.refl s, h⟩

/-- A complaint about one of the tokens ends. -/
theorem settles_reject {complaint : Complaint} {token : Token} (h : token ∈ all) :
    Settles all (reject complaint token) s Q :=
  settles_throw h

/-- What is told of the result may be weakened. -/
theorem Settles.imp {Q' : α → TokenStream → Prop} (h : Settles all p s Q)
    (hQ : ∀ a t, s.Reaches t → Q a t → Q' a t) : Settles all p s Q' := by
  constructor
  · intro a t hp
    obtain ⟨hst, ha⟩ := h.of_ok hp
    exact ⟨hst, hQ a t hst ha⟩
  · exact h.of_error

/-- Parsing on from a stream that is reached ends if it ends there. -/
theorem Settles.of_reaches {p q : Parser β} (h : Settles all q t R) (hst : s.Reaches t)
    (heq : p s = q t) : Settles all p s R := by
  constructor
  · intro b u hp
    obtain ⟨htu, hb⟩ := h.of_ok (heq.symm.trans hp)
    exact ⟨hst.trans htu, hb⟩
  · intro failure u hp
    obtain ⟨htu, hblamed⟩ := h.of_error (heq.symm.trans hp)
    exact ⟨hst.trans htu, hblamed⟩

/-- A sequence ends if its first part does, and its second part does wherever
the first has come to. -/
theorem Settles.bind (h : Settles all p s Q)
    (hf : ∀ a t, s.Reaches t → Q a t → Settles all (f a) t R) : Settles all (p >>= f) s R := by
  have hbind : (p >>= f) s = EStateM.bind p f s := rfl
  unfold EStateM.bind at hbind
  cases hp : p s with
  | ok a t =>
    rw [hp] at hbind
    obtain ⟨hst, ha⟩ := h.of_ok hp
    exact (hf a t hst ha).of_reaches hst hbind
  | error failure t =>
    rw [hp] at hbind
    obtain ⟨hst, hblamed⟩ := h.of_error hp
    exact (settles_throw hblamed).of_reaches hst hbind

/-- Looking at the current token changes nothing. -/
theorem settles_peek {f : Token → Parser β} (h : Settles all (f s.current) s R) :
    Settles all (peek >>= f) s R :=
  h.of_reaches (.refl s) peek_bind

/-- A test of the current kind changes nothing. -/
theorem settles_check {kinds : List Kind} {f : Bool → Parser β}
    (hthere : s.current.kind ∈ kinds → Settles all (f true) s R)
    (hnot : s.current.kind ∉ kinds → Settles all (f false) s R) :
    Settles all (check kinds >>= f) s R := by
  by_cases hk : s.current.kind ∈ kinds
  · refine (hthere hk).of_reaches (.refl s) ?_
    rw [check_bind, List.contains_iff_mem.2 hk]
  · refine (hnot hk).of_reaches (.refl s) ?_
    have hcontains : kinds.contains s.current.kind = false := by simpa using hk
    rw [check_bind, hcontains]

/-- A token that is no end token may be passed. -/
theorem settles_advance {f : Token → Parser β} (hs : s.Within all) (hk : s.current.kind ≠ .eof)
    (h : s.next.Within all → s.next.later.length < s.later.length →
      Settles all (f s.current) s.next R) :
    Settles all (advance >>= f) s R := by
  obtain ⟨hnext, hlt⟩ := hs.terminated.reaches_next hk
  exact (h (hnext.within hs) hlt).of_reaches hnext advance_bind

/-- A token that has to be there is passed, or complained about. -/
theorem settles_expect {kind : Kind} {complaint : Complaint} {f : Token → Parser β}
    (hs : s.Within all) (hkind : kind ≠ .eof)
    (h : s.current.kind = kind → s.next.Within all → s.next.later.length < s.later.length →
      Settles all (f s.current) s.next R) :
    Settles all (expect kind complaint >>= f) s R := by
  by_cases hk : s.current.kind = kind
  · obtain ⟨hnext, hlt⟩ := hs.terminated.reaches_next (hk ▸ hkind)
    refine (h hk (hnext.within hs) hlt).of_reaches hnext ?_
    rw [expect_bind, if_pos hk]
  · have hreject : Settles all (reject complaint s.current : Parser β) s R :=
      settles_reject hs.current_mem
    refine hreject.of_reaches (.refl s) ?_
    rw [expect_bind, if_neg hk, reject_apply]

/-- A token that may be there is passed if it is. -/
theorem settles_accept {kind : Kind} {f : Bool → Parser β} (hs : s.Within all)
    (hkind : kind ≠ .eof)
    (hthere : s.current.kind = kind → s.next.Within all →
      s.next.later.length < s.later.length → Settles all (f true) s.next R)
    (hnot : s.current.kind ≠ kind → Settles all (f false) s R) :
    Settles all (accept [kind] >>= f) s R := by
  by_cases hk : s.current.kind = kind
  · obtain ⟨hnext, hlt⟩ := hs.terminated.reaches_next (hk ▸ hkind)
    refine (hthere hk (hnext.within hs) hlt).of_reaches hnext ?_
    rw [accept_bind, if_pos (by simp [hk])]
  · refine (hnot hk).of_reaches (.refl s) ?_
    rw [accept_bind, if_neg (by simp [hk])]

end Operations

section Loops

variable {step : α → Parser (α ⊕ β)}

/-- Whether a round of a loop ends, and has passed a token if the loop goes
on. -/
def SettlesRound (all : List Token) (p : Parser (α ⊕ β)) (s : TokenStream) : Prop :=
  Settles all p s fun r t => r.isLeft = true → t.later.length < s.later.length

/-- A loop ends within its bound if each of its rounds ends, and those that go
on pass a token. -/
theorem settles_iterate {s : TokenStream} (hs : s.Within all)
    (hstep : ∀ a t, s.Reaches t → t.Within all → SettlesRound all (step a) t)
    {bound : Nat} (hbound : s.later.length < bound) (a : α) :
    Settles all (iterate step bound a) s fun _ _ => True := by
  induction bound generalizing s a with
  | zero => omega
  | succ bound ih =>
    rw [iterate]
    refine (hstep a s (.refl s) hs).bind fun r t hst hr => ?_
    cases r with
    | inr b => exact settles_pure trivial
    | inl a' =>
      have hlt : t.later.length < s.later.length := hr rfl
      exact ih (hst.within hs) (fun a u htu => hstep a u (hst.trans htu)) (by omega) a'

/-- A loop ends if each of its rounds ends, and those that go on pass a token. -/
theorem settles_loop {s : TokenStream} (hs : s.Within all)
    (hstep : ∀ a t, s.Reaches t → t.Within all → SettlesRound all (step a) t) (a : α) :
    Settles all (loop step a) s fun _ _ => True := by
  have hbound : s.later.length < s.later.length + 2 := by omega
  exact (settles_iterate hs hstep hbound a).of_reaches (.refl s) rfl

end Loops

section Expressions

variable {e : Parser Node} {bound : Nat}

theorem primary_advances (he : Advances all e bound) : Advances all (primary e) (bound + 1) := by
  intro s hs hlength
  rw [primary]
  refine settles_peek ?_
  cases hk : s.current.kind
  case ident => exact settles_advance hs (by simp [hk]) fun _ hlt => settles_pure hlt
  case number =>
    dsimp only
    refine settles_advance hs (by simp [hk]) fun _ hlt => ?_
    cases hread : Number.read? s.current.text with
    | some value => exact settles_pure hlt
    | none => exact settles_throw ⟨s.current, hs.current_mem, hk, rfl, hread⟩
  case lpar =>
    refine settles_advance hs (by simp [hk]) fun hnext hlt => ?_
    refine (he hnext (by omega)).bind fun value u hu hlt' => ?_
    exact settles_expect (hu.within hnext) (by simp) fun _ _ hlt'' => settles_pure (by omega)
  all_goals exact settles_reject hs.current_mem

/-- A loop after a first part has passed what the first part has. -/
theorem loop_later {α β : Type} {step : α → Parser (α ⊕ β)} {s u : TokenStream} {a : α}
    (hu : u.Within all) (hlt : u.later.length < s.later.length)
    (hstep : ∀ a t, u.Reaches t → t.Within all → SettlesRound all (step a) t) :
    Settles all (loop step a) u fun _ t => t.later.length < s.later.length := by
  refine (settles_loop hu hstep a).imp fun _ t hut _ => ?_
  have hle := hut.later_le
  omega

/-- A round of member accesses ends. -/
theorem memberStep_settles (he : Advances all e bound) (object : Node) {s : TokenStream}
    (hs : s.Within all) (hlength : s.later.length ≤ bound) :
    SettlesRound all (memberStep e object) s := by
  refine settles_peek ?_
  cases hk : s.current.kind
  case dot =>
    refine settles_advance hs (by simp [hk]) fun hnext hlt => settles_peek ?_
    refine (primary_advances he hnext (by omega)).bind fun property u hu hlt' => ?_
    by_cases hproperty : property.isIdentifier = true
    · rw [if_pos hproperty]
      exact settles_pure fun _ => by omega
    · rw [if_neg hproperty]
      exact settles_reject hnext.current_mem
  case lsqb =>
    refine settles_advance hs (by simp [hk]) fun hnext hlt => ?_
    refine (he hnext (by omega)).bind fun property u hu hlt' => ?_
    exact settles_expect (hu.within hnext) (by simp) fun _ _ hlt'' => settles_pure fun _ => by omega
  all_goals exact settles_pure (by simp)

theorem member_advances (he : Advances all e bound) : Advances all (member e) (bound + 1) := by
  intro s hs hlength
  refine (primary_advances he hs hlength).bind fun object u hu hlt => ?_
  refine loop_later (hu.within hs) hlt fun object t hut ht => ?_
  have hle := hut.later_le
  exact memberStep_settles he object ht (by omega)

/-- A round of arguments ends. -/
theorem argumentStep_settles (he : Advances all e bound) (collected : List Node)
    {s : TokenStream} (hs : s.Within all) (hlength : s.later.length ≤ bound) :
    SettlesRound all (argumentStep e collected) s := by
  refine settles_accept hs (by simp) (fun _ hnext hlt => ?_) fun _ => settles_pure (by simp)
  exact (he hnext (by omega)).bind fun n u hu hlt' => settles_pure fun _ => by omega

/-- Arguments between commas end. -/
theorem argumentList_advances (he : Advances all e bound) :
    Advances all (argumentList e) bound := by
  intro s hs hlength
  refine (he hs hlength).bind fun first u hu hlt => ?_
  refine loop_later (hu.within hs) hlt fun collected t hut ht => ?_
  have hle := hut.later_le
  exact argumentStep_settles he collected ht (by omega)

/-- An argument list ends. -/
theorem arguments_advances (he : Advances all e bound) :
    Advances all (Parser.arguments e) (bound + 1) := by
  intro s hs hlength
  refine settles_expect hs (by simp) fun _ hnext hlt => ?_
  have hclose : ∀ {u : TokenStream} {collected : List Node}, s.next.Reaches u →
      Settles all (do let _ ← expect .rpar .argumentsClose; return collected) u
        fun _ t => t.later.length < s.later.length := by
    intro u collected hu
    have hle := hu.later_le
    exact settles_expect (hu.within hnext) (by simp) fun _ _ _ => settles_pure (by omega)
  refine settles_check (fun _ => hclose (.refl _)) fun _ => ?_
  exact (argumentList_advances he hnext (by omega)).bind fun collected u hu _ => hclose hu

/-- A round of calls ends. -/
theorem callStep_settles (he : Advances all e bound) (callee : Node) {s : TokenStream}
    (hs : s.Within all) (hlength : s.later.length ≤ bound) :
    SettlesRound all (callStep e callee) s := by
  refine settles_check (fun _ => ?_) fun _ => settles_pure (by simp)
  refine (arguments_advances he hs (by omega)).bind fun arguments u hu hlt => ?_
  exact settles_pure fun _ => hlt

theorem calls_advances (he : Advances all e bound) (callee : Node) :
    Advances all (calls e callee) (bound + 1) := by
  intro s hs hlength
  refine (arguments_advances he hs hlength).bind fun arguments u hu hlt => ?_
  refine loop_later (hu.within hs) hlt fun callee t hut ht => ?_
  have hle := hut.later_le
  exact callStep_settles he callee ht (by omega)

theorem callOrMember_advances (he : Advances all e bound) :
    Advances all (callOrMember e) (bound + 1) := by
  intro s hs hlength
  refine (member_advances he hs hlength).bind fun node u hu hlt => ?_
  refine settles_check (fun _ => ?_) fun _ => settles_pure hlt
  refine (calls_advances he node (hu.within hs) (by omega)).imp fun _ t _ hlt' => ?_
  omega

/-- A round of operators ends. -/
theorem operatorStep_settles {operand : Parser Node} (hoperand : Advances all operand bound)
    (symbols : List String) (left : Node) {s : TokenStream} (hs : s.Within all)
    (hlength : s.later.length ≤ bound) :
    SettlesRound all (operatorStep symbols operand left) s := by
  by_cases hk : s.current.kind = .operator ∧ s.current.text ∈ symbols
  · have hround : SettlesRound all (do
        let token ← advance
        let right ← operand
        return Sum.inl (.binary left right token.text) : Parser (Node ⊕ Node)) s := by
      refine settles_advance hs (by simp [hk.1]) fun hnext hlt => ?_
      refine (hoperand hnext (by omega)).bind fun right v hv hlt' => ?_
      exact settles_pure fun _ => by omega
    refine hround.of_reaches (.refl s) ?_
    rw [operatorStep, checkOperator_bind, if_pos (by simpa using hk)]
  · have hround : SettlesRound all (pure (Sum.inr left) : Parser (Node ⊕ Node)) s :=
      settles_pure (by simp)
    refine hround.of_reaches (.refl s) ?_
    rw [operatorStep, checkOperator_bind, if_neg (by simpa using hk)]

/-- Operands with operators between them end. -/
theorem operation_advances {operand : Parser Node} (hoperand : Advances all operand bound)
    (symbols : List String) : Advances all (operation symbols operand) bound := by
  intro s hs hlength
  refine (hoperand hs hlength).bind fun left u hu hlt => ?_
  refine loop_later (hu.within hs) hlt fun left t hut ht => ?_
  have hle := hut.later_le
  exact operatorStep_settles hoperand symbols left ht (by omega)

/-- A round of properties ends. -/
theorem propertyStep_settles (he : Advances all e bound) (collected : List Property)
    {s : TokenStream} (hs : s.Within all) (hlength : s.later.length ≤ bound) :
    SettlesRound all (propertyStep e collected) s := by
  refine settles_check (fun _ => settles_pure (by simp)) fun _ => ?_
  refine settles_expect hs (by simp) fun _ hkey hlt => ?_
  refine settles_accept hkey (by simp) (fun _ _ hlt' => settles_pure fun _ => by omega) fun _ => ?_
  refine settles_check (fun _ => settles_pure fun _ => hlt) fun _ => ?_
  refine settles_expect hkey (by simp) fun _ hcolon hlt' => ?_
  refine (he hcolon (by omega)).bind fun value u hu hvalue => ?_
  refine settles_check (fun _ => settles_pure fun _ => by omega) fun _ => ?_
  exact settles_expect (hu.within hcolon) (by simp) fun _ _ _ => settles_pure fun _ => by omega

theorem objectOrSum_advances (he : Advances all e bound) :
    Advances all (objectOrSum e) (bound + 1) := by
  intro s hs hlength
  refine settles_check (fun hk => ?_) fun _ => ?_
  · have hbrace : s.current.kind = .lbrace := List.mem_singleton.1 hk
    refine settles_advance hs (by simp [hbrace]) fun hnext hlt => ?_
    have hloop : Settles all (loop (propertyStep e) []) s.next
        fun _ t => t.later.length < s.later.length := by
      refine loop_later hnext hlt fun collected t ht ht' => ?_
      have hle := ht.later_le
      exact propertyStep_settles he collected ht' (by omega)
    refine hloop.bind fun properties u hu hlt' => ?_
    exact settles_expect (hu.within hnext) (by simp) fun _ _ _ => settles_pure (by omega)
  · have hproduct := operation_advances (callOrMember_advances he) multiplicative
    exact operation_advances hproduct additive hs hlength

theorem assignment_advances (he : Advances all e bound) :
    Advances all (assignment e) (bound + 1) := by
  intro s hs hlength
  refine (objectOrSum_advances he hs hlength).bind fun left u hu hlt => ?_
  refine settles_accept (hu.within hs) (by simp) (fun _ hnext hlt' => ?_) fun _ => settles_pure hlt
  refine (he hnext (by omega)).bind fun value v hv hvalue => ?_
  exact settles_pure (by omega)

end Expressions

/-- Expressions nested as deep as there are tokens end. -/
theorem nested_advances (depth : Nat) : Advances all (nested depth) depth := by
  induction depth with
  | zero =>
    intro s _ hlength
    omega
  | succ depth ih => exact assignment_advances ih

theorem expression_advances (bound : Nat) : Advances all expression bound := by
  intro s hs _
  have hnested := nested_advances (s.later.length + 1) hs (Nat.lt_succ_self _)
  exact hnested.of_reaches (.refl s) rfl

section Statements

variable {inner : Parser Node} {bound : Nat}

theorem declaration_settles {s : TokenStream} (hs : s.Within all) (hk : s.current.kind ≠ .eof) :
    Settles all declaration s fun _ t => t.later.length < s.later.length := by
  refine settles_advance hs hk fun hname hlt => ?_
  refine settles_expect hname (by simp) fun _ hmiddle hlt' => ?_
  refine settles_check (fun hend => ?_) fun _ => ?_
  · have hsemi : s.next.next.current.kind = .semi := List.mem_singleton.1 hend
    by_cases hconstant : (s.current.kind == .constWord) = true
    · rw [if_pos rfl, if_pos hconstant]
      exact settles_peek (settles_reject hmiddle.current_mem)
    · rw [if_pos rfl, if_neg hconstant]
      exact settles_advance hmiddle (by simp [hsemi]) fun _ _ => settles_pure (by omega)
  · refine settles_expect hmiddle (by simp) fun _ hvalue hlt₂ => ?_
    refine (expression_advances _ hvalue (Nat.lt_succ_self _)).bind fun value u hu hlt₃ => ?_
    exact settles_expect (hu.within hvalue) (by simp) fun _ _ _ => settles_pure (by omega)

/-- A round of statements ends. -/
theorem statementStep_settles (hinner : Advances all inner bound) (stops : List Kind)
    (collected : List Node) {s : TokenStream} (hs : s.Within all)
    (hlength : s.later.length < bound) :
    SettlesRound all (statementStep stops inner collected) s := by
  refine settles_check (fun _ => settles_pure (by simp)) fun _ => ?_
  exact (hinner hs hlength).bind fun n u _ hlt => settles_pure fun _ => hlt

/-- Statements up to the end token, or to another one before it, end. -/
theorem statements_settles (hinner : Advances all inner bound) (stops : List Kind)
    {s : TokenStream} (hs : s.Within all) (hlength : s.later.length < bound) :
    Settles all (statements stops inner) s fun _ _ => True := by
  refine settles_loop hs (fun collected t hst ht => ?_) []
  have hle := hst.later_le
  exact statementStep_settles hinner stops collected ht (by omega)

theorem function_advances (hinner : Advances all inner bound) :
    Advances all (function inner) (bound + 1) := by
  intro s hs hlength
  refine settles_expect hs (by simp) fun _ hname hlt => ?_
  refine settles_expect hname (by simp) fun _ hopen hlt' => settles_peek ?_
  refine (arguments_advances (expression_advances _) hopen (Nat.lt_succ_self _)).bind
    fun parameters u hu hlt₂ => ?_
  cases parameters.mapM Node.name? with
  | none => exact settles_reject hopen.current_mem
  | some names =>
    refine settles_expect (hu.within hopen) (by simp) fun _ hbody hlt₃ => ?_
    refine (statements_settles hinner _ hbody (by omega)).bind fun body v hv _ => ?_
    have hle := hv.later_le
    exact settles_expect (hv.within hbody) (by simp) fun _ _ _ => settles_pure (by omega)

theorem statementWith_advances (hinner : Advances all inner bound) :
    Advances all (statementWith inner) (bound + 1) := by
  intro s hs hlength
  refine settles_check (fun hk => declaration_settles hs ?_) fun _ => ?_
  · intro heof
    simp [heof] at hk
  refine settles_check (fun _ => function_advances hinner hs hlength) fun _ => ?_
  refine (expression_advances _ hs (Nat.lt_succ_self _)).bind fun n u hu hlt => ?_
  exact settles_accept (hu.within hs) (by simp) (fun _ _ _ => settles_pure (by omega))
    fun _ => settles_pure hlt

/-- Statements nested as deep as there are tokens end. -/
theorem nestedStatement_advances (depth : Nat) : Advances all (nestedStatement depth) depth := by
  induction depth with
  | zero =>
    intro s _ hlength
    omega
  | succ depth ih => exact statementWith_advances ih

theorem statement_advances (bound : Nat) : Advances all statement bound := by
  intro s hs _
  have hnested := nestedStatement_advances (s.later.length + 1) hs (Nat.lt_succ_self _)
  exact hnested.of_reaches (.refl s) rfl

theorem program_settles {s : TokenStream} (hs : s.Within all) :
    Settles all program s fun _ _ => True := by
  have hbody := statements_settles (statement_advances (s.later.length + 1)) [.eof] hs
    (Nat.lt_succ_self _)
  exact hbody.bind fun body t _ _ => settles_pure trivial

end Statements

end Parser

/-- Parsing tokens that hold an end token fails only on account of one of them. -/
theorem blamedOn_of_parseTokens {tokens : List Token} {failure : ParseFailure}
    (hend : ∃ x ∈ tokens, x.kind = .eof) (h : parseTokens tokens = .error failure) :
    failure.BlamedOn tokens := by
  obtain ⟨x, hx, hxk⟩ := hend
  have htokens : (TokenStream.ofTokens tokens).tokens = tokens := by
    cases tokens with
    | nil => simp at hx
    | cons token later => rfl
  have hwithin : (TokenStream.ofTokens tokens).Within tokens :=
    ⟨⟨x, htokens.symm ▸ hx, hxk⟩, by rw [htokens]; exact List.Subset.refl _⟩
  unfold parseTokens at h
  cases hp : Parser.program (.ofTokens tokens) with
  | ok n t =>
    rw [hp] at h
    cases h
  | error failure' t =>
    rw [hp] at h
    cases h
    exact ((Parser.program_settles hwithin).of_error hp).2

end Scriptlet
