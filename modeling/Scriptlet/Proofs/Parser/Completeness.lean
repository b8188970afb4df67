import Scriptlet.Proofs.Parser.Passage

/-!
# Whatever is in the grammar is parsed

A parser that stands before symbols that derive a tree answers with that tree
and passes just these symbols, provided that the symbol after them cannot
prolong the construct. Which symbols prolong a construct depends on its level,
and a parenthesis prolongs an expression unless it ends with a brace. As in the
other direction, each level is complete if the expressions inside it are, and
the induction is on the depth of nesting, which the number of tokens bounds.
-/

namespace Scriptlet.Parser

open Grammar TokenStream

section Follow

/-- Whether a symbol does not prolong a member. -/
def FollowsMember (x : Symbol) : Prop :=
  x.kind ≠ .dot ∧ x.kind ≠ .lsqb

/-- Whether a symbol does not prolong a call. -/
def FollowsCall (x : Symbol) : Prop :=
  FollowsMember x ∧ x.kind ≠ .lpar

/-- Whether a symbol does not prolong a product. -/
def FollowsProduct (x : Symbol) : Prop :=
  FollowsCall x ∧ ¬x.IsMultiplicative

/-- Whether a symbol does not prolong a sum. -/
def FollowsSum (x : Symbol) : Prop :=
  FollowsProduct x ∧ ¬x.IsAdditive

/-- Whether a symbol does not prolong what can be the target of an
assignment. -/
def FollowsTarget (w : List Symbol) (x : Symbol) : Prop :=
  x.kind ≠ .dot ∧ x.kind ≠ .lsqb ∧ x.kind ≠ .operator ∧ (x.kind = .lpar → Ends w (· = .rbrace))

/-- Whether a symbol does not prolong an expression. -/
def FollowsExpression (w : List Symbol) (x : Symbol) : Prop :=
  FollowsTarget w x ∧ x.kind ≠ .equals

/-- An operator of any level ends a call. -/
theorem followsCall_of_operator {x : Symbol} (hx : x.kind = .operator) : FollowsCall x := by
  simp [FollowsCall, FollowsMember, hx]

/-- An operator between terms ends a product. -/
theorem followsProduct_of_isAdditive {x : Symbol} (hx : x.IsAdditive) : FollowsProduct x := by
  refine ⟨followsCall_of_operator hx.1, fun hm => ?_⟩
  rcases hx.2 with h | h <;> simp [Symbol.IsMultiplicative, h] at hm

/-- What ends a target that is a sum ends the sum. -/
theorem FollowsTarget.followsSum {w : List Symbol} {n : Node} {x : Symbol} (h : FollowsTarget w x)
    (hs : Grammar.Sum w n) : FollowsSum x := by
  obtain ⟨hd, hl, ho, hp⟩ := h
  have hlpar : x.kind ≠ .lpar := fun hk => hs.not_ends_brace (hp hk)
  exact ⟨⟨⟨⟨hd, hl⟩, hlpar⟩, fun hm => ho hm.1⟩, fun ha => ho ha.1⟩

/-- A closing mark or a comma ends every expression. -/
theorem followsExpression_of_kind {x : Symbol} (w : List Symbol)
    (hx : x.kind = .rpar ∨ x.kind = .rsqb ∨ x.kind = .rbrace ∨ x.kind = .comma ∨ x.kind = .semi ∨
      x.kind = .eof) : FollowsExpression w x := by
  rcases hx with h | h | h | h | h | h <;> simp [FollowsExpression, FollowsTarget, h]

end Follow

/-- Whether a parser reads every expression that starts before the last `bound`
tokens. -/
def Complete (e : Parser Node) (bound : Nat) : Prop :=
  ∀ ⦃s t : TokenStream⦄ ⦃w : List Symbol⦄ ⦃n : Node⦄, s.later.length < bound → Expression w n →
    s.Passes w t → FollowsExpression w t.current.symbol → e s = .ok n t

section Expressions

variable {e : Parser Node} {bound : Nat}

theorem primary_complete (he : Complete e bound) {s t : TokenStream} {w : List Symbol} {n : Node}
    (hs : s.later.length ≤ bound) (h : Primary w n) (hw : s.Passes w t) :
    primary e s = .ok n t := by
  rw [primary_eq_ok_iff]
  cases h with
  | name hx =>
    obtain ⟨rfl, rfl⟩ := hw.of_singleton
    exact .inl ⟨hx, rfl, rfl⟩
  | number hx hv =>
    obtain ⟨rfl, rfl⟩ := hw.of_singleton
    exact .inr (.inl ⟨hx, _, hv, rfl, rfl⟩)
  | group hl hn hr =>
    have hlt := hw.next_later_lt
    obtain ⟨rfl, hinner⟩ := hw.of_cons
    obtain ⟨u, hu, hclose⟩ := hinner.of_append
    obtain ⟨rfl, rfl⟩ := hclose.of_singleton
    have hexpr := he (by omega) hn hu (followsExpression_of_kind _ (.inl hr))
    exact .inr (.inr ⟨hl, u, hexpr, hr, rfl⟩)

/-- Reading a member leads to the rounds after it. -/
theorem member_eq_of_rounds (he : Complete e bound) {s t u : TokenStream} {w : List Symbol}
    {n m : Node} (hs : s.later.length ≤ bound) (h : Member w n) (hw : s.Passes w t)
    (hrounds : Rounds (memberStep e) n t m u) : member e s = .ok m u := by
  match h with
  | .primary hp =>
    exact member_eq_ok_iff.2 ⟨n, t, primary_complete he hs hp hw, hrounds.loop_eq⟩
  | .field ho hd hp =>
    obtain ⟨r, hr, hv⟩ := hw.of_append
    have hle := hr.later_le
    have hlt := hv.next_later_lt
    obtain ⟨rfl, hname⟩ := hv.of_cons
    have hle' := hname.later_le
    have hfield := primary_complete he (by omega) hp hname
    exact member_eq_of_rounds he hs ho hr
      (.more (memberStep_eq_ok_iff.2 (.inl ⟨hd, _, hfield, rfl⟩)) (by omega) hrounds)
  | .index ho hl hp hr =>
    obtain ⟨r, hread, hv⟩ := hw.of_append
    have hle := hread.later_le
    have hlt := hv.next_later_lt
    obtain ⟨rfl, hkey⟩ := hv.of_cons
    have hle' := hkey.later_le
    obtain ⟨q, hq, hclose⟩ := hkey.of_append
    obtain ⟨rfl, rfl⟩ := hclose.of_singleton
    have hproperty := he (by omega) hp hq (followsExpression_of_kind _ (.inr (.inl hr)))
    exact member_eq_of_rounds he hs ho hread
      (.more (memberStep_eq_ok_iff.2 (.inr (.inl ⟨hl, _, _, hproperty, hr, rfl, rfl⟩))) (by omega)
        hrounds)

theorem member_complete (he : Complete e bound) {s t : TokenStream} {w : List Symbol} {n : Node}
    (hs : s.later.length ≤ bound) (h : Member w n) (hw : s.Passes w t)
    (hf : FollowsMember t.current.symbol) : member e s = .ok n t :=
  member_eq_of_rounds he hs h hw
    (.stop (memberStep_eq_ok_iff.2 (.inr (.inr ⟨hf.1, hf.2, rfl, rfl⟩))))

/-- Reading an argument leads to the rounds after it. -/
theorem argumentList_rounds (he : Complete e bound) {s t : TokenStream} {w : List Symbol}
    {arguments : List Node} (hs : s.later.length < bound) (h : ArgumentList w arguments)
    (hw : s.Passes w t) (hr : t.current.kind = .rpar) (collected : List Node) :
    ∃ first u, e s = .ok first u ∧ u.later.length ≤ s.later.length ∧
      Rounds (argumentStep e) (first :: collected) u (collected.reverse ++ arguments) t := by
  match h with
  | .last hn =>
    have hfirst := he hs hn hw (followsExpression_of_kind _ (.inl hr))
    refine ⟨_, t, hfirst, hw.later_le, .stop ?_⟩
    exact argumentStep_eq_ok_iff.2 (.inr ⟨by simp [hr], by simp, rfl⟩)
  | .more hn hc hrest =>
    obtain ⟨r, hread, hv⟩ := hw.of_append
    have hle := hread.later_le
    have hlt := hv.next_later_lt
    obtain ⟨rfl, hv'⟩ := hv.of_cons
    have hfirst := he hs hn hread
      (followsExpression_of_kind _ (.inr (.inr (.inr (.inl hc)))))
    obtain ⟨second, u, hu, hle', hrounds⟩ :=
      argumentList_rounds he (by omega) hrest hv' hr (_ :: collected)
    rw [List.reverse_cons, List.append_assoc] at hrounds
    exact ⟨_, r, hfirst, hle,
      .more (argumentStep_eq_ok_iff.2 (.inl ⟨hc, second, hu, rfl⟩)) (by omega) hrounds⟩

theorem arguments_complete (he : Complete e bound) {s t : TokenStream} {w : List Symbol}
    {arguments : List Node} (hs : s.later.length ≤ bound) (h : Arguments w arguments)
    (hw : s.Passes w t) : Parser.arguments e s = .ok arguments t := by
  rw [arguments_eq_ok_iff]
  cases h with
  | none hl hr =>
    obtain ⟨rfl, hw'⟩ := hw.of_cons
    obtain ⟨rfl, rfl⟩ := hw'.of_singleton
    exact ⟨hl, .inl ⟨hr, rfl, rfl⟩⟩
  | some hl hlist hr =>
    have hlt := hw.next_later_lt
    obtain ⟨rfl, hw'⟩ := hw.of_cons
    obtain ⟨u, hu, hclose⟩ := hw'.of_append
    obtain ⟨rfl, rfl⟩ := hclose.of_singleton
    have hne : s.next.current.kind ≠ .rpar := by
      have hstart := hu.current_of_starts hlist.starts
      intro hk
      simp [StartsExpression, StartsSum, hk] at hstart
    obtain ⟨first, r, hfirst, -, hrounds⟩ := argumentList_rounds he (by omega) hlist hu hr []
    exact ⟨hl, .inr ⟨hne, u, argumentList_eq_ok_iff.2 ⟨first, r, hfirst, hrounds.loop_eq⟩, hr, rfl⟩⟩

/-- Reading a call leads to the rounds after it, of which the first one is the test for
an argument list. -/
theorem callOrMember_eq_of_rounds (he : Complete e bound) {s t u : TokenStream} {w : List Symbol}
    {n m : Node} (hs : s.later.length ≤ bound) (h : Call w n) (hw : s.Passes w t)
    (hf : FollowsMember t.current.symbol) (hrounds : Rounds (callStep e) n t m u) :
    callOrMember e s = .ok m u := by
  match h with
  | .member hm =>
    have hmember := member_complete he hs hm hw hf
    refine callOrMember_eq_ok_iff.2 ⟨n, t, hmember, ?_⟩
    cases hrounds with
    | stop hstep =>
      rcases callStep_eq_ok_iff.1 hstep with ⟨-, -, -, ⟨⟩⟩ | ⟨hk, ⟨⟩, rfl⟩
      exact .inr ⟨hk, rfl, rfl⟩
    | more hstep _ hrest =>
      rcases callStep_eq_ok_iff.1 hstep with ⟨hk, arguments, ha, ⟨⟩⟩ | ⟨-, ⟨⟩, -⟩
      exact .inl ⟨hk, calls_eq_ok_iff.2 ⟨arguments, _, ha, hrest.loop_eq⟩⟩
  | .call hc ha =>
    obtain ⟨r, hread, hv⟩ := hw.of_append
    have hle := hread.later_le
    have hk : r.current.kind = .lpar := hv.current_of_starts ha.starts
    have hargs := arguments_complete he (by omega) ha hv
    have hlt : t.later.length < r.later.length := by
      obtain ⟨x, v, rfl, -⟩ := ha.starts
      have hlen := hv.length
      rw [List.length_cons] at hlen
      omega
    exact callOrMember_eq_of_rounds he hs hc hread (by simp [FollowsMember, hk])
      (.more (callStep_eq_ok_iff.2 (.inl ⟨hk, _, hargs, rfl⟩)) hlt hrounds)

theorem callOrMember_complete (he : Complete e bound) {s t : TokenStream} {w : List Symbol}
    {n : Node} (hs : s.later.length ≤ bound) (h : Call w n) (hw : s.Passes w t)
    (hf : FollowsCall t.current.symbol) : callOrMember e s = .ok n t :=
  callOrMember_eq_of_rounds he hs h hw hf.1
    (.stop (callStep_eq_ok_iff.2 (.inr ⟨hf.2, rfl, rfl⟩)))

/-- An operator and its operand make a round. -/
theorem operator_round {operand : Parser Node} {symbols : List String} {o : Symbol}
    {s t u : TokenStream} {v : List Symbol} {left right n : Node} (hv : s.Passes (o :: v) t)
    (ho : o.kind = .operator) (hsymbols : o.text ∈ symbols) (hright : operand s.next = .ok right t)
    (hrounds : Rounds (operatorStep symbols operand) (.binary left right o.text) t n u) :
    Rounds (operatorStep symbols operand) left s n u := by
  have hlt := hv.next_later_lt
  obtain ⟨rfl, hv'⟩ := hv.of_cons
  have hle := hv'.later_le
  exact .more (operatorStep_eq_ok_iff.2 (.inl ⟨ho, hsymbols, right, hright, rfl⟩)) (by omega)
    hrounds

/-- Reading a product leads to the rounds after it. -/
theorem product_eq_of_rounds (he : Complete e bound) {s t u : TokenStream} {w : List Symbol}
    {n m : Node} (hs : s.later.length ≤ bound) (h : Product w n) (hw : s.Passes w t)
    (hf : FollowsCall t.current.symbol)
    (hrounds : Rounds (operatorStep multiplicative (callOrMember e)) n t m u) :
    product e s = .ok m u := by
  match h with
  | .call hc =>
    have hfirst := callOrMember_complete he hs hc hw hf
    exact operation_eq_ok_iff.2 ⟨n, t, hfirst, hrounds.loop_eq⟩
  | .operator hl ho hr =>
    obtain ⟨r, hread, hv⟩ := hw.of_append
    have hle := hread.later_le
    have hlt := hv.next_later_lt
    obtain ⟨hsymbol, hv'⟩ := hv.of_cons
    have hright := callOrMember_complete he (by omega) hr hv' hf
    have hround := operator_round hv ho.1 (by simpa [multiplicative] using ho.2) hright hrounds
    exact product_eq_of_rounds he hs hl hread (hsymbol ▸ followsCall_of_operator ho.1) hround

theorem product_complete (he : Complete e bound) {s t : TokenStream} {w : List Symbol} {n : Node}
    (hs : s.later.length ≤ bound) (h : Product w n) (hw : s.Passes w t)
    (hf : FollowsProduct t.current.symbol) : product e s = .ok n t :=
  product_eq_of_rounds he hs h hw hf.1 (.stop (operatorStep_eq_ok_iff.2
    (.inr ⟨by simpa [Symbol.IsMultiplicative, multiplicative] using hf.2, rfl, rfl⟩)))

/-- Reading a sum leads to the rounds after it. -/
theorem sum_eq_of_rounds (he : Complete e bound) {s t u : TokenStream} {w : List Symbol}
    {n m : Node} (hs : s.later.length ≤ bound) (h : Grammar.Sum w n) (hw : s.Passes w t)
    (hf : FollowsProduct t.current.symbol)
    (hrounds : Rounds (operatorStep additive (product e)) n t m u) :
    sum e s = .ok m u := by
  match h with
  | .product hp =>
    have hfirst := product_complete he hs hp hw hf
    exact operation_eq_ok_iff.2 ⟨n, t, hfirst, hrounds.loop_eq⟩
  | .operator hl ho hr =>
    obtain ⟨r, hread, hv⟩ := hw.of_append
    have hle := hread.later_le
    have hlt := hv.next_later_lt
    obtain ⟨hsymbol, hv'⟩ := hv.of_cons
    have hright := product_complete he (by omega) hr hv' hf
    have hround := operator_round hv ho.1 (by simpa [additive] using ho.2) hright hrounds
    exact sum_eq_of_rounds he hs hl hread (hsymbol ▸ followsProduct_of_isAdditive ho) hround

theorem sum_complete (he : Complete e bound) {s t : TokenStream} {w : List Symbol} {n : Node}
    (hs : s.later.length ≤ bound) (h : Grammar.Sum w n) (hw : s.Passes w t)
    (hf : FollowsSum t.current.symbol) : sum e s = .ok n t :=
  sum_eq_of_rounds he hs h hw hf.1 (.stop (operatorStep_eq_ok_iff.2
    (.inr ⟨by simpa [Symbol.IsAdditive, additive] using hf.2, rfl, rfl⟩)))

/-- An entry and the comma after it, unless the object ends there, make a
round. -/
theorem entry_step (he : Complete e bound) {s t u : TokenStream} {w : List Symbol} {p : Property}
    (hs : s.later.length ≤ bound) (h : Entry w p) (hw : s.Passes w u)
    (hend : (u.current.kind = .comma ∧ t = u.next) ∨ (u.current.kind = .rbrace ∧ t = u))
    (collected : List Property) :
    propertyStep e collected s = .ok (.inl (p :: collected)) t := by
  rw [propertyStep_eq_ok_iff]
  cases h with
  | shorthand hk =>
    obtain ⟨rfl, rfl⟩ := hw.of_singleton
    exact .inr (.inl ⟨hk, rfl, hend⟩)
  | pair hk hc hn =>
    have hlt := hw.next_later_lt
    obtain ⟨rfl, hw'⟩ := hw.of_cons
    have hlt' := hw'.next_later_lt
    obtain ⟨rfl, hv⟩ := hw'.of_cons
    have hf : u.current.kind = .rbrace ∨ u.current.kind = .comma := by
      rcases hend with ⟨hu, -⟩ | ⟨hu, -⟩
      · exact .inr hu
      · exact .inl hu
    have hvalue := he (by omega) hn hv
      (followsExpression_of_kind _ (.inr (.inr (hf.imp_right .inl))))
    exact .inr (.inr ⟨hk, hc, _, u, hvalue, rfl, hend⟩)

/-- The entries of an object are read in rounds. -/
theorem entryList_rounds (he : Complete e bound) {s t : TokenStream} {w : List Symbol}
    {properties : List Property} (hs : s.later.length ≤ bound) (h : EntryList w properties)
    (hw : s.Passes w t) (hr : t.current.kind = .rbrace) (collected : List Property) :
    Rounds (propertyStep e) collected s (collected.reverse ++ properties) t := by
  have stop (collected : List Property) :
      Rounds (propertyStep e) collected t collected.reverse t :=
    .stop (propertyStep_eq_ok_iff.2 (.inl ⟨.inr hr, rfl, rfl⟩))
  match h with
  | .last hp =>
    have hstep := entry_step he hs hp hw (.inr ⟨hr, rfl⟩) collected
    have hlt : t.later.length < s.later.length := by
      obtain ⟨x, v, rfl, -⟩ := hp.starts
      have hlen := hw.length
      rw [List.length_cons] at hlen
      omega
    exact .more hstep hlt (by simpa using stop (_ :: collected))
  | .lastComma hp hc =>
    obtain ⟨r, hread, hv⟩ := hw.of_append
    have hle := hread.later_le
    have hlt := hv.next_later_lt
    obtain ⟨rfl, rfl⟩ := hv.of_singleton
    have hstep := entry_step he hs hp hread (.inl ⟨hc, rfl⟩) collected
    exact .more hstep (by omega) (by simpa using stop (_ :: collected))
  | .more (p := p) hp hc hrest =>
    obtain ⟨r, hread, hv⟩ := hw.of_append
    have hle := hread.later_le
    have hlt := hv.next_later_lt
    obtain ⟨rfl, hv'⟩ := hv.of_cons
    have hstep := entry_step he hs hp hread (.inl ⟨hc, rfl⟩) collected
    have hrounds := entryList_rounds he (by omega) hrest hv' hr (p :: collected)
    rw [List.reverse_cons, List.append_assoc] at hrounds
    exact .more hstep (by omega) hrounds

theorem objectOrSum_complete (he : Complete e bound) {s t : TokenStream} {w : List Symbol}
    {n : Node} (hs : s.later.length ≤ bound) (h : ObjectOrSum w n) (hw : s.Passes w t)
    (hf : FollowsTarget w t.current.symbol) : objectOrSum e s = .ok n t := by
  rw [objectOrSum_eq_ok_iff]
  cases h with
  | empty hl hr =>
    obtain ⟨rfl, hw'⟩ := hw.of_cons
    obtain ⟨rfl, rfl⟩ := hw'.of_singleton
    have hstop : Rounds (propertyStep e) [] s.next [] s.next :=
      .stop (propertyStep_eq_ok_iff.2 (.inl ⟨.inr hr, rfl, rfl⟩))
    exact .inl ⟨hl, [], s.next, hstop.loop_eq, hr, rfl, rfl⟩
  | object hl hlist hr =>
    have hlt := hw.next_later_lt
    obtain ⟨rfl, hw'⟩ := hw.of_cons
    obtain ⟨u, hu, hclose⟩ := hw'.of_append
    obtain ⟨rfl, rfl⟩ := hclose.of_singleton
    have hrounds := entryList_rounds he (by omega) hlist hu hr []
    exact .inl ⟨hl, _, u, hrounds.loop_eq, hr, rfl, rfl⟩
  | sum hsum =>
    have hne : s.current.kind ≠ .lbrace := by
      have hstart := hw.current_of_starts hsum.starts
      intro hk
      simp [StartsSum, hk] at hstart
    exact .inr ⟨hne, sum_complete he hs hsum hw (hf.followsSum hsum)⟩

/-- An assignment is complete for one more token than the expressions inside
it. -/
theorem assignment_complete (he : Complete e bound) : Complete (assignment e) (bound + 1) := by
  intro s t w n hs h hw hf
  rw [assignment_eq_ok_iff]
  cases h with
  | plain ho =>
    have hleft := objectOrSum_complete he (by omega) ho hw hf.1
    exact ⟨n, t, hleft, .inr ⟨hf.2, rfl, rfl⟩⟩
  | assignment ho hq hn =>
    obtain ⟨r, hread, hv⟩ := hw.of_append
    have hle := hread.later_le
    have hlt := hv.next_later_lt
    obtain ⟨rfl, hv'⟩ := hv.of_cons
    have hq' : r.current.kind = .equals := hq
    have hleft := objectOrSum_complete he (by omega) ho hread (by simp [FollowsTarget, hq'])
    obtain ⟨⟨hdot, hlsqb, hop, hlpar⟩, heq⟩ := hf
    have hends (hk : t.current.symbol.kind = .lpar) : Ends _ (· = .rbrace) :=
      ((hlpar hk).of_append (by simp)).of_append (w := [_]) hn.ends.ne_nil
    have hright := he (by omega) hn hv' ⟨⟨hdot, hlsqb, hop, hends⟩, heq⟩
    exact ⟨_, r, hleft, .inl ⟨hq, _, hright, rfl⟩⟩

end Expressions

/-- Expressions nested as deep as there are tokens are enough. -/
theorem nested_complete (depth : Nat) : Complete (nested depth) depth := by
  induction depth with
  | zero =>
    intro s t w n hs
    omega
  | succ depth ih => exact assignment_complete ih

theorem expression_complete (bound : Nat) : Complete expression bound :=
  fun s _ _ _ _ h hw hf => nested_complete (s.later.length + 1) (by omega) h hw hf

section Statements

/-- Whether a parser reads every statement that starts before the last `bound`
tokens. A statement without an end of its own is an expression that is neither
prolonged nor closed by the symbol after it. -/
def CompleteForStatements (inner : Parser Node) (bound : Nat) : Prop :=
  ∀ ⦃s t : TokenStream⦄ ⦃w : List Symbol⦄ ⦃n : Node⦄, s.later.length < bound → s.Passes w t →
    (Statement w n ∨
      (Expression w n ∧ FollowsExpression w t.current.symbol ∧ t.current.kind ≠ .semi)) →
        inner s = .ok n t

variable {inner : Parser Node} {bound : Nat}

/-- What follows an expression without a semicolon is the next statement, or
the end of the statements. -/
theorem followsExpression_of_statements {s t : TokenStream} {w v : List Symbol} {body : List Node}
    (hv : s.Passes v t) (hbody : Statements v body)
    (hstop : t.current.kind = .eof ∨ t.current.kind = .rbrace)
    (hside : Starts v (· = .lpar) → Ends w (· = .rbrace)) :
    FollowsExpression w s.current.symbol ∧ s.current.kind ≠ .semi := by
  rcases hbody.starts with rfl | hstart
  · obtain rfl := hv.unique (.refl s)
    rcases hstop with h | h <;> simp [FollowsExpression, FollowsTarget, h]
  · have hk := hv.current_of_starts hstart
    have hlpar (hk : s.current.kind = .lpar) : Ends w (· = .rbrace) := by
      obtain ⟨x, v, rfl, -⟩ := hstart
      obtain ⟨rfl, -⟩ := hv.of_cons
      exact hside ⟨_, v, rfl, hk⟩
    rcases hk with hk | hk | hk | (hk | hk | hk) | hk <;>
      simp [FollowsExpression, FollowsTarget, hk]
    exact hlpar hk

/-- A round reads a statement, which does not start with an end token or a
brace. -/
theorem statement_round {stops : List Kind} (hstops : ∀ k ∈ stops, k = .eof ∨ k = .rbrace)
    {s r t : TokenStream} {w : List Symbol} {n : Node} {collected body : List Node}
    (hread : s.Passes w r) (hstart : Starts w StartsStatement) (hn : inner s = .ok n r)
    (hrounds : Rounds (statementStep stops inner) (n :: collected) r
      ((n :: collected).reverse ++ body) t) :
    Rounds (statementStep stops inner) collected s (collected.reverse ++ n :: body) t := by
  have hnot : s.current.kind ∉ stops := by
    have hk := hread.current_of_starts hstart
    intro hmem
    rcases hstops _ hmem with h | h <;>
      simp [StartsStatement, StartsExpression, StartsSum, h] at hk
  obtain ⟨x, v, rfl, -⟩ := hstart
  have hlen := hread.length
  rw [List.length_cons] at hlen
  rw [List.reverse_cons, List.append_assoc] at hrounds
  exact .more (statementStep_eq_ok_iff.2 (.inr ⟨hnot, n, hn, rfl⟩)) (by omega) hrounds

/-- Statements are read in rounds. -/
theorem statements_rounds (hinner : CompleteForStatements inner bound) {s t : TokenStream}
    {w : List Symbol} {body : List Node} (hs : s.later.length < bound) (stops : List Kind)
    (hstops : ∀ k ∈ stops, k = .eof ∨ k = .rbrace) (h : Statements w body) (hw : s.Passes w t)
    (hend : t.current.kind ∈ stops) (collected : List Node) :
    Rounds (statementStep stops inner) collected s (collected.reverse ++ body) t := by
  match h with
  | .nil =>
    obtain rfl := hw.unique (.refl s)
    exact .stop (statementStep_eq_ok_iff.2 (.inl ⟨hend, by simp, rfl⟩))
  | .cons hn hrest =>
    obtain ⟨r, hread, hv⟩ := hw.of_append
    have hle := hread.later_le
    have hfirst := hinner hs hread (.inl hn)
    exact statement_round hstops hread hn.starts hfirst
      (statements_rounds hinner (by omega) stops hstops hrest hv hend _)
  | .bare hn hrest hside =>
    obtain ⟨r, hread, hv⟩ := hw.of_append
    have hle := hread.later_le
    have hf := followsExpression_of_statements hv hrest (hstops _ hend) hside
    have hfirst := hinner hs hread (.inr ⟨hn, hf⟩)
    exact statement_round hstops hread (hn.starts.imp fun _ hk => .inr (.inr (.inr hk))) hfirst
      (statements_rounds hinner (by omega) stops hstops hrest hv hend _)

/-- Names are read back from their uses. -/
theorem mapM_name?_map (names : List String) :
    (names.map Node.identifier).mapM Node.name? = some names := by
  induction names with
  | nil => rfl
  | cons name names ih => simp [List.mapM_cons, Node.name?, ih]

theorem initialized_complete {s t : TokenStream} {k x q d : Symbol} {w : List Symbol} {value : Node}
    (hx : x.kind = .ident) (hq : q.kind = .equals) (hn : Expression w value) (hd : d.kind = .semi)
    (hw : s.Passes (k :: x :: q :: (w ++ [d])) t) :
    declaration s = .ok (.declaration x.text (k.kind == .constWord) (some value)) t := by
  obtain ⟨rfl, hname⟩ := hw.of_cons
  obtain ⟨rfl, hequals⟩ := hname.of_cons
  obtain ⟨rfl, hvalue⟩ := hequals.of_cons
  obtain ⟨u, hu, hclose⟩ := hvalue.of_append
  obtain ⟨rfl, rfl⟩ := hclose.of_singleton
  have hexpr := expression_complete _ (Nat.lt_succ_self _) hn hu
    (followsExpression_of_kind _ (.inr (.inr (.inr (.inr (.inl hd))))))
  exact declaration_eq_ok_iff.2 ⟨hx, .inr ⟨hq, value, u, hexpr, hd, rfl, rfl⟩⟩

theorem function_complete (hinner : CompleteForStatements inner bound) {s t : TokenStream}
    {k x l r : Symbol} {w v : List Symbol} {names : List String} {body : List Node}
    (hs : s.later.length ≤ bound) (hk : k.kind = .fnWord) (hx : x.kind = .ident)
    (hargs : Arguments w (names.map .identifier)) (hl : l.kind = .lbrace)
    (hbody : Statements v body) (hr : r.kind = .rbrace)
    (hw : s.Passes (k :: x :: (w ++ l :: (v ++ [r]))) t) :
    function inner s = .ok (.function x.text names body) t := by
  have hlt := hw.next_later_lt
  obtain ⟨rfl, hname⟩ := hw.of_cons
  have hlt' := hname.next_later_lt
  obtain ⟨rfl, hrest⟩ := hname.of_cons
  obtain ⟨u, hu, hopen⟩ := hrest.of_append
  have hle := hu.later_le
  have hlt'' := hopen.next_later_lt
  obtain ⟨rfl, hinside⟩ := hopen.of_cons
  obtain ⟨q, hq, hclose⟩ := hinside.of_append
  obtain ⟨rfl, rfl⟩ := hclose.of_singleton
  have hparameters := arguments_complete (expression_complete _) (Nat.le_refl _) hargs hu
  have hrounds := statements_rounds hinner (by omega) [.eof, .rbrace] (by simp) hbody hq
    (by simp [← Token.symbol_kind, hr]) []
  exact function_eq_ok_iff.2 ⟨hk, hx, _, names, u, hparameters, mapM_name?_map names, hl, body, q,
    hrounds.loop_eq, hr, rfl, rfl⟩

/-- An expression is no declaration. -/
theorem statementWith_of_expression {s t u : TokenStream} {w : List Symbol} {n : Node}
    (hn : Expression w n) (hu : s.Passes w u) (hf : FollowsExpression w u.current.symbol)
    (hend : (u.current.kind = .semi ∧ t = u.next) ∨ (u.current.kind ≠ .semi ∧ t = u)) :
    statementWith inner s = .ok n t := by
  have hstart := hu.current_of_starts hn.starts
  have hne : s.current.kind ≠ .letWord ∧ s.current.kind ≠ .constWord ∧
      s.current.kind ≠ .fnWord := by
    rcases hstart with (hk | hk | hk) | hk <;> simp [hk]
  have hexpr := expression_complete _ (Nat.lt_succ_self _) hn hu hf
  exact statementWith_eq_ok_iff.2 (.inr (.inr ⟨hne.1, hne.2.1, hne.2.2, u, hexpr, hend⟩))

/-- A statement is complete for one more token than the statements inside it. -/
theorem statementWith_complete (hinner : CompleteForStatements inner bound) :
    CompleteForStatements (statementWith inner) (bound + 1) := by
  intro s t w n hs hw h
  rcases h with hclosed | ⟨hn, hf, hne⟩
  · cases hclosed with
    | uninitialized hk hx hd =>
      obtain ⟨rfl, hname⟩ := hw.of_cons
      obtain ⟨rfl, hsemi⟩ := hname.of_cons
      obtain ⟨rfl, rfl⟩ := hsemi.of_singleton
      have hne : s.current.kind ≠ .constWord := by simp [← Token.symbol_kind, hk]
      have hdecl := declaration_eq_ok_iff.2 ⟨hx, .inl ⟨hd, hne, rfl, rfl⟩⟩
      exact statementWith_eq_ok_iff.2 (.inl ⟨.inl hk, hdecl⟩)
    | initialized hk hx hq hn hd =>
      have hdecl := initialized_complete hx hq hn hd hw
      rw [hk] at hdecl
      obtain ⟨rfl, -⟩ := hw.of_cons
      exact statementWith_eq_ok_iff.2 (.inl ⟨.inl hk, hdecl⟩)
    | constant hk hx hq hn hd =>
      have hdecl := initialized_complete hx hq hn hd hw
      rw [hk] at hdecl
      obtain ⟨rfl, -⟩ := hw.of_cons
      exact statementWith_eq_ok_iff.2 (.inl ⟨.inr hk, hdecl⟩)
    | function hk hx hargs hl hbody hr =>
      have hfunction := function_complete hinner (by omega) hk hx hargs hl hbody hr hw
      obtain ⟨rfl, -⟩ := hw.of_cons
      exact statementWith_eq_ok_iff.2 (.inr (.inl ⟨hk, hfunction⟩))
    | closed hn hd =>
      obtain ⟨u, hu, hclose⟩ := hw.of_append
      obtain ⟨rfl, rfl⟩ := hclose.of_singleton
      exact statementWith_of_expression hn hu
        (followsExpression_of_kind _ (.inr (.inr (.inr (.inr (.inl hd)))))) (.inl ⟨hd, rfl⟩)
  · exact statementWith_of_expression hn hw hf (.inr ⟨hne, rfl⟩)

/-- Statements nested as deep as there are tokens are enough. -/
theorem nestedStatement_complete (depth : Nat) :
    CompleteForStatements (nestedStatement depth) depth := by
  induction depth with
  | zero =>
    intro s t w n hs
    omega
  | succ depth ih => exact statementWith_complete ih

theorem statement_complete (bound : Nat) : CompleteForStatements statement bound :=
  fun s _ _ _ _ hw h => nestedStatement_complete (s.later.length + 1) (by omega) hw h

theorem program_complete {s t : TokenStream} {w : List Symbol} {n : Node} (h : Program w n)
    (hw : s.Passes w t) (hend : t.current.kind = .eof) : program s = .ok n t := by
  cases h with
  | statements hbody =>
    have hrounds := statements_rounds (statement_complete _) (Nat.lt_succ_self _) [.eof] (by simp)
      hbody hw (by simp [hend]) []
    exact program_eq_ok_iff.2 ⟨_, hrounds.loop_eq, rfl⟩

end Statements

end Scriptlet.Parser
