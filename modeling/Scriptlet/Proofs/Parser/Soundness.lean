import Scriptlet.Proofs.Parser.Passage

/-!
# Whatever is parsed is in the grammar

A parser is sound for a relation if the symbols that it reads are always
related to its answer. The parser of each level of expressions is sound for
the relation of that level as soon as the parser of the expressions inside it
is, so soundness of the whole follows by induction on the depth of nesting.
The relations also tell the kind of the token after what is read: a sum is
never left before a parenthesis, which would be read as an argument list.
-/

namespace Scriptlet.Parser

open Grammar TokenStream

/-- Whether the symbols that a parser reads and the kind of the token after them
are always related to its answer. -/
def Sound {α : Type} (p : Parser α) (D : List Symbol → α → Kind → Prop) : Prop :=
  ∀ ⦃s t : TokenStream⦄ ⦃a : α⦄, s.Terminated → p s = .ok a t →
    ∃ w, s.Reads w t ∧ D w a t.current.kind

/-- An expression that is read completely: a parenthesis after it is not part of
it. -/
def CompleteExpression (w : List Symbol) (n : Node) (k : Kind) : Prop :=
  Expression w n ∧ (k = .lpar → Ends w (· = .rbrace))

section Expressions

variable {e : Parser Node}

theorem primary_sound (he : Sound e CompleteExpression) :
    Sound (primary e) fun w n _ => Primary w n := by
  intro s t n hs h
  rcases primary_eq_ok_iff.1 h with ⟨hk, rfl, rfl⟩ | ⟨hk, value, hv, rfl, rfl⟩ | ⟨hk, u, hu, hr, rfl⟩
  · exact ⟨_, hs.reads_next (by simp [hk]), .name hk⟩
  · exact ⟨_, hs.reads_next (by simp [hk]), .number hk hv⟩
  · have hne : s.current.kind ≠ .eof := by simp [hk]
    obtain ⟨w, hw, hn, -⟩ := he (hs.next hne) hu
    exact ⟨_, hs.reads_cons hne (hw.concat (by simp [hr])), .group hk hn hr⟩

theorem member_sound (he : Sound e CompleteExpression) :
    Sound (member e) fun w n _ => Member w n := by
  intro s t n hs h
  obtain ⟨object, u, hu, hl⟩ := member_eq_ok_iff.1 h
  obtain ⟨w, hw, ho⟩ := primary_sound he hs hu
  refine loop_invariant (I := fun object u => ∃ w, s.Reads w u ∧ Member w object)
    (Q := fun n t => ∃ w, s.Reads w t ∧ Member w n) ?_ ?_ hl ⟨w, hw, .primary ho⟩
  · rintro object u n t ⟨w, hw, ho⟩ hstep
    rcases memberStep_eq_ok_iff.1 hstep with ⟨-, -, -, ⟨⟩⟩ | ⟨-, -, -, -, -, ⟨⟩, -⟩ | ⟨-, -, ⟨⟩, rfl⟩
    exact ⟨w, hw, ho⟩
  · rintro object object' u u' ⟨w, hw, ho⟩ hstep
    rcases memberStep_eq_ok_iff.1 hstep with
      ⟨hk, name, hp, ⟨⟩⟩ | ⟨hk, property, u, hu, hr, ⟨⟩, rfl⟩ | ⟨-, -, ⟨⟩, -⟩
    · have hd := hw.concat (by simp [hk])
      obtain ⟨v, hv, hn⟩ := primary_sound he hd.terminated hp
      have hread := hd.trans hv
      rw [List.append_assoc] at hread
      exact ⟨_, hread, ho.field hk hn⟩
    · have hd := hw.concat (by simp [hk])
      obtain ⟨v, hv, hn, -⟩ := he hd.terminated hu
      have hread := hd.trans (hv.concat (by simp [hr]))
      rw [List.append_assoc] at hread
      exact ⟨_, hread, ho.index hk hn hr⟩

/-- The arguments after the first one are separated by commas. -/
theorem argumentLoop_sound (he : Sound e CompleteExpression) {s t : TokenStream}
    {collected arguments : List Node}
    (h : loop (argumentStep e) collected s = .ok arguments t) (hs : s.Terminated)
    {w : List Symbol} {n : Node} (hn : Expression w n) :
    ∃ v rest, s.Reads v t ∧ arguments = collected.reverse ++ rest ∧
      ArgumentList (w ++ v) (n :: rest) := by
  refine iterate_induct (P := fun collected s arguments t => s.Terminated →
    ∀ {w : List Symbol} {n : Node}, Expression w n → ∃ v rest, s.Reads v t ∧
      arguments = collected.reverse ++ rest ∧ ArgumentList (w ++ v) (n :: rest)) ?_ ?_ h hs hn
  · intro collected s arguments t hstep hs w n hn
    rcases argumentStep_eq_ok_iff.1 hstep with ⟨-, -, -, ⟨⟩⟩ | ⟨-, ⟨⟩, rfl⟩
    exact ⟨[], [], hs.reads, by simp, by simpa using .last hn⟩
  · intro collected collected' s s' arguments t hstep ih hs w n hn
    rcases argumentStep_eq_ok_iff.1 hstep with ⟨hk, m, hm, ⟨⟩⟩ | ⟨-, ⟨⟩, -⟩
    have hne : s.current.kind ≠ .eof := by simp [hk]
    obtain ⟨v, hv, hm, -⟩ := he (hs.next hne) hm
    obtain ⟨v', rest, hv', rfl, hl⟩ := ih hv.terminated hm
    exact ⟨_, m :: rest, hs.reads_cons hne (hv.trans hv'), by simp, .more hn hk hl⟩

theorem arguments_sound (he : Sound e CompleteExpression) :
    Sound (Parser.arguments e) fun w arguments _ => Arguments w arguments := by
  intro s t arguments hs h
  obtain ⟨hl, h⟩ := arguments_eq_ok_iff.1 h
  have hne : s.current.kind ≠ .eof := by simp [hl]
  have hs' := hs.next hne
  rcases h with ⟨hr, rfl, rfl⟩ | ⟨-, u, hu, hr, rfl⟩
  · exact ⟨_, hs.reads_cons hne (hs'.reads_next (by simp [hr])), .none hl hr⟩
  · obtain ⟨first, u', hu', hloop⟩ := argumentList_eq_ok_iff.1 hu
    obtain ⟨w, hw, hn, -⟩ := he hs' hu'
    obtain ⟨v, rest, hv, rfl, hlist⟩ := argumentLoop_sound he hloop hw.terminated hn
    exact ⟨_, hs.reads_cons hne ((hw.trans hv).concat (by simp [hr])), .some hl hlist hr⟩

/-- Calls go on as long as an argument list follows. -/
theorem callLoop_sound (he : Sound e CompleteExpression) {r s t : TokenStream} {callee n : Node}
    {w : List Symbol} (hw : r.Reads w s) (hc : Call w callee)
    (h : loop (callStep e) callee s = .ok n t) :
    ∃ v, r.Reads v t ∧ Call v n ∧ t.current.kind ≠ .lpar := by
  refine loop_invariant (I := fun callee s => ∃ w, r.Reads w s ∧ Call w callee)
    (Q := fun n t => ∃ v, r.Reads v t ∧ Call v n ∧ t.current.kind ≠ .lpar) ?_ ?_ h ⟨w, hw, hc⟩
  · rintro callee s n t ⟨w, hw, hc⟩ hstep
    rcases callStep_eq_ok_iff.1 hstep with ⟨-, -, -, ⟨⟩⟩ | ⟨hk, ⟨⟩, rfl⟩
    exact ⟨w, hw, hc, hk⟩
  · rintro callee callee' s s' ⟨w, hw, hc⟩ hstep
    rcases callStep_eq_ok_iff.1 hstep with ⟨-, arguments, ha, ⟨⟩⟩ | ⟨-, ⟨⟩, -⟩
    obtain ⟨v, hv, hargs⟩ := arguments_sound he hw.terminated ha
    exact ⟨_, hw.trans hv, hc.call hargs⟩

theorem callOrMember_sound (he : Sound e CompleteExpression) :
    Sound (callOrMember e) fun w n k => Call w n ∧ k ≠ .lpar := by
  intro s t n hs h
  obtain ⟨callee, u, hu, h⟩ := callOrMember_eq_ok_iff.1 h
  obtain ⟨w, hw, hm⟩ := member_sound he hs hu
  rcases h with ⟨-, hcalls⟩ | ⟨hk, rfl, rfl⟩
  · obtain ⟨arguments, u', hu', hloop⟩ := calls_eq_ok_iff.1 hcalls
    obtain ⟨v, hv, hargs⟩ := arguments_sound he hw.terminated hu'
    exact callLoop_sound he (hw.trans hv) (.call (.member hm) hargs) hloop
  · exact ⟨w, hw, .member hm, hk⟩

/-- An operator groups what is read before it and the operand after it. -/
theorem operation_sound {operand : Parser Node} {symbols : List String}
    {Operand Operation : List Symbol → Node → Prop}
    (hoperand : Sound operand fun w n k => Operand w n ∧ k ≠ .lpar)
    (first : ∀ {w n}, Operand w n → Operation w n)
    (more : ∀ {o : Symbol} {w v left right}, Operation w left →
      o.kind = .operator → o.text ∈ symbols → Operand v right →
        Operation (w ++ o :: v) (.binary left right o.text)) :
    Sound (operation symbols operand) fun w n k => Operation w n ∧ k ≠ .lpar := by
  intro s t n hs h
  obtain ⟨left, u, hu, hl⟩ := operation_eq_ok_iff.1 h
  obtain ⟨w, hw, ho, hk⟩ := hoperand hs hu
  let Read (left : Node) (u : TokenStream) : Prop :=
    ∃ w, s.Reads w u ∧ Operation w left ∧ u.current.kind ≠ .lpar
  refine loop_invariant (I := Read) (Q := Read) ?_ ?_ hl ⟨w, hw, first ho, hk⟩
  · rintro left u n t ⟨w, hw, ho, hk⟩ hstep
    rcases operatorStep_eq_ok_iff.1 hstep with ⟨-, -, -, -, ⟨⟩⟩ | ⟨-, ⟨⟩, rfl⟩
    exact ⟨w, hw, ho, hk⟩
  · rintro left left' u u' ⟨w, hw, ho, -⟩ hstep
    rcases operatorStep_eq_ok_iff.1 hstep with ⟨hop, hsym, right, hright, ⟨⟩⟩ | ⟨-, ⟨⟩, -⟩
    have hd := hw.concat (by simp [hop])
    obtain ⟨v, hv, hr, hk⟩ := hoperand hd.terminated hright
    have hread := hd.trans hv
    rw [List.append_assoc] at hread
    exact ⟨_, hread, more ho hop hsym hr, hk⟩

theorem product_sound (he : Sound e CompleteExpression) :
    Sound (product e) fun w n k => Product w n ∧ k ≠ .lpar :=
  operation_sound (callOrMember_sound he) .call fun hl hk hs hr =>
    .operator hl ⟨hk, by simpa [multiplicative] using hs⟩ hr

theorem sum_sound (he : Sound e CompleteExpression) :
    Sound (sum e) fun w n k => Grammar.Sum w n ∧ k ≠ .lpar :=
  operation_sound (product_sound he) .product fun hl hk hs hr =>
    .operator hl ⟨hk, by simpa [additive] using hs⟩ hr

/-- The properties of an object are separated by commas: a round reads an entry and the
comma after it, unless the object ends there. -/
theorem propertyLoop_sound (he : Sound e CompleteExpression) {s t : TokenStream}
    {collected properties : List Property} (hs : s.Terminated)
    (h : loop (propertyStep e) collected s = .ok properties t) :
    ∃ w rest, s.Reads w t ∧ properties = collected.reverse ++ rest ∧
      ((w = [] ∧ rest = []) ∨ (s.current.kind = .ident ∧ EntryList w rest)) := by
  refine iterate_induct (P := fun collected s properties t => s.Terminated →
    ∃ w rest, s.Reads w t ∧ properties = collected.reverse ++ rest ∧
      ((w = [] ∧ rest = []) ∨ (s.current.kind = .ident ∧ EntryList w rest))) ?_ ?_ h hs
  · intro collected s properties t hstep hs
    rcases propertyStep_eq_ok_iff.1 hstep with
      ⟨-, ⟨⟩, rfl⟩ | ⟨-, ⟨⟩, -⟩ | ⟨-, -, -, -, -, ⟨⟩, -⟩
    exact ⟨[], [], hs.reads, by simp, .inl ⟨rfl, rfl⟩⟩
  · intro collected collected' s s' properties t hstep ih hs
    have entry : ∃ w u p, s.Reads w u ∧ Entry w p ∧ s.current.kind = .ident ∧
        collected' = p :: collected ∧
          ((u.current.kind = .comma ∧ s' = u.next) ∨ (u.current.kind = .rbrace ∧ s' = u)) := by
      rcases propertyStep_eq_ok_iff.1 hstep with
        ⟨-, ⟨⟩, -⟩ | ⟨hk, ⟨⟩, hend⟩ | ⟨hk, hc, value, u, hu, ⟨⟩, hend⟩
      · exact ⟨_, _, _, hs.reads_next (by simp [hk]), .shorthand hk, hk, rfl, hend⟩
      · have hs' := hs.next (by simp [hk])
        obtain ⟨w, hw, hn, -⟩ := he (hs'.next (by simp [hc])) hu
        exact ⟨_, _, _, hs.reads_cons (by simp [hk]) (hs'.reads_cons (by simp [hc]) hw),
          .pair hk hc hn, hk, rfl, hend⟩
    obtain ⟨w, u, p, hw, hp, hk, rfl, hend⟩ := entry
    rcases hend with ⟨hc, rfl⟩ | ⟨hb, rfl⟩
    · have hw' := hw.concat (by simp [hc])
      obtain ⟨v, rest, hv, rfl, hrest⟩ := ih hw'.terminated
      have hread := hw'.trans hv
      rw [List.append_assoc] at hread
      refine ⟨_, p :: rest, hread, by simp, .inr ⟨hk, ?_⟩⟩
      rcases hrest with ⟨rfl, rfl⟩ | ⟨-, hl⟩
      · exact .lastComma hp hc
      · exact .more hp hc hl
    · obtain ⟨v, rest, hv, rfl, hrest⟩ := ih hw.terminated
      rcases hrest with ⟨rfl, rfl⟩ | ⟨hi, -⟩
      · refine ⟨_, [p], hw.trans hv, by simp, .inr ⟨hk, ?_⟩⟩
        rw [List.append_nil]
        exact .last hp
      · simp [hb] at hi

theorem objectOrSum_sound (he : Sound e CompleteExpression) :
    Sound (objectOrSum e) fun w n k => ObjectOrSum w n ∧ (k = .lpar → Ends w (· = .rbrace)) := by
  intro s t n hs h
  rcases objectOrSum_eq_ok_iff.1 h with ⟨hl, properties, u, hu, hr, rfl, rfl⟩ | ⟨-, hsum⟩
  · have hne : s.current.kind ≠ .eof := by simp [hl]
    obtain ⟨w, rest, hw, rfl, hrest⟩ := propertyLoop_sound he (hs.next hne) hu
    have hread := hs.reads_cons hne (hw.concat (by simp [hr]))
    refine ⟨_, hread, ?_, fun _ => (ends_concat w hr).cons _⟩
    rcases hrest with ⟨rfl, rfl⟩ | ⟨-, hlist⟩
    · exact .empty hl hr
    · exact .object hl hlist hr
  · obtain ⟨w, hw, hn, hk⟩ := sum_sound he hs hsum
    exact ⟨w, hw, .sum hn, fun hlpar => absurd hlpar hk⟩

theorem assignment_sound (he : Sound e CompleteExpression) :
    Sound (assignment e) CompleteExpression := by
  intro s t n hs h
  obtain ⟨left, u, hu, h⟩ := assignment_eq_ok_iff.1 h
  obtain ⟨w, hw, ho, hb⟩ := objectOrSum_sound he hs hu
  rcases h with ⟨hk, value, hv, rfl⟩ | ⟨-, rfl, rfl⟩
  · have hw' := hw.concat (by simp [hk])
    obtain ⟨v, hv, hn, hb'⟩ := he hw'.terminated hv
    have hread := hw'.trans hv
    rw [List.append_assoc] at hread
    exact ⟨_, hread, .assignment ho hk hn, fun hlpar => ((hb' hlpar).cons _).append _⟩
  · exact ⟨w, hw, .plain ho, hb⟩

end Expressions

/-- Expressions are sound at every depth of nesting. -/
theorem nested_sound (depth : Nat) : Sound (nested depth) CompleteExpression := by
  induction depth with
  | zero =>
    intro s t n _ h
    rw [nested, throw_apply] at h
    simp at h
  | succ depth ih => exact assignment_sound ih

theorem expression_sound : Sound expression CompleteExpression :=
  fun s _ _ hs h => nested_sound (s.later.length + 1) hs h

section Statements

/-- A statement that is read completely. -/
def CompleteStatement (w : List Symbol) (n : Node) (k : Kind) : Prop :=
  Statement w n ∨ CompleteExpression w n k

variable {inner : Parser Node}

theorem declaration_sound {s t : TokenStream} {n : Node} (hs : s.Terminated)
    (hk : s.current.kind = .letWord ∨ s.current.kind = .constWord) (h : declaration s = .ok n t) :
    ∃ w, s.Reads w t ∧ Statement w n := by
  obtain ⟨hi, h⟩ := declaration_eq_ok_iff.1 h
  have hne : s.current.kind ≠ .eof := by rcases hk with hk | hk <;> simp [hk]
  have hnext := hs.next hne
  have hname := hnext.next (by simp [hi])
  rcases h with ⟨he, hc, rfl, rfl⟩ | ⟨hq, value, u, hu, he, rfl, rfl⟩
  · refine ⟨_, hs.reads_cons hne (hnext.reads_cons (by simp [hi])
      (hname.reads_next (by simp [he]))), ?_⟩
    exact .uninitialized (hk.resolve_right hc) hi he
  · obtain ⟨w, hw, hv, -⟩ := expression_sound (hname.next (by simp [hq])) hu
    refine ⟨_, hs.reads_cons hne (hnext.reads_cons (by simp [hi]) (hname.reads_cons (by simp [hq])
      (hw.concat (by simp [he])))), ?_⟩
    rcases hk with hk | hk
    · rw [hk]
      exact .initialized hk hi hq hv he
    · rw [hk]
      exact .constant hk hi hq hv he

/-- Statements go on up to a token of one of the kinds. -/
theorem statements_sound (hinner : Sound inner CompleteStatement) (stops : List Kind) :
    Sound (statements stops inner) fun w body k => Statements w body ∧ k ∈ stops := by
  intro s t body hs h
  have hall : ∃ w rest, s.Reads w t ∧ body = [].reverse ++ rest ∧ Statements w rest ∧
      t.current.kind ∈ stops := by
    refine iterate_induct (P := fun collected s body t => s.Terminated →
      ∃ w rest, s.Reads w t ∧ body = collected.reverse ++ rest ∧ Statements w rest ∧
        t.current.kind ∈ stops) ?_ ?_ h hs
    · intro collected s body t hstep hs
      rcases statementStep_eq_ok_iff.1 hstep with ⟨hk, ⟨⟩, rfl⟩ | ⟨-, -, -, ⟨⟩⟩
      exact ⟨[], [], hs.reads, by simp, .nil, hk⟩
    · intro collected collected' s s' body t hstep ih hs
      rcases statementStep_eq_ok_iff.1 hstep with ⟨-, ⟨⟩, -⟩ | ⟨-, n, hn, ⟨⟩⟩
      obtain ⟨w, hw, hstatement⟩ := hinner hs hn
      obtain ⟨v, rest, hv, rfl, hrest, hk⟩ := ih hw.terminated
      refine ⟨_, n :: rest, hw.trans hv, by simp, ?_, hk⟩
      rcases hstatement with hclosed | ⟨hbare, hb⟩
      · exact .cons hclosed hrest
      · refine .bare hbare hrest ?_
        rintro ⟨x, v', rfl, hx⟩
        obtain ⟨rfl, -⟩ := hv.passes.of_cons
        exact hb hx
  obtain ⟨w, rest, hw, rfl, hrest, hk⟩ := hall
  exact ⟨w, hw, hrest, hk⟩

/-- Parameters that are names are written as the uses of these names. -/
theorem eq_map_of_mapM_name? {parameters : List Node} {names : List String}
    (h : parameters.mapM Node.name? = some names) : parameters = names.map .identifier := by
  induction parameters generalizing names with
  | nil =>
    simp at h
    simp [← h]
  | cons n parameters ih =>
    simp only [List.mapM_cons, Option.bind_eq_bind, Option.bind_eq_some_iff] at h
    obtain ⟨name, hn, rest, hrest, h⟩ := h
    cases n <;> simp [Node.name?] at hn
    cases h
    rw [List.map_cons, ih hrest, hn]

theorem function_sound (hinner : Sound inner CompleteStatement) {s t : TokenStream} {n : Node}
    (hs : s.Terminated) (h : function inner s = .ok n t) :
    ∃ w, s.Reads w t ∧ Statement w n := by
  obtain ⟨hf, hi, parameters, names, u, hu, hm, hl, body, v, hv, hr, rfl, rfl⟩ :=
    function_eq_ok_iff.1 h
  have hnext := hs.next (by simp [hf])
  obtain ⟨w, hw, hargs⟩ := arguments_sound expression_sound (hnext.next (by simp [hi])) hu
  rw [eq_map_of_mapM_name? hm] at hargs
  have hw' := hw.concat (by simp [hl])
  obtain ⟨v, hv, hbody, -⟩ := statements_sound hinner _ hw'.terminated hv
  have hread := hw'.trans (hv.concat (by simp [hr]))
  rw [List.append_assoc] at hread
  exact ⟨_, hs.reads_cons (by simp [hf]) (hnext.reads_cons (by simp [hi]) hread),
    .function hf hi hargs hl hbody hr⟩

theorem statementWith_sound (hinner : Sound inner CompleteStatement) :
    Sound (statementWith inner) CompleteStatement := by
  intro s t n hs h
  rcases statementWith_eq_ok_iff.1 h with ⟨hk, hd⟩ | ⟨-, hf⟩ | ⟨-, -, -, u, hu, hend⟩
  · obtain ⟨w, hw, hn⟩ := declaration_sound hs hk hd
    exact ⟨w, hw, .inl hn⟩
  · obtain ⟨w, hw, hn⟩ := function_sound hinner hs hf
    exact ⟨w, hw, .inl hn⟩
  · obtain ⟨w, hw, hn⟩ := expression_sound hs hu
    rcases hend with ⟨he, rfl⟩ | ⟨-, rfl⟩
    · exact ⟨_, hw.concat (by simp [he]), .inl (.closed hn.1 he)⟩
    · exact ⟨w, hw, .inr hn⟩

/-- Statements are sound at every depth of nesting. -/
theorem nestedStatement_sound (depth : Nat) : Sound (nestedStatement depth) CompleteStatement := by
  induction depth with
  | zero =>
    intro s t n _ h
    rw [nestedStatement, throw_apply] at h
    simp at h
  | succ depth ih => exact statementWith_sound ih

theorem statement_sound : Sound statement CompleteStatement :=
  fun s _ _ hs h => nestedStatement_sound (s.later.length + 1) hs h

theorem program_sound : Sound program fun w n k => Program w n ∧ k = .eof := by
  intro s t n hs h
  obtain ⟨body, hbody, rfl⟩ := program_eq_ok_iff.1 h
  obtain ⟨w, hw, hstatements, hk⟩ := statements_sound statement_sound _ hs hbody
  exact ⟨w, hw, .statements hstatements, List.mem_singleton.1 hk⟩

end Statements

end Scriptlet.Parser
