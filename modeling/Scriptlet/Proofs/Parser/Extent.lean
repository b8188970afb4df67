import Scriptlet.Proofs.Parser.Language
import Scriptlet.Proofs.Parser.Transfer
import Scriptlet.Proofs.Token.Cutting

/-!
# How far parsing reads

Parsing reads a list of tokens up to its first end token at most. A program ends
there, and a complaint is settled by the tokens up to the place where parsing
has stopped; what comes after does not matter. A list without an end token
spells no program.
-/

namespace Scriptlet

namespace TokenStream

/-- An end token that is to come after the current token is to come. -/
theorem Terminated.of_next {s : TokenStream} (h : s.next.Terminated) : s.Terminated := by
  obtain ⟨index, current, later⟩ := s
  cases later with
  | nil => exact h
  | cons token later =>
    obtain ⟨x, hx, hk⟩ := h
    exact ⟨x, List.mem_cons_of_mem current hx, hk⟩

end TokenStream

namespace Parser

open TokenStream

section Unended

/-- Whether an end token that is to come after a success was to come before it. -/
def BringsNoEnd {α : Type} (p : Parser α) : Prop :=
  ∀ ⦃s t : TokenStream⦄ ⦃a : α⦄, p s = .ok a t → t.Terminated → s.Terminated

variable {α β : Type} {e operand inner : Parser Node}

/-- A loop brings no end token if no round of it does. -/
theorem loop_bringsNoEnd {step : α → Parser (α ⊕ β)} (h : ∀ a, BringsNoEnd (step a)) (a : α) :
    BringsNoEnd (loop step a) := by
  intro s t b hloop
  refine iterate_induct (P := fun _ s _ t => t.Terminated → s.Terminated) ?_ ?_ hloop
  · intro a s b t hstep
    exact h a hstep
  · intro a a' s s' b t hstep ih ht
    exact h a hstep (ih ht)

theorem primary_bringsNoEnd (he : BringsNoEnd e) : BringsNoEnd (primary e) := by
  intro s t n h ht
  rcases primary_eq_ok_iff.1 h with ⟨-, -, rfl⟩ | ⟨-, _, -, -, rfl⟩ | ⟨-, u, hu, -, rfl⟩
  · exact ht.of_next
  · exact ht.of_next
  · exact (he hu ht.of_next).of_next

theorem member_bringsNoEnd (he : BringsNoEnd e) : BringsNoEnd (member e) := by
  intro s t n h ht
  obtain ⟨object, u, hu, hloop⟩ := member_eq_ok_iff.1 h
  refine primary_bringsNoEnd he hu (loop_bringsNoEnd (fun object s t r hr ht => ?_) _ hloop ht)
  rcases memberStep_eq_ok_iff.1 hr with ⟨-, _, hname, -⟩ | ⟨-, _, v, hv, -, -, rfl⟩ |
    ⟨-, -, -, rfl⟩
  · exact (primary_bringsNoEnd he hname ht).of_next
  · exact (he hv ht.of_next).of_next
  · exact ht

theorem arguments_bringsNoEnd (he : BringsNoEnd e) : BringsNoEnd (Parser.arguments e) := by
  intro s t collected h ht
  obtain ⟨-, ⟨-, -, rfl⟩ | ⟨-, u, hu, -, rfl⟩⟩ := arguments_eq_ok_iff.1 h
  · exact ht.of_next.of_next
  · obtain ⟨first, v, hv, hloop⟩ := argumentList_eq_ok_iff.1 hu
    refine (he hv (loop_bringsNoEnd (fun collected s t r hr ht => ?_) _ hloop ht.of_next)).of_next
    rcases argumentStep_eq_ok_iff.1 hr with ⟨-, n, hn, -⟩ | ⟨-, -, rfl⟩
    · exact (he hn ht).of_next
    · exact ht

theorem callOrMember_bringsNoEnd (he : BringsNoEnd e) : BringsNoEnd (callOrMember e) := by
  intro s t n h ht
  obtain ⟨callee, u, hu, ⟨-, hcalls⟩ | ⟨-, -, rfl⟩⟩ := callOrMember_eq_ok_iff.1 h
  · obtain ⟨arguments, v, hv, hloop⟩ := calls_eq_ok_iff.1 hcalls
    refine member_bringsNoEnd he hu (arguments_bringsNoEnd he hv
      (loop_bringsNoEnd (fun callee s t r hr ht => ?_) _ hloop ht))
    rcases callStep_eq_ok_iff.1 hr with ⟨-, arguments, hw, -⟩ | ⟨-, -, rfl⟩
    · exact arguments_bringsNoEnd he hw ht
    · exact ht
  · exact member_bringsNoEnd he hu ht

theorem operation_bringsNoEnd (hoperand : BringsNoEnd operand) (symbols : List String) :
    BringsNoEnd (operation symbols operand) := by
  intro s t n h ht
  obtain ⟨left, u, hu, hloop⟩ := operation_eq_ok_iff.1 h
  refine hoperand hu (loop_bringsNoEnd (fun left s t r hr ht => ?_) _ hloop ht)
  rcases operatorStep_eq_ok_iff.1 hr with ⟨-, -, right, hright, -⟩ | ⟨-, -, rfl⟩
  · exact (hoperand hright ht).of_next
  · exact ht

theorem objectOrSum_bringsNoEnd (he : BringsNoEnd e) : BringsNoEnd (objectOrSum e) := by
  intro s t n h ht
  rcases objectOrSum_eq_ok_iff.1 h with ⟨-, properties, u, hloop, -, -, rfl⟩ | ⟨-, hsum⟩
  · refine (loop_bringsNoEnd (fun collected s t r hr ht => ?_) _ hloop ht.of_next).of_next
    rcases propertyStep_eq_ok_iff.1 hr with ⟨-, -, rfl⟩ | ⟨-, -, ⟨-, rfl⟩ | ⟨-, rfl⟩⟩ |
      ⟨-, -, value, v, hv, -, ⟨-, rfl⟩ | ⟨-, rfl⟩⟩
    · exact ht
    · exact ht.of_next.of_next
    · exact ht.of_next
    · exact (he hv ht.of_next).of_next.of_next
    · exact (he hv ht).of_next.of_next
  · have hproduct := operation_bringsNoEnd (callOrMember_bringsNoEnd he) multiplicative
    exact operation_bringsNoEnd hproduct additive hsum ht

theorem assignment_bringsNoEnd (he : BringsNoEnd e) : BringsNoEnd (assignment e) := by
  intro s t n h ht
  obtain ⟨left, u, hu, ⟨-, value, hvalue, -⟩ | ⟨-, -, rfl⟩⟩ := assignment_eq_ok_iff.1 h
  · exact objectOrSum_bringsNoEnd he hu (he hvalue ht).of_next
  · exact objectOrSum_bringsNoEnd he hu ht

theorem expression_bringsNoEnd : BringsNoEnd expression := by
  have hnested : ∀ depth, BringsNoEnd (nested depth) := by
    intro depth
    induction depth with
    | zero =>
      intro s t n h
      cases h
    | succ depth ih => exact assignment_bringsNoEnd ih
  intro s t n h
  exact hnested _ h

theorem declaration_bringsNoEnd : BringsNoEnd declaration := by
  intro s t n h ht
  obtain ⟨-, ⟨-, -, -, rfl⟩ | ⟨-, value, u, hu, -, -, rfl⟩⟩ := declaration_eq_ok_iff.1 h
  · exact ht.of_next.of_next.of_next
  · exact (expression_bringsNoEnd hu ht.of_next).of_next.of_next.of_next

theorem statements_bringsNoEnd (hinner : BringsNoEnd inner) (stops : List Kind) :
    BringsNoEnd (statements stops inner) := by
  refine loop_bringsNoEnd (fun collected s t r hr ht => ?_) []
  rcases statementStep_eq_ok_iff.1 hr with ⟨-, -, rfl⟩ | ⟨-, n, hn, -⟩
  · exact ht
  · exact hinner hn ht

theorem statementWith_bringsNoEnd (hinner : BringsNoEnd inner) :
    BringsNoEnd (statementWith inner) := by
  intro s t n h ht
  rcases statementWith_eq_ok_iff.1 h with ⟨-, hd⟩ | ⟨-, hf⟩ | ⟨-, -, -, u, hu, hsemi⟩
  · exact declaration_bringsNoEnd hd ht
  · obtain ⟨-, -, parameters, names, u, hu, -, -, body, v, hv, -, -, rfl⟩ :=
      function_eq_ok_iff.1 hf
    have hbody := (statements_bringsNoEnd hinner _ hv ht.of_next).of_next
    exact (arguments_bringsNoEnd expression_bringsNoEnd hu hbody).of_next.of_next
  · rcases hsemi with ⟨-, rfl⟩ | ⟨-, rfl⟩
    · exact expression_bringsNoEnd hu ht.of_next
    · exact expression_bringsNoEnd hu ht

theorem statement_bringsNoEnd : BringsNoEnd statement := by
  have hnested : ∀ depth, BringsNoEnd (nestedStatement depth) := by
    intro depth
    induction depth with
    | zero =>
      intro s t n h
      cases h
    | succ depth ih => exact statementWith_bringsNoEnd ih
  intro s t n h
  exact hnested _ h

/-- A program ends at an end token, on any stream. -/
theorem current_of_program {s t : TokenStream} {n : Node} (h : program s = .ok n t) :
    t.current.kind = .eof := by
  obtain ⟨body, hbody, -⟩ := program_eq_ok_iff.1 h
  refine loop_invariant (I := fun _ _ => True) (Q := fun _ t => t.current.kind = .eof)
    (fun {_ _ _ _} _ hstep => ?_) (fun _ _ => trivial) hbody trivial
  rcases statementStep_eq_ok_iff.1 hstep with ⟨hk, -, rfl⟩ | ⟨-, _, -, ⟨⟩⟩
  exact List.mem_singleton.1 hk

/-- A program is read only from a stream in which an end token is to come. -/
theorem terminated_of_program {s t : TokenStream} {n : Node} (h : program s = .ok n t) :
    s.Terminated := by
  obtain ⟨body, hbody, -⟩ := program_eq_ok_iff.1 h
  exact statements_bringsNoEnd statement_bringsNoEnd _ hbody
    ⟨t.current, List.mem_cons_self, current_of_program h⟩

end Unended

section Watched

/-- The parser with a watch on it: if it succeeds it must have passed a token, and it
must not go past an index. Otherwise it counts as one that does not end. -/
def watched (last : Nat) (p : Parser Node) : Parser Node := fun s =>
  match p s with
  | .ok n t => if s.index < t.index ∧ t.index ≤ last then .ok n t else .error .endless t
  | .error failure t => if t.index ≤ last then .error failure t else .error .endless t

/-- A statement with a watch on it and on every statement nested in it. -/
def watchedStatement (last : Nat) : (depth : Nat) → Parser Node
  | 0 => throw .endless
  | depth + 1 => watched last (statementWith (watchedStatement last depth))

/-- A program with a watch on every statement in it. -/
def watchedProgram (last : Nat) : Parser Node := do
  return .program (← statements [.eof] fun s => watchedStatement last (s.later.length + 1) s)

variable {place : Token → Position} {all others : List Token} {last : Nat}

/-- A watch sees nothing amiss on a list that ends at the index. -/
theorem Accords.watched {p p' : Parser Node} {bound bound' : Nat}
    (h : Accords place all others p p' bound bound') (hlast : all.length ≤ last + 1) :
    Accords place all others p (watched last p') bound bound' := by
  refine ⟨h.advances, fun s hs hlength hroom => ?_⟩
  have hfollows := h.follows hs hlength hroom
  refine ⟨hfollows.index_le, fun hcopied => ?_⟩
  rw [Parser.watched, hfollows.moved_eq hcopied]
  have hstop := (h.advances hs.within hlength).reaches_stop.inside hs
  have hle := hstop.length_eq
  cases hp : p s with
  | ok n t =>
    obtain ⟨-, hlt, -⟩ := h.advances.of_ok hs hlength hp
    rw [hp, stop] at hle
    rw [moved]
    dsimp only
    rw [index_inList, index_inList, if_pos ⟨hlt, by omega⟩]
  | error failure t =>
    rw [hp, stop] at hle
    rw [moved]
    dsimp only
    rw [index_inList, if_pos (by omega)]

/-- A program does the same when its statements are watched. -/
theorem watchedProgram_follows (hlast : all.length ≤ last + 1) {s : TokenStream}
    (hs : s.Inside all) : Follows place all others program (watchedProgram last) s := by
  have hnested : ∀ depth depth', Accords place all others (nestedStatement depth)
      (watchedStatement last depth') depth depth' :=
    accords_depth nestedStatement_advances fun _ _ h => (statementWith_accords h).watched hlast
  exact program_follows (accords_of_depth hnested) hs

end Watched

end Parser

/-- The index of the first end token. -/
def firstEnd (tokens : List Token) : Nat :=
  tokens.findIdx fun x => x.kind == .eof

section FirstEnd

open Scriptlet.Parser TokenStream

variable {tokens others : List Token}

/-- The first end token is in the list. -/
theorem firstEnd_lt (hend : ∃ x ∈ tokens, x.kind = .eof) : firstEnd tokens < tokens.length := by
  obtain ⟨x, hx, hk⟩ := hend
  exact List.findIdx_lt_length_of_exists ⟨x, hx, by simp [hk]⟩

/-- No token before the first end token is an end token. -/
theorem firstEnd_le_of_getElem? {k : Nat} {x : Token} (hx : tokens[k]? = some x)
    (hk : x.kind = .eof) : firstEnd tokens ≤ k := by
  obtain ⟨hlt, rfl⟩ := List.getElem?_eq_some_iff.1 hx
  refine Nat.le_of_not_lt fun hbefore => ?_
  have hnot := List.not_of_lt_findIdx hbefore
  simp [hk] at hnot

/-- The tokens up to the first end token hold it. -/
theorem exists_mem_take_firstEnd (hend : ∃ x ∈ tokens, x.kind = .eof) :
    ∃ x ∈ tokens.take (firstEnd tokens + 1), x.kind = .eof := by
  have hlt := firstEnd_lt hend
  refine ⟨tokens[firstEnd tokens], List.mem_take_iff_getElem.2 ⟨firstEnd tokens, by omega, rfl⟩, ?_⟩
  exact eq_of_beq (List.findIdx_getElem (w := hlt))

/-- Parsing depends only on the tokens up to the first end token, with or without a
watch on the statements: on the list that is cut off there, it cannot stop later. -/
theorem program_eq_of_take (hend : ∃ x ∈ tokens, x.kind = .eof)
    (htake : others.take (firstEnd tokens + 1) = tokens.take (firstEnd tokens + 1)) :
    let r := program (.ofTokens (tokens.take (firstEnd tokens + 1)))
    program (.ofTokens others) = moved Token.position others r ∧
      watchedProgram (firstEnd tokens) (.ofTokens others) = moved Token.position others r := by
  have hend' := exists_mem_take_firstEnd hend
  have hlength : (tokens.take (firstEnd tokens + 1)).length ≤ firstEnd tokens + 1 :=
    List.length_take_le _ _
  have hstop := (inside_stop_program hend').length_eq
  have hcopied : CopiedUpTo Token.position (tokens.take (firstEnd tokens + 1)) others
      (stop (program (.ofTokens (tokens.take (firstEnd tokens + 1))))).index := by
    refine copiedUpTo_position fun k hk => ?_
    rw [← htake, List.getElem?_take_of_lt (by omega)]
  exact ⟨program_eq_moved hend' hcopied,
    (watchedProgram_follows hlength (inside_ofTokens hend')).ofTokens hend' hcopied⟩

/-- Runs that end in the same way answer the same. -/
theorem parseTokens_eq_of_moved {all : List Token}
    (h : program (.ofTokens others) = moved Token.position others (program (.ofTokens all))) :
    parseTokens others = parseTokens all := by
  unfold parseTokens
  rw [h]
  cases program (.ofTokens all) with
  | ok n t => rfl
  | error failure t => simp only [moved, ParseFailure.moved_position]

/-- Parsing does not go past the first end token. -/
theorem index_stop_le_firstEnd (hend : ∃ x ∈ tokens, x.kind = .eof) :
    (stop (program (.ofTokens tokens))).index ≤ firstEnd tokens := by
  have hlength : (tokens.take (firstEnd tokens + 1)).length ≤ firstEnd tokens + 1 :=
    List.length_take_le _ _
  have hstop := (inside_stop_program (exists_mem_take_firstEnd hend)).length_eq
  rw [(program_eq_of_take hend rfl).1, index_stop_moved]
  omega

/-- A program ends at the first end token. -/
theorem eq_firstEnd_of_program (hend : ∃ x ∈ tokens, x.kind = .eof) {n : Node} {t : TokenStream}
    (h : program (.ofTokens tokens) = .ok n t) :
    t.index = firstEnd tokens ∧ tokens[firstEnd tokens]? = some t.current := by
  have ht := inside_stop_program hend
  have hle := index_stop_le_firstEnd hend
  rw [h, stop] at ht hle
  have hget := ht.getElem?_index
  have hindex : t.index = firstEnd tokens :=
    Nat.le_antisymm hle (firstEnd_le_of_getElem? hget (current_of_program h))
  exact ⟨hindex, hindex ▸ hget⟩

/-- Only a list that holds an end token, or is empty, spells a program. -/
theorem exists_end_of_parseTokens (hne : tokens ≠ []) {n : Node}
    (h : parseTokens tokens = .ok n) : ∃ x ∈ tokens, x.kind = .eof := by
  obtain ⟨t, ht⟩ := parseTokens_eq_ok_iff.1 h
  have hterminated := terminated_of_program ht
  rwa [Terminated, tokens_ofTokens hne] at hterminated

/-- Parsing ends on every list that holds an end token or is empty. Every statement
in it, nested or not, passes a token if it is read. Parsing does not go past the
first end token, which for the empty list is made up, and stops there if it succeeds;
what it gives does not depend on later tokens. Other lists spell no program. -/
theorem parseTokens_ends_at_firstEnd (tokens : List Token) :
    ((tokens = [] ∨ ∃ x ∈ tokens, x.kind = .eof) →
      parseTokens tokens ≠ .error .endless ∧
      watchedProgram (firstEnd tokens) (.ofTokens tokens) = program (.ofTokens tokens) ∧
      (stop (program (.ofTokens tokens))).index ≤ firstEnd tokens ∧
      (∀ n t, program (.ofTokens tokens) = .ok n t →
        t.index = firstEnd tokens ∧ t.current = tokens[firstEnd tokens]?.getD .missing ∧
          t.current.kind = .eof) ∧
      ∀ others, others.take (firstEnd tokens + 1) = tokens.take (firstEnd tokens + 1) →
        parseTokens others = parseTokens tokens ∧
          (stop (program (.ofTokens others))).index = (stop (program (.ofTokens tokens))).index) ∧
    (tokens ≠ [] → (∀ x ∈ tokens, x.kind ≠ .eof) → ∀ n, parseTokens tokens ≠ .ok n) ∧
    ∀ source, tokenize source = .ok tokens → ∃ x ∈ tokens, x.kind = .eof := by
  refine ⟨?_, ?_, ?_⟩
  · rintro (rfl | hend)
    · have hprogram : program (.ofTokens []) = .ok (.program []) (.ofTokens []) := rfl
      refine ⟨fun h => ?_, rfl, Nat.le_refl _, fun n t h => ?_, fun others htake => ?_⟩
      · rw [parseTokens, hprogram] at h
        cases h
      · rw [hprogram] at h
        cases h
        exact ⟨rfl, rfl, rfl⟩
      · have hothers : others = [] := by simpa using htake
        rw [hothers]
        exact ⟨rfl, rfl⟩
    · obtain ⟨hprogram, hwatched⟩ := program_eq_of_take hend rfl
      refine ⟨fun h => blamedOn_of_parseTokens hend h, hwatched.trans hprogram.symm,
        index_stop_le_firstEnd hend, fun n t h => ?_, fun others htake => ?_⟩
      · obtain ⟨hindex, hget⟩ := eq_firstEnd_of_program hend h
        exact ⟨hindex, by rw [hget]; rfl, current_of_program h⟩
      · have hothers := (program_eq_of_take hend htake).1
        refine ⟨(parseTokens_eq_of_moved hothers).trans (parseTokens_eq_of_moved hprogram).symm, ?_⟩
        rw [hothers, hprogram, index_stop_moved, index_stop_moved]
  · intro hne hends n h
    obtain ⟨x, hx, hk⟩ := exists_end_of_parseTokens hne h
    exact hends x hx hk
  · intro source h
    obtain ⟨before, last, rfl, hlast, -⟩ := lexes_of_tokenize h
    exact ⟨last, by simp, hlast⟩

/-- A function with one statement in its body passes its tokens up to the first end
token, whatever follows it. Without the end token it is no program. -/
theorem parseTokens_ends_at_firstEnd_function :
    let body : List Token :=
      [⟨.fnWord, "fn", ⟨1, 1⟩⟩, ⟨.ident, "f", ⟨1, 4⟩⟩, ⟨.lpar, "(", ⟨1, 5⟩⟩, ⟨.rpar, ")", ⟨1, 6⟩⟩,
        ⟨.lbrace, "\x7b", ⟨1, 8⟩⟩, ⟨.ident, "a", ⟨1, 10⟩⟩, ⟨.rbrace, "\x7d", ⟨1, 12⟩⟩]
    let last : Token := ⟨.eof, Token.endText, ⟨1, 13⟩⟩
    let tokens := body ++ [last, ⟨.comma, ",", ⟨2, 1⟩⟩]
    ((∃ x ∈ tokens, x.kind = .eof) ∧ firstEnd tokens = 7 ∧
      program (.ofTokens tokens) = .ok (.program [.function "f" [] [.identifier "a"]])
        ⟨7, last, [⟨.comma, ",", ⟨2, 1⟩⟩]⟩ ∧
      watchedProgram 7 (.ofTokens tokens) = program (.ofTokens tokens) ∧
      parseTokens (body ++ [last]) = parseTokens tokens) ∧
    (∀ x ∈ body, x.kind ≠ .eof) ∧ ∀ n, parseTokens body ≠ .ok n := by
  intro body last tokens
  have hend : ∃ x ∈ tokens, x.kind = .eof := ⟨last, by decide, rfl⟩
  have hbody : ∀ x ∈ body, x.kind ≠ .eof := by decide
  obtain ⟨-, hwatched, -, -, hothers⟩ := (parseTokens_ends_at_firstEnd tokens).1 (.inr hend)
  exact ⟨⟨hend, by decide, rfl, hwatched, (hothers (body ++ [last]) rfl).1⟩, hbody,
    (parseTokens_ends_at_firstEnd body).2.1 (by decide) hbody⟩

end FirstEnd

section Complaints

open Scriptlet.Parser TokenStream

variable {tokens others : List Token} {e : ParseError} {s : TokenStream}

/-- A complaint is the same on every list with the same tokens up to where parsing
has stopped. -/
theorem rejected_of_agree (hend : ∃ x ∈ tokens, x.kind = .eof)
    (h : program (.ofTokens tokens) = .error (.rejected e) s)
    (hagree : ∀ k ≤ s.index, others[k]? = tokens[k]?) :
    program (.ofTokens others) = .error (.rejected e) (s.inList others) := by
  have hcopied : CopiedUpTo Token.position tokens others
      (stop (program (.ofTokens tokens))).index := by
    rw [h]
    exact copiedUpTo_position hagree
  rw [program_eq_moved hend hcopied, h, moved, ParseFailure.moved_position]

/-- A complaint is about a token that parsing has come to: on the list that is cut off
there, it is not about the new end token. -/
theorem mem_take_of_rejected (hend : ∃ x ∈ tokens, x.kind = .eof)
    (h : program (.ofTokens tokens) = .error (.rejected e) s) :
    e.token ∈ tokens.take (s.index + 1) := by
  let cut : Token := ⟨.eof, Token.endText, ⟨e.line + 1, 0⟩⟩
  have hstop := (inside_stop_program hend).length_eq
  rw [h, stop] at hstop
  have hagree : ∀ k ≤ s.index, (tokens.take (s.index + 1) ++ [cut])[k]? = tokens[k]? := by
    intro k hk
    rw [List.getElem?_append_left (by rw [List.length_take]; omega),
      List.getElem?_take_of_lt (by omega)]
  have hparse : parseTokens (tokens.take (s.index + 1) ++ [cut]) = .error (.rejected e) := by
    rw [parseTokens, rejected_of_agree hend h hagree]
  have hmem : e.token ∈ tokens.take (s.index + 1) ++ [cut] :=
    blamedOn_of_parseTokens ⟨cut, by simp, rfl⟩ hparse
  refine (List.mem_append.1 hmem).resolve_right fun hcut => ?_
  have hline : e.line = e.line + 1 :=
    congrArg (fun x : Token => x.position.line) (List.mem_singleton.1 hcut)
  omega

/-- A complaint is about one of the tokens up to where parsing has stopped, and says
its place. It is the same, and made at the same index, on every list with the same
tokens up to there. -/
theorem program_rejects_token_read (tokens : List Token) (e : ParseError) (s : TokenStream)
    (hend : ∃ x ∈ tokens, x.kind = .eof)
    (h : program (.ofTokens tokens) = .error (.rejected e) s) :
    (∃ j x, j ≤ s.index ∧ tokens[j]? = some x ∧ e.token = x ∧ e.line = x.position.line ∧
      e.column = x.position.column ∧
      e.message = s!"{e.text} at line {x.position.line}, col {x.position.column}") ∧
    ∀ others : List Token, (∀ k ≤ s.index, others[k]? = tokens[k]?) →
      ∃ s', program (.ofTokens others) = .error (.rejected e) s' ∧ s'.index = s.index := by
  constructor
  · obtain ⟨j, hj, hget⟩ := List.mem_take_iff_getElem.1 (mem_take_of_rejected hend h)
    refine ⟨j, e.token, by omega, ?_, rfl, rfl, rfl, rfl⟩
    rw [List.getElem?_eq_getElem (by omega), hget]
  · intro others hagree
    exact ⟨_, rejected_of_agree hend h hagree, index_inList others s⟩

/-- Parameters that are no names are complained about at their parenthesis, after
they are read. -/
theorem program_rejects_token_read_parameters :
    let read : List Token :=
      [⟨.fnWord, "fn", ⟨1, 1⟩⟩, ⟨.ident, "f", ⟨1, 4⟩⟩, ⟨.lpar, "(", ⟨1, 5⟩⟩,
        ⟨.ident, "b", ⟨1, 6⟩⟩, ⟨.dot, ".", ⟨1, 7⟩⟩, ⟨.ident, "c", ⟨1, 8⟩⟩,
        ⟨.rpar, ")", ⟨1, 9⟩⟩, ⟨.lbrace, "\x7b", ⟨1, 11⟩⟩]
    let last : Token := ⟨.eof, Token.endText, ⟨1, 12⟩⟩
    let e : ParseError := ⟨.parameterNames, ⟨.lpar, "(", ⟨1, 5⟩⟩⟩
    (∃ x ∈ read ++ [last], x.kind = .eof) ∧
      program (.ofTokens (read ++ [last])) =
        .error (.rejected e) ⟨7, ⟨.lbrace, "\x7b", ⟨1, 11⟩⟩, [last]⟩ ∧
      (∃ j x, j ≤ 7 ∧ (read ++ [last])[j]? = some x ∧ e.token = x ∧ e.line = x.position.line ∧
        e.column = x.position.column ∧
        e.message = s!"{e.text} at line {x.position.line}, col {x.position.column}") ∧
      ∀ others, ∃ s', program (.ofTokens (read ++ others)) = .error (.rejected e) s' ∧
        s'.index = 7 := by
  intro read last e
  have hend : ∃ x ∈ read ++ [last], x.kind = .eof := ⟨last, by simp, rfl⟩
  have h : program (.ofTokens (read ++ [last])) =
      .error (.rejected e) ⟨7, ⟨.lbrace, "\x7b", ⟨1, 11⟩⟩, [last]⟩ := rfl
  obtain ⟨htoken, hothers⟩ := program_rejects_token_read _ e _ hend h
  refine ⟨hend, h, htoken, fun others => hothers (read ++ others) fun k hk => ?_⟩
  have hlength : k < read.length := Nat.lt_succ_of_le hk
  rw [List.getElem?_append_left hlength, List.getElem?_append_left hlength]

end Complaints

end Scriptlet
