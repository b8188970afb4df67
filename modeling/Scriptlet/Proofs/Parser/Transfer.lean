import Scriptlet.Proofs.Parser.Ending

/-!
# The same symbols in another list

A parser never looks past its current token, and never at the places of tokens.
So what it does on one list of tokens it also does on any other list that has
the same symbols up to where it stops: it gives the same result there, or
complains in the same words about the token with the same index. The bounds of
loops and of nesting depend on the length of the list, but they are never
reached, and so do not tell the two lists apart.

The other list is described by a function that gives each token its new place.
Two runs of the parser of each construct are compared, one on each list; the
parsers for the expressions and statements inside it may have different bounds.
-/

namespace Scriptlet

/-- A token at another place. -/
def Token.moved (place : Token → Position) (t : Token) : Token :=
  { t with position := place t }

/-- A token keeps its kind. -/
@[simp]
theorem Token.moved_kind (place : Token → Position) (t : Token) : (t.moved place).kind = t.kind :=
  rfl

/-- A token keeps its text. -/
@[simp]
theorem Token.moved_text (place : Token → Position) (t : Token) : (t.moved place).text = t.text :=
  rfl

/-- Whether a list has, up to an index, the tokens of another one at their new
places. -/
def CopiedUpTo (place : Token → Position) (all others : List Token) (limit : Nat) : Prop :=
  ∀ k ≤ limit, others[k]? = all[k]?.map (Token.moved place)

/-- What is copied up to an index is copied up to a smaller one. -/
theorem CopiedUpTo.mono {place : Token → Position} {all others : List Token} {limit less : Nat}
    (h : CopiedUpTo place all others limit) (hle : less ≤ limit) :
    CopiedUpTo place all others less :=
  fun k hk => h k (Nat.le_trans hk hle)

/-- Lists that have the same tokens up to an index are copies of each other. -/
theorem copiedUpTo_position {all others : List Token} {limit : Nat}
    (h : ∀ k ≤ limit, others[k]? = all[k]?) : CopiedUpTo Token.position all others limit := by
  intro k hk
  rw [h k hk]
  cases all[k]? <;> rfl

/-- The failure with its token at another place. -/
def ParseFailure.moved (place : Token → Position) : ParseFailure → ParseFailure
  | .rejected error => .rejected ⟨error.complaint, error.token.moved place⟩
  | .unreadable text => .unreadable text
  | .endless => .endless

/-- A failure with its token at its own place is the same. -/
@[simp]
theorem ParseFailure.moved_position (failure : ParseFailure) :
    failure.moved Token.position = failure := by
  cases failure <;> rfl

namespace TokenStream

variable {all others : List Token} {place : Token → Position} {s t : TokenStream} {limit : Nat}

/-- Whether a stream is what is left of a list, and holds an end token. -/
structure Inside (all : List Token) (s : TokenStream) : Prop where
  /-- An end token is still to come. -/
  terminated : s.Terminated
  /-- The tokens are those of the list from the index on. -/
  tokens_eq : s.tokens = all.drop s.index

/-- The tokens of a stream are among those of its list. -/
theorem Inside.within (hs : s.Inside all) : s.Within all :=
  ⟨hs.terminated, hs.tokens_eq ▸ List.drop_subset s.index all⟩

/-- The index and what is left make up the whole list. -/
theorem Inside.length_eq (hs : s.Inside all) : all.length = s.index + s.later.length + 1 := by
  have hlength := congrArg List.length hs.tokens_eq
  simp only [tokens, List.length_cons, List.length_drop] at hlength
  omega

/-- The current token is the one at the index. -/
theorem Inside.getElem?_index (hs : s.Inside all) : all[s.index]? = some s.current := by
  have hhead : (all.drop s.index)[0]? = some s.current := by
    rw [← hs.tokens_eq]
    rfl
  rwa [List.getElem?_drop, Nat.add_zero] at hhead

/-- What is reached is part of the same list. -/
theorem Reaches.inside (h : s.Reaches t) (hs : s.Inside all) : t.Inside all := by
  refine ⟨(h.within hs.within).terminated, ?_⟩
  obtain ⟨passed, htokens, hindex, -⟩ := h
  have hdrop : t.tokens = s.tokens.drop passed.length := by rw [htokens, List.drop_left]
  rw [hdrop, hs.tokens_eq, List.drop_drop, hindex]

/-- The index does not go back. -/
theorem Reaches.index_le (h : s.Reaches t) : s.index ≤ t.index := by
  obtain ⟨passed, -, hindex, -⟩ := h
  omega

/-- Fewer tokens are left where the index is greater. -/
theorem Reaches.index_lt (h : s.Reaches t) (hlt : t.later.length < s.later.length) :
    s.index < t.index := by
  obtain ⟨passed, htokens, hindex, -⟩ := h
  have hlength := congrArg List.length htokens
  simp only [tokens, List.length_cons, List.length_append] at hlength
  omega

/-- The place in another list before which as many tokens are passed. -/
def inList (others : List Token) (s : TokenStream) : TokenStream :=
  match others.drop s.index with
  | [] => s
  | token :: later => ⟨s.index, token, later⟩

/-- What another list has in the place of what is left: the current token at its
new place, and others after it. -/
theorem Inside.drop_eq (hs : s.Inside all) (h : CopiedUpTo place all others limit)
    (hle : s.index ≤ limit) :
    others.drop s.index = s.current.moved place :: others.drop (s.index + 1) := by
  have hcopy := h s.index hle
  rw [hs.getElem?_index, Option.map_some] at hcopy
  obtain ⟨hlt, hget⟩ := List.getElem?_eq_some_iff.1 hcopy
  rw [List.drop_eq_getElem_cons hlt, hget]

/-- The place in another list that has the same symbols so far. -/
theorem Inside.inList_eq (hs : s.Inside all) (h : CopiedUpTo place all others limit)
    (hle : s.index ≤ limit) :
    s.inList others = ⟨s.index, s.current.moved place, others.drop (s.index + 1)⟩ := by
  rw [inList, hs.drop_eq h hle]

/-- The bound for a loop at the place in another list is large enough. -/
theorem length_le_inList (others : List Token) (s : TokenStream) :
    others.length ≤ s.index + ((s.inList others).later.length + 1) := by
  unfold inList
  cases hdrop : others.drop s.index with
  | nil =>
    have hlength := List.drop_eq_nil_iff.1 hdrop
    dsimp only
    omega
  | cons token later =>
    have hlength := congrArg List.length hdrop
    simp only [List.length_drop, List.length_cons] at hlength
    dsimp only
    omega

/-- Passing a token counts it. -/
theorem index_next (h : s.later ≠ []) : s.next.index = s.index + 1 := by
  obtain ⟨index, current, later⟩ := s
  cases later with
  | nil => exact absurd rfl h
  | cons token later => rfl

/-- Passing a token leads to the next place in the other list, too. -/
theorem Inside.inList_next (hs : s.Inside all) (hk : s.current.kind ≠ .eof)
    (h : CopiedUpTo place all others limit) (hle : s.next.index ≤ limit) :
    (s.inList others).next = s.next.inList others := by
  have hreaches := (hs.terminated.reaches_next hk).1
  have hnext := (hreaches.inside hs).drop_eq h hle
  rw [(hreaches.inside hs).inList_eq h hle,
    hs.inList_eq h (Nat.le_trans hreaches.index_le hle), next]
  rw [index_next (hs.terminated.later_ne_nil hk)] at hnext ⊢
  rw [hnext]

/-- As many tokens are passed in the other list. -/
theorem index_inList (others : List Token) (s : TokenStream) :
    (s.inList others).index = s.index := by
  unfold inList
  cases others.drop s.index with
  | nil => rfl
  | cons token later => rfl

/-- The start of a list that holds an end token. -/
theorem inside_ofTokens (hend : ∃ x ∈ all, x.kind = .eof) : (ofTokens all).Inside all := by
  obtain ⟨x, hx, hk⟩ := hend
  cases all with
  | nil => cases hx
  | cons token later => exact ⟨⟨x, hx, hk⟩, rfl⟩

/-- The start of the other list. -/
theorem inList_ofTokens (h : others ≠ []) : (ofTokens all).inList others = ofTokens others := by
  have hindex : (ofTokens all).index = 0 := by cases all <;> rfl
  rw [inList, hindex, List.drop_zero]
  cases others with
  | nil => exact absurd rfl h
  | cons token later => rfl

/-- The current token there is the same at its new place. -/
theorem Inside.current_inList (hs : s.Inside all) (h : CopiedUpTo place all others limit)
    (hle : s.index ≤ limit) : (s.inList others).current = s.current.moved place := by
  rw [hs.inList_eq h hle]

end TokenStream

namespace Parser

open TokenStream

variable {α β : Type} {place : Token → Position} {all others : List Token}

/-- The stream where a run has stopped. -/
def stop : EStateM.Result ParseFailure TokenStream α → TokenStream
  | .ok _ t => t
  | .error _ t => t

/-- The outcome of a run as it is on another list. -/
def moved (place : Token → Position) (others : List Token) :
    EStateM.Result ParseFailure TokenStream α → EStateM.Result ParseFailure TokenStream α
  | .ok a t => .ok a (t.inList others)
  | .error failure t => .error (failure.moved place) (t.inList others)

/-- A run stops at the same index on the other list. -/
theorem index_stop_moved (r : EStateM.Result ParseFailure TokenStream α) :
    (stop (moved place others r)).index = (stop r).index := by
  cases r with
  | ok a t => exact index_inList others t
  | error failure t => exact index_inList others t

/-- Whether a second parser does on another list what the first one does from a
stream on, if that list has the same symbols up to where the first one stops. -/
structure Follows (place : Token → Position) (all others : List Token) (p p' : Parser α)
    (s : TokenStream) : Prop where
  /-- The first one does not go back. -/
  index_le : s.index ≤ (stop (p s)).index
  /-- The second one gives the same result, or fails in the same way. -/
  moved_eq : CopiedUpTo place all others (stop (p s)).index →
    p' (s.inList others) = moved place others (p s)

section Operations

variable {p p' : Parser α} {s t : TokenStream}

/-- A result is the same on any list. -/
theorem follows_pure (a : α) : Follows place all others (pure a) (pure a) s :=
  ⟨Nat.le_refl _, fun _ => rfl⟩

/-- A failure is the same on any list, but for the place of its token. -/
theorem follows_throw (failure : ParseFailure) :
    Follows place all others (throw failure : Parser α) (throw (failure.moved place)) s :=
  ⟨Nat.le_refl _, fun _ => rfl⟩

/-- A complaint is the same on any list, but for the place of the token. -/
theorem follows_reject (complaint : Complaint) (token : Token) :
    Follows place all others (reject complaint token : Parser α)
      (reject complaint (token.moved place)) s :=
  follows_throw _

/-- Parsers follow each other if they do from where both go on. -/
theorem Follows.of_step {q q' : Parser α} (h : Follows place all others q q' t)
    (hle : s.index ≤ t.index) (hp : p s = q t)
    (hp' : CopiedUpTo place all others (stop (q t)).index →
      p' (s.inList others) = q' (t.inList others)) :
    Follows place all others p p' s := by
  constructor
  · rw [hp]
    exact Nat.le_trans hle h.index_le
  · intro hcopied
    rw [hp] at hcopied ⊢
    rw [hp' hcopied, h.moved_eq hcopied]

/-- After a success, the second of two parsers goes on. -/
theorem bind_of_ok {f : α → Parser β} {a : α} (h : p s = .ok a t) : (p >>= f) s = f a t := by
  change EStateM.bind p f s = _
  rw [EStateM.bind, h]

/-- After a failure, nothing follows. -/
theorem bind_of_error {f : α → Parser β} {failure : ParseFailure}
    (h : p s = .error failure t) : (p >>= f) s = .error failure t := by
  change EStateM.bind p f s = _
  rw [EStateM.bind, h]

/-- Sequences follow each other if their first parts do, and their second parts do
wherever the first has come to. A copy that reaches to where the second part stops is
one for the first part, too. -/
theorem Follows.bind {f f' : α → Parser β} (h : Follows place all others p p' s)
    (hf : ∀ a t, p s = .ok a t → Follows place all others (f a) (f' a) t) :
    Follows place all others (p >>= f) (p' >>= f') s := by
  have hle := h.index_le
  have hmoved := h.moved_eq
  cases hp : p s with
  | ok a t =>
    rw [hp] at hle hmoved
    refine (hf a t hp).of_step hle (bind_of_ok hp) fun hcopied => bind_of_ok ?_
    exact hmoved (hcopied.mono (hf a t hp).index_le)
  | error failure t =>
    rw [hp] at hle hmoved
    refine (follows_throw failure).of_step hle (bind_of_error hp) fun hcopied => ?_
    exact bind_of_error (hmoved hcopied)

/-- Looking at the current token. -/
theorem follows_peek {f f' : Token → Parser β} (hs : s.Inside all)
    (h : Follows place all others (f s.current) (f' (s.current.moved place)) s) :
    Follows place all others (peek >>= f) (peek >>= f') s := by
  refine h.of_step (Nat.le_refl _) peek_bind fun hcopied => ?_
  rw [peek_bind, hs.current_inList hcopied h.index_le]

/-- A test of the current kind. -/
theorem follows_check {kinds : List Kind} {f f' : Bool → Parser β} (hs : s.Inside all)
    (hthere : s.current.kind ∈ kinds → Follows place all others (f true) (f' true) s)
    (hnot : s.current.kind ∉ kinds → Follows place all others (f false) (f' false) s) :
    Follows place all others (check kinds >>= f) (check kinds >>= f') s := by
  have h : Follows place all others (f (kinds.contains s.current.kind))
      (f' (kinds.contains s.current.kind)) s := by
    by_cases hk : s.current.kind ∈ kinds
    · rw [List.contains_iff_mem.2 hk]
      exact hthere hk
    · have hcontains : kinds.contains s.current.kind = false := by simpa using hk
      rw [hcontains]
      exact hnot hk
  refine h.of_step (Nat.le_refl _) check_bind fun hcopied => ?_
  rw [check_bind, hs.current_inList hcopied h.index_le, Token.moved_kind]

/-- Passing a token that is no end token. -/
theorem follows_advance {f f' : Token → Parser β} (hs : s.Inside all)
    (hk : s.current.kind ≠ .eof)
    (h : s.next.Inside all → s.next.index = s.index + 1 →
      s.next.later.length < s.later.length →
        Follows place all others (f s.current) (f' (s.current.moved place)) s.next) :
    Follows place all others (advance >>= f) (advance >>= f') s := by
  obtain ⟨hreaches, hlt⟩ := hs.terminated.reaches_next hk
  have hnext := h (hreaches.inside hs) (index_next (hs.terminated.later_ne_nil hk)) hlt
  refine hnext.of_step hreaches.index_le advance_bind fun hcopied => ?_
  rw [advance_bind, hs.inList_next hk hcopied hnext.index_le,
    hs.current_inList hcopied (Nat.le_trans hreaches.index_le hnext.index_le)]

/-- A token that has to be there is passed on both lists, or complained about. -/
theorem follows_expect {kind : Kind} {complaint : Complaint} {f f' : Token → Parser β}
    (hs : s.Inside all) (hkind : kind ≠ .eof)
    (h : s.current.kind = kind → s.next.Inside all → s.next.index = s.index + 1 →
      s.next.later.length < s.later.length →
        Follows place all others (f s.current) (f' (s.current.moved place)) s.next) :
    Follows place all others (expect kind complaint >>= f) (expect kind complaint >>= f') s := by
  by_cases hk : s.current.kind = kind
  · have hadvance := follows_advance hs (hk ▸ hkind) (h hk)
    refine hadvance.of_step (Nat.le_refl _) ?_ fun hcopied => ?_
    · rw [expect_bind, if_pos hk, advance_bind]
    · rw [expect_bind, hs.current_inList hcopied hadvance.index_le, Token.moved_kind, if_pos hk,
        advance_bind, hs.current_inList hcopied hadvance.index_le]
  · have hreject : Follows place all others (reject complaint s.current : Parser β)
        (reject complaint (s.current.moved place)) s := follows_reject complaint s.current
    refine hreject.of_step (Nat.le_refl _) ?_ fun hcopied => ?_
    · rw [expect_bind, if_neg hk, reject_apply]
    · rw [expect_bind, hs.current_inList hcopied hreject.index_le, Token.moved_kind, if_neg hk,
        reject_apply]

/-- A token that may be there is passed on both lists if it is. -/
theorem follows_accept {kind : Kind} {f f' : Bool → Parser β} (hs : s.Inside all)
    (hkind : kind ≠ .eof)
    (hthere : s.current.kind = kind → s.next.Inside all → s.next.index = s.index + 1 →
      s.next.later.length < s.later.length →
        Follows place all others (f true) (f' true) s.next)
    (hnot : s.current.kind ≠ kind → Follows place all others (f false) (f' false) s) :
    Follows place all others (accept [kind] >>= f) (accept [kind] >>= f') s := by
  by_cases hk : s.current.kind = kind
  · have hadvance : Follows place all others (advance >>= fun _ => f true)
        (advance >>= fun _ => f' true) s := follows_advance hs (hk ▸ hkind) (hthere hk)
    refine hadvance.of_step (Nat.le_refl _) ?_ fun hcopied => ?_
    · rw [accept_bind, if_pos (by simp [hk]), advance_bind]
    · rw [accept_bind, hs.current_inList hcopied hadvance.index_le, Token.moved_kind,
        if_pos (by simp [hk]), advance_bind]
  · refine (hnot hk).of_step (Nat.le_refl _) ?_ fun hcopied => ?_
    · rw [accept_bind, if_neg (by simp [hk])]
    · rw [accept_bind, hs.current_inList hcopied (hnot hk).index_le, Token.moved_kind,
        if_neg (by simp [hk])]

end Operations

section Loops

variable {step step' : α → Parser (α ⊕ β)} {s : TokenStream}

/-- A parser that ends has reached the stream where it stops. -/
theorem Settles.reaches_stop {p : Parser α} {Q : α → TokenStream → Prop}
    (h : Settles all p s Q) : s.Reaches (stop (p s)) := by
  cases hp : p s with
  | ok a t => exact (h.of_ok hp).1
  | error failure t => exact (h.of_error hp).1

/-- A list with no token at the place of the current one is no copy, and anything
follows on it. -/
theorem Settles.follows_of_length_le {p p' : Parser α} {Q : α → TokenStream → Prop}
    (h : Settles all p s Q) (hs : s.Inside all) (hlength : others.length ≤ s.index) :
    Follows place all others p p' s := by
  have hle := h.reaches_stop.index_le
  refine ⟨hle, fun hcopied => ?_⟩
  have hcopy := hcopied s.index hle
  rw [hs.getElem?_index, List.getElem?_eq_none hlength] at hcopy
  cases hcopy

/-- Loops follow each other if their rounds do, each within a bound that is large enough
for its list. A round that goes on passes a token, so the room in both lists shrinks
with the bounds. -/
theorem follows_iterate (hs : s.Inside all)
    (hround : ∀ a t, s.Reaches t → t.Within all → SettlesRound all (step a) t)
    (hstep : ∀ a t, s.Reaches t → t.Inside all →
      Follows place all others (step a) (step' a) t)
    {bound bound' : Nat} (hbound : s.later.length < bound)
    (hroom : others.length ≤ s.index + bound') (a : α) :
    Follows place all others (iterate step bound a) (iterate step' bound' a) s := by
  induction bound generalizing s a bound' with
  | zero => omega
  | succ bound ih =>
    cases bound' with
    | zero =>
      exact (settles_iterate hs.within hround hbound a).follows_of_length_le hs (by omega)
    | succ bound' =>
      rw [iterate, iterate]
      refine (hstep a s (.refl s) hs).bind fun r t hr => ?_
      cases r with
      | inr b => exact follows_pure b
      | inl a' =>
        obtain ⟨hst, hleft⟩ := (hround a s (.refl s) hs.within).of_ok hr
        have hlater := hleft rfl
        have hindex := hst.index_lt hlater
        exact ih (hst.inside hs) (fun a u htu => hround a u (hst.trans htu))
          (fun a u htu => hstep a u (hst.trans htu)) (by omega) (by omega) a'

/-- Loops follow each other if their rounds do on every stream for which the bounds
of both are large enough. -/
theorem follows_loop {bound bound' : Nat} (hs : s.Inside all) (hlength : s.later.length ≤ bound)
    (hroom : others.length ≤ s.index + bound')
    (hround : ∀ a {t : TokenStream}, t.Within all → t.later.length ≤ bound →
      SettlesRound all (step a) t)
    (hstep : ∀ a {t : TokenStream}, t.Inside all → t.later.length ≤ bound →
      others.length ≤ t.index + bound' → Follows place all others (step a) (step' a) t) (a : α) :
    Follows place all others (loop step a) (loop step' a) s := by
  have hend := length_le_inList others s
  have hiterate : Follows place all others (iterate step (s.later.length + 2) a)
      (iterate step' ((s.inList others).later.length + 2) a) s := by
    refine follows_iterate hs (fun a t hst ht => ?_) (fun a t hst ht => ?_) (by omega)
      (by omega) a
    · have hle := hst.later_le
      exact hround a ht (by omega)
    · have hle := hst.later_le
      have hle' := hst.index_le
      exact hstep a ht (by omega) (by omega)
  exact hiterate.of_step (Nat.le_refl _) rfl fun _ => rfl

end Loops

/-- Whether a parser passes a token if it succeeds, and a second one follows it, on
every stream for which the bounds of both are large enough. -/
structure Accords (place : Token → Position) (all others : List Token) (p p' : Parser α)
    (bound bound' : Nat) : Prop where
  /-- The first one passes a token if it succeeds. -/
  advances : Advances all p bound
  /-- The second one follows the first one. -/
  follows : ∀ ⦃s : TokenStream⦄, s.Inside all → s.later.length < bound →
    others.length ≤ s.index + bound' → Follows place all others p p' s

/-- A success has passed a token. -/
theorem Advances.of_ok {p : Parser α} {bound : Nat} {s t : TokenStream} {a : α}
    (h : Advances all p bound) (hs : s.Inside all) (hlength : s.later.length < bound)
    (hp : p s = .ok a t) :
    t.Inside all ∧ s.index < t.index ∧ t.later.length < s.later.length := by
  obtain ⟨hst, hlt⟩ := (h hs.within hlength).of_ok hp
  exact ⟨hst.inside hs, hst.index_lt hlt, hlt⟩

/-- Where the second bound leaves no room, the other list has no token, and anything
accords with a parser that ends. -/
theorem Advances.accords_zero {p p' : Parser α} {bound : Nat} (h : Advances all p bound) :
    Accords place all others p p' bound 0 :=
  ⟨h, fun _ hs hlength hroom => (h hs.within hlength).follows_of_length_le hs hroom⟩

/-- Parsers with a bound on nesting accord if they do with one more level of
nesting. -/
theorem accords_depth {nest nest' : Nat → Parser α}
    (hadvances : ∀ depth, Advances all (nest depth) depth)
    (hsucc : ∀ depth depth', Accords place all others (nest depth) (nest' depth') depth depth' →
      Accords place all others (nest (depth + 1)) (nest' (depth' + 1)) (depth + 1) (depth' + 1))
    (depth depth' : Nat) : Accords place all others (nest depth) (nest' depth') depth depth' := by
  induction depth generalizing depth' with
  | zero => exact ⟨hadvances 0, fun s _ hlength => by omega⟩
  | succ depth ih =>
    cases depth' with
    | zero => exact (hadvances _).accords_zero
    | succ depth' => exact hsucc depth depth' (ih depth')

/-- Parsers accord that may nest as deep as there are tokens. -/
theorem accords_of_depth {nest nest' : Nat → Parser α}
    (h : ∀ depth depth', Accords place all others (nest depth) (nest' depth') depth depth')
    (bound bound' : Nat) :
    Accords place all others (fun s => nest (s.later.length + 1) s)
      (fun s => nest' (s.later.length + 1) s) bound bound' := by
  constructor
  · intro s hs _
    have hnest := (h (s.later.length + 1) 0).advances hs (Nat.lt_succ_self _)
    exact hnest.of_reaches (.refl s) rfl
  · intro s hs _ _
    have hnest := (h (s.later.length + 1) ((s.inList others).later.length + 1)).follows hs
      (Nat.lt_succ_self _) (length_le_inList others s)
    exact hnest.of_step (Nat.le_refl _) rfl fun _ => rfl

section Expressions

variable {e e' : Parser Node} {bound bound' : Nat}

theorem primary_accords (he : Accords place all others e e' bound bound') :
    Accords place all others (primary e) (primary e') (bound + 1) (bound' + 1) := by
  refine ⟨primary_advances he.advances, fun s hs hlength hroom => follows_peek hs ?_⟩
  simp only [Token.moved_kind, Token.moved_text]
  cases hk : s.current.kind
  case ident => exact follows_advance hs (by simp [hk]) fun _ _ _ => follows_pure _
  case number =>
    refine follows_advance hs (by simp [hk]) fun _ _ _ => ?_
    cases Number.read? s.current.text with
    | some value => exact follows_pure _
    | none => exact follows_throw (.unreadable s.current.text)
  case lpar =>
    refine follows_advance hs (by simp [hk]) fun hnext hindex hlt => ?_
    refine (he.follows hnext (by omega) (by omega)).bind fun value u hvalue => ?_
    obtain ⟨hu, -⟩ := he.advances.of_ok hnext (by omega) hvalue
    exact follows_expect hu (by simp) fun _ _ _ _ => follows_pure _
  all_goals exact follows_reject _ _

/-- A round of member accesses follows the same round. -/
theorem memberStep_follows (he : Accords place all others e e' bound bound') (object : Node)
    {s : TokenStream} (hs : s.Inside all) (hlength : s.later.length ≤ bound)
    (hroom : others.length ≤ s.index + (bound' + 1)) :
    Follows place all others (memberStep e object) (memberStep e' object) s := by
  refine follows_peek hs ?_
  simp only [Token.moved_kind]
  cases hk : s.current.kind
  case dot =>
    refine follows_advance hs (by simp [hk]) fun hnext hindex hlt => follows_peek hnext ?_
    refine ((primary_accords he).follows hnext (by omega) (by omega)).bind fun property u _ => ?_
    by_cases hproperty : property.isIdentifier = true
    · rw [if_pos hproperty, if_pos hproperty]
      exact follows_pure _
    · rw [if_neg hproperty, if_neg hproperty]
      exact follows_reject _ _
  case lsqb =>
    refine follows_advance hs (by simp [hk]) fun hnext hindex hlt => ?_
    refine (he.follows hnext (by omega) (by omega)).bind fun property u hproperty => ?_
    obtain ⟨hu, -⟩ := he.advances.of_ok hnext (by omega) hproperty
    exact follows_expect hu (by simp) fun _ _ _ _ => follows_pure _
  all_goals exact follows_pure _

theorem member_accords (he : Accords place all others e e' bound bound') :
    Accords place all others (member e) (member e') (bound + 1) (bound' + 1) := by
  have hprimary := primary_accords he
  refine ⟨member_advances he.advances, fun s hs hlength hroom => ?_⟩
  refine (hprimary.follows hs hlength hroom).bind fun object u hobject => ?_
  obtain ⟨hu, hindex, hlt⟩ := hprimary.advances.of_ok hs hlength hobject
  exact follows_loop hu (by omega) (by omega) (memberStep_settles he.advances)
    (memberStep_follows he) object

/-- A round of arguments follows the same round. -/
theorem argumentStep_follows (he : Accords place all others e e' bound bound')
    (collected : List Node) {s : TokenStream} (hs : s.Inside all)
    (hlength : s.later.length ≤ bound) (hroom : others.length ≤ s.index + (bound' + 1)) :
    Follows place all others (argumentStep e collected) (argumentStep e' collected) s := by
  refine follows_accept hs (by simp) (fun _ hnext hindex hlt => ?_) fun _ => follows_pure _
  exact (he.follows hnext (by omega) (by omega)).bind fun n u _ => follows_pure _

theorem argumentList_accords (he : Accords place all others e e' bound bound') :
    Accords place all others (argumentList e) (argumentList e') bound bound' := by
  refine ⟨argumentList_advances he.advances, fun s hs hlength hroom => ?_⟩
  refine (he.follows hs hlength hroom).bind fun first u hfirst => ?_
  obtain ⟨hu, hindex, hlt⟩ := he.advances.of_ok hs hlength hfirst
  exact follows_loop hu (by omega) (by omega) (argumentStep_settles he.advances)
    (argumentStep_follows he) [first]

theorem arguments_accords (he : Accords place all others e e' bound bound') :
    Accords place all others (Parser.arguments e) (Parser.arguments e') (bound + 1)
      (bound' + 1) := by
  have hlist := argumentList_accords he
  refine ⟨arguments_advances he.advances, fun s hs hlength hroom => ?_⟩
  refine follows_expect hs (by simp) fun _ hnext hindex hlt => ?_
  refine follows_check hnext (fun _ => ?_) fun _ => ?_
  · exact follows_expect hnext (by simp) fun _ _ _ _ => follows_pure _
  · refine (hlist.follows hnext (by omega) (by omega)).bind fun collected u hcollected => ?_
    obtain ⟨hu, -⟩ := hlist.advances.of_ok hnext (by omega) hcollected
    exact follows_expect hu (by simp) fun _ _ _ _ => follows_pure _

/-- A round of calls follows the same round. -/
theorem callStep_follows (he : Accords place all others e e' bound bound') (callee : Node)
    {s : TokenStream} (hs : s.Inside all) (hlength : s.later.length ≤ bound)
    (hroom : others.length ≤ s.index + (bound' + 1)) :
    Follows place all others (callStep e callee) (callStep e' callee) s := by
  refine follows_check hs (fun _ => ?_) fun _ => follows_pure _
  exact ((arguments_accords he).follows hs (by omega) hroom).bind fun arguments u _ =>
    follows_pure _

theorem calls_accords (he : Accords place all others e e' bound bound') (callee : Node) :
    Accords place all others (calls e callee) (calls e' callee) (bound + 1) (bound' + 1) := by
  have harguments := arguments_accords he
  refine ⟨calls_advances he.advances callee, fun s hs hlength hroom => ?_⟩
  refine (harguments.follows hs hlength hroom).bind fun arguments u hu => ?_
  obtain ⟨hu, hindex, hlt⟩ := harguments.advances.of_ok hs hlength hu
  exact follows_loop hu (by omega) (by omega) (callStep_settles he.advances)
    (callStep_follows he) (.call callee arguments)

theorem callOrMember_accords (he : Accords place all others e e' bound bound') :
    Accords place all others (callOrMember e) (callOrMember e') (bound + 1) (bound' + 1) := by
  have hmember := member_accords he
  refine ⟨callOrMember_advances he.advances, fun s hs hlength hroom => ?_⟩
  refine (hmember.follows hs hlength hroom).bind fun node u hnode => ?_
  obtain ⟨hu, hindex, hlt⟩ := hmember.advances.of_ok hs hlength hnode
  refine follows_check hu (fun _ => ?_) fun _ => follows_pure _
  exact (calls_accords he node).follows hu (by omega) (by omega)

/-- A round of operators follows the same round. -/
theorem operatorStep_follows {operand operand' : Parser Node}
    (hoperand : Accords place all others operand operand' bound bound') (symbols : List String)
    (left : Node) {s : TokenStream} (hs : s.Inside all) (hlength : s.later.length ≤ bound)
    (hroom : others.length ≤ s.index + (bound' + 1)) :
    Follows place all others (operatorStep symbols operand left)
      (operatorStep symbols operand' left) s := by
  by_cases hk : s.current.kind = .operator ∧ s.current.text ∈ symbols
  · have hround : Follows place all others
        (do let token ← advance
            let right ← operand
            return Sum.inl (.binary left right token.text) : Parser (Node ⊕ Node))
        (do let token ← advance
            let right ← operand'
            return Sum.inl (.binary left right token.text)) s := by
      refine follows_advance hs (by simp [hk.1]) fun hnext hindex hlt => ?_
      exact (hoperand.follows hnext (by omega) (by omega)).bind fun right u _ => follows_pure _
    refine hround.of_step (Nat.le_refl _) ?_ fun hcopied => ?_
    · rw [operatorStep, checkOperator_bind, if_pos (by simpa using hk)]
    · rw [operatorStep, checkOperator_bind, hs.current_inList hcopied hround.index_le,
        if_pos (by simpa using hk)]
  · have hround : Follows place all others (pure (Sum.inr left) : Parser (Node ⊕ Node))
        (pure (Sum.inr left)) s := follows_pure _
    refine hround.of_step (Nat.le_refl _) ?_ fun hcopied => ?_
    · rw [operatorStep, checkOperator_bind, if_neg (by simpa using hk)]
    · rw [operatorStep, checkOperator_bind, hs.current_inList hcopied hround.index_le,
        if_neg (by simpa using hk)]

theorem operation_accords {operand operand' : Parser Node}
    (hoperand : Accords place all others operand operand' bound bound')
    (symbols : List String) :
    Accords place all others (operation symbols operand) (operation symbols operand') bound
      bound' := by
  refine ⟨operation_advances hoperand.advances symbols, fun s hs hlength hroom => ?_⟩
  refine (hoperand.follows hs hlength hroom).bind fun left u hleft => ?_
  obtain ⟨hu, hindex, hlt⟩ := hoperand.advances.of_ok hs hlength hleft
  exact follows_loop hu (by omega) (by omega) (operatorStep_settles hoperand.advances symbols)
    (operatorStep_follows hoperand symbols) left

/-- A round of properties follows the same round. -/
theorem propertyStep_follows (he : Accords place all others e e' bound bound')
    (collected : List Property) {s : TokenStream} (hs : s.Inside all)
    (hlength : s.later.length ≤ bound) (hroom : others.length ≤ s.index + (bound' + 1)) :
    Follows place all others (propertyStep e collected) (propertyStep e' collected) s := by
  refine follows_check hs (fun _ => follows_pure _) fun _ => ?_
  refine follows_expect hs (by simp) fun _ hkey hindex hlt => ?_
  refine follows_accept hkey (by simp) (fun _ _ _ _ => follows_pure _) fun _ => ?_
  refine follows_check hkey (fun _ => follows_pure _) fun _ => ?_
  refine follows_expect hkey (by simp) fun _ hcolon hindex' hlt' => ?_
  refine (he.follows hcolon (by omega) (by omega)).bind fun value u hvalue => ?_
  obtain ⟨hu, -⟩ := he.advances.of_ok hcolon (by omega) hvalue
  refine follows_check hu (fun _ => follows_pure _) fun _ => ?_
  exact follows_expect hu (by simp) fun _ _ _ _ => follows_pure _

theorem objectOrSum_accords (he : Accords place all others e e' bound bound') :
    Accords place all others (objectOrSum e) (objectOrSum e') (bound + 1) (bound' + 1) := by
  refine ⟨objectOrSum_advances he.advances, fun s hs hlength hroom => ?_⟩
  refine follows_check hs (fun hk => ?_) fun _ => ?_
  · have hbrace : s.current.kind = .lbrace := List.mem_singleton.1 hk
    refine follows_advance hs (by simp [hbrace]) fun hnext hindex hlt => ?_
    have hloop : Follows place all others (loop (propertyStep e) [])
        (loop (propertyStep e') []) s.next :=
      follows_loop hnext (by omega) (by omega) (propertyStep_settles he.advances)
        (propertyStep_follows he) []
    refine hloop.bind fun properties u hproperties => ?_
    have hsettles := settles_loop hnext.within (fun collected t hst ht =>
      propertyStep_settles he.advances collected ht (Nat.le_trans hst.later_le (by omega))) []
    have hu := (hsettles.of_ok hproperties).1
    exact follows_expect (hu.inside hnext) (by simp) fun _ _ _ _ => follows_pure _
  · have hproduct := operation_accords (callOrMember_accords he) multiplicative
    exact (operation_accords hproduct additive).follows hs hlength hroom

theorem assignment_accords (he : Accords place all others e e' bound bound') :
    Accords place all others (assignment e) (assignment e') (bound + 1) (bound' + 1) := by
  have hobject := objectOrSum_accords he
  refine ⟨assignment_advances he.advances, fun s hs hlength hroom => ?_⟩
  refine (hobject.follows hs hlength hroom).bind fun left u hleft => ?_
  obtain ⟨hu, hindex, hlt⟩ := hobject.advances.of_ok hs hlength hleft
  refine follows_accept hu (by simp) (fun _ hnext hindex' hlt' => ?_) fun _ => follows_pure _
  exact (he.follows hnext (by omega) (by omega)).bind fun value v _ => follows_pure _

end Expressions

theorem expression_accords (bound bound' : Nat) :
    Accords place all others expression expression bound bound' :=
  accords_of_depth (accords_depth nested_advances fun _ _ => assignment_accords) bound bound'

/-- An expression follows the same expression. -/
theorem expression_follows {s : TokenStream} (hs : s.Inside all) :
    Follows place all others expression expression s :=
  (expression_accords (s.later.length + 1) others.length).follows hs (Nat.lt_succ_self _)
    (Nat.le_add_left _ _)

section Statements

variable {inner inner' : Parser Node} {bound bound' : Nat}

theorem declaration_follows {s : TokenStream} (hs : s.Inside all) (hk : s.current.kind ≠ .eof) :
    Follows place all others declaration declaration s := by
  refine follows_advance hs hk fun hname _ _ => ?_
  refine follows_expect hname (by simp) fun _ hafter _ _ => ?_
  rw [Token.moved_kind]
  refine follows_check hafter (fun hsemi => ?_) fun _ => ?_
  · have hsemi := List.mem_singleton.1 hsemi
    rw [if_pos rfl, if_pos rfl]
    split
    · exact follows_peek hafter (follows_reject _ _)
    · exact follows_advance hafter (by simp [hsemi]) fun _ _ _ => follows_pure _
  · refine follows_expect hafter (by simp) fun _ hvalue _ _ => ?_
    refine (expression_follows hvalue).bind fun value u hu => ?_
    obtain ⟨hu, -⟩ := (expression_advances _).of_ok hvalue (Nat.lt_succ_self _) hu
    exact follows_expect hu (by simp) fun _ _ _ _ => follows_pure _

/-- A round of statements follows the same round. -/
theorem statementStep_follows (hinner : Accords place all others inner inner' bound bound')
    (stops : List Kind) (collected : List Node) {s : TokenStream} (hs : s.Inside all)
    (hlength : s.later.length < bound) (hroom : others.length ≤ s.index + bound') :
    Follows place all others (statementStep stops inner collected)
      (statementStep stops inner' collected) s := by
  refine follows_check hs (fun _ => follows_pure _) fun _ => ?_
  exact (hinner.follows hs hlength hroom).bind fun n u _ => follows_pure _

/-- Statements follow the same statements. -/
theorem statements_follows (hinner : Accords place all others inner inner' bound bound')
    (stops : List Kind) {s : TokenStream} (hs : s.Inside all) (hlength : s.later.length < bound)
    (hroom : others.length ≤ s.index + bound') :
    Follows place all others (statements stops inner) (statements stops inner') s := by
  refine follows_loop hs (Nat.le_refl _) hroom (fun collected t ht hle => ?_)
    (fun collected t ht hle hroom' => ?_) []
  · exact statementStep_settles hinner.advances stops collected ht (by omega)
  · exact statementStep_follows hinner stops collected ht (by omega) hroom'

theorem function_accords (hinner : Accords place all others inner inner' bound bound') :
    Accords place all others (function inner) (function inner') (bound + 1) (bound' + 1) := by
  refine ⟨function_advances hinner.advances, fun s hs hlength hroom => ?_⟩
  refine follows_expect hs (by simp) fun _ hname hindex hlt => ?_
  refine follows_expect hname (by simp) fun _ hopen hindex' hlt' => follows_peek hopen ?_
  have harguments : Accords place all others (Parser.arguments expression)
      (Parser.arguments expression) (s.later.length + 1) (others.length + 1) :=
    arguments_accords (expression_accords _ _)
  refine (harguments.follows hopen (by omega) (by omega)).bind fun parameters u hu => ?_
  obtain ⟨hu, hindex₂, hlt₂⟩ := harguments.advances.of_ok hopen (by omega) hu
  cases parameters.mapM Node.name? with
  | none => exact follows_reject _ _
  | some names =>
    refine follows_expect hu (by simp) fun _ hbody hindex₃ hlt₃ => ?_
    have hstatements := statements_settles hinner.advances [.eof, .rbrace] hbody.within
      (by omega)
    refine (statements_follows hinner _ hbody (by omega) (by omega)).bind fun body v hv => ?_
    have hv := (hstatements.of_ok hv).1.inside hbody
    exact follows_expect hv (by simp) fun _ _ _ _ => follows_pure _

theorem statementWith_accords (hinner : Accords place all others inner inner' bound bound') :
    Accords place all others (statementWith inner) (statementWith inner') (bound + 1)
      (bound' + 1) := by
  refine ⟨statementWith_advances hinner.advances, fun s hs hlength hroom => ?_⟩
  refine follows_check hs (fun hk => declaration_follows hs ?_) fun _ => ?_
  · intro heof
    simp [heof] at hk
  refine follows_check hs (fun _ => ?_) fun _ => ?_
  · exact (function_accords hinner).follows hs hlength hroom
  · refine (expression_follows hs).bind fun n u hu => ?_
    obtain ⟨hu, -⟩ := (expression_advances _).of_ok hs (Nat.lt_succ_self _) hu
    exact follows_accept hu (by simp) (fun _ _ _ _ => follows_pure _) fun _ => follows_pure _

theorem statement_accords (bound bound' : Nat) :
    Accords place all others statement statement bound bound' :=
  accords_of_depth (accords_depth nestedStatement_advances fun _ _ => statementWith_accords)
    bound bound'

/-- Programs follow each other if their statements do. -/
theorem program_follows {inner' : Parser Node}
    (hinner : ∀ bound bound', Accords place all others statement inner' bound bound')
    {s : TokenStream} (hs : s.Inside all) :
    Follows place all others program (do return .program (← statements [.eof] inner')) s := by
  have hbody := statements_follows (hinner (s.later.length + 1) others.length) [.eof] hs
    (Nat.lt_succ_self _) (by omega)
  exact hbody.bind fun body t _ => follows_pure _

end Statements

/-- From the start of another list that has the same symbols up to where a parser
stops, a parser that follows it does the same. -/
theorem Follows.ofTokens {p p' : Parser α} (h : Follows place all others p p' (.ofTokens all))
    (hend : ∃ x ∈ all, x.kind = .eof)
    (hcopied : CopiedUpTo place all others (stop (p (.ofTokens all))).index) :
    p' (.ofTokens others) = moved place others (p (.ofTokens all)) := by
  have hothers : others ≠ [] := by
    rintro rfl
    have hcopy := hcopied _ h.index_le
    rw [(inside_ofTokens hend).getElem?_index] at hcopy
    cases hcopy
  rw [← inList_ofTokens hothers, h.moved_eq hcopied]

/-- Parsing another list that has the same symbols up to where parsing stops ends in
the same way. -/
theorem program_eq_moved (hend : ∃ x ∈ all, x.kind = .eof)
    (hcopied : CopiedUpTo place all others (stop (program (.ofTokens all))).index) :
    program (.ofTokens others) = moved place others (program (.ofTokens all)) :=
  (program_follows statement_accords (inside_ofTokens hend)).ofTokens hend hcopied

/-- Where parsing stops is part of the list. -/
theorem inside_stop_program (hend : ∃ x ∈ all, x.kind = .eof) :
    (stop (program (.ofTokens all))).Inside all :=
  (program_settles (inside_ofTokens hend).within).reaches_stop.inside (inside_ofTokens hend)

end Parser

end Scriptlet
