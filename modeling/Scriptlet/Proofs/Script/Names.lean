import Mathlib.Data.List.Basic
import Scriptlet.Proofs.Grammar.Placement
import Scriptlet.Proofs.Script.Parse

/-!
# Names of fields and parameters

In a source text that is a program, every point is followed by a name, and the
keyword of every function by a list of names, where each name may stand in
parentheses. So a field or a parameter is a bare name exactly where there is
no parenthesis: after no point, and nowhere in a list of parameters.
-/

namespace Scriptlet

namespace Grammar

/-- Whether each point is followed by a name, and each function has a list of names
for parameters. -/
structure NamesBare (kinds : List Kind) : Prop where
  /-- A name follows each point. -/
  field : ∀ before later, kinds = before ++ .dot :: later → [.ident] <+: later
  /-- Names with single commas between them are the parameters of each function. -/
  parameters : ∀ before later, kinds = before ++ .fnWord :: later →
    ∃ count, functionHead (List.replicate count 0) <+: later

/-- Whether no parenthesis follows a point or stands among the parameters of a
function, which end before the brace that opens its body. -/
structure NamesUnwrapped (kinds : List Kind) : Prop where
  /-- No parenthesis follows a point. -/
  field : ∀ before later, kinds = before ++ .dot :: later → ¬ [.lpar] <+: later
  /-- No parenthesis stands among parameters. -/
  parameters : ∀ before between later,
    kinds = before ++ .fnWord :: .ident :: .lpar :: (between ++ .rpar :: .lbrace :: later) →
      .lbrace ∉ between → .lpar ∉ between

/-- A name in parentheses consists of the name and the parentheses. -/
theorem mem_wrappedName {depth : Nat} {kind : Kind} (h : kind ∈ wrappedName depth) :
    kind = .ident ∨ kind = .rpar ∨ kind = .lpar ∧ depth ≠ 0 := by
  induction depth with
  | zero => exact .inl (List.mem_singleton.1 h)
  | succ depth ih =>
    simp only [wrappedName, List.mem_cons, List.mem_append, List.not_mem_nil, or_false] at h
    rcases h with rfl | h | rfl
    · exact .inr (.inr ⟨rfl, by simp⟩)
    · exact (ih h).imp_right fun h => h.imp_right fun h => ⟨h.1, by simp⟩
    · exact .inr (.inl rfl)

/-- More than one name are the first one, a comma and the others. -/
theorem wrappedNames_cons_cons (depth other : Nat) (depths : List Nat) :
    wrappedNames (depth :: other :: depths) =
      wrappedName depth ++ .comma :: wrappedNames (other :: depths) := by
  simp [wrappedNames, List.intercalate]

/-- Names between commas consist of the names and the commas. -/
theorem mem_wrappedNames {depths : List Nat} {kind : Kind} :
    kind ∈ wrappedNames depths → kind = .comma ∨ ∃ depth ∈ depths, kind ∈ wrappedName depth := by
  induction depths with
  | nil => simp [wrappedNames]
  | cons depth depths ih =>
    cases depths with
    | nil => exact fun h => .inr ⟨depth, by simp, by simpa [wrappedNames] using h⟩
    | cons other depths =>
      rw [wrappedNames_cons_cons]
      intro h
      simp only [List.mem_append, List.mem_cons] at h
      rcases h with h | rfl | h
      · exact .inr ⟨depth, by simp, h⟩
      · exact .inl rfl
      · refine (ih h).imp_right fun hlater => ?_
        obtain ⟨d, hd, hkind⟩ := hlater
        exact ⟨d, List.mem_cons_of_mem _ hd, hkind⟩

/-- Each name stands among the names between commas. -/
theorem wrappedName_subset {depths : List Nat} {depth : Nat} (h : depth ∈ depths) :
    wrappedName depth ⊆ wrappedNames depths := by
  induction depths with
  | nil => simp at h
  | cons first depths ih =>
    cases depths with
    | nil => simp_all [wrappedNames]
    | cons other depths =>
      rw [wrappedNames_cons_cons]
      rcases List.mem_cons.1 h with rfl | h
      · exact List.subset_append_left _ _
      · exact List.Subset.trans (List.subset_cons_of_subset _ (ih h)) (List.subset_append_right _ _)

/-- There is a parenthesis among names between commas only if one of them has one. -/
theorem lpar_mem_wrappedNames_iff {depths : List Nat} :
    .lpar ∈ wrappedNames depths ↔ ∃ depth ∈ depths, depth ≠ 0 := by
  constructor
  · intro h
    obtain h | ⟨depth, hdepth, h⟩ := mem_wrappedNames h
    · cases h
    · exact ⟨depth, hdepth, by simpa using mem_wrappedName h⟩
  · rintro ⟨depth, hdepth, hne⟩
    obtain ⟨depth, rfl⟩ := Nat.exists_eq_succ_of_ne_zero hne
    exact wrappedName_subset hdepth (by simp [wrappedName])

/-- There is no brace among names between commas. -/
theorem lbrace_notMem_wrappedNames (depths : List Nat) : .lbrace ∉ wrappedNames depths := by
  intro h
  obtain h | ⟨depth, -, h⟩ := mem_wrappedNames h
  · cases h
  · simpa using mem_wrappedName h

/-- A name without parentheses follows where no parenthesis does. -/
theorem ident_prefix_iff {depth : Nat} {later : List Kind} (h : wrappedName depth <+: later) :
    [.ident] <+: later ↔ ¬ [.lpar] <+: later := by
  obtain ⟨rest, rfl⟩ := h
  cases depth <;> simp [wrappedName]

/-- Nothing stands before the end of a parameter list if the list ends at once. -/
theorem eq_nil_of_ends {between rest more : List Kind} (hno : .lbrace ∉ between)
    (h : .rpar :: .lbrace :: rest = between ++ .rpar :: .lbrace :: more) : between = [] := by
  rcases between with _ | ⟨x, _ | ⟨y, between⟩⟩
  · rfl
  · simp at h
  · obtain ⟨-, rfl, -⟩ : .rpar = x ∧ .lbrace = y ∧ _ := by simpa using h
    simp at hno

/-- The parameters of a function end in one place only. -/
theorem eq_of_ends {a b rest more : List Kind} (ha : .lbrace ∉ a) (hb : .lbrace ∉ b)
    (h : a ++ .rpar :: .lbrace :: rest = b ++ .rpar :: .lbrace :: more) : a = b := by
  rcases List.append_eq_append_iff.1 h with ⟨between, rfl, hends⟩ | ⟨between, rfl, hends⟩
  · have hno : .lbrace ∉ between := fun hmem => hb (List.mem_append_right a hmem)
    simp [eq_nil_of_ends hno hends]
  · have hno : .lbrace ∉ between := fun hmem => ha (List.mem_append_right b hmem)
    simp [eq_nil_of_ends hno hends]

variable {kinds : List Kind}

/-- The parameters of a function in a program are bare names exactly if there is no
parenthesis among them. -/
theorem parameters_bare_iff {depths : List Nat} {later : List Kind}
    (h : functionHead depths <+: later) :
    (∃ count, functionHead (List.replicate count 0) <+: later) ↔
      ∀ between more, later = .ident :: .lpar :: (between ++ .rpar :: .lbrace :: more) →
        .lbrace ∉ between → .lpar ∉ between := by
  constructor
  · rintro ⟨count, rest, hbare⟩ between more hlater hno hmem
    have hends : wrappedNames (List.replicate count 0) ++ .rpar :: .lbrace :: rest =
        between ++ .rpar :: .lbrace :: more := by
      simpa [functionHead, hlater] using hbare
    rw [← eq_of_ends (lbrace_notMem_wrappedNames _) hno hends, lpar_mem_wrappedNames_iff] at hmem
    obtain ⟨depth, hdepth, hne⟩ := hmem
    exact hne (List.eq_of_mem_replicate hdepth)
  · intro hopen
    obtain ⟨rest, rfl⟩ := h
    have hlpar := hopen (wrappedNames depths) rest (by simp [functionHead])
      (lbrace_notMem_wrappedNames depths)
    have hzero : ∀ depth ∈ depths, depth = 0 := by
      intro depth hdepth
      refine Decidable.byContradiction fun hne => ?_
      exact hlpar (lpar_mem_wrappedNames_iff.2 ⟨depth, hdepth, hne⟩)
    rw [List.eq_replicate_of_mem hzero]
    exact ⟨depths.length, List.prefix_append _ _⟩

/-- Among symbols that are in place, names are bare exactly if no parenthesis stands
where they could be. -/
theorem AllPrecede.namesBare_iff (h : AllPrecede kinds) :
    NamesBare kinds ↔ NamesUnwrapped kinds := by
  have hfield : ∀ before later, kinds = before ++ .dot :: later →
      ([.ident] <+: later ↔ ¬ [.lpar] <+: later) := by
    rintro before later rfl
    obtain ⟨depth, hname⟩ : ∃ depth, wrappedName depth <+: later := h.precedes
    exact ident_prefix_iff hname
  have hparameters : ∀ before later, kinds = before ++ .fnWord :: later →
      ∃ depths, functionHead depths <+: later := by
    rintro before later rfl
    exact h.precedes
  constructor
  · intro hbare
    refine ⟨fun before later hkinds => ?_, fun before between later hkinds => ?_⟩
    · exact (hfield before later hkinds).1 (hbare.field before later hkinds)
    · obtain ⟨depths, hhead⟩ := hparameters before _ hkinds
      exact (parameters_bare_iff hhead).1 (hbare.parameters before _ hkinds) between later rfl
  · intro hopen
    refine ⟨fun before later hkinds => ?_, fun before later hkinds => ?_⟩
    · exact (hfield before later hkinds).2 (hopen.field before later hkinds)
    · obtain ⟨depths, hhead⟩ := hparameters before later hkinds
      refine (parameters_bare_iff hhead).2 fun between more hlater => ?_
      exact hopen.parameters before between more (hlater ▸ hkinds)

end Grammar

open Grammar

/-- The tokens of a program are in place. -/
theorem allPrecede_of_parse {source : String} {n : Node} {tokens : List Token}
    (hparse : parse source = .ok n) (htokens : tokenize source = .ok tokens) :
    AllPrecede (tokens.map Token.kind) := by
  obtain ⟨before, last, rfl, hlast, -, -⟩ := lexes_of_tokenize htokens
  have hplaced : Placed (before.map Token.symbol) := (lexes_of_parse hparse htokens).2.placed
  have hkinds : (before.map Token.symbol).map Symbol.kind = before.map Token.kind := by simp
  rw [Placed, hkinds] at hplaced
  rw [List.map_append]
  refine hplaced.append ?_
  rw [List.map_singleton, hlast]
  exact ⟨trivial, trivial⟩

/-- In a program, a name follows each point, and names with commas between them are
the parameters of each function, but each of them may stand in parentheses. They are
bare exactly if there is no parenthesis after a point or among parameters. -/
theorem parse_names {source : String} {n : Node} {tokens : List Token}
    (hparse : parse source = .ok n) (htokens : tokenize source = .ok tokens) :
    let kinds := tokens.map Token.kind
    (∀ before later, kinds = before ++ .dot :: later → ∃ depth, wrappedName depth <+: later) ∧
      (∀ before later, kinds = before ++ .fnWord :: later →
        ∃ depths, functionHead depths <+: later) ∧
      (NamesBare kinds ↔ NamesUnwrapped kinds) := by
  intro kinds
  have hplaced : AllPrecede kinds := allPrecede_of_parse hparse htokens
  refine ⟨?_, ?_, hplaced.namesBare_iff⟩
  · intro before later hkinds
    rw [hkinds] at hplaced
    exact hplaced.precedes
  · intro before later hkinds
    rw [hkinds] at hplaced
    exact hplaced.precedes

/-- A field and a parameter that stand in parentheses. -/
theorem parse_names_of_function :
    let source := "fn f((a)) \x7ba.(b)\x7d"
    let kinds : List Kind :=
      [.fnWord, .ident, .lpar, .lpar, .ident, .rpar, .rpar, .lbrace, .ident, .dot, .lpar, .ident,
        .rpar, .rbrace, .eof]
    ∃ n tokens, parse source = .ok n ∧ tokenize source = .ok tokens ∧
      tokens.map Token.kind = kinds ∧
      (∀ before later, kinds = before ++ .dot :: later → ∃ depth, wrappedName depth <+: later) ∧
      (∀ before later, kinds = before ++ .fnWord :: later →
        ∃ depths, functionHead depths <+: later) ∧
      (NamesBare kinds ↔ NamesUnwrapped kinds) := by
  intro source kinds
  let tokens : List Token :=
    [⟨.fnWord, "fn", ⟨1, 1⟩⟩, ⟨.ident, "f", ⟨1, 4⟩⟩, ⟨.lpar, "(", ⟨1, 5⟩⟩, ⟨.lpar, "(", ⟨1, 6⟩⟩,
      ⟨.ident, "a", ⟨1, 7⟩⟩, ⟨.rpar, ")", ⟨1, 8⟩⟩, ⟨.rpar, ")", ⟨1, 9⟩⟩,
      ⟨.lbrace, "\x7b", ⟨1, 11⟩⟩, ⟨.ident, "a", ⟨1, 12⟩⟩, ⟨.dot, ".", ⟨1, 13⟩⟩,
      ⟨.lpar, "(", ⟨1, 14⟩⟩, ⟨.ident, "b", ⟨1, 15⟩⟩, ⟨.rpar, ")", ⟨1, 16⟩⟩,
      ⟨.rbrace, "\x7d", ⟨1, 17⟩⟩, ⟨.eof, Token.endText, ⟨1, 18⟩⟩]
  have htokens : tokenize source = .ok tokens := by decide +kernel
  have hparse : parse source = .ok (.program [.function "f" ["a"]
      [.member (.identifier "a") (.identifier "b") false]]) :=
    parse_eq_ok_iff_parseTokens.2 ⟨tokens, htokens, rfl⟩
  exact ⟨_, tokens, hparse, htokens, rfl, parse_names hparse htokens⟩

/-- A field in parentheses is accepted, and so is a parameter. -/
theorem exists_parse_not_namesBare :
    (∃ n tokens, parse "a.(b)" = .ok n ∧ tokenize "a.(b)" = .ok tokens ∧
      ¬ NamesBare (tokens.map Token.kind)) ∧
    ∃ n tokens, parse "fn f((a)) \x7b\x7d" = .ok n ∧ tokenize "fn f((a)) \x7b\x7d" = .ok tokens ∧
      ¬ NamesBare (tokens.map Token.kind) := by
  constructor
  · let tokens : List Token :=
      [⟨.ident, "a", ⟨1, 1⟩⟩, ⟨.dot, ".", ⟨1, 2⟩⟩, ⟨.lpar, "(", ⟨1, 3⟩⟩, ⟨.ident, "b", ⟨1, 4⟩⟩,
        ⟨.rpar, ")", ⟨1, 5⟩⟩, ⟨.eof, Token.endText, ⟨1, 6⟩⟩]
    have htokens : tokenize "a.(b)" = .ok tokens := by decide +kernel
    have hparse : parse "a.(b)" =
        .ok (.program [.member (.identifier "a") (.identifier "b") false]) :=
      parse_eq_ok_iff_parseTokens.2 ⟨tokens, htokens, rfl⟩
    refine ⟨_, tokens, hparse, htokens, fun hbare => ?_⟩
    have hopen := (allPrecede_of_parse hparse htokens).namesBare_iff.1 hbare
    exact hopen.field [.ident] [.lpar, .ident, .rpar, .eof] rfl ⟨_, rfl⟩
  · let tokens : List Token :=
      [⟨.fnWord, "fn", ⟨1, 1⟩⟩, ⟨.ident, "f", ⟨1, 4⟩⟩, ⟨.lpar, "(", ⟨1, 5⟩⟩, ⟨.lpar, "(", ⟨1, 6⟩⟩,
        ⟨.ident, "a", ⟨1, 7⟩⟩, ⟨.rpar, ")", ⟨1, 8⟩⟩, ⟨.rpar, ")", ⟨1, 9⟩⟩,
        ⟨.lbrace, "\x7b", ⟨1, 11⟩⟩, ⟨.rbrace, "\x7d", ⟨1, 12⟩⟩, ⟨.eof, Token.endText, ⟨1, 13⟩⟩]
    have htokens : tokenize "fn f((a)) \x7b\x7d" = .ok tokens := by decide +kernel
    have hparse : parse "fn f((a)) \x7b\x7d" = .ok (.program [.function "f" ["a"] []]) :=
      parse_eq_ok_iff_parseTokens.2 ⟨tokens, htokens, rfl⟩
    refine ⟨_, tokens, hparse, htokens, fun hbare => ?_⟩
    have hopen := (allPrecede_of_parse hparse htokens).namesBare_iff.1 hbare
    exact hopen.parameters [] [.lpar, .ident, .rpar] [.rbrace, .eof] rfl (by decide) (by decide)

end Scriptlet
