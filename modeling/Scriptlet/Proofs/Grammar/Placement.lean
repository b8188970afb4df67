import Scriptlet.Proofs.Grammar

/-!
# Where symbols stand

Three kinds of symbols are bound to what follows them. A point is followed by
a name, and the keyword of a function by the names of the function and of its
parameters; but each of these names may stand in parentheses, since what is
demanded there is an expression that denotes a name. A string has no place in
a program at all. All other symbols can be followed by anything, as far as they
alone are concerned.
-/

namespace Scriptlet.Grammar

/-- The kinds of a name in parentheses, as many as told. -/
def wrappedName : (depth : Nat) → List Kind
  | 0 => [.ident]
  | depth + 1 => .lpar :: (wrappedName depth ++ [.rpar])

/-- The kinds of names between commas, each in its own number of parentheses. -/
def wrappedNames (depths : List Nat) : List Kind :=
  [Kind.comma].intercalate (depths.map wrappedName)

/-- The kinds of what comes between the keyword and the body of a function. -/
def functionHead (depths : List Nat) : List Kind :=
  .ident :: .lpar :: (wrappedNames depths ++ [.rpar, .lbrace])

/-- Whether a symbol of a kind may be followed by symbols of the given kinds. -/
def Precedes (kind : Kind) (later : List Kind) : Prop :=
  match kind with
  | .dot => ∃ depth, wrappedName depth <+: later
  | .fnWord => ∃ depths, functionHead depths <+: later
  | .string => False
  | _ => True

/-- Whether symbols of a kind are bound to nothing that follows. -/
def isFree : Kind → Bool
  | .dot | .fnWord | .string => false
  | _ => true

/-- Whether each symbol may be followed by those after it. -/
def AllPrecede : List Kind → Prop
  | [] => True
  | kind :: later => Precedes kind later ∧ AllPrecede later

variable {kind : Kind} {kinds later more : List Kind}

/-- More symbols may follow. -/
theorem Precedes.append (h : Precedes kind later) (more : List Kind) :
    Precedes kind (later ++ more) := by
  cases kind
  case dot =>
    obtain ⟨depth, hname⟩ := h
    exact ⟨depth, hname.trans (List.prefix_append later more)⟩
  case fnWord =>
    obtain ⟨depths, hhead⟩ := h
    exact ⟨depths, hhead.trans (List.prefix_append later more)⟩
  all_goals exact h

/-- Sequences may follow each other. -/
theorem AllPrecede.append (h : AllPrecede kinds) (hmore : AllPrecede more) :
    AllPrecede (kinds ++ more) := by
  induction kinds with
  | nil => exact hmore
  | cons kind later ih => exact ⟨h.1.append more, ih h.2⟩

/-- Each symbol may be followed by what comes after it. -/
theorem AllPrecede.precedes {before : List Kind} (h : AllPrecede (before ++ kind :: later)) :
    Precedes kind later := by
  induction before with
  | nil => exact h.1
  | cons first before ih => exact ih h.2

/-- Whether the symbols of a sequence may follow each other. -/
def Placed (w : List Symbol) : Prop :=
  AllPrecede (w.map Symbol.kind)

section Placed

variable {x : Symbol} {w v : List Symbol}

/-- No symbols are in place. -/
@[simp]
theorem placed_nil : Placed [] :=
  trivial

/-- A symbol may stand before others that are in place. -/
theorem Placed.cons (hw : Placed w) (hx : Precedes x.kind (w.map Symbol.kind)) : Placed (x :: w) :=
  ⟨hx, hw⟩

/-- A symbol that is bound to nothing may stand before others that are in place. -/
theorem Placed.cons_free (hw : Placed w) (hx : x.kind = kind) (hkind : isFree kind = true) :
    Placed (x :: w) := by
  refine hw.cons ?_
  rw [hx]
  cases kind
  case dot | fnWord | string => cases hkind
  all_goals trivial

/-- Two sequences that are in place may follow each other. -/
theorem Placed.append (hw : Placed w) (hv : Placed v) : Placed (w ++ v) := by
  rw [Placed, List.map_append]
  exact AllPrecede.append hw hv

/-- A symbol that is bound to nothing may stand alone. -/
theorem placed_single (hx : x.kind = kind) (hkind : isFree kind = true) : Placed [x] :=
  placed_nil.cons_free hx hkind

/-- What is in place stays so between two symbols that are bound to nothing. -/
theorem Placed.between {l r : Symbol} {left right : Kind} (hw : Placed w)
    (hl : l.kind = left) (hr : r.kind = right) (hleft : isFree left = true)
    (hright : isFree right = true) : Placed (l :: (w ++ [r])) :=
  (hw.append (placed_single hr hright)).cons_free hl hleft

/-- A symbol that is bound to nothing may stand between what is in place. -/
theorem Placed.append_cons (hw : Placed w) (hv : Placed v) (hx : x.kind = kind)
    (hkind : isFree kind = true) : Placed (w ++ x :: v) :=
  hw.append (hv.cons_free hx hkind)

end Placed

mutual

theorem Primary.eq_wrappedName {w : List Symbol} {n : Node} (h : Primary w n) {name : String}
    (hname : n = .identifier name) : ∃ depth, w.map Symbol.kind = wrappedName depth := by
  match h with
  | .name hx => exact ⟨0, by simp [hx, wrappedName]⟩
  | .number _ _ => cases hname
  | .group hl hn hr =>
    obtain ⟨depth, hw⟩ := hn.eq_wrappedName hname
    exact ⟨depth + 1, by simp [hl, hr, hw, wrappedName]⟩

/-- An expression that denotes a name is that name in parentheses. -/
theorem Expression.eq_wrappedName {w : List Symbol} {n : Node} (h : Expression w n) {name : String}
    (hname : n = .identifier name) : ∃ depth, w.map Symbol.kind = wrappedName depth := by
  match h with
  | .plain (.sum (.product (.call (.member (.primary hn))))) => exact hn.eq_wrappedName hname
  | .plain (.empty _ _) | .plain (.object _ _ _) => cases hname
  | .plain (.sum (.operator _ _ _)) => cases hname
  | .plain (.sum (.product (.operator _ _ _))) => cases hname
  | .plain (.sum (.product (.call (.call _ _)))) => cases hname
  | .plain (.sum (.product (.call (.member (.field _ _ _))))) => cases hname
  | .plain (.sum (.product (.call (.member (.index _ _ _ _))))) => cases hname
  | .assignment _ _ _ => cases hname

end

/-- Arguments that denote names are these names in parentheses. -/
theorem ArgumentList.eq_wrappedNames {w : List Symbol} {arguments : List Node}
    (h : ArgumentList w arguments) {names : List String}
    (hnames : arguments = names.map .identifier) :
    ∃ depths, w.map Symbol.kind = wrappedNames depths ∧ depths ≠ [] := by
  match h with
  | .last hn =>
    obtain ⟨name, -, hname⟩ := List.map_eq_singleton_iff.1 hnames.symm
    obtain ⟨depth, hw⟩ := hn.eq_wrappedName hname.symm
    exact ⟨[depth], by simp [hw, wrappedNames], by simp⟩
  | .more hn hc hrest =>
    obtain ⟨name, names, -, hname, hothers⟩ := List.map_eq_cons_iff.1 hnames.symm
    obtain ⟨depth, hw⟩ := hn.eq_wrappedName hname.symm
    obtain ⟨depths, hv, hne⟩ := hrest.eq_wrappedNames hothers.symm
    refine ⟨depth :: depths, ?_, by simp⟩
    obtain ⟨other, depths, rfl⟩ := List.exists_cons_of_ne_nil hne
    simp [hw, hc, hv, wrappedNames, List.intercalate]

/-- An argument list that denotes names holds these names in parentheses. -/
theorem Arguments.eq_wrappedNames {w : List Symbol} {names : List String}
    (h : Arguments w (names.map .identifier)) :
    ∃ depths, w.map Symbol.kind = .lpar :: (wrappedNames depths ++ [.rpar]) := by
  generalize harguments : names.map Node.identifier = arguments at h
  cases h with
  | none hl hr => exact ⟨[], by simp [hl, hr, wrappedNames]⟩
  | some hl hlist hr =>
    obtain ⟨depths, hw, -⟩ := hlist.eq_wrappedNames harguments.symm
    exact ⟨depths, by simp [hl, hr, hw]⟩

mutual

theorem Primary.placed {w : List Symbol} {n : Node} (h : Primary w n) : Placed w := by
  match h with
  | .name hx => exact placed_single hx rfl
  | .number hx _ => exact placed_single hx rfl
  | .group hl hn hr => exact hn.placed.between hl hr rfl rfl

theorem Member.placed {w : List Symbol} {n : Node} (h : Member w n) : Placed w := by
  match h with
  | .primary hn => exact hn.placed
  | .field hobject hd hname =>
    obtain ⟨depth, hkinds⟩ := hname.eq_wrappedName rfl
    refine hobject.placed.append (hname.placed.cons ?_)
    rw [hd, hkinds]
    exact ⟨depth, List.prefix_refl _⟩
  | .index hobject hl hproperty hr =>
    exact hobject.placed.append (hproperty.placed.between hl hr rfl rfl)

theorem Call.placed {w : List Symbol} {n : Node} (h : Call w n) : Placed w := by
  match h with
  | .member hn => exact hn.placed
  | .call hcallee harguments => exact hcallee.placed.append harguments.placed

theorem Product.placed {w : List Symbol} {n : Node} (h : Product w n) : Placed w := by
  match h with
  | .call hn => exact hn.placed
  | .operator hleft ho hright => exact hleft.placed.append_cons hright.placed ho.1 rfl

theorem Sum.placed {w : List Symbol} {n : Node} (h : Sum w n) : Placed w := by
  match h with
  | .product hn => exact hn.placed
  | .operator hleft ho hright => exact hleft.placed.append_cons hright.placed ho.1 rfl

theorem Arguments.placed {w : List Symbol} {arguments : List Node} (h : Arguments w arguments) :
    Placed w := by
  match h with
  | .none hl hr => exact placed_nil.between hl hr rfl rfl
  | .some hl hlist hr => exact hlist.placed.between hl hr rfl rfl

theorem ArgumentList.placed {w : List Symbol} {arguments : List Node}
    (h : ArgumentList w arguments) : Placed w := by
  match h with
  | .last hn => exact hn.placed
  | .more hn hc hrest => exact hn.placed.append_cons hrest.placed hc rfl

theorem Entry.placed {w : List Symbol} {p : Property} (h : Entry w p) : Placed w := by
  match h with
  | .shorthand hk => exact placed_single hk rfl
  | .pair hk hc hvalue => exact (hvalue.placed.cons_free hc rfl).cons_free hk rfl

theorem EntryList.placed {w : List Symbol} {properties : List Property}
    (h : EntryList w properties) : Placed w := by
  match h with
  | .last hp => exact hp.placed
  | .lastComma hp hc => exact hp.placed.append (placed_single hc rfl)
  | .more hp hc hrest => exact hp.placed.append_cons hrest.placed hc rfl

theorem ObjectOrSum.placed {w : List Symbol} {n : Node} (h : ObjectOrSum w n) : Placed w := by
  match h with
  | .empty hl hr => exact placed_nil.between hl hr rfl rfl
  | .object hl hlist hr => exact hlist.placed.between hl hr rfl rfl
  | .sum hn => exact hn.placed

theorem Expression.placed {w : List Symbol} {n : Node} (h : Expression w n) : Placed w := by
  match h with
  | .plain hn => exact hn.placed
  | .assignment htarget he hvalue => exact htarget.placed.append_cons hvalue.placed he rfl

end

mutual

theorem Statement.placed {w : List Symbol} {n : Node} (h : Statement w n) : Placed w := by
  cases h with
  | uninitialized hk hx he =>
    exact ((placed_single he rfl).cons_free hx rfl).cons_free hk rfl
  | initialized hk hx hq hvalue he =>
    exact ((hvalue.placed.between hq he rfl rfl).cons_free hx rfl).cons_free hk rfl
  | constant hk hx hq hvalue he =>
    exact ((hvalue.placed.between hq he rfl rfl).cons_free hx rfl).cons_free hk rfl
  | function hk hx harguments hl hbody hr =>
    obtain ⟨depths, hkinds⟩ := harguments.eq_wrappedNames
    have hrest := hbody.placed.between hl hr rfl rfl
    refine ((harguments.placed.append hrest).cons_free hx rfl).cons ?_
    rw [hk]
    exact ⟨depths, by simp [functionHead, hx, hkinds, hl]⟩
  | closed hn he => exact hn.placed.append (placed_single he rfl)

theorem Statements.placed {w : List Symbol} {body : List Node} (h : Statements w body) :
    Placed w := by
  cases h with
  | nil => exact placed_nil
  | cons hn hbody => exact hn.placed.append hbody.placed
  | bare hn hbody _ => exact hn.placed.append hbody.placed

end

/-- The symbols of a program are in place. -/
theorem Program.placed {w : List Symbol} {n : Node} (h : Program w n) : Placed w := by
  cases h with
  | statements hbody => exact hbody.placed

/-- No string stands in a program. -/
theorem Placed.kind_ne_string {w : List Symbol} (h : Placed w) : ∀ x ∈ w, x.kind ≠ .string := by
  intro x hx hstring
  obtain ⟨before, later, rfl⟩ := List.append_of_mem hx
  rw [Placed, List.map_append, List.map_cons, hstring] at h
  exact h.precedes

end Scriptlet.Grammar
