import Scriptlet.Proofs.Node.Occurrence
import Scriptlet.Proofs.Node.Outline
import Scriptlet.Proofs.Number.Distinct
import Scriptlet.Proofs.Script.WellFormed

/-!
# The printed tree of a program

The printed form of the tree of a program tells the program. The text tells the
outline of the tree, and the first word of each line tells the kind of the node. Only
the parameters of a function have no such word: they are the first lines with nothing
under them, and so a function body that starts with an empty object cannot be told
from a parameter with the name of its kind.
-/

namespace Scriptlet

open Character Lexeme

/-- A name has only letters. -/
theorem IsName.notMem {name : String} (h : IsName name) {c : Char} (hc : isLetter c = false) :
    c ∉ name.toList := by
  intro hmem
  rw [h.2.1 c hmem] at hc
  cases hc

namespace WellFormed

variable {n m : Node}

/-- An expression is not only a datum. -/
theorem Expression.isProper (h : Expression n) : n.IsProper := by
  rintro datum rfl
  cases h

/-- A statement is not only a datum. -/
theorem Statement.isProper (h : Statement n) : n.IsProper := by
  rintro datum rfl
  cases h with
  | expression h => cases h

/-- The text after the tab is told. -/
theorem eq_of_tabbed_eq {word text text' : String}
    (h : word ++ "\t" ++ text = word ++ "\t" ++ text') : text = text' := by
  have hlist := congrArg String.toList h
  simp only [String.toList_append] at hlist
  exact String.toList_injective (List.append_cancel_left hlist)

/-- Lists whose members are told by a function are told by its values. -/
theorem eq_of_map_eq {α β : Type} {f : α → β} {as bs : List α}
    (h : ∀ a ∈ as, ∀ b ∈ bs, f a = f b → a = b) (heq : as.map f = bs.map f) : as = bs := by
  induction as generalizing bs with
  | nil => exact (List.map_eq_nil_iff.1 heq.symm).symm
  | cons a as ih =>
    obtain ⟨b, bs, rfl, hb, hbs⟩ := List.map_eq_cons_iff.1 heq.symm
    rw [h a (by simp) b (by simp) hb.symm,
      ih (fun c hc d hd => h c (by simp [hc]) d (by simp [hd])) hbs.symm]

mutual

/-- Expressions with the same outline are the same: the kind leaves one rule for the
second one, and its parts have the same outlines. -/
theorem Expression.eq_of_outline_eq {n : Node} (hn : Expression n) :
    ∀ m, Expression m → n.outline = m.outline → n = m := by
  match hn with
  | .identifier _ =>
    intro m hm h
    have hkind := Node.kind_eq_of_outline_eq h nofun hm.isProper
    cases hm with
    | identifier =>
      rw [Node.outline_identifier, Node.outline_identifier] at h
      rw [eq_of_tabbed_eq (Outline.item.inj h).1]
    | _ => simp only [Node.kind, String.reduceEq] at hkind
  | .number hvalue =>
    intro m hm h
    have hkind := Node.kind_eq_of_outline_eq h nofun hm.isProper
    cases hm with
    | number hvalue' =>
      rw [Node.outline_number, Node.outline_number] at h
      obtain ⟨digits, hdigits, hread⟩ := hvalue
      obtain ⟨digits', hdigits', hread'⟩ := hvalue'
      rw [Number.eq_of_print_eq (Number.sign?_of_read? hdigits hread)
        (Number.sign?_of_read? hdigits' hread') (eq_of_tabbed_eq (Outline.item.inj h).1)]
    | _ => simp only [Node.kind, String.reduceEq] at hkind
  | .binary hleft hright _ =>
    intro m hm h
    have hkind := Node.kind_eq_of_outline_eq h nofun hm.isProper
    cases hm with
    | binary hleft' hright' =>
      rw [Node.outline_binary hleft.isProper hright.isProper,
        Node.outline_binary hleft'.isProper hright'.isProper] at h
      simp only [Outline.item.injEq, List.cons.injEq] at h
      obtain ⟨-, hl, hr, ⟨rfl, -⟩, -⟩ := h
      rw [hleft.eq_of_outline_eq _ hleft' hl, hright.eq_of_outline_eq _ hright' hr]
    | _ => simp only [Node.kind, String.reduceEq] at hkind
  | .call hcallee harguments =>
    intro m hm h
    have hkind := Node.kind_eq_of_outline_eq h nofun hm.isProper
    cases hm with
    | call hcallee' harguments' =>
      rw [Node.outline_call hcallee.isProper fun n hn => (harguments n hn).isProper,
        Node.outline_call hcallee'.isProper fun n hn => (harguments' n hn).isProper] at h
      simp only [Outline.item.injEq, List.cons.injEq] at h
      obtain ⟨-, hc, ha⟩ := h
      rw [hcallee.eq_of_outline_eq _ hcallee' hc,
        eq_of_map_eq (fun a ha b hb => (harguments a ha).eq_of_outline_eq b (harguments' b hb)) ha]
    | _ => simp only [Node.kind, String.reduceEq] at hkind
  | .field hobject hname =>
    intro m hm h
    have hkind := Node.kind_eq_of_outline_eq h nofun hm.isProper
    have hproperty := (Expression.identifier hname).isProper
    cases hm with
    | field hobject' hname' =>
      obtain ⟨ho, hp, -⟩ := Node.outline_member_inj hobject.isProper hproperty hobject'.isProper
        (Expression.identifier hname').isProper h
      rw [Node.outline_identifier, Node.outline_identifier] at hp
      rw [hobject.eq_of_outline_eq _ hobject' ho, eq_of_tabbed_eq (Outline.item.inj hp).1]
    | index hobject' hproperty' =>
      obtain ⟨-, -, hcomputed⟩ := Node.outline_member_inj hobject.isProper hproperty
        hobject'.isProper hproperty'.isProper h
      cases hcomputed
    | _ => simp only [Node.kind, String.reduceEq] at hkind
  | .index hobject hproperty =>
    intro m hm h
    have hkind := Node.kind_eq_of_outline_eq h nofun hm.isProper
    cases hm with
    | field hobject' hname' =>
      obtain ⟨-, -, hcomputed⟩ := Node.outline_member_inj hobject.isProper hproperty.isProper
        hobject'.isProper (Expression.identifier hname').isProper h
      cases hcomputed
    | index hobject' hproperty' =>
      obtain ⟨ho, hp, -⟩ := Node.outline_member_inj hobject.isProper hproperty.isProper
        hobject'.isProper hproperty'.isProper h
      rw [hobject.eq_of_outline_eq _ hobject' ho, hproperty.eq_of_outline_eq _ hproperty' hp]
    | _ => simp only [Node.kind, String.reduceEq] at hkind
  | .object hproperties =>
    intro m hm h
    have hkind := Node.kind_eq_of_outline_eq h nofun hm.isProper
    cases hm with
    | object hproperties' =>
      rw [Node.outline_object, Node.outline_object] at h
      rw [eq_of_map_eq (fun p hp q hq =>
        (hproperties p hp).eq_of_outline_eq q (hproperties' q hq)) (Outline.item.inj h).2]
    | _ => simp only [Node.kind, String.reduceEq] at hkind
  | .assignment htarget hvalue =>
    intro m hm h
    have hkind := Node.kind_eq_of_outline_eq h nofun hm.isProper
    cases hm with
    | assignment htarget' hvalue' =>
      rw [Node.outline_assignment htarget.isProper hvalue.isProper,
        Node.outline_assignment htarget'.isProper hvalue'.isProper] at h
      simp only [Outline.item.injEq, List.cons.injEq] at h
      obtain ⟨-, ht, hv, -⟩ := h
      rw [htarget.eq_of_outline_eq _ htarget' ht, hvalue.eq_of_outline_eq _ hvalue' hv]
    | _ => simp only [Node.kind, String.reduceEq] at hkind

/-- Properties with the same outline are the same. -/
theorem Entry.eq_of_outline_eq {p : Property} (hp : Entry p) :
    ∀ q, Entry q → p.outline = q.outline → p = q := by
  match hp with
  | .shorthand _ =>
    intro q hq h
    cases hq with
    | shorthand =>
      rw [Property.outline_shorthand, Property.outline_shorthand] at h
      rw [eq_of_tabbed_eq (Outline.item.inj h).1]
    | pair _ hvalue =>
      rw [Property.outline_shorthand, Property.outline_pair hvalue.isProper] at h
      simp at h
  | .pair _ hvalue =>
    intro q hq h
    cases hq with
    | shorthand =>
      rw [Property.outline_shorthand, Property.outline_pair hvalue.isProper] at h
      simp at h
    | pair _ hvalue' =>
      rw [Property.outline_pair hvalue.isProper, Property.outline_pair hvalue'.isProper] at h
      simp only [Outline.item.injEq, List.cons.injEq] at h
      obtain ⟨-, ⟨rfl, -⟩, hv, -⟩ := h
      rw [hvalue.eq_of_outline_eq _ hvalue' hv]

end

/-- Only an empty object has an outline of one line without a tab. -/
theorem Statement.outline_ne_leaf (h : Statement n) (hne : n ≠ .object []) {word : String}
    (hword : '\t' ∉ word.toList) : n.outline ≠ .item word [] := by
  have htabbed {label text : String} :
      Outline.item (label ++ "\t" ++ text) [] ≠ .item word [] := by
    intro heq
    rw [← (Outline.item.inj heq).1] at hword
    simp at hword
  cases h with
  | uninitialized => simp [Node.outline_uninitialized]
  | initialized _ hvalue => simp [Node.outline_initialized hvalue.isProper]
  | function _ _ hbody =>
    rw [Node.outline_function fun n hn => (hbody n hn).isProper]
    split
    · exact htabbed
    · simp
  | expression h =>
    cases h with
    | identifier =>
      rw [Node.outline_identifier]
      exact htabbed
    | number =>
      rw [Node.outline_number]
      exact htabbed
    | binary hleft hright => simp [Node.outline_binary hleft.isProper hright.isProper]
    | call hcallee harguments =>
      simp [Node.outline_call hcallee.isProper fun n hn => (harguments n hn).isProper]
    | field hobject hname =>
      simp [Node.outline_member hobject.isProper (Expression.identifier hname).isProper]
    | index hobject hproperty => simp [Node.outline_member hobject.isProper hproperty.isProper]
    | @object properties =>
      have hproperties : properties ≠ [] := by
        rintro rfl
        exact hne rfl
      simp [Node.outline_object, hproperties]
    | assignment htarget hvalue =>
      simp [Node.outline_assignment htarget.isProper hvalue.isProper]

/-- Parameters are told from what follows them, if that starts with no line of their
form. -/
theorem eq_of_parameters_append_eq {parameters parameters' : List String}
    {lines lines' : List Outline} (hparameters : ∀ p ∈ parameters, '\t' ∉ p.toList)
    (hparameters' : ∀ p ∈ parameters', '\t' ∉ p.toList)
    (hlines : ∀ o ∈ lines.head?, ∀ word : String, '\t' ∉ word.toList → o ≠ .item word [])
    (hlines' : ∀ o ∈ lines'.head?, ∀ word : String, '\t' ∉ word.toList → o ≠ .item word [])
    (h : parameters.map (Outline.item · []) ++ lines =
      parameters'.map (Outline.item · []) ++ lines') :
    parameters = parameters' ∧ lines = lines' := by
  induction parameters generalizing parameters' with
  | nil =>
    cases parameters' with
    | nil => exact ⟨rfl, h⟩
    | cons p rest =>
      have hhead : lines.head? = some (.item p []) := by
        rw [← List.nil_append lines, ← List.map_nil, h]
        rfl
      exact absurd rfl (hlines _ hhead p (hparameters' p (by simp)))
  | cons p rest ih =>
    cases parameters' with
    | nil =>
      have hhead : lines'.head? = some (.item p []) := by
        rw [← List.nil_append lines', ← List.map_nil, ← h]
        rfl
      exact absurd rfl (hlines' _ hhead p (hparameters p (by simp)))
    | cons p' rest' =>
      obtain ⟨hp, hrest⟩ := List.cons.inj h
      obtain ⟨rfl, -⟩ := Outline.item.inj hp
      obtain ⟨rfl, rfl⟩ := ih (fun q hq => hparameters q (by simp [hq]))
        (fun q hq => hparameters' q (by simp [hq])) hrest
      exact ⟨rfl, rfl⟩

/-- The outline of a function tells its name and the lines after the name. -/
theorem function_outline_inj {name name' : String} {parameters parameters' : List String}
    {body body' : List Node} (hbody : ∀ n ∈ body, Statement n) (hbody' : ∀ n ∈ body', Statement n)
    (h : (Node.function name parameters body).outline =
      (Node.function name' parameters' body').outline) :
    name = name' ∧
      Node.functionLines parameters body = Node.functionLines parameters' body' := by
  rw [Node.outline_function fun n hn => (hbody n hn).isProper,
    Node.outline_function fun n hn => (hbody' n hn).isProper] at h
  split at h
  case isTrue hnil =>
    split at h
    case isTrue hnil' => exact ⟨eq_of_tabbed_eq (Outline.item.inj h).1, hnil.trans hnil'.symm⟩
    case isFalse => simp at h
  case isFalse =>
    split at h
    case isTrue => simp at h
    case isFalse => simpa using h

/-- The lines of a function body start with no line like a parameter. -/
theorem head?_body_ne {body : List Node} (hbody : ∀ n ∈ body, Statement n)
    (hfirst : body.head? ≠ some (.object [])) :
    ∀ o ∈ (body.map Node.outline).head?, ∀ word : String, '\t' ∉ word.toList →
      o ≠ .item word [] := by
  cases body with
  | nil => simp
  | cons n rest =>
    intro o ho word hword
    obtain rfl : n.outline = o := Option.some.inj ho
    refine (hbody n (by simp)).outline_ne_leaf ?_ hword
    rintro rfl
    exact hfirst rfl

end WellFormed

/-- Whether no function body in a tree starts with an empty object. -/
def Node.NoEmptyObjectFirst (n : Node) : Prop :=
  ∀ name parameters body, .function name parameters body ∈ n.subnodes →
    body.head? ≠ some (.object [])

/-- The functions of a tree inside another one are functions of that one. -/
theorem Node.NoEmptyObjectFirst.of_mem {n m : Node} {body : List Node}
    (h : n.NoEmptyObjectFirst) (hn : n.subnodes = n :: subnodesOf body) (hm : m ∈ body) :
    m.NoEmptyObjectFirst := by
  intro name parameters inner hinner
  refine h name parameters inner ?_
  rw [hn]
  exact List.mem_cons_of_mem n (Node.mem_subnodesOf.2 ⟨m, hm, hinner⟩)

namespace WellFormed

/-- Statements with the same outline are the same, if no function body in them starts
with an empty object. -/
theorem Statement.eq_of_outline_eq {n : Node} (hn : Statement n) :
    ∀ m, Statement m → n.NoEmptyObjectFirst → m.NoEmptyObjectFirst → n.outline = m.outline →
      n = m := by
  induction hn with
  | uninitialized =>
    intro m hm _ _ h
    have hkind := Node.kind_eq_of_outline_eq h nofun hm.isProper
    cases hm with
    | uninitialized =>
      simp only [Node.outline_uninitialized, Outline.item.injEq, List.cons.injEq] at h
      obtain ⟨-, ⟨rfl, -⟩, -⟩ := h
      rfl
    | initialized _ hvalue' =>
      simp [Node.outline_uninitialized, Node.outline_initialized hvalue'.isProper] at h
    | function => simp only [Node.kind, String.reduceEq] at hkind
    | expression hm => cases hm <;> simp only [Node.kind, String.reduceEq] at hkind
  | initialized _ hvalue =>
    intro m hm _ _ h
    have hkind := Node.kind_eq_of_outline_eq h nofun hm.isProper
    cases hm with
    | uninitialized =>
      simp [Node.outline_uninitialized, Node.outline_initialized hvalue.isProper] at h
    | initialized _ hvalue' =>
      rw [Node.outline_initialized hvalue.isProper, Node.outline_initialized hvalue'.isProper] at h
      simp only [Outline.item.injEq, List.cons.injEq] at h
      obtain ⟨-, ⟨rfl, -⟩, ⟨hconstant, -⟩, hv, -⟩ := h
      rw [Node.flag_inj hconstant, hvalue.eq_of_outline_eq _ hvalue' hv]
    | function => simp only [Node.kind, String.reduceEq] at hkind
    | expression hm => cases hm <;> simp only [Node.kind, String.reduceEq] at hkind
  | @function name parameters body _ hparameters hbody ih =>
    intro m hm hfirst hfirst' h
    have hkind := Node.kind_eq_of_outline_eq h nofun hm.isProper
    cases hm with
    | uninitialized => simp only [Node.kind, String.reduceEq] at hkind
    | initialized => simp only [Node.kind, String.reduceEq] at hkind
    | @function name' parameters' body' _ hparameters' hbody' =>
      have hlead := hfirst name parameters body (Node.mem_subnodes_self _)
      have hlead' := hfirst' name' parameters' body' (Node.mem_subnodes_self _)
      obtain ⟨rfl, hlines⟩ := function_outline_inj hbody hbody' h
      obtain ⟨rfl, hmap⟩ := eq_of_parameters_append_eq
        (fun p hp => (hparameters p hp).notMem (by decide))
        (fun p hp => (hparameters' p hp).notMem (by decide))
        (head?_body_ne hbody hlead) (head?_body_ne hbody' hlead') hlines
      rw [eq_of_map_eq (fun n hn m hm => ih n hn m (hbody' m hm)
        (hfirst.of_mem (by rw [Node.subnodes]) hn)
        (hfirst'.of_mem (by rw [Node.subnodes]) hm)) hmap]
    | expression hm => cases hm <;> simp only [Node.kind, String.reduceEq] at hkind
  | expression hn =>
    intro m hm _ _ h
    have hkind := Node.kind_eq_of_outline_eq h hn.isProper hm.isProper
    cases hm with
    | uninitialized => cases hn <;> simp only [Node.kind, String.reduceEq] at hkind
    | initialized => cases hn <;> simp only [Node.kind, String.reduceEq] at hkind
    | function => cases hn <;> simp only [Node.kind, String.reduceEq] at hkind
    | expression hm => exact hn.eq_of_outline_eq _ hm h

/-- A name is a line. -/
theorem plain_name {name : String} (h : IsName name) : (Outline.item name []).Plain :=
  .leaf (h.notMem (by decide)) (h.notMem (by decide))

/-- A truth value is a line. -/
theorem plain_flag (value : Bool) : (Outline.item (Tree.flag value) []).Plain := by
  cases value
  · exact .leaf (by decide) (by decide)
  · exact .leaf (by decide) (by decide)

/-- An operator is a line. -/
theorem plain_operator {operator : String} (h : operator ∈ sumOperators ++ productOperators) :
    (Outline.item operator []).Plain := by
  have hall : (sumOperators ++ productOperators).all
      (fun o => !o.toList.contains '\n' && !o.toList.contains ' ') = true := by decide
  have hoperator := List.all_eq_true.1 hall operator h
  simp only [Bool.and_eq_true, Bool.not_eq_true', List.contains_eq_mem,
    decide_eq_false_iff_not] at hoperator
  exact .leaf hoperator.1 hoperator.2

/-- The use of a name is a line. -/
theorem plain_identifier {name : String} (h : IsName name) :
    (Node.identifier name).outline.Plain := by
  rw [Node.outline_identifier]
  exact .tabbed (by decide) (by decide) (by decide) (h.notMem (by decide))

mutual

/-- The lines of an expression have no line break inside, and none starts with a
space. -/
theorem Expression.plain {n : Node} (h : Expression n) : n.outline.Plain := by
  match h with
  | .identifier hname => exact plain_identifier hname
  | .number hvalue =>
    obtain ⟨digits, hdigits, hread⟩ := hvalue
    rw [Node.outline_number]
    refine .tabbed (by decide) (by decide) (by decide) ?_
    exact (Number.tells_print (Number.sign?_of_read? hdigits hread)).notMem_newline
  | .binary hleft hright hoperator =>
    rw [Node.outline_binary hleft.isProper hright.isProper]
    refine .item (by decide) (by decide) ?_
    simpa using ⟨hleft.plain, hright.plain, plain_operator hoperator⟩
  | .call hcallee harguments =>
    rw [Node.outline_call hcallee.isProper fun n hn => (harguments n hn).isProper]
    refine .item (by decide) (by decide) ?_
    simpa using ⟨hcallee.plain, fun n hn => (harguments n hn).plain⟩
  | .field hobject hname =>
    rw [Node.outline_member hobject.isProper (Expression.identifier hname).isProper]
    refine .item (by decide) (by decide) ?_
    simpa using ⟨hobject.plain, plain_identifier hname, plain_flag false⟩
  | .index hobject hproperty =>
    rw [Node.outline_member hobject.isProper hproperty.isProper]
    refine .item (by decide) (by decide) ?_
    simpa using ⟨hobject.plain, hproperty.plain, plain_flag true⟩
  | .object hproperties =>
    rw [Node.outline_object]
    refine .item (by decide) (by decide) ?_
    simpa using fun p hp => (hproperties p hp).plain
  | .assignment htarget hvalue =>
    rw [Node.outline_assignment htarget.isProper hvalue.isProper]
    refine .item (by decide) (by decide) ?_
    simpa using ⟨htarget.plain, hvalue.plain⟩

/-- The lines of a property have no line break inside, and none starts with a space. -/
theorem Entry.plain {p : Property} (h : Entry p) : p.outline.Plain := by
  match h with
  | .shorthand hkey =>
    rw [Property.outline_shorthand]
    exact .tabbed (by decide) (by decide) (by decide) (hkey.notMem (by decide))
  | .pair hkey hvalue =>
    rw [Property.outline_pair hvalue.isProper]
    refine .item (by decide) (by decide) ?_
    simpa using ⟨plain_name hkey, hvalue.plain⟩

end

/-- The lines of a statement have no line break inside, and none starts with a space. -/
theorem Statement.plain {n : Node} (h : Statement n) : n.outline.Plain := by
  induction h with
  | uninitialized hname =>
    rw [Node.outline_uninitialized]
    refine .item (by decide) (by decide) ?_
    simpa using ⟨plain_name hname, plain_flag false⟩
  | @initialized name constant value hname hvalue =>
    rw [Node.outline_initialized hvalue.isProper]
    refine .item (by decide) (by decide) ?_
    simpa using ⟨plain_name hname, plain_flag constant, hvalue.plain⟩
  | function hname hparameters hbody ih =>
    rw [Node.outline_function fun n hn => (hbody n hn).isProper]
    split
    · exact .tabbed (by decide) (by decide) (by decide) (hname.notMem (by decide))
    · refine .item (by decide) (by decide) (List.forall_mem_cons.2 ⟨plain_name hname, ?_⟩)
      intro o ho
      rcases List.mem_append.1 ho with ho | ho
      · obtain ⟨p, hp, rfl⟩ := List.mem_map.1 ho
        exact plain_name (hparameters p hp)
      · obtain ⟨n, hn, rfl⟩ := List.mem_map.1 ho
        exact ih n hn
  | expression h => exact h.plain

end WellFormed

/-- Two programs with the same printed tree are the same, if no function body in them
starts with an empty object. -/
theorem eq_of_dump_eq {source other : String} {p q : Node} (hp : parse source = .ok p)
    (hq : parse other = .ok q) (hfirst : p.NoEmptyObjectFirst) (hfirst' : q.NoEmptyObjectFirst)
    (h : p.dump = q.dump) : p = q := by
  cases wellFormed_of_parse hp with
  | @statements body hbody =>
  cases wellFormed_of_parse hq with
  | @statements body' hbody' =>
    have houtline := Node.outline_program fun n hn => (hbody n hn).isProper
    have houtline' := Node.outline_program fun n hn => (hbody' n hn).isProper
    have hplain : (Node.program body).outline.Plain := by
      rw [houtline]
      exact .item (by decide) (by decide) (by simpa using fun n hn => (hbody n hn).plain)
    have hplain' : (Node.program body').outline.Plain := by
      rw [houtline']
      exact .item (by decide) (by decide) (by simpa using fun n hn => (hbody' n hn).plain)
    have hsame := Tree.outline_eq_of_render_eq hplain hplain' h
    rw [← Node.outline, ← Node.outline, houtline, houtline'] at hsame
    have hbodies := WellFormed.eq_of_map_eq (fun n hn m hm =>
      (hbody n hn).eq_of_outline_eq m (hbody' m hm) (hfirst.of_mem (by rw [Node.subnodes]) hn)
        (hfirst'.of_mem (by rw [Node.subnodes]) hm)) (Outline.item.inj hsame).2
    rw [hbodies]

/-- A function whose parameter has the name of a kind, with an empty object after the
first statement of its body. -/
theorem eq_of_dump_eq_later_object :
    ∃ p q, parse "fn f(ObjectLiteral) \x7b a \x7b\x7d \x7d" = .ok p ∧
      parse "fn f((ObjectLiteral)) \x7b a; \x7b\x7d; \x7d" = .ok q ∧
      p.NoEmptyObjectFirst ∧ q.NoEmptyObjectFirst ∧ p.dump = q.dump ∧ p = q := by
  let n : Node := .program [.function "f" ["ObjectLiteral"] [.identifier "a", .object []]]
  have htokens : tokenize "fn f(ObjectLiteral) \x7b a \x7b\x7d \x7d" = .ok
      [⟨.fnWord, "fn", ⟨1, 1⟩⟩, ⟨.ident, "f", ⟨1, 4⟩⟩, ⟨.lpar, "(", ⟨1, 5⟩⟩,
        ⟨.ident, "ObjectLiteral", ⟨1, 6⟩⟩, ⟨.rpar, ")", ⟨1, 19⟩⟩, ⟨.lbrace, "\x7b", ⟨1, 21⟩⟩,
        ⟨.ident, "a", ⟨1, 23⟩⟩, ⟨.lbrace, "\x7b", ⟨1, 25⟩⟩, ⟨.rbrace, "\x7d", ⟨1, 26⟩⟩,
        ⟨.rbrace, "\x7d", ⟨1, 28⟩⟩, ⟨.eof, Token.endText, ⟨1, 29⟩⟩] := by decide +kernel
  have htokens' : tokenize "fn f((ObjectLiteral)) \x7b a; \x7b\x7d; \x7d" = .ok
      [⟨.fnWord, "fn", ⟨1, 1⟩⟩, ⟨.ident, "f", ⟨1, 4⟩⟩, ⟨.lpar, "(", ⟨1, 5⟩⟩,
        ⟨.lpar, "(", ⟨1, 6⟩⟩, ⟨.ident, "ObjectLiteral", ⟨1, 7⟩⟩, ⟨.rpar, ")", ⟨1, 20⟩⟩,
        ⟨.rpar, ")", ⟨1, 21⟩⟩, ⟨.lbrace, "\x7b", ⟨1, 23⟩⟩, ⟨.ident, "a", ⟨1, 25⟩⟩,
        ⟨.semi, ";", ⟨1, 26⟩⟩, ⟨.lbrace, "\x7b", ⟨1, 28⟩⟩, ⟨.rbrace, "\x7d", ⟨1, 29⟩⟩,
        ⟨.semi, ";", ⟨1, 30⟩⟩, ⟨.rbrace, "\x7d", ⟨1, 32⟩⟩, ⟨.eof, Token.endText, ⟨1, 33⟩⟩] := by
    decide +kernel
  have hp : parse "fn f(ObjectLiteral) \x7b a \x7b\x7d \x7d" = .ok n :=
    parse_eq_ok_iff_parseTokens.2 ⟨_, htokens, rfl⟩
  have hq : parse "fn f((ObjectLiteral)) \x7b a; \x7b\x7d; \x7d" = .ok n :=
    parse_eq_ok_iff_parseTokens.2 ⟨_, htokens', rfl⟩
  have hfirst : n.NoEmptyObjectFirst := by
    intro name parameters body h
    simp only [n, Node.subnodes, subnodesOf, subnodesOfProperties, List.append_nil,
      List.cons_append, List.nil_append, List.mem_cons, Node.function.injEq, reduceCtorEq,
      List.not_mem_nil, or_false, false_or] at h
    obtain ⟨-, -, rfl⟩ := h
    simp
  exact ⟨n, n, hp, hq, hfirst, hfirst, rfl, eq_of_dump_eq hp hq hfirst hfirst rfl⟩

/-- An empty object that comes first is printed as a parameter with the name of its kind. -/
example :
    (Node.function "f" ["ObjectLiteral"] []).dump = (Node.function "f" [] [.object []]).dump := by
  cbv

end Scriptlet
