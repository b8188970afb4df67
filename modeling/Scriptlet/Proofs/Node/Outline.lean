import Scriptlet.Node.Tree
import Scriptlet.Proofs.Token.Formed

/-!
# Outlines

The printed form of a labelled tree is an outline: lines with lines one level deeper
under them. The lines under a line are those that follow it up to the next one that is
not deeper. So the text tells the outline, as long as no line has a line break inside
and none starts with a space. The first line of a node starts with its kind, and what
else a node holds stands after a tab, or under that line.
-/

namespace Scriptlet

/-- A line with the lines under it. -/
inductive Outline where
  | item (line : String) (under : List Outline)

namespace Outline

mutual

/-- The text of an outline at a level. -/
def renderAt (level : Nat) : Outline → List Char
  | item line under =>
    List.replicate (2 * level) ' ' ++ (line.toList ++ '\n' :: renderAll (level + 1) under)

/-- The text of several outlines at a level. -/
def renderAll (level : Nat) : List Outline → List Char
  | [] => []
  | outline :: rest => renderAt level outline ++ renderAll level rest

end

/-- Whether no line has a line break inside or starts with a space. -/
inductive Plain : Outline → Prop
  | item {line : String} {under : List Outline} :
      '\n' ∉ line.toList → line.toList.head? ≠ some ' ' → (∀ o ∈ under, Plain o) →
        Plain (.item line under)

/-- The number of spaces that a text starts with. -/
def indent (text : List Char) : Nat :=
  (text.takeWhile (· == ' ')).length

/-- The text of an outline starts with the spaces of its level. -/
theorem indent_renderAt {level : Nat} {o : Outline} (h : o.Plain) (rest : List Char) :
    indent (o.renderAt level ++ rest) = 2 * level := by
  cases h with
  | @item line under _ hspace _ =>
    have hspaces : ∀ c ∈ List.replicate (2 * level) ' ', (c == ' ') = true := by simp
    have hends : ∀ c ∈ (line.toList ++ '\n' :: (renderAll (level + 1) under ++ rest)).head?,
        (c == ' ') = false := by
      intro c hc
      cases hline : line.toList with
      | nil =>
        obtain rfl : '\n' = c := by simpa [hline] using hc
        rfl
      | cons d text =>
        obtain rfl : d = c := by simpa [hline] using hc
        simpa [hline] using hspace
    rw [renderAt, List.append_assoc, List.append_assoc, List.cons_append, indent,
      Lexeme.takeWhile_run hspaces hends, List.length_replicate]

/-- What follows outlines of a level is not deeper than the level. -/
theorem indent_renderAll {level : Nat} {under : List Outline} (h : ∀ o ∈ under, o.Plain)
    {rest : List Char} (hrest : indent rest ≤ 2 * level) :
    indent (renderAll level under ++ rest) ≤ 2 * level := by
  cases under with
  | nil => exact hrest
  | cons o under =>
    rw [renderAll, List.append_assoc]
    exact Nat.le_of_eq (indent_renderAt (h o (by simp)) _)

mutual

/-- The text of an outline tells the outline and what follows it. -/
theorem renderAt_inj {level : Nat} {a b : Outline} {rest more : List Char} (ha : a.Plain)
    (hb : b.Plain) (hrest : indent rest ≤ 2 * level) (hmore : indent more ≤ 2 * level)
    (h : a.renderAt level ++ rest = b.renderAt level ++ more) : a = b ∧ rest = more := by
  cases a with
  | item line under =>
  cases b with
  | item line' under' =>
    cases ha with
    | item hbreak _ hunder =>
    cases hb with
    | item hbreak' _ hunder' =>
      simp only [renderAt, List.append_assoc, List.cons_append, List.append_cancel_left_eq] at h
      obtain ⟨hline, hbelow⟩ := Lexeme.append_cons_inj hbreak hbreak' h
      have hless : indent rest < 2 * (level + 1) := by omega
      have hless' : indent more < 2 * (level + 1) := by omega
      obtain ⟨rfl, rfl⟩ := renderAll_inj hunder hunder' hless hless' hbelow
      exact ⟨by rw [String.toList_inj.1 hline], rfl⟩

/-- The text of several outlines tells them and what follows them, if that is less
deep. -/
theorem renderAll_inj {level : Nat} {as bs : List Outline} {rest more : List Char}
    (ha : ∀ o ∈ as, o.Plain) (hb : ∀ o ∈ bs, o.Plain) (hrest : indent rest < 2 * level)
    (hmore : indent more < 2 * level)
    (h : renderAll level as ++ rest = renderAll level bs ++ more) : as = bs ∧ rest = more := by
  cases as with
  | nil =>
    cases bs with
    | nil => exact ⟨rfl, h⟩
    | cons b bs =>
      rw [renderAll, renderAll, List.nil_append, List.append_assoc] at h
      rw [h, indent_renderAt (hb b (by simp))] at hrest
      omega
  | cons a as =>
    cases bs with
    | nil =>
      rw [renderAll, renderAll, List.nil_append, List.append_assoc] at h
      rw [← h, indent_renderAt (ha a (by simp))] at hmore
      omega
    | cons b bs =>
      have has : ∀ o ∈ as, o.Plain := fun o ho => ha o (by simp [ho])
      have hbs : ∀ o ∈ bs, o.Plain := fun o ho => hb o (by simp [ho])
      rw [renderAll, renderAll, List.append_assoc, List.append_assoc] at h
      obtain ⟨rfl, hlater⟩ := renderAt_inj (ha a (by simp)) (hb b (by simp))
        (indent_renderAll has (by omega)) (indent_renderAll hbs (by omega)) h
      obtain ⟨rfl, rfl⟩ := renderAll_inj has hbs hrest hmore hlater
      exact ⟨rfl, rfl⟩

end

end Outline

namespace Outline

variable {word text : String} {under : List Outline}

/-- The first word of the first line of an outline. -/
def label : Outline → String
  | item line _ => String.ofList (line.toList.takeWhile (· ≠ '\t'))

/-- The first word of a line goes up to the tab, if there is one. -/
theorem takeWhile_word (h : '\t' ∉ word.toList) (rest : List Char)
    (hrest : ∀ c ∈ rest.head?, c = '\t') :
    String.ofList ((word.toList ++ rest).takeWhile (· ≠ '\t')) = word := by
  have hall : ∀ c ∈ word.toList, decide (c ≠ '\t') = true := by
    intro c hc
    rw [decide_eq_true_eq]
    rintro rfl
    exact h hc
  have hends : ∀ c ∈ rest.head?, decide (c ≠ '\t') = false := by
    intro c hc
    rw [hrest c hc]
    rfl
  rw [Lexeme.takeWhile_run hall hends, String.ofList_toList]

/-- A line without a tab is its own first word. -/
theorem label_item (h : '\t' ∉ word.toList) : (item word under).label = word := by
  have hword := takeWhile_word h [] (by simp)
  rwa [List.append_nil] at hword

/-- The first word of a line ends at the tab. -/
theorem label_tabbed (h : '\t' ∉ word.toList) :
    (item (word ++ "\t" ++ text) under).label = word := by
  have hword := takeWhile_word h ('\t' :: text.toList) (by simp)
  rw [label, String.toList_append, String.toList_append, List.append_assoc]
  exact hword

/-- A line with nothing under it. -/
theorem Plain.leaf (hbreak : '\n' ∉ word.toList) (hspace : ' ' ∉ word.toList) :
    (Outline.item word []).Plain :=
  .item hbreak (fun h => hspace (List.mem_of_mem_head? h)) (by simp)

/-- A line with a tab and nothing under it. -/
theorem Plain.tabbed (hne : word ≠ "") (hbreak : '\n' ∉ word.toList) (hspace : ' ' ∉ word.toList)
    (htext : '\n' ∉ text.toList) : (Outline.item (word ++ "\t" ++ text) []).Plain := by
  refine .item ?_ ?_ (by simp)
  · simp [hbreak, htext]
  · obtain ⟨c, rest, hword⟩ := List.exists_cons_of_ne_nil fun h => hne (String.toList_injective h)
    have hc : c ≠ ' ' := by
      rintro rfl
      exact hspace (by simp [hword])
    simp [hword, hc]

end Outline

namespace Tree

mutual

/-- The outline of a labelled tree. -/
def outline : Tree → Outline
  | leaf _ text => .item text []
  | branch label [leaf _ text] => .item (label ++ "\t" ++ text) []
  | branch label children => .item label (outlines children)

/-- The outlines of labelled trees. -/
def outlines : List Tree → List Outline
  | [] => []
  | tree :: rest => outline tree :: outlines rest

end

/-- Trees have an outline each. -/
theorem outlines_eq_map (trees : List Tree) : outlines trees = trees.map outline := by
  induction trees with
  | nil => rfl
  | cons tree rest ih => rw [outlines, ih, List.map_cons]

/-- The children of a branch stand under it, unless there is one and it is a leaf. -/
theorem outline_branch {label : String} {children : List Tree}
    (h : ∀ field text, children ≠ [.leaf field text]) :
    (branch label children).outline = .item label (children.map outline) := by
  rw [outline, outlines_eq_map]
  exact h

/-- The first word of the outline of a branch is its label. -/
theorem label_outline {label : String} (h : '\t' ∉ label.toList) (children : List Tree) :
    (branch label children).outline.label = label := by
  by_cases hleaf : ∃ field text, children = [.leaf field text]
  · obtain ⟨field, text, rfl⟩ := hleaf
    rw [outline]
    exact Outline.label_tabbed h
  · have hchildren : ∀ field text, children ≠ [.leaf field text] := by
      rintro field text rfl
      exact hleaf ⟨field, text, rfl⟩
    rw [outline_branch hchildren]
    exact Outline.label_item h

/-- The children of a branch are printed under it, unless there is one and it is a
leaf. -/
theorem renderAt_branch {label : String} {children : List Tree}
    (h : ∀ field text, children ≠ [.leaf field text]) (level : Nat) :
    (branch label children).renderAt level =
      indentation level ++ label ++ "\n" ++ renderAll (level + 1) children := by
  rw [renderAt]
  exact h

/-- The spaces before a line. -/
@[simp]
theorem toList_indentation (level : Nat) :
    (indentation level).toList = List.replicate (2 * level) ' ' :=
  String.toList_ofList

mutual

/-- A tree is printed as its outline. -/
theorem toList_renderAt (level : Nat) (tree : Tree) :
    (tree.renderAt level).toList = tree.outline.renderAt level := by
  cases tree with
  | leaf _ text => simp [renderAt, outline, Outline.renderAt, Outline.renderAll]
  | branch label children =>
    by_cases hleaf : ∃ field text, children = [.leaf field text]
    · obtain ⟨field, text, rfl⟩ := hleaf
      simp [renderAt, outline, Outline.renderAt, Outline.renderAll]
    · have hbelow := toList_renderAll (level + 1) children
      have hchildren : ∀ field text, children ≠ [.leaf field text] := by
        rintro field text rfl
        exact hleaf ⟨field, text, rfl⟩
      rw [renderAt_branch hchildren, outline_branch hchildren, Outline.renderAt,
        ← outlines_eq_map, ← hbelow]
      simp

/-- Trees are printed as their outlines. -/
theorem toList_renderAll (level : Nat) (trees : List Tree) :
    (renderAll level trees).toList = Outline.renderAll level (outlines trees) := by
  match trees with
  | [] => simp [renderAll, outlines, Outline.renderAll]
  | tree :: rest =>
    rw [renderAll, String.toList_append, toList_renderAt level tree, toList_renderAll level rest,
      outlines, Outline.renderAll]

end

/-- The printed form of a tree tells its outline. -/
theorem outline_eq_of_render_eq {a b : Tree} (ha : a.outline.Plain) (hb : b.outline.Plain)
    (h : a.render = b.render) : a.outline = b.outline := by
  have htext : a.outline.renderAt 0 ++ [] = b.outline.renderAt 0 ++ [] := by
    rw [List.append_nil, List.append_nil, ← toList_renderAt, ← toList_renderAt]
    exact congrArg String.toList h
  exact (Outline.renderAt_inj ha hb (by decide) (by decide) htext).1

end Tree

/-- The outline of a node. -/
def Node.outline (n : Node) : Outline :=
  n.toTree.outline

/-- The outline of a property. -/
def Property.outline (p : Property) : Outline :=
  p.toTree.outline

/-- Whether a node is not only a datum. -/
def Node.IsProper (n : Node) : Prop :=
  ∀ datum, n ≠ .foreign datum

namespace Node

section Outline

variable {n left right : Node} {nodes : List Node}

/-- The tree of a node is a branch. -/
theorem IsProper.toTree_ne_leaf (h : n.IsProper) (field text : String) :
    n.toTree ≠ .leaf field text := by
  cases n with
  | foreign datum => exact absurd rfl (h datum)
  | property content => cases content <;> simp [toTree, Property.toTree]
  | declaration name constant value => cases value <;> simp [toTree]
  | _ => simp [toTree]

/-- The first word of the outline of a node is its kind. -/
theorem IsProper.label_outline (h : n.IsProper) : n.outline.label = n.kind := by
  cases n with
  | foreign datum => exact absurd rfl (h datum)
  | property content =>
    cases content <;> rw [outline, toTree, Property.toTree] <;>
      exact Tree.label_outline (by decide) _
  | declaration name constant value =>
    cases value <;> rw [outline, toTree] <;> exact Tree.label_outline (by decide) _
  | _ =>
    rw [outline, toTree]
    exact Tree.label_outline (by decide) _

/-- Nodes with the same outline are of the same kind. -/
theorem kind_eq_of_outline_eq {m : Node} (h : n.outline = m.outline) (hn : n.IsProper)
    (hm : m.IsProper) : n.kind = m.kind := by
  rw [← hn.label_outline, h, hm.label_outline]

/-- A node is one child where it is the content of a field. -/
theorem IsProper.fieldTrees_eq (h : n.IsProper) (field : String) :
    n.fieldTrees field = [n.toTree] := by
  cases n with
  | foreign datum => exact absurd rfl (h datum)
  | _ => simp [fieldTrees]

/-- Nodes are one child each. -/
theorem itemTrees_eq (h : ∀ n ∈ nodes, n.IsProper) (field : String) :
    itemTrees field nodes = nodes.map toTree := by
  induction nodes with
  | nil => simp [itemTrees]
  | cons n rest ih =>
    have hrest := ih fun m hm => h m (by simp [hm])
    cases n with
    | foreign datum => exact absurd rfl (h (.foreign datum) (by simp) datum)
    | _ => simp [itemTrees, hrest]

/-- Nodes alone are no single leaf. -/
theorem map_toTree_ne (h : ∀ n ∈ nodes, n.IsProper) (field text : String) :
    nodes.map toTree ≠ [.leaf field text] := by
  intro heq
  obtain ⟨n, rest, rfl, hn, -⟩ := List.map_eq_cons_iff.1 heq
  exact (h n (by simp)).toTree_ne_leaf field text hn

/-- The outline of a program. -/
theorem outline_program (h : ∀ n ∈ nodes, n.IsProper) :
    (program nodes).outline = .item "Program" (nodes.map outline) := by
  rw [outline, toTree, itemTrees_eq h, Tree.outline_branch (map_toTree_ne h), List.map_map]
  rfl

/-- The outline of an operator with its operands. -/
theorem outline_binary (hleft : left.IsProper) (hright : right.IsProper) (operator : String) :
    (binary left right operator).outline =
      .item "BinaryExpr" [left.outline, right.outline, .item operator []] := by
  rw [outline, toTree, hleft.fieldTrees_eq, hright.fieldTrees_eq, Tree.outline_branch (by simp)]
  simp [outline, Tree.outline]

/-- The outline of an assignment. -/
theorem outline_assignment (hleft : left.IsProper) (hright : right.IsProper) :
    (assignment left right).outline =
      .item "AssignmentExpr" [left.outline, right.outline] := by
  rw [outline, toTree, hleft.fieldTrees_eq, hright.fieldTrees_eq, Tree.outline_branch (by simp)]
  simp [outline]

/-- The outline of a member. -/
theorem outline_member (hleft : left.IsProper) (hright : right.IsProper) (computed : Bool) :
    (member left right computed).outline =
      .item "MemberExpr" [left.outline, right.outline, .item (Tree.flag computed) []] := by
  rw [outline, toTree, hleft.fieldTrees_eq, hright.fieldTrees_eq, Tree.outline_branch (by simp)]
  simp [outline, Tree.outline]

/-- The text of a truth value tells it. -/
theorem flag_inj {a b : Bool} (h : Tree.flag a = Tree.flag b) : a = b := by
  cases a <;> cases b <;> simp [Tree.flag] at h ⊢

/-- The outline of a member tells the outlines of its parts, and how it is accessed. -/
theorem outline_member_inj {left' right' : Node} {computed computed' : Bool}
    (hleft : left.IsProper) (hright : right.IsProper) (hleft' : left'.IsProper)
    (hright' : right'.IsProper)
    (h : (member left right computed).outline = (member left' right' computed').outline) :
    left.outline = left'.outline ∧ right.outline = right'.outline ∧ computed = computed' := by
  rw [outline_member hleft hright, outline_member hleft' hright'] at h
  simp only [Outline.item.injEq, List.cons.injEq] at h
  obtain ⟨-, hobject, hproperty, ⟨hflag, -⟩, -⟩ := h
  exact ⟨hobject, hproperty, flag_inj hflag⟩

/-- The outline of a call. -/
theorem outline_call (hleft : left.IsProper) (h : ∀ n ∈ nodes, n.IsProper) :
    (call left nodes).outline = .item "CallExpr" (left.outline :: nodes.map outline) := by
  have hall : ∀ n ∈ left :: nodes, n.IsProper := List.forall_mem_cons.2 ⟨hleft, h⟩
  rw [outline, toTree, hleft.fieldTrees_eq, itemTrees_eq h, List.singleton_append, ← List.map_cons,
    Tree.outline_branch (map_toTree_ne hall), List.map_map]
  rfl

/-- The outline of the use of a name. -/
theorem outline_identifier (name : String) :
    (identifier name).outline = .item ("Identifier" ++ "\t" ++ name) [] := by
  rw [outline, toTree, Tree.outline]

/-- The outline of a number. -/
theorem outline_number (value : Float) :
    (number value).outline = .item ("NumericLiteral" ++ "\t" ++ Number.print value) [] := by
  rw [outline, toTree, Tree.outline]

/-- The outline of an object. -/
theorem outline_object (properties : List Property) :
    (object properties).outline = .item "ObjectLiteral" (properties.map Property.outline) := by
  have htrees : propertyTrees properties = properties.map Property.toTree := by
    induction properties with
    | nil => simp [propertyTrees]
    | cons p rest ih => simp [propertyTrees, ih]
  have hne : ∀ field text, properties.map Property.toTree ≠ [.leaf field text] := by
    intro field text heq
    obtain ⟨p, rest, rfl, hp, -⟩ := List.map_eq_cons_iff.1 heq
    cases p <;> simp [Property.toTree] at hp
  rw [outline, toTree, htrees, Tree.outline_branch hne, List.map_map]
  rfl

/-- The outline of a declaration without a value. -/
theorem outline_uninitialized (name : String) (constant : Bool) :
    (declaration name constant none).outline =
      .item "VarDeclaration" [.item name [], .item (Tree.flag constant) []] := by
  rw [outline, toTree, Tree.outline_branch (by simp)]
  simp [Tree.outline]

/-- The outline of a declaration with a value. -/
theorem outline_initialized (h : n.IsProper) (name : String) (constant : Bool) :
    (declaration name constant (some n)).outline =
      .item "VarDeclaration" [.item name [], .item (Tree.flag constant) [], n.outline] := by
  rw [outline, toTree, h.fieldTrees_eq, Tree.outline_branch (by simp)]
  simp [Tree.outline, outline]

/-- The lines under a function, after the one with its name. -/
def functionLines (parameters : List String) (body : List Node) : List Outline :=
  parameters.map (.item · []) ++ body.map outline

/-- The outline of a function. The name of one that has neither parameters nor a body
stands in the first line. -/
theorem outline_function (h : ∀ n ∈ nodes, n.IsProper) (name : String)
    (parameters : List String) :
    (function name parameters nodes).outline =
      if functionLines parameters nodes = [] then .item ("FunctionDeclaration" ++ "\t" ++ name) []
      else .item "FunctionDeclaration" (.item name [] :: functionLines parameters nodes) := by
  rw [outline, toTree, itemTrees_eq h]
  split
  case isTrue hnil =>
    obtain ⟨rfl, rfl⟩ : parameters = [] ∧ nodes = [] := by simpa [functionLines] using hnil
    rw [List.map_nil, List.map_nil, List.append_nil, Tree.outline]
  case isFalse hne =>
    have hlines : ¬ (parameters = [] ∧ nodes = []) := by simpa [functionLines] using hne
    rw [Tree.outline_branch (by simpa using hlines)]
    simp [functionLines, Tree.outline, outline, Function.comp_def]

end Outline

end Node

namespace Property

/-- The outline of a key alone. -/
theorem outline_shorthand (key : String) :
    (shorthand key).outline = .item ("Property" ++ "\t" ++ key) [] := by
  rw [outline, toTree, Tree.outline]

/-- The outline of a key with its value. -/
theorem outline_pair {value : Node} (h : value.IsProper) (key : String) :
    (pair key value).outline = .item "Property" [.item key [], value.outline] := by
  rw [outline, toTree, h.fieldTrees_eq, Tree.outline_branch (by simp)]
  simp [Tree.outline, Node.outline]

end Property

end Scriptlet
