import Scriptlet.Proofs.Evaluation.Expression
import Scriptlet.Proofs.Script.Printing
import Scriptlet.Proofs.Token.WellFormed

/-!
# What is parsed is well-formed

The symbols of a source text are well-formed, so its names are names and its numbers
have numerals. What the grammar derives from such symbols is a well-formed program.
-/

namespace Scriptlet

open Lexeme

namespace Symbol.WellFormed

variable {x : Symbol}

/-- The text of a name is a name. -/
theorem isName (h : x.WellFormed) (hkind : x.kind = .ident) : IsName x.text := by
  cases h with
  | name hname => exact hname
  | @fixed kind hne =>
    obtain rfl : kind = .ident := hkind
    exact absurd rfl hne
  | operator | whole | point | string => cases hkind

/-- What the text of a number is read as has a numeral. -/
theorem isNumber (h : x.WellFormed) (hkind : x.kind = .number) {value : Float}
    (hvalue : Number.read? x.text = some value) : IsNumber value := by
  cases h with
  | whole hne hdigits => exact ⟨_, .whole hne hdigits, hvalue⟩
  | point hne hwhole hfraction => exact ⟨_, .point hwhole hfraction (.inl hne), hvalue⟩
  | @fixed kind hne =>
    obtain rfl : kind = .number := hkind
    exact absurd rfl hne
  | operator | name | string => cases hkind

end Symbol.WellFormed

/-- The name of a well-formed use of a name. -/
theorem WellFormed.Expression.isName {name : String}
    (h : WellFormed.Expression (.identifier name)) : IsName name := by
  cases h with
  | identifier hname => exact hname

/-- Whether symbols are well-formed. -/
def AllFormed (w : List Symbol) : Prop :=
  ∀ x ∈ w, x.WellFormed

/-- Two sequences of symbols are well-formed if each of them is. -/
theorem allFormed_append {w v : List Symbol} :
    AllFormed (w ++ v) ↔ AllFormed w ∧ AllFormed v :=
  List.forall_mem_append

/-- Symbols are well-formed if the first one and the others are. -/
theorem allFormed_cons {x : Symbol} {w : List Symbol} :
    AllFormed (x :: w) ↔ x.WellFormed ∧ AllFormed w :=
  List.forall_mem_cons

namespace Grammar

mutual

theorem Primary.wellFormed {w : List Symbol} {n : Node} (h : Primary w n) :
    AllFormed w → WellFormed.Expression n := by
  match h with
  | .name hx =>
    intro hw
    exact .identifier ((allFormed_cons.1 hw).1.isName hx)
  | .number hx hvalue =>
    intro hw
    exact .number ((allFormed_cons.1 hw).1.isNumber hx hvalue)
  | .group _ hn _ =>
    intro hw
    obtain ⟨-, hw⟩ := allFormed_cons.1 hw
    exact hn.wellFormed (allFormed_append.1 hw).1

theorem Member.wellFormed {w : List Symbol} {n : Node} (h : Member w n) :
    AllFormed w → WellFormed.Expression n := by
  match h with
  | .primary hn => exact hn.wellFormed
  | .field hobject _ hname =>
    intro hw
    obtain ⟨hw, hv⟩ := allFormed_append.1 hw
    have hidentifier := hname.wellFormed (allFormed_cons.1 hv).2
    exact .field (hobject.wellFormed hw) hidentifier.isName
  | .index hobject _ hproperty _ =>
    intro hw
    obtain ⟨hw, hv⟩ := allFormed_append.1 hw
    obtain ⟨hv, -⟩ := allFormed_append.1 (allFormed_cons.1 hv).2
    exact .index (hobject.wellFormed hw) (hproperty.wellFormed hv)

theorem Call.wellFormed {w : List Symbol} {n : Node} (h : Call w n) :
    AllFormed w → WellFormed.Expression n := by
  match h with
  | .member hn => exact hn.wellFormed
  | .call hcallee harguments =>
    intro hw
    obtain ⟨hw, hv⟩ := allFormed_append.1 hw
    exact .call (hcallee.wellFormed hw) (harguments.wellFormed hv)

theorem Product.wellFormed {w : List Symbol} {n : Node} (h : Product w n) :
    AllFormed w → WellFormed.Expression n := by
  match h with
  | .call hn => exact hn.wellFormed
  | .operator hleft ho hright =>
    intro hw
    obtain ⟨hw, hv⟩ := allFormed_append.1 hw
    exact .binary (hleft.wellFormed hw) (hright.wellFormed (allFormed_cons.1 hv).2)
      (operator_of_isMultiplicative ho)

theorem Sum.wellFormed {w : List Symbol} {n : Node} (h : Sum w n) :
    AllFormed w → WellFormed.Expression n := by
  match h with
  | .product hn => exact hn.wellFormed
  | .operator hleft ho hright =>
    intro hw
    obtain ⟨hw, hv⟩ := allFormed_append.1 hw
    exact .binary (hleft.wellFormed hw) (hright.wellFormed (allFormed_cons.1 hv).2)
      (operator_of_isAdditive ho)

theorem Arguments.wellFormed {w : List Symbol} {arguments : List Node}
    (h : Arguments w arguments) :
    AllFormed w → ∀ n ∈ arguments, WellFormed.Expression n := by
  match h with
  | .none _ _ =>
    intro hw
    simp
  | .some _ harguments _ =>
    intro hw
    obtain ⟨-, hw⟩ := allFormed_cons.1 hw
    exact harguments.wellFormed (allFormed_append.1 hw).1

theorem ArgumentList.wellFormed {w : List Symbol} {arguments : List Node}
    (h : ArgumentList w arguments) :
    AllFormed w → ∀ n ∈ arguments, WellFormed.Expression n := by
  match h with
  | .last hn =>
    intro hw
    simpa using hn.wellFormed hw
  | .more hn _ harguments =>
    intro hw
    obtain ⟨hw, hv⟩ := allFormed_append.1 hw
    exact List.forall_mem_cons.2
      ⟨hn.wellFormed hw, harguments.wellFormed (allFormed_cons.1 hv).2⟩

theorem Entry.wellFormed {w : List Symbol} {p : Property} (h : Entry w p) :
    AllFormed w → WellFormed.Entry p := by
  match h with
  | .shorthand hk =>
    intro hw
    exact .shorthand ((allFormed_cons.1 hw).1.isName hk)
  | .pair hk _ hvalue =>
    intro hw
    obtain ⟨hkey, hw⟩ := allFormed_cons.1 hw
    exact .pair (hkey.isName hk) (hvalue.wellFormed (allFormed_cons.1 hw).2)

theorem EntryList.wellFormed {w : List Symbol} {properties : List Property}
    (h : EntryList w properties) :
    AllFormed w → ∀ p ∈ properties, WellFormed.Entry p := by
  match h with
  | .last hp =>
    intro hw
    simpa using hp.wellFormed hw
  | .lastComma hp _ =>
    intro hw
    simpa using hp.wellFormed (allFormed_append.1 hw).1
  | .more hp _ hrest =>
    intro hw
    obtain ⟨hw, hv⟩ := allFormed_append.1 hw
    exact List.forall_mem_cons.2 ⟨hp.wellFormed hw, hrest.wellFormed (allFormed_cons.1 hv).2⟩

theorem ObjectOrSum.wellFormed {w : List Symbol} {n : Node} (h : ObjectOrSum w n) :
    AllFormed w → WellFormed.Expression n := by
  match h with
  | .empty _ _ =>
    intro hw
    exact .object (by simp)
  | .object _ hlist _ =>
    intro hw
    obtain ⟨-, hw⟩ := allFormed_cons.1 hw
    exact .object (hlist.wellFormed (allFormed_append.1 hw).1)
  | .sum hn => exact hn.wellFormed

theorem Expression.wellFormed {w : List Symbol} {n : Node} (h : Expression w n) :
    AllFormed w → WellFormed.Expression n := by
  match h with
  | .plain hn => exact hn.wellFormed
  | .assignment htarget _ hvalue =>
    intro hw
    obtain ⟨hw, hv⟩ := allFormed_append.1 hw
    exact .assignment (htarget.wellFormed hw) (hvalue.wellFormed (allFormed_cons.1 hv).2)

end

mutual

theorem Statement.wellFormed {w : List Symbol} {n : Node} (h : Statement w n) :
    AllFormed w → WellFormed.Statement n := by
  cases h with
  | uninitialized _ hx _ =>
    intro hw
    obtain ⟨-, hw⟩ := allFormed_cons.1 hw
    exact .uninitialized ((allFormed_cons.1 hw).1.isName hx)
  | initialized _ hx _ hvalue _ =>
    intro hw
    obtain ⟨-, hw⟩ := allFormed_cons.1 hw
    obtain ⟨hname, hw⟩ := allFormed_cons.1 hw
    obtain ⟨hw, -⟩ := allFormed_append.1 (allFormed_cons.1 hw).2
    exact .initialized (hname.isName hx) (hvalue.wellFormed hw)
  | constant _ hx _ hvalue _ =>
    intro hw
    obtain ⟨-, hw⟩ := allFormed_cons.1 hw
    obtain ⟨hname, hw⟩ := allFormed_cons.1 hw
    obtain ⟨hw, -⟩ := allFormed_append.1 (allFormed_cons.1 hw).2
    exact .initialized (hname.isName hx) (hvalue.wellFormed hw)
  | function _ hx hparameters _ hbody _ =>
    intro hw
    obtain ⟨-, hw⟩ := allFormed_cons.1 hw
    obtain ⟨hname, hw⟩ := allFormed_cons.1 hw
    obtain ⟨hw, hv⟩ := allFormed_append.1 hw
    obtain ⟨hv, -⟩ := allFormed_append.1 (allFormed_cons.1 hv).2
    refine .function (hname.isName hx) (fun p hp => ?_) (hbody.wellFormed hv)
    exact (hparameters.wellFormed hw (.identifier p) (List.mem_map_of_mem hp)).isName
  | closed hn _ =>
    intro hw
    exact .expression (hn.wellFormed (allFormed_append.1 hw).1)

theorem Statements.wellFormed {w : List Symbol} {body : List Node} (h : Statements w body) :
    AllFormed w → ∀ n ∈ body, WellFormed.Statement n := by
  cases h with
  | nil =>
    intro hw
    simp
  | cons hn hrest =>
    intro hw
    obtain ⟨hw, hv⟩ := allFormed_append.1 hw
    exact List.forall_mem_cons.2 ⟨hn.wellFormed hw, hrest.wellFormed hv⟩
  | bare hn hrest _ =>
    intro hw
    obtain ⟨hw, hv⟩ := allFormed_append.1 hw
    exact List.forall_mem_cons.2 ⟨.expression (hn.wellFormed hw), hrest.wellFormed hv⟩

end

end Grammar

/-- What a source text is parsed as is a well-formed program. -/
theorem wellFormed_of_parse {source : String} {n : Node} (h : parse source = .ok n) :
    WellFormed.Program n := by
  obtain ⟨w, hlexes, hprogram⟩ := parse_eq_ok_iff.1 h
  cases hprogram with
  | statements hbody => exact .statements (hbody.wellFormed hlexes.wellFormed)

end Scriptlet
