import Scriptlet.Proofs.Environment.Global
import Scriptlet.Proofs.Evaluation.Declared
import Scriptlet.Proofs.Session.Forest

/-!
# Constants for ever

The history of a session lists the variables that its commands have declared,
with the scope, the value and the constancy they were declared with. At any time
the names of a scope are those that were declared there, in that order; a
variable is constant exactly if it was declared so, and a constant has the value
that it was declared with. Since a history only grows, names stay bound and
constants stay what they are.
-/

namespace Scriptlet

open Eval

/-- Variables of which the same lasts have the same name, are constant both or
neither, and have the same value if they are constant. -/
theorem Variable.lasting_eq_iff {v w : Variable} :
    w.lasting = v.lasting ↔
      w.name = v.name ∧ w.constant = v.constant ∧ (v.constant = true → w.value = v.value) := by
  unfold lasting
  cases hv : v.constant <;> cases hw : w.constant <;> simp

namespace Scope

variable {s t : Scope} {name : String}

/-- The constants are the names of constant variables. -/
theorem mem_constants_iff :
    name ∈ s.constants ↔ ∃ v ∈ s.bindings, v.name = name ∧ v.constant = true := by
  simp only [constants, List.mem_map, List.mem_filter]
  constructor
  · rintro ⟨v, ⟨hv, hconstant⟩, hname⟩
    exact ⟨v, hv, hname, hconstant⟩
  · rintro ⟨v, hv, hname, hconstant⟩
    exact ⟨v, ⟨hv, hconstant⟩, hname⟩

/-- The constants are among the names. -/
theorem constants_subset_names (s : Scope) : s.constants ⊆ s.names := by
  intro name h
  obtain ⟨v, hv, rfl, -⟩ := mem_constants_iff.1 h
  exact List.mem_map_of_mem hv

/-- A variable of which something lasts in a scope is found there. -/
theorem exists_find?_of_lasting (ht : t.Distinct) {v : Variable} (h : v.lasting ∈ t.lasting) :
    ∃ w, t.find? v.name = some w ∧ w.lasting = v.lasting := by
  obtain ⟨w, hw, hlasting⟩ := List.mem_map.1 h
  have hname := (Variable.lasting_eq_iff.1 hlasting).1
  exact ⟨w, (find?_eq_some_iff ht).2 ⟨hw, hname⟩, hlasting⟩

/-- Where more lasts, the names go on in the same order. -/
theorem names_isPrefix (h : s.lasting <+: t.lasting) : s.names <+: t.names := by
  rw [← map_fst_lasting, ← map_fst_lasting]
  exact h.map _

/-- Where more lasts, constants are the same variables. -/
theorem find?_eq_of_mem_constants (hs : s.Distinct) (ht : t.Distinct)
    (h : s.lasting <+: t.lasting) (hname : name ∈ s.constants) :
    name ∈ t.constants ∧ t.find? name = s.find? name := by
  obtain ⟨v, hv, rfl, hconstant⟩ := mem_constants_iff.1 hname
  have hmem : v.lasting ∈ t.lasting := h.subset (List.mem_map_of_mem hv)
  obtain ⟨w, hw, hlasting⟩ := exists_find?_of_lasting ht hmem
  obtain ⟨hwname, hwconstant, hwvalue⟩ := Variable.lasting_eq_iff.1 hlasting
  have hwv : w = v := by
    cases w
    cases v
    simp_all
  rw [hwv] at hw
  have hfound := ((find?_eq_some_iff ht).1 hw).1
  exact ⟨mem_constants_iff.2 ⟨v, hfound, rfl, hconstant⟩,
    hw.trans ((find?_eq_some_iff hs).2 ⟨hv, rfl⟩).symm⟩

/-- Where more lasts, what is not constant does not become so. -/
theorem notMem_constants (ht : t.Distinct) (h : s.lasting <+: t.lasting) (hname : name ∈ s.names)
    (hnot : name ∉ s.constants) : name ∉ t.constants := by
  obtain ⟨v, hv, rfl⟩ := List.mem_map.1 hname
  have hconstant : v.constant = false := by
    rw [Bool.eq_false_iff]
    exact fun hc => hnot (mem_constants_iff.2 ⟨v, hv, rfl, hc⟩)
  have hmem : v.lasting ∈ t.lasting := h.subset (List.mem_map_of_mem hv)
  obtain ⟨w, hw, hlasting⟩ := exists_find?_of_lasting ht hmem
  intro hin
  obtain ⟨u, hu, huname, huconstant⟩ := mem_constants_iff.1 hin
  have huw : u = w := Option.some.inj (((find?_eq_some_iff ht).2 ⟨hu, huname⟩).symm.trans hw)
  have hwconstant := (Variable.lasting_eq_iff.1 hlasting).2.1
  rw [← huw, huconstant, hconstant] at hwconstant
  exact Bool.noConfusion hwconstant

end Scope

/-- The variables that running a source text declares, in order. -/
def declaredBySource (source : String) (env : Environment) : List Variable :=
  match parse source with
  | .ok node => node.declared env
  | .error _ => []

namespace Session

/-- The variables that a computation declares in the environment of a scope. -/
def declaredIn (s : Session) (place : Nat) (log : Environment → List Variable) :
    List (Nat × Variable) :=
  match s.environment? place with
  | some env => (log env).map (place, ·)
  | none => []

/-- The variables that a command declares, each with the number of its scope. -/
def declared (s : Session) : Command → List (Nat × Variable)
  | .createGlobal =>
    match s.registry.globalScope with
    | .ok _ => s.registry.globals.map (s.places.length, ·)
    | .error _ => []
  | .declare place name value constant =>
    s.declaredIn place (Eval.declared ⟨name, value, constant⟩)
  | .run place source => s.declaredIn place (declaredBySource source)
  | .evaluate place node => s.declaredIn place node.declared
  | _ => []

/-- The variables that commands declare, in order. -/
def history (s : Session) : List Command → List (Nat × Variable)
  | [] => []
  | command :: rest => s.declared command ++ (s.perform command).2.history rest

/-- The variables that were declared in one scope. -/
def variablesOf (number : Nat) (events : List (Nat × Variable)) : List Variable :=
  events.filterMap fun event => if event.1 = number then some event.2 else none

/-- Whether a session is what its history tells. -/
structure Consistent (s : Session) (events : List (Nat × Variable)) : Prop where
  /-- Scopes stand only inside those that were created before. -/
  ordered : s.Ordered
  /-- No scope has two variables of the same name. -/
  distinct : ∀ number scope, s.scope? number = some scope → scope.Distinct
  /-- What lasts of a scope is what lasts of the variables declared in it. -/
  recorded : ∀ number scope, s.scope? number = some scope →
    scope.lasting = (variablesOf number events).map Variable.lasting
  /-- Variables were declared only in scopes that exist. -/
  known : ∀ event ∈ events, event.1 < s.places.length

section Actions

variable {ε ε' α β : Type} {log : Environment → List Variable}

/-- A computation that leaves what another one leaves declares the same. -/
theorem declares_congr {x : EStateM ε Environment α} {y : EStateM ε' Environment β}
    (h : ∀ env, after y env = after x env) (hx : Declares x log) : Declares y log := by
  intro env henv
  rw [h]
  exact hx env henv

/-- What is done with the result of a computation declares nothing. -/
theorem declares_map {x : EStateM ε Environment α} (f : α → β) (hx : Declares x log) :
    Declares (f <$> x) log :=
  declares_congr (after_map f x) hx

/-- An evaluation declares in a session what it declares. -/
theorem declares_lift {x : Eval α} (hx : Declares x log) : Declares (lift x) log := by
  refine declares_congr (fun env => ?_) hx
  unfold after lift
  cases x env <;> rfl

/-- Evaluating a node as part of a script leaves the same environment. -/
theorem after_evaluate (n : Node) (env : Environment) :
    after (evaluate n) env = after n.eval env := by
  unfold after evaluate
  cases n.eval env <;> rfl

/-- Evaluating a node declares its variables. -/
theorem evaluate_declares (n : Node) : Declares (evaluate n) n.declared :=
  declares_congr (after_evaluate n) n.eval_declares

/-- Running a source text declares the variables of its program. -/
theorem run_declares (source : String) : Declares (run source) (declaredBySource source) := by
  unfold run declaredBySource
  cases parse source with
  | error failure => exact declares_of_after fun _ => rfl
  | ok n => exact evaluate_declares n

end Actions

section Step

variable {s : Session} {events : List (Nat × Variable)}

/-- The variables of a scope are those of the one time and of the other. -/
theorem variablesOf_append (number : Nat) (events more : List (Nat × Variable)) :
    variablesOf number (events ++ more) = variablesOf number events ++ variablesOf number more :=
  List.filterMap_append

/-- Variables declared in one scope are found there. -/
theorem variablesOf_map_self (number : Nat) (log : List Variable) :
    variablesOf number (log.map (number, ·)) = log := by
  simp [variablesOf, List.filterMap_map]

/-- Variables declared in another scope do not count. -/
theorem variablesOf_of_ne {number : Nat} {more : List (Nat × Variable)}
    (h : ∀ event ∈ more, event.1 ≠ number) : variablesOf number more = [] := by
  unfold variablesOf
  rw [List.filterMap_eq_nil_iff]
  intro event hevent
  rw [if_neg (h event hevent)]

/-- Variables declared in one scope are no other's. -/
theorem variablesOf_map_of_ne {number place : Nat} (h : place ≠ number) (log : List Variable) :
    variablesOf number (log.map (place, ·)) = [] := by
  refine variablesOf_of_ne fun event hevent => ?_
  obtain ⟨v, -, rfl⟩ := List.mem_map.1 hevent
  exact h

/-- A new scope with variables may be added. -/
theorem Consistent.add (h : s.Consistent events) {scope : Scope} {ancestors : List Nat}
    (hscope : scope.Distinct) (hancestors : (s.places.length :: ancestors).Pairwise (· > ·)) :
    (s.add scope ancestors).2.Consistent
      (events ++ scope.bindings.map (s.places.length, ·)) := by
  refine ⟨h.ordered.add hancestors, ?_, ?_, ?_⟩
  · intro number found hfound
    rw [scope?_add] at hfound
    split at hfound
    · obtain rfl := Option.some.inj hfound
      exact hscope
    · exact h.distinct number found hfound
  · intro number found hfound
    rw [scope?_add] at hfound
    rw [variablesOf_append]
    split at hfound
    · rename_i hnumber
      obtain rfl := Option.some.inj hfound
      have hnone : variablesOf number events = [] := by
        refine variablesOf_of_ne fun event hevent => ?_
        have hlt := h.known event hevent
        omega
      rw [hnone, List.nil_append, hnumber, variablesOf_map_self]
      rfl
    · rename_i hnumber
      rw [variablesOf_map_of_ne (Ne.symm hnumber), List.append_nil]
      exact h.recorded number found hfound
  · intro event hevent
    rw [length_add]
    rcases List.mem_append.1 hevent with hold | hnew
    · have hlt := h.known event hold
      omega
    · obtain ⟨v, -, rfl⟩ := List.mem_map.1 hnew
      exact Nat.lt_succ_self _

/-- The environment of a scope has no two variables of the same name in a
scope. -/
theorem Consistent.distinct_environment? (h : s.Consistent events) {place : Nat}
    {env : Environment} (henv : s.environment? place = some env) : env.Distinct := by
  intro scope hscope
  have hmem : some scope ∈ (s.path place).map s.scope? := by
    rw [h.ordered.scopes_environment? henv]
    exact List.mem_map_of_mem hscope
  obtain ⟨number, -, hnumber⟩ := List.mem_map.1 hmem
  exact h.distinct number scope hnumber

/-- Writing an environment back in which variables were declared adds them. -/
theorem Consistent.store (h : s.Consistent events) {place : Nat} {env env' : Environment}
    {log : List Variable} (henv : s.environment? place = some env) (hdistinct : env'.Distinct)
    (hlasting : env'.lasting = extend log env.lasting) :
    (s.store place env').Consistent (events ++ log.map (place, ·)) := by
  have hlength := Environment.length_scopes_of_lasting hlasting
  have hplace : place < s.places.length := by
    obtain ⟨ancestors, hpath⟩ := path_of_environment? henv
    exact h.ordered.lt_of_mem_path (by rw [hpath]; exact List.mem_cons_self)
  refine ⟨?_, ?_, ?_, ?_⟩
  · have hordered := h.ordered
    unfold Ordered at hordered ⊢
    rw [enclosing_store]
    exact hordered
  · intro number found hfound
    by_cases hmem : number ∈ s.path place
    · have hwritten : some found ∈ env'.scopes.map some := by
        rw [← h.ordered.map_scope?_store henv hlength, ← hfound]
        exact List.mem_map_of_mem hmem
      obtain ⟨scope, hscope, hsome⟩ := List.mem_map.1 hwritten
      exact Option.some.inj hsome ▸ hdistinct scope hscope
    · rw [scope?_store_of_notMem hmem] at hfound
      exact h.distinct number found hfound
  · intro number found hfound
    have hafter := h.ordered.lasting?_store henv hlasting number
    rw [lasting?, hfound, lasting?] at hafter
    cases hold : s.scope? number with
    | none => simp [hold] at hafter
    | some old =>
      have hrecorded := h.recorded number old hold
      rw [hold] at hafter
      have hfound : found.lasting =
          old.lasting ++ if number = place then log.map Variable.lasting else [] :=
        Option.some.inj hafter
      rw [hfound, hrecorded, variablesOf_append, List.map_append]
      congr 1
      by_cases hnumber : number = place
      · rw [if_pos hnumber, hnumber, variablesOf_map_self]
      · rw [if_neg hnumber, variablesOf_map_of_ne (Ne.symm hnumber), List.map_nil]
  · intro event hevent
    rw [length_store]
    rcases List.mem_append.1 hevent with hold | hnew
    · exact h.known event hold
    · obtain ⟨v, -, rfl⟩ := List.mem_map.1 hnew
      exact hplace

/-- What is done in an environment adds the variables that are declared. -/
theorem Consistent.inEnvironment (h : s.Consistent events) (place : Nat)
    {action : EStateM Failure Environment Reply} {log : Environment → List Variable}
    (haction : Declares action log) :
    (s.inEnvironment place action).2.Consistent (events ++ s.declaredIn place log) := by
  unfold declaredIn
  cases henv : s.environment? place with
  | none =>
    rw [inEnvironment_of_none henv, List.append_nil]
    exact h
  | some env =>
    obtain ⟨hdistinct, hlasting⟩ := haction env (h.distinct_environment? henv)
    rw [inEnvironment_of_some henv]
    exact h.store henv hdistinct hlasting

/-- What declares nothing in an environment leaves the history as it is. -/
theorem Consistent.inEnvironment_idle (h : s.Consistent events) (place : Nat)
    {action : EStateM Failure Environment Reply} (haction : Declares action fun _ => []) :
    (s.inEnvironment place action).2.Consistent events := by
  have hstep := h.inEnvironment place haction
  have hnone : s.declaredIn place (fun _ => []) = [] := by
    unfold declaredIn
    cases s.environment? place <;> rfl
  rw [hnone, List.append_nil] at hstep
  exact hstep

/-- Adding nothing to a history changes nothing. -/
theorem Consistent.append_nil (h : s.Consistent events) : s.Consistent (events ++ []) := by
  rw [List.append_nil]
  exact h

/-- A command adds the variables that it declares to the history. -/
theorem Consistent.perform (h : s.Consistent events) (command : Command) :
    (s.perform command).2.Consistent (events ++ s.declared command) := by
  cases command with
  | createGlobal =>
    unfold Session.perform declared
    cases hglobal : s.registry.globalScope with
    | error e => exact h.append_nil
    | ok scope =>
      obtain ⟨hbindings, hdistinct⟩ := Registry.globalScope_eq_ok hglobal
      rw [← hbindings]
      exact h.add hdistinct (List.pairwise_singleton _ _)
  | createRoot =>
    exact h.add Scope.distinct_empty (List.pairwise_singleton _ _)
  | createChild parent =>
    refine h.add Scope.distinct_empty (List.pairwise_cons.2 ⟨?_, h.ordered.path parent⟩)
    intro number hnumber
    exact h.ordered.lt_of_mem_path hnumber
  | declare place name value constant =>
    exact h.inEnvironment place
      (declares_map _ (declares_lift (declares_declare name value constant)))
  | assign place name value =>
    have haction := declares_map Reply.value (declares_lift (declares_assign name value))
    exact (h.inEnvironment_idle place haction).append_nil
  | lookup place name =>
    have haction := declares_map Reply.value (declares_lift (declares_lookup name))
    exact (h.inEnvironment_idle place haction).append_nil
  | resolve place name =>
    have hget : Declares (get : EStateM Failure Environment Environment) fun _ => [] :=
      declares_of_after fun _ => rfl
    refine (h.inEnvironment_idle place (hget.bind_idle fun env => ?_)).append_nil
    split
    · exact declares_throw _
    · exact declares_pure _
  | run place source => exact h.inEnvironment place (declares_map _ (run_declares source))
  | evaluate place node => exact h.inEnvironment place (declares_map _ (evaluate_declares node))
  | call place name arguments time =>
    have hlookup := declares_lift (declares_lookup name)
    refine (h.inEnvironment_idle place (hlookup.bind_idle fun value => ?_)).append_nil
    split
    · exact declares_pure _
    · exact declares_pure _
  | register name result =>
    have hplaces : Consistent { s with registry := s.registry.register name (.always result) }
        events := ⟨h.ordered, h.distinct, h.recorded, h.known⟩
    exact hplaces.append_nil
  | inspect place =>
    have hsame : (s.perform (.inspect place)).2 = s := by
      rw [Session.perform]
      cases s.places[place]? <;> rfl
    rw [hsame]
    exact h.append_nil

/-- A command takes no scope away. -/
theorem length_le_perform (s : Session) (command : Command) :
    s.places.length ≤ (s.perform command).2.places.length := by
  have hadd : ∀ scope ancestors, s.places.length ≤ (s.add scope ancestors).2.places.length := by
    intro scope ancestors
    rw [length_add]
    omega
  have haction : ∀ place action,
      s.places.length ≤ (s.inEnvironment place action).2.places.length := by
    intro place action
    exact Nat.le_of_eq (length_inEnvironment s place action).symm
  cases command with
  | createGlobal =>
    rw [Session.perform]
    cases s.registry.globalScope with
    | ok scope => exact hadd scope []
    | error e => exact Nat.le_refl _
  | createRoot => exact hadd _ _
  | createChild parent => exact hadd _ _
  | declare place name value constant => exact haction place _
  | assign place name value => exact haction place _
  | lookup place name => exact haction place _
  | resolve place name => exact haction place _
  | run place source => exact haction place _
  | evaluate place node => exact haction place _
  | call place name arguments time => exact haction place _
  | register name result => exact Nat.le_refl _
  | inspect place =>
    rw [Session.perform]
    cases s.places[place]? <;> exact Nat.le_refl _

/-- Commands add the variables that they declare to the history, and take no
scope away. -/
theorem Consistent.performAll (h : s.Consistent events) (commands : List Command) :
    (s.performAll commands).2.Consistent (events ++ s.history commands) ∧
      s.places.length ≤ (s.performAll commands).2.places.length := by
  induction commands generalizing s events with
  | nil => exact ⟨h.append_nil, Nat.le_refl _⟩
  | cons command rest ih =>
    obtain ⟨hconsistent, hlength⟩ := ih (h.perform command)
    rw [List.append_assoc] at hconsistent
    exact ⟨hconsistent, Nat.le_trans (s.length_le_perform command) hlength⟩

end Step

/-- A session without scopes has no history. -/
theorem consistent_start : start.Consistent [] := by
  refine ⟨?_, ?_, ?_, ?_⟩
  · intro number ancestors h
    simp [enclosing, start] at h
  · intro number scope h
    simp [scope?, start] at h
  · intro number scope h
    simp [scope?, start] at h
  · intro event h
    simp at h

/-- Commands are carried out one after the other. -/
theorem performAll_append (s : Session) (before after : List Command) :
    (s.performAll (before ++ after)).2 = ((s.performAll before).2.performAll after).2 := by
  induction before generalizing s with
  | nil => rfl
  | cons command before ih => exact ih (s.perform command).2

/-- The history of commands is that of the first ones and then that of the
others. -/
theorem history_append (s : Session) (before after : List Command) :
    s.history (before ++ after) =
      s.history before ++ (s.performAll before).2.history after := by
  induction before generalizing s with
  | nil => rfl
  | cons command before ih =>
    have hrest := ih (s.perform command).2
    rw [List.cons_append, history, history, hrest, List.append_assoc]
    rfl

/-- Whatever is done in a session, names stay bound in the order of their
declaration, constants stay constant and keep the value that they were declared
with, and no other name becomes constant. -/
theorem performAll_keeps (before after : List Command) (number : Nat) {p : Place}
    (hp : (start.performAll before).2.places[number]? = some p) :
    ∃ q, (start.performAll (before ++ after)).2.places[number]? = some q ∧
      q.scope.constants ⊆ q.scope.names ∧
      p.scope.names <+: q.scope.names ∧
      (∀ name ∈ p.scope.constants,
        name ∈ q.scope.constants ∧ q.scope.find? name = p.scope.find? name) ∧
      (∀ name ∈ p.scope.names, name ∉ p.scope.constants → name ∉ q.scope.constants) ∧
      q.scope.names = (variablesOf number (start.history (before ++ after))).map (·.name) ∧
      ∀ v ∈ variablesOf number (start.history (before ++ after)),
        ∃ w, q.scope.find? v.name = some w ∧ w.constant = v.constant ∧
          (v.constant = true → w.value = v.value) := by
  have hbefore : (start.performAll before).2.Consistent (start.history before) :=
    (consistent_start.performAll before).1
  obtain ⟨hafter, hlength⟩ := hbefore.performAll after
  rw [← performAll_append, ← history_append] at hafter
  rw [← performAll_append] at hlength
  have hnumber : number < (start.performAll (before ++ after)).2.places.length := by
    have hlt := (List.getElem?_eq_some_iff.1 hp).1
    omega
  obtain ⟨q, hq⟩ : ∃ q, (start.performAll (before ++ after)).2.places[number]? = some q :=
    ⟨_, List.getElem?_eq_getElem hnumber⟩
  have hscope : (start.performAll before).2.scope? number = some p.scope := by
    rw [scope?, hp, Option.map_some]
  have hscope' : (start.performAll (before ++ after)).2.scope? number = some q.scope := by
    rw [scope?, hq, Option.map_some]
  have hdistinct := hbefore.distinct number p.scope hscope
  have hdistinct' := hafter.distinct number q.scope hscope'
  have hrecorded := hafter.recorded number q.scope hscope'
  have hgrows : p.scope.lasting <+: q.scope.lasting := by
    rw [hrecorded, hbefore.recorded number p.scope hscope, history_append, variablesOf_append,
      List.map_append]
    exact List.prefix_append _ _
  refine ⟨q, hq, q.scope.constants_subset_names, Scope.names_isPrefix hgrows, ?_, ?_, ?_, ?_⟩
  · intro name hname
    exact Scope.find?_eq_of_mem_constants hdistinct hdistinct' hgrows hname
  · intro name hname hnot
    exact Scope.notMem_constants hdistinct' hgrows hname hnot
  · rw [← Scope.map_fst_lasting, hrecorded, List.map_map]
    rfl
  · intro v hv
    have hmem : v.lasting ∈ q.scope.lasting := by
      rw [hrecorded]
      exact List.mem_map_of_mem hv
    obtain ⟨w, hw, hlasting⟩ := Scope.exists_find?_of_lasting hdistinct' hmem
    exact ⟨w, hw, (Variable.lasting_eq_iff.1 hlasting).2⟩

/-- A constant keeps its value though it is assigned to, and its name declared
again, in a scope inside its own. -/
theorem performAll_keeps_constant :
    let before : List Command :=
      [.createRoot, .declare 0 "limit" (.bool true) true, .declare 0 "count" .null false]
    let after : List Command :=
      [.createChild 0, .assign 1 "limit" .null, .assign 1 "count" (.bool false),
        .declare 1 "limit" .null false]
    let p : Place := ⟨⟨[⟨"limit", .bool true, true⟩, ⟨"count", .null, false⟩]⟩, []⟩
    (start.performAll before).2.places[0]? = some p ∧
      ∃ q, (start.performAll (before ++ after)).2.places[0]? = some q ∧
        ["limit", "count"] <+: q.scope.names ∧
        q.scope.find? "limit" = some ⟨"limit", .bool true, true⟩ ∧ "count" ∉ q.scope.constants := by
  intro before after p
  have hp : (start.performAll before).2.places[0]? = some p := rfl
  obtain ⟨q, hq, -, hnames, hconstants, hothers, -, -⟩ := performAll_keeps before after 0 hp
  have hlimit : "limit" ∈ p.scope.constants := by decide
  have hcount : "count" ∈ p.scope.names := by decide
  have hvariable : "count" ∉ p.scope.constants := by decide
  exact ⟨hp, q, hq, hnames, (hconstants "limit" hlimit).2, hothers "count" hcount hvariable⟩

end Session

end Scriptlet
