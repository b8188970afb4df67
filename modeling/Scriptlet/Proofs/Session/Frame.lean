import Scriptlet.Proofs.Evaluation.Writing
import Scriptlet.Proofs.Session.Constancy

/-!
# The frame of an evaluation

Evaluating a node in one scope of a forest concerns this scope and the scopes
around it only. Of the variables there, those change that are not constant, that
an assignment inside the node names, and that no scope further inside hides. All
this holds whether the evaluation succeeds or fails on its way.
-/

namespace Scriptlet

namespace Session

variable {s t : Session} {place number : Nat} {env env' : Environment}

/-- A place is its scope and the numbers of the scopes around it. -/
theorem getElem?_places_eq (hscope : t.scope? number = s.scope? number)
    (henclosing : t.enclosing = s.enclosing) : t.places[number]? = s.places[number]? := by
  have hancestors : t.places[number]?.map (·.ancestors) = s.places[number]?.map (·.ancestors) := by
    have hsame := congrArg (fun numbers : List (List Nat) => numbers[number]?) henclosing
    simpa [enclosing] using hsame
  unfold scope? at hscope
  cases hp : s.places[number]? with
  | none => simpa [hp] using hscope
  | some p =>
    cases hq : t.places[number]? with
    | none => simp [hp, hq] at hscope
    | some q =>
      rw [hp, hq, Option.map_some, Option.map_some, Option.some.injEq] at hscope hancestors
      cases p
      cases q
      simp_all

/-- Replacing scopes leaves the native functions. -/
theorem registry_setScopes (s : Session) (entries : List (Nat × Scope)) :
    (s.setScopes entries).registry = s.registry := by
  induction entries generalizing s with
  | nil => rfl
  | cons entry entries ih => exact ih (s.setScope entry.1 entry.2)

/-- Writing an environment back that has not changed leaves the session as it is. -/
theorem Ordered.store_self (h : s.Ordered) (henv : s.environment? place = some env) :
    s.store place env = s := by
  have hpath : (s.path place).map (s.store place env).scope? = (s.path place).map s.scope? :=
    (h.map_scope?_store henv rfl).trans (h.scopes_environment? henv).symm
  have hplaces : (s.store place env).places = s.places := by
    refine List.ext_getElem? fun number => getElem?_places_eq ?_ (enclosing_store s place env)
    by_cases hmem : number ∈ s.path place
    · exact List.map_inj_left.1 hpath number hmem
    · exact scope?_store_of_notMem hmem
  have hregistry : (s.store place env).registry = s.registry := by
    rw [store_eq, registry_setScopes]
  cases hstored : s.store place env
  cases s
  simp_all

/-- After an environment is written back that has changed, each scope along the path has
changed where no scope further inside hides it. The scopes of the environment are split
in the same way as the path. -/
theorem Ordered.changesTo_store {assignable : String → Prop} (h : s.Ordered)
    (henv : s.environment? place = some env) (hchange : env.ChangesTo assignable env')
    {inner outer : List Nat} (hpath : s.path place = inner ++ number :: outer) {p : Place}
    (hp : s.places[number]? = some p) :
    ∃ q, (s.store place env').places[number]? = some q ∧
      p.scope.ChangesTo (fun name => assignable name ∧
        ∀ k ∈ inner, ∀ r, s.places[k]? = some r → r.scope.binds name = false) q.scope := by
  have hbefore := h.scopes_environment? henv
  have hafter := h.map_scope?_store henv hchange.length_scopes
  rw [hpath, List.map_append, List.map_cons] at hbefore
  obtain ⟨inside, rest, hscopes, hinner, hrest⟩ := List.map_eq_append_iff.1 hbefore.symm
  obtain ⟨scope, outside, rfl, hscope, -⟩ := List.map_eq_cons_iff.1 hrest
  have hlength : inside.length = inner.length := by simpa using congrArg List.length hinner
  obtain ⟨changed, hchanged, hto⟩ := hchange.scope hscopes
  obtain rfl : p.scope = scope := by
    have hfound : s.scope? number = some p.scope := by rw [scope?, hp, Option.map_some]
    exact Option.some.inj (hfound.symm.trans hscope.symm)
  have hstored : (s.store place env').scope? number = some changed := by
    have hget := congrArg (fun scopes : List (Option Scope) => scopes[inner.length]?) hafter
    rw [hlength] at hchanged
    simpa [hpath, hchanged] using hget
  obtain ⟨q, hq, rfl⟩ := Option.map_eq_some_iff.1 hstored
  refine ⟨q, hq, hto.mono fun name hname => ⟨hname.1, fun k hk r hr => ?_⟩⟩
  have hmem : some r.scope ∈ inside.map some := by
    rw [hinner]
    have hfound : s.scope? k = some r.scope := by rw [scope?, hr, Option.map_some]
    exact hfound ▸ List.mem_map_of_mem hk
  obtain ⟨found, hfound, hsame⟩ := List.mem_map.1 hmem
  exact Option.some.inj hsame ▸ hname.2 found hfound

/-- What evaluating a node in a scope leaves as it was. -/
structure Framed (s t : Session) (place : Nat) (n : Node) : Prop where
  /-- Scopes that are neither the scope nor around it are the same. -/
  outside {number : Nat} : number ∉ s.path place → t.places[number]? = s.places[number]?
  /-- A variable has another value only if an assignment inside the node names it and
  it is not constant. -/
  unassigned {number : Nat} {p : Place} {name : String} {v : Variable} :
    s.places[number]? = some p → p.scope.find? name = some v →
      ∃ q w, t.places[number]? = some q ∧ q.scope.find? name = some w ∧
        w.constant = v.constant ∧
        (w.value ≠ v.value → name ∈ n.assignedNames ∧ v.constant = false)
  /-- Of the variables with one name, those that another one hides are the same, even
  if the name is declared once more. -/
  hidden {inner outer : List Nat} {number k : Nat} {p r : Place} {name : String}
    {v : Variable} :
    s.path place = inner ++ number :: outer → k ∈ inner →
      s.places[k]? = some r → r.scope.binds name = true →
        s.places[number]? = some p → p.scope.find? name = some v →
          ∃ q, t.places[number]? = some q ∧ q.scope.find? name = some v
  /-- Without assignments and declarations inside the node, everything is the same. -/
  idle : (∀ m ∈ n.subnodes, m.isWriting = false) → t = s

/-- Where nothing changes, everything is left as it was. -/
theorem framed_self (s : Session) (place : Nat) (n : Node) : s.Framed s place n where
  outside _ := rfl
  unassigned hp hv := ⟨_, _, hp, hv, rfl, fun hne => absurd rfl hne⟩
  hidden _ _ _ _ hp hv := ⟨_, hp, hv⟩
  idle _ := rfl

/-- Writing back what evaluating a node leaves keeps the frame. -/
theorem Ordered.framed_store (h : s.Ordered) (henv : s.environment? place = some env)
    (n : Node) : s.Framed (s.store place (Eval.after n.eval env)) place n where
  outside hnumber :=
    getElem?_places_eq (scope?_store_of_notMem hnumber) (enclosing_store s place _)
  unassigned {number p name v} hp hv := by
    by_cases hmem : number ∈ s.path place
    · obtain ⟨inner, outer, hpath⟩ := List.append_of_mem hmem
      obtain ⟨q, hq, hto⟩ := h.changesTo_store henv (n.eval_changes env) hpath hp
      obtain ⟨w, hw, rfl | ⟨hname, hconstant, value, rfl⟩⟩ := hto name v hv
      · exact ⟨q, w, hq, hw, rfl, fun hne => absurd rfl hne⟩
      · exact ⟨q, _, hq, hw, rfl, fun _ => ⟨hname.1, hconstant⟩⟩
    · have hsame := getElem?_places_eq (scope?_store_of_notMem hmem) (enclosing_store s place
        (Eval.after n.eval env))
      exact ⟨p, v, hsame.trans hp, hv, rfl, fun hne => absurd rfl hne⟩
  hidden {inner outer number k p r name v} hpath hk hr hbinds hp hv := by
    obtain ⟨q, hq, hto⟩ := h.changesTo_store henv (n.eval_changes env) hpath hp
    obtain ⟨w, hw, rfl | ⟨hname, -⟩⟩ := hto name v hv
    · exact ⟨q, hq, hw⟩
    · rw [hname.2 k hk r hr] at hbinds
      cases hbinds
  idle hn := by
    rw [Node.eval_idle hn env]
    exact h.store_self henv

/-- Evaluating a node anywhere in a forest of scopes, whether it gives a value or
fails, writes only to variables around it that the node assigns to: other scopes,
constants, variables with other names and variables that are hidden stay the
same. -/
theorem evaluate_framed (commands : List Command) (place : Nat) (n : Node) :
    let s := (start.performAll commands).2
    s.Framed (s.perform (.evaluate place n)).2 place n := by
  intro s
  have hordered : s.Ordered := (consistent_start.performAll commands).1.ordered
  change s.Framed (s.inEnvironment place (.value <$> evaluate n)).2 place n
  cases henv : s.environment? place with
  | none =>
    rw [inEnvironment_of_none henv]
    exact framed_self s place n
  | some env =>
    rw [inEnvironment_of_some henv, Eval.after_map, after_evaluate]
    exact hordered.framed_store henv n

/-- An assignment in an object that cannot be evaluated to its end: the variable that
the name means changes, and the one that it hides and the scope beside stay the
same. -/
theorem evaluate_framed_hidden :
    let commands : List Command :=
      [.createRoot, .declare 0 "x" .null false, .declare 0 "y" (.bool true) true, .createChild 0,
        .declare 1 "x" .null false, .createChild 1, .createChild 0]
    let n : Node := .object
      [.pair "a" (.assignment (.identifier "x") (.identifier "y")), .shorthand "z"]
    let s := (start.performAll commands).2
    let t := (s.perform (.evaluate 2 n)).2
    s.path 2 = [2, 1, 0] ∧ t.scope? 1 = some ⟨[⟨"x", .bool true, false⟩]⟩ ∧
      t.places[3]? = s.places[3]? ∧
      ∃ q, t.places[0]? = some q ∧ q.scope.find? "x" = some ⟨"x", .null, false⟩ := by
  intro commands n s t
  have hframed : s.Framed t 2 n := evaluate_framed commands 2 n
  have hpath : s.path 2 = [2, 1] ++ 0 :: [] := rfl
  have hplace : s.places[0]? = some ⟨⟨[⟨"x", .null, false⟩, ⟨"y", .bool true, true⟩]⟩, []⟩ := rfl
  have hplace' : s.places[1]? = some ⟨⟨[⟨"x", .null, false⟩]⟩, [0]⟩ := rfl
  have hhidden : ∃ q, t.places[0]? = some q ∧ q.scope.find? "x" = some ⟨"x", .null, false⟩ :=
    hframed.hidden hpath (by decide) hplace' rfl hplace rfl
  exact ⟨hpath, rfl, hframed.outside (by rw [hpath]; decide), hhidden⟩

end Session

end Scriptlet
