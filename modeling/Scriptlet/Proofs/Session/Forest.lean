import Scriptlet.Proofs.Environment.Lasting
import Scriptlet.Session

/-!
# The forest of scopes

The scopes around a scope were created before it, so the numbers along a path
decrease. The environment of a scope consists of the scopes along its path, and
writing an environment back replaces exactly these.
-/

namespace Scriptlet

namespace Session

variable {s : Session} {place number : Nat} {scope : Scope} {env : Environment}

/-- The scope with a number. -/
def scope? (s : Session) (number : Nat) : Option Scope :=
  s.places[number]?.map (·.scope)

/-- What lasts of the scope with a number. -/
def lasting? (s : Session) (number : Nat) : Option (List (String × Option Value)) :=
  (s.scope? number).map Scope.lasting

/-- The numbers of the scopes around each scope. -/
def enclosing (s : Session) : List (List Nat) :=
  s.places.map (·.ancestors)

/-- Whether the numbers along each path decrease. -/
def Ordered (s : Session) : Prop :=
  ∀ (number : Nat) (ancestors : List Nat), s.enclosing[number]? = some ancestors →
    (number :: ancestors).Pairwise (· > ·)

/-- A path consists of a scope and those around it. -/
theorem path_eq (s : Session) (place : Nat) :
    s.path place = (s.enclosing[place]?.map (place :: ·)).getD [] := by
  unfold path enclosing
  rw [List.getElem?_map]
  cases s.places[place]? <;> rfl

/-- The numbers along a path decrease. -/
theorem Ordered.path (h : s.Ordered) (place : Nat) : (s.path place).Pairwise (· > ·) := by
  rw [path_eq]
  cases hplace : s.enclosing[place]? with
  | none => exact .nil
  | some ancestors => exact h place ancestors hplace

/-- A number on a path is that of a scope. -/
theorem Ordered.lt_of_mem_path (h : s.Ordered) (hnumber : number ∈ s.path place) :
    number < s.places.length := by
  have hpath := h.path place
  rw [path_eq] at hnumber hpath
  cases hplace : s.enclosing[place]? with
  | none => simp [hplace] at hnumber
  | some ancestors =>
    have hlt : place < s.places.length := by
      have hlen := (List.getElem?_eq_some_iff.1 hplace).1
      simpa [enclosing] using hlen
    rw [hplace] at hnumber hpath
    rcases List.mem_cons.1 hnumber with rfl | hmem
    · exact hlt
    · have hless := List.rel_of_pairwise_cons hpath hmem
      omega

/-- A scope on a path exists. -/
theorem Ordered.exists_scope? (h : s.Ordered) (hnumber : number ∈ s.path place) :
    ∃ scope, s.scope? number = some scope := by
  have hlt := h.lt_of_mem_path hnumber
  exact ⟨s.places[number].scope, by simp [scope?, hlt]⟩

/-- Scopes that exist are all found. -/
theorem map_scope?_eq {numbers : List Nat}
    (h : ∀ number ∈ numbers, ∃ scope, s.scope? number = some scope) :
    numbers.map s.scope? = (numbers.filterMap s.scope?).map some := by
  induction numbers with
  | nil => rfl
  | cons number numbers ih =>
    obtain ⟨scope, hscope⟩ := h number (by simp)
    have hrest := ih fun other hother => h other (List.mem_cons_of_mem number hother)
    rw [List.map_cons, hscope, List.filterMap_cons_some hscope, List.map_cons, hrest]

/-- The environment of a scope consists of the scopes along its path. -/
theorem Ordered.scopes_environment? (h : s.Ordered) (henv : s.environment? place = some env) :
    (s.path place).map s.scope? = env.scopes.map some := by
  have hpath := map_scope?_eq fun number (hnumber : number ∈ s.path place) =>
    h.exists_scope? hnumber
  obtain ⟨found, hfound, rfl⟩ := Option.map_eq_some_iff.1 henv
  have hscope : s.scope? place = some found.scope := by rw [scope?, hfound, Option.map_some]
  have hcons : s.path place = place :: found.ancestors := by rw [Session.path, hfound]
  rw [hpath, hcons, List.filterMap_cons_some hscope, Environment.scopes_ofScopes]
  rfl

/-- Replacing a scope changes no other one. -/
theorem scope?_setScope (s : Session) (number other : Nat) (scope : Scope) :
    (s.setScope number scope).scope? other =
      if number = other then (s.scope? other).map fun _ => scope else s.scope? other := by
  unfold setScope scope?
  rw [List.getElem?_modify]
  split
  · cases s.places[other]? <;> rfl
  · cases s.places[other]? <;> rfl

/-- Replacing a scope leaves the forest as it is. -/
theorem enclosing_setScope (s : Session) (number : Nat) (scope : Scope) :
    (s.setScope number scope).enclosing = s.enclosing := by
  unfold setScope enclosing
  refine List.ext_getElem? fun other => ?_
  rw [List.getElem?_map, List.getElem?_map, List.getElem?_modify]
  cases s.places[other]? with
  | none => rfl
  | some found =>
    dsimp only [Option.map_some]
    split <;> rfl

/-- Replaces scopes one after the other. -/
def setScopes (s : Session) (entries : List (Nat × Scope)) : Session :=
  entries.foldl (fun s entry => s.setScope entry.1 entry.2) s

/-- Replacing scopes leaves the forest as it is. -/
theorem enclosing_setScopes (s : Session) (entries : List (Nat × Scope)) :
    (s.setScopes entries).enclosing = s.enclosing := by
  induction entries generalizing s with
  | nil => rfl
  | cons entry entries ih =>
    have h := ih (s.setScope entry.1 entry.2)
    rw [enclosing_setScope] at h
    exact h

/-- A scope that is not replaced stays the same. -/
theorem scope?_setScopes_of_notMem {entries : List (Nat × Scope)}
    (h : number ∉ entries.map (·.1)) : (s.setScopes entries).scope? number = s.scope? number := by
  induction entries generalizing s with
  | nil => rfl
  | cons entry entries ih =>
    rw [List.map_cons, List.mem_cons, not_or] at h
    have hrest := ih (s := s.setScope entry.1 entry.2) h.2
    rw [scope?_setScope, if_neg (Ne.symm h.1)] at hrest
    exact hrest

/-- The numbers of replaced scopes are among those given. -/
theorem map_fst_zip_subset (numbers : List Nat) (written : List Scope) :
    (numbers.zip written).map (·.1) ⊆ numbers := by
  intro number hnumber
  obtain ⟨entry, hentry, rfl⟩ := List.mem_map.1 hnumber
  exact (List.of_mem_zip hentry).1

/-- The scopes that are replaced are those that are written. -/
theorem map_scope?_setScopes {numbers : List Nat} {scopes : List Scope} (hnodup : numbers.Nodup)
    (h : numbers.map s.scope? = scopes.map some) {written : List Scope}
    (hlength : written.length = scopes.length) :
    numbers.map (s.setScopes (numbers.zip written)).scope? = written.map some := by
  induction numbers generalizing s scopes written with
  | nil =>
    obtain rfl : scopes = [] := by simpa using h.symm
    obtain rfl : written = [] := by simpa using hlength
    rfl
  | cons number numbers ih =>
    obtain ⟨hnew, hnodup⟩ := List.nodup_cons.1 hnodup
    cases scopes with
    | nil => simp at h
    | cons scope scopes =>
      cases written with
      | nil => simp at hlength
      | cons first written =>
        obtain ⟨hscope, hrest⟩ := List.cons.inj h
        have hlength' : written.length = scopes.length := by simpa using hlength
        have hothers : numbers.map (s.setScope number first).scope? = scopes.map some := by
          rw [← hrest]
          refine List.map_congr_left fun other hother => ?_
          rw [scope?_setScope, if_neg]
          rintro rfl
          exact hnew hother
        have hfirst : ((s.setScope number first).setScopes (numbers.zip written)).scope? number =
            some first := by
          rw [scope?_setScopes_of_notMem fun hmem => hnew (map_fst_zip_subset _ _ hmem),
            scope?_setScope, if_pos rfl, hscope]
          rfl
        have htail := ih hnodup hothers hlength'
        rw [List.map_cons, List.map_cons, ← htail]
        exact congrArg (· :: _) hfirst

/-- Writing an environment back replaces the scopes along a path. -/
theorem store_eq (s : Session) (place : Nat) (env : Environment) :
    s.store place env = s.setScopes ((s.path place).zip env.scopes) :=
  rfl

/-- After an environment is written back, the scopes along the path are those of
the environment. -/
theorem Ordered.map_scope?_store {env' : Environment} (h : s.Ordered)
    (henv : s.environment? place = some env) (hlength : env'.scopes.length = env.scopes.length) :
    (s.path place).map (s.store place env').scope? = env'.scopes.map some := by
  have hnodup : (s.path place).Nodup := (h.path place).imp fun hgt => by omega
  rw [store_eq]
  exact map_scope?_setScopes hnodup (h.scopes_environment? henv) hlength

/-- Writing an environment back changes no scope outside the path. -/
theorem scope?_store_of_notMem {env : Environment} (h : number ∉ s.path place) :
    (s.store place env).scope? number = s.scope? number := by
  rw [store_eq]
  exact scope?_setScopes_of_notMem fun hmem => h (map_fst_zip_subset _ _ hmem)

/-- A new scope is one more. -/
theorem length_add (s : Session) (scope : Scope) (ancestors : List Nat) :
    (s.add scope ancestors).2.places.length = s.places.length + 1 := by
  simp [add]

/-- A new scope comes after all others. -/
theorem scope?_add (s : Session) (scope : Scope) (ancestors : List Nat) (number : Nat) :
    (s.add scope ancestors).2.scope? number =
      if number = s.places.length then some scope else s.scope? number := by
  unfold add scope?
  dsimp only
  by_cases hnumber : number = s.places.length
  · rw [if_pos hnumber, hnumber, List.getElem?_concat_length, Option.map_some]
  · rw [if_neg hnumber, List.getElem?_append]
    split
    · rfl
    · rw [List.getElem?_eq_none (by simp; omega), List.getElem?_eq_none (by omega)]

/-- The scopes around a new scope come after those around the others. -/
theorem enclosing_add (s : Session) (scope : Scope) (ancestors : List Nat) :
    (s.add scope ancestors).2.enclosing = s.enclosing ++ [ancestors] := by
  simp [add, enclosing]

/-- A new scope may stand inside scopes that are ordered. -/
theorem Ordered.add (h : s.Ordered) {ancestors : List Nat}
    (hancestors : (s.places.length :: ancestors).Pairwise (· > ·)) :
    (s.add scope ancestors).2.Ordered := by
  intro number found hfound
  rw [enclosing_add, List.getElem?_append] at hfound
  split at hfound
  · exact h number found hfound
  · rename_i hlength
    have hnumber : number = s.enclosing.length := by
      have hbound := (List.getElem?_eq_some_iff.1 hfound).1
      simp only [List.length_singleton] at hbound
      omega
    rw [hnumber, Nat.sub_self] at hfound
    obtain rfl : ancestors = found := by simpa using hfound
    rw [hnumber]
    simpa [enclosing] using hancestors

/-- Writing an environment back leaves the forest as it is. -/
theorem enclosing_store (s : Session) (place : Nat) (env : Environment) :
    (s.store place env).enclosing = s.enclosing := by
  rw [store_eq, enclosing_setScopes]

/-- Writing an environment back makes no new scopes. -/
theorem length_store (s : Session) (place : Nat) (env : Environment) :
    (s.store place env).places.length = s.places.length := by
  have hsame := congrArg List.length (enclosing_store s place env)
  simpa [enclosing] using hsame

/-- What is left of an environment is written back. -/
theorem inEnvironment_of_some (henv : s.environment? place = some env)
    (action : EStateM Failure Environment Reply) :
    (s.inEnvironment place action).2 = s.store place (Eval.after action env) := by
  unfold inEnvironment Eval.after
  rw [henv]
  dsimp only
  cases action env <;> rfl

/-- Without an environment nothing is done. -/
theorem inEnvironment_of_none (henv : s.environment? place = none)
    (action : EStateM Failure Environment Reply) : (s.inEnvironment place action).2 = s := by
  unfold inEnvironment
  rw [henv]

/-- What is done in an environment makes no new scopes. -/
theorem length_inEnvironment (s : Session) (place : Nat)
    (action : EStateM Failure Environment Reply) :
    (s.inEnvironment place action).2.places.length = s.places.length := by
  cases henv : s.environment? place with
  | none => rw [inEnvironment_of_none henv]
  | some env => rw [inEnvironment_of_some henv, length_store]

/-- A scope with an environment starts a path. -/
theorem path_of_environment? (henv : s.environment? place = some env) :
    ∃ ancestors, s.path place = place :: ancestors := by
  obtain ⟨found, hfound, -⟩ := Option.map_eq_some_iff.1 henv
  exact ⟨found.ancestors, by rw [path, hfound]⟩

/-- What lasts of scopes that are known. -/
theorem map_lasting?_eq {numbers : List Nat} {scopes : List Scope}
    (h : numbers.map s.scope? = scopes.map some) :
    numbers.map s.lasting? = (scopes.map Scope.lasting).map some := by
  have hmap := congrArg (List.map (Option.map Scope.lasting)) h
  rw [List.map_map, List.map_map] at hmap
  rw [List.map_map]
  exact hmap

/-- After an environment is written back of which more lasts in the innermost
scope, more lasts of that scope, and the same of all others. -/
theorem Ordered.lasting?_store {env' : Environment} {log : List Variable} (h : s.Ordered)
    (henv : s.environment? place = some env) (hlasting : env'.lasting = extend log env.lasting)
    (number : Nat) :
    (s.store place env').lasting? number =
      (s.lasting? number).map (· ++ if number = place then log.map Variable.lasting else []) := by
  obtain ⟨ancestors, hpath⟩ := path_of_environment? henv
  have hlength := Environment.length_scopes_of_lasting hlasting
  have hbefore : (s.path place).map s.lasting? = env.lasting.map some :=
    map_lasting?_eq (h.scopes_environment? henv)
  have hafter : (s.path place).map (s.store place env').lasting? = env'.lasting.map some :=
    map_lasting?_eq (h.map_scope?_store henv hlength)
  rw [hpath, List.map_cons] at hbefore hafter
  cases hall : env.lasting with
  | nil => simp [hall] at hbefore
  | cons inner outer =>
    rw [hlasting, hall, extend] at hafter
    rw [hall] at hbefore
    obtain ⟨hinner, houter⟩ := List.cons.inj hbefore
    obtain ⟨hinner', houter'⟩ := List.cons.inj hafter
    by_cases hplace : number = place
    · subst hplace
      rw [if_pos rfl, hinner', hinner, Option.map_some]
    · have hsame : (s.store place env').lasting? number = s.lasting? number := by
        by_cases hmem : number ∈ ancestors
        · exact List.map_inj_left.1 (houter'.trans houter.symm) number hmem
        · rw [lasting?, scope?_store_of_notMem (by simp [hpath, hplace, hmem]), lasting?]
      rw [if_neg hplace, hsame]
      simp

end Session

end Scriptlet
