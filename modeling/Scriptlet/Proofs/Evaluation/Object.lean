import Mathlib.Data.List.Induction
import Scriptlet.Evaluation
import Scriptlet.Proofs.Environment.Lasting

/-!
# Objects

The properties of an object are evaluated from left to right, each once, in the
environment that those before it leave, up to the first one that fails. If none
fails, the object has each key once, in the order in which the keys were first
given, with the value that the key was given last.
-/

namespace Scriptlet

section Keys

variable {α : Type} {key : String} {entries : List (String × α)}

/-- Setting a key keeps the keys distinct. -/
theorem nodup_setKey (h : (entries.map Prod.fst).Nodup) (key : String) (value : α) :
    ((setKey key value entries).map Prod.fst).Nodup := by
  by_cases hkey : key ∈ entries.map Prod.fst
  · rwa [map_fst_setKey_of_mem hkey]
  · rw [setKey_of_notMem hkey, List.map_append, List.nodup_append]
    refine ⟨h, by simp, ?_⟩
    intro other hother last hlast hsame
    obtain rfl : last = key := List.mem_singleton.1 hlast
    exact hkey (hsame ▸ hother)

/-- Sets keys one after the other. -/
def setKeys (entries given : List (String × α)) : List (String × α) :=
  given.foldl (fun entries entry => setKey entry.1 entry.2 entries) entries

/-- What is given last is set last. -/
theorem setKeys_append (entries before after : List (String × α)) :
    setKeys entries (before ++ after) = setKeys (setKeys entries before) after :=
  List.foldl_append

/-- No key is there twice. -/
theorem nodup_setKeys (h : (entries.map Prod.fst).Nodup) (given : List (String × α)) :
    ((setKeys entries given).map Prod.fst).Nodup := by
  induction given generalizing entries with
  | nil => exact h
  | cons entry rest ih => exact ih (nodup_setKey h entry.1 entry.2)

/-- The keys are in the order in which they were first given: taken from the end, each
step sets one more key in what is there already. -/
theorem map_fst_setKeys (given : List (String × α)) :
    (setKeys [] given).map Prod.fst = (given.map Prod.fst).eraseDups := by
  induction given using List.reverseRecOn with
  | nil => rfl
  | append_singleton before entry ih =>
    have hmem : entry.1 ∈ (setKeys [] before).map Prod.fst ↔ entry.1 ∈ before.map Prod.fst := by
      rw [ih, List.mem_eraseDups]
    rw [setKeys_append, List.map_append, List.eraseDups_append, ← ih]
    change (setKey entry.1 entry.2 (setKeys [] before)).map Prod.fst =
      _ ++ ([entry.1].removeAll (before.map Prod.fst)).eraseDups
    rw [List.cons_removeAll, List.nil_removeAll]
    by_cases hkey : entry.1 ∈ before.map Prod.fst
    · rw [map_fst_setKey_of_mem (hmem.2 hkey), if_neg (by simp [hkey])]
      simp
    · rw [setKey_of_notMem (mt hmem.1 hkey), if_pos (by simp [hkey]), List.map_append]
      simp [List.eraseDups_cons]

/-- A key that is not given keeps its value. -/
theorem getKey?_setKeys_of_notMem {given : List (String × α)} (h : key ∉ given.map Prod.fst)
    (entries : List (String × α)) : getKey? key (setKeys entries given) = getKey? key entries := by
  induction given generalizing entries with
  | nil => rfl
  | cons entry rest ih =>
    rw [List.map_cons, List.mem_cons, not_or] at h
    exact (ih h.2 _).trans (getKey?_setKey_of_ne h.1 entry.2 entries)

/-- A key has the value that it is given last. -/
theorem getKey?_setKeys_of_last {after : List (String × α)} (h : key ∉ after.map Prod.fst)
    (entries before : List (String × α)) (value : α) :
    getKey? key (setKeys entries (before ++ (key, value) :: after)) = some value := by
  rw [setKeys_append]
  exact (getKey?_setKeys_of_notMem h _).trans (getKey?_setKey_self key value _)

end Keys

/-- Evaluates what a property gives its key: the variable of that name, or the node. -/
def Property.eval : Property → Eval Value
  | .shorthand key => Eval.lookup key
  | .pair _ node => node.eval

/-- Whether properties, evaluated from left to right, each once and in the environment
that those before it leave, all succeed and give their keys the values of a list. -/
inductive Property.Give : Environment → List Property → List (String × Value) → Environment → Prop
  | nil {env : Environment} : Give env [] [] env
  | cons {env env' env'' : Environment} {p : Property} {value : Value} {rest : List Property}
      {given : List (String × Value)} :
      p.eval env = .ok value env' → Give env' rest given env'' →
        Give env (p :: rest) ((p.key, value) :: given) env''

open Property Eval

section Properties

variable {env env' : Environment} {properties : List Property}
  {entries result given : List (String × Value)} {e : EvalError}

/-- The keys are those of the properties. -/
theorem Property.Give.map_fst (h : Give env properties given env') :
    given.map Prod.fst = properties.map Property.key := by
  induction h with
  | nil => rfl
  | cons _ _ ih => rw [List.map_cons, List.map_cons, ih]

/-- The first property is evaluated, its key is set, and the others follow. -/
theorem evalProperties_cons (entries : List (String × Value)) (p : Property)
    (rest : List Property) :
    evalProperties entries (p :: rest) =
      p.eval >>= fun value => evalProperties (setKey p.key value entries) rest := by
  cases p <;> rw [evalProperties] <;> rfl

/-- Properties that succeed set their keys, one after the other, to what they give. -/
theorem exists_give_of_ok (h : evalProperties entries properties env = .ok result env') :
    ∃ given, Give env properties given env' ∧ result = setKeys entries given := by
  induction properties generalizing entries env with
  | nil =>
    rw [evalProperties] at h
    cases h
    exact ⟨[], .nil, rfl⟩
  | cons p rest ih =>
    rw [evalProperties_cons] at h
    cases hp : p.eval env with
    | error e middle =>
      rw [bind_of_error hp] at h
      cases h
    | ok value middle =>
      rw [bind_of_ok hp] at h
      obtain ⟨given, hgiven, rfl⟩ := ih h
      exact ⟨(p.key, value) :: given, .cons hp hgiven, rfl⟩

/-- Properties fail as the first one does that fails, after those before it. -/
theorem exists_give_of_error (h : evalProperties entries properties env = .error e env') :
    ∃ before p after given middle, properties = before ++ p :: after ∧
      Give env before given middle ∧ p.eval middle = .error e env' := by
  induction properties generalizing entries env with
  | nil =>
    rw [evalProperties] at h
    cases h
  | cons p rest ih =>
    rw [evalProperties_cons] at h
    cases hp : p.eval env with
    | error e' middle =>
      rw [bind_of_error hp] at h
      cases h
      exact ⟨[], p, rest, [], env, rfl, .nil, hp⟩
    | ok value middle =>
      rw [bind_of_ok hp] at h
      obtain ⟨before, q, after, given, last, rfl, hgiven, hq⟩ := ih h
      exact ⟨p :: before, q, after, (p.key, value) :: given, last, rfl, .cons hp hgiven, hq⟩

end Properties

/-- An object whose evaluation succeeds leaves the environment that its properties
leave one after the other. It has each of their keys once, in the order in which they
first occur, with the value from the last occurrence. If the evaluation fails, the
properties before some property succeed, one after the other, and the error and the
environment are those of this property. -/
theorem eval_object (properties : List Property) (env : Environment) :
    match (Node.object properties).eval env with
    | .ok result env' =>
      ∃ given entries, Give env properties given env' ∧ result = .object entries ∧
        (entries.map Prod.fst).Nodup ∧
        entries.map Prod.fst = (properties.map Property.key).eraseDups ∧
        ∀ before key value after, given = before ++ (key, value) :: after →
          key ∉ after.map Prod.fst → getKey? key entries = some value
    | .error e env' =>
      ∃ before p after given middle, properties = before ++ p :: after ∧
        Give env before given middle ∧ p.eval middle = .error e env' := by
  rw [Node.eval]
  cases hproperties : evalProperties [] properties env with
  | error e env' =>
    rw [bind_of_error hproperties]
    exact exists_give_of_error hproperties
  | ok entries env' =>
    rw [bind_of_ok hproperties]
    obtain ⟨given, hgiven, rfl⟩ := exists_give_of_ok hproperties
    refine ⟨given, _, hgiven, rfl, nodup_setKeys (by simp) given, ?_, ?_⟩
    · rw [map_fst_setKeys, hgiven.map_fst]
    · rintro before key value after rfl hlast
      exact getKey?_setKeys_of_last hlast [] before value

/-- A repeated key keeps its first place and takes its last value, and a shorthand reads
what the property before it has assigned. -/
theorem eval_object_repeated_key :
    let env : Environment := .root ⟨[⟨"n", .null, false⟩]⟩
    let env' : Environment := .root ⟨[⟨"n", .number 5, false⟩]⟩
    let properties : List Property :=
      [.pair "a" (.assignment (.identifier "n") (.number 2)), .shorthand "n",
        .pair "a" (.assignment (.identifier "n") (.number 5))]
    let entries : List (String × Value) := [("a", .number 5), ("n", .number 2)]
    (Node.object properties).eval env = .ok (.object entries) env' ∧
      ∃ given, Give env properties given env' ∧ (entries.map Prod.fst).Nodup ∧
        entries.map Prod.fst = (properties.map Property.key).eraseDups ∧
        ∀ before key value after, given = before ++ (key, value) :: after →
          key ∉ after.map Prod.fst → getKey? key entries = some value := by
  intro env env' properties entries
  obtain ⟨given, entries', hgiven, hobject, hkeys⟩ := eval_object properties env
  obtain rfl : entries = entries' := Value.object.inj hobject
  exact ⟨rfl, given, hgiven, hkeys⟩

end Scriptlet
