import Scriptlet.Number.Printed

/-!
# Values

A program computes null, truth values, numbers, objects and functions. The
properties of an object are kept in the order in which their keys were first
given. Native functions are described by what they do when called; declared
functions are only shown.
-/

namespace Scriptlet

mutual

/-- A value. -/
inductive Value where
  | null
  | bool (value : Bool)
  | number (value : Float)
  /-- An object with its properties in order. -/
  | object (properties : List (String × Value))
  /-- A function that is built in. -/
  | native (name : String) (behaviour : Behaviour)
  /-- A function that a program declares. -/
  | function (name : String) (parameters : List String)

/-- What a native function does when it is called. -/
inductive Behaviour where
  /-- Prints its arguments on a line. -/
  | print
  /-- Gives the milliseconds since the epoch. -/
  | clock
  /-- Gives a fixed value. -/
  | always (result : Value)

end

instance : Inhabited Value :=
  ⟨.null⟩

/-- Sets the value of a key: in its place if it is there already, otherwise at
the end. -/
def setKey {α : Type} (key : String) (value : α) : List (String × α) → List (String × α)
  | [] => [(key, value)]
  | entry :: rest =>
    if entry.1 = key then (key, value) :: rest else entry :: setKey key value rest

/-- The value of a key. -/
def getKey? {α : Type} (key : String) : List (String × α) → Option α
  | [] => none
  | entry :: rest => if entry.1 = key then some entry.2 else getKey? key rest

/-- A key has the value that it was given last. -/
@[simp]
theorem getKey?_setKey_self {α : Type} (key : String) (value : α) (entries : List (String × α)) :
    getKey? key (setKey key value entries) = some value := by
  induction entries with
  | nil => simp [setKey, getKey?]
  | cons entry rest ih =>
    by_cases h : entry.1 = key
    · simp [setKey, getKey?, h]
    · simp [setKey, getKey?, h, ih]

/-- Setting a key leaves the values of the others. -/
theorem getKey?_setKey_of_ne {α : Type} {key other : String} (h : other ≠ key) (value : α)
    (entries : List (String × α)) :
    getKey? other (setKey key value entries) = getKey? other entries := by
  induction entries with
  | nil => simp [setKey, getKey?, h.symm]
  | cons entry rest ih =>
    by_cases hkey : entry.1 = key
    · have hother : entry.1 ≠ other := fun he => h (he.symm.trans hkey)
      rw [setKey, if_pos hkey, getKey?, getKey?, if_neg h.symm, if_neg hother]
    · rw [setKey, if_neg hkey, getKey?, getKey?, ih]

/-- A new key is added at the end. -/
theorem setKey_of_notMem {α : Type} {key : String} {entries : List (String × α)}
    (h : key ∉ entries.map Prod.fst) (value : α) :
    setKey key value entries = entries ++ [(key, value)] := by
  induction entries with
  | nil => rfl
  | cons entry rest ih =>
    simp only [List.map_cons, List.mem_cons, not_or] at h
    rw [setKey, if_neg (Ne.symm h.1), ih h.2, List.cons_append]

/-- Setting a key that is there already keeps the keys. -/
theorem map_fst_setKey_of_mem {α : Type} {key : String} {entries : List (String × α)}
    (h : key ∈ entries.map Prod.fst) (value : α) :
    (setKey key value entries).map Prod.fst = entries.map Prod.fst := by
  induction entries with
  | nil => cases h
  | cons entry rest ih =>
    by_cases hkey : entry.1 = key
    · rw [setKey, if_pos hkey, List.map_cons, List.map_cons, hkey]
    · have hrest : key ∈ rest.map Prod.fst := (List.mem_cons.1 h).resolve_left (Ne.symm hkey)
      rw [setKey, if_neg hkey, List.map_cons, List.map_cons, ih hrest]

namespace Value

mutual

/-- The text of a value. -/
def print : Value → String
  | .null => "null"
  | .bool value => if value then "true" else "false"
  | .number value => Number.print value
  | .object [] => "\x7b\x7d"
  | .object properties => "\x7b " ++ ", ".intercalate (printProperties properties) ++ " \x7d"
  | .native name _ => "<native fn " ++ name ++ ">"
  | .function name parameters => "<fn " ++ name ++ "(" ++ ", ".intercalate parameters ++ ")>"

/-- The texts of the properties of an object. -/
def printProperties : List (String × Value) → List String
  | [] => []
  | (key, value) :: rest => (key ++ ": " ++ value.print) :: printProperties rest

end

/-- Whether a value is null. -/
def isNull : Value → Bool
  | null => true
  | _ => false

/-- The object with the given properties; of several values for a key the
last one counts. -/
def ofProperties (properties : List (String × Value)) : Value :=
  .object (properties.foldl (fun entries entry => setKey entry.1 entry.2 entries) [])

mutual

/-- Whether two values are the same. Numbers are compared as numbers, and the
order of the properties of an object does not count. -/
def same : Value → Value → Bool
  | .null, .null => true
  | .bool a, .bool b => a == b
  | .number a, .number b => a == b
  | .object as, .object bs => as.length == bs.length && sameProperties as bs
  | .native a _, .native b _ => a == b
  | .function a ps, .function b qs => a == b && ps == qs
  | _, _ => false

/-- Whether all properties are the same in another list. -/
def sameProperties : List (String × Value) → List (String × Value) → Bool
  | [], _ => true
  | (key, a) :: rest, others =>
    (match getKey? key others with
      | some b => a.same b
      | none => false) && sameProperties rest others

end

end Value

end Scriptlet
