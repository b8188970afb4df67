import Scriptlet.Proofs.Environment.Global
import Scriptlet.Proofs.Number.Printed
import Scriptlet.Proofs.Script.Concatenation
import Scriptlet.Proofs.Token.Written

/-!
# Printed values are programs

The text of a value that is made of null, truth values, numbers and objects is a
program that evaluates to the value. Numbers have to be printed positionally, and
the keys of an object have to be distinct names. The text is an expression
wherever it stands, so the texts of objects can be nested to any depth.
-/

namespace Scriptlet

open Character Lexeme

/-- Whether a value can be written as an expression. -/
inductive Value.Literal : Value → Prop
  | null : Literal .null
  | bool (value : Bool) : Literal (.bool value)
  | number {x : Float} : Number.IsPositional x → Literal (.number x)
  | object {properties : List (String × Value)} :
      (properties.map Prod.fst).Nodup → (∀ entry ∈ properties, IsName entry.1) →
        (∀ entry ∈ properties, Literal entry.2) → Literal (.object properties)

/-- A delimiter stands first in a text that starts with it. -/
theorem delimited_cons {c : Char} (hc : Delimits c) (text : List Char) :
    ∀ d ∈ (c :: text).head?, Delimits d := by
  intro d hd
  obtain rfl := Option.some.inj hd
  exact hc

/-- Whether a text spells symbols after an operand and elsewhere. -/
def SpelledEverywhere (text : List Char) (w : List Symbol) : Prop :=
  ∀ afterOperand, Lexes afterOperand text w

namespace SpelledEverywhere

variable {text span : List Char} {w : List Symbol} {x : Symbol} {c : Char} {kind : Kind}

/-- The empty text spells nothing. -/
theorem nil : SpelledEverywhere [] [] :=
  fun _ => lexes_nil

/-- A space before a text changes nothing. -/
theorem space (h : SpelledEverywhere text w) : SpelledEverywhere (' ' :: text) w :=
  fun afterOperand => (h afterOperand).separator (by decide)

/-- A punctuation mark other than a point spells its symbol before anything. -/
theorem mark (h : SpelledEverywhere text w) (hmark : punctuation? c = some kind)
    (hpoint : c ≠ '.') :
    SpelledEverywhere (c :: text) (⟨kind, String.ofList [c]⟩ :: w) := by
  intro afterOperand
  have hformed : Formed afterOperand (single kind c) := .punctuation hmark
  refine Lexes.symbol hformed rfl (fun d _ => ?_) (h _)
  simp [continues_punctuation hmark, hpoint]

/-- A symbol that is spelled in every place is spelled before a delimiter. -/
theorem symbol (h : SpelledEverywhere text w) (hx : ∀ afterOperand, x.SpelledBy afterOperand span)
    (hstop : ∀ c ∈ text.head?, Delimits c) :
    SpelledEverywhere (span ++ text) (x :: w) := by
  intro afterOperand
  obtain ⟨lexeme, hformed, hsymbol, rfl⟩ := hx afterOperand
  refine .symbol hformed hsymbol (fun c hc => ?_) (h _)
  exact hformed.continues_delimiter hsymbol (hstop c hc)

end SpelledEverywhere

/-- Whether a text spells symbols before every delimiter and at the end. -/
def SpelledApart (text : List Char) (w : List Symbol) : Prop :=
  ∀ ⦃rest : List Char⦄ ⦃u : List Symbol⦄, (∀ c ∈ rest.head?, Delimits c) →
    SpelledEverywhere rest u → SpelledEverywhere (text ++ rest) (w ++ u)

/-- Whether a text is an expression for a value: it spells symbols from which a tree is
derived that evaluates to the value. -/
structure Value.Spelled (v : Value) (text : List Char) (w : List Symbol) (n : Node) : Prop where
  /-- The text spells the symbols. -/
  spelled : SpelledApart text w
  /-- The symbols derive the tree. -/
  derived : Grammar.Expression w n
  /-- The tree evaluates to the value. -/
  evaluated {env : Environment} : env.NamesLiterals → n.eval env = .ok v env

/-- The same for the properties of an object, whose keys are new. -/
structure Value.PropertiesSpelled (properties : List (String × Value)) (text : List Char)
    (w : List Symbol) (ps : List Property) : Prop where
  /-- The text spells the symbols. -/
  spelled : SpelledApart text w
  /-- The symbols derive the properties. -/
  derived : Grammar.EntryList w ps
  /-- The properties evaluate to those of the object, in their order. -/
  evaluated {env : Environment} {entries : List (String × Value)} : env.NamesLiterals →
    ((entries ++ properties).map Prod.fst).Nodup →
      evalProperties entries ps env = .ok (entries ++ properties) env

namespace Value

variable {v : Value} {name : String} {x : Float}

/-- An operand is an expression. -/
theorem expression_of_primary {w : List Symbol} {n : Node} (h : Grammar.Primary w n) :
    Grammar.Expression w n :=
  .plain (.sum (.product (.call (.member (.primary h)))))

/-- The name of a value is an expression for it. -/
theorem spelled_name (hname : IsName name)
    (hlookup : ∀ {env : Environment}, env.NamesLiterals → Eval.lookup name env = .ok v env) :
    Spelled v name.toList [.ofName name] (.identifier name) where
  spelled _ _ hstop h := h.symbol hname.spelledBy hstop
  derived := expression_of_primary (.name rfl)
  evaluated henv := by
    rw [Node.eval]
    exact hlookup henv

/-- The text of a number is an expression for it. -/
theorem spelled_number (h : Number.IsPositional x) :
    Spelled (.number x) (Number.print x).toList [⟨.number, Number.print x⟩] (.number x) := by
  obtain ⟨⟨q, hdenotes⟩, hread⟩ := Number.read?_print h
  constructor
  case spelled =>
    intro rest u hstop h
    refine h.symbol (fun afterOperand => ?_) hstop
    refine ⟨_, .number (hdenotes.numeral afterOperand), ?_, rfl⟩
    simp [symbol?, hdenotes.completeNumber_eq]
  case derived => exact expression_of_primary (.number rfl hread)
  case evaluated =>
    intro env _
    rw [Node.eval]
    rfl

/-- A key that stands once in a list does not stand in its first part. -/
theorem notMem_of_nodup {key : String} {entries properties : List (String × Value)}
    (h : ((entries ++ (key, v) :: properties).map Prod.fst).Nodup) :
    key ∉ entries.map Prod.fst := by
  rw [List.map_append, List.map_cons, List.nodup_middle, List.nodup_cons] at h
  exact fun hmem => h.1 (List.mem_append_left _ hmem)

section Entry

variable {key : String} {text text' : List Char} {w w' : List Symbol} {n : Node}
  {properties : List (String × Value)} {ps : List Property}

/-- A key and an expression for its value are spelled by their texts. -/
theorem Spelled.entry (hv : Spelled v text w n) (hkey : IsName key) {rest : List Char}
    {u : List Symbol} (hstop : ∀ c ∈ rest.head?, Delimits c) (h : SpelledEverywhere rest u) :
    SpelledEverywhere (key.toList ++ ':' :: ' ' :: (text ++ rest))
      (.ofName key :: ⟨.colon, ":"⟩ :: (w ++ u)) := by
  have hvalue := (hv.spelled hstop h).space.mark (c := ':') rfl (by decide)
  exact hvalue.symbol hkey.spelledBy (delimited_cons (by decide) _)

/-- A property with a new key is added at the end. -/
theorem Spelled.evalProperties_pair (hv : Spelled v text w n) {env : Environment}
    (henv : env.NamesLiterals) {entries : List (String × Value)}
    (hnew : key ∉ entries.map Prod.fst) :
    evalProperties entries (.pair key n :: ps) env =
      evalProperties (entries ++ [(key, v)]) ps env := by
  rw [evalProperties, ← setKey_of_notMem hnew]
  exact Eval.bind_of_ok (hv.evaluated henv)

/-- The last property of an object. -/
theorem Spelled.lastProperty (hv : Spelled v text w n) (hkey : IsName key) :
    PropertiesSpelled [(key, v)] (key.toList ++ ':' :: ' ' :: text)
      (.ofName key :: ⟨.colon, ":"⟩ :: w) [.pair key n] where
  spelled _ _ hstop h := by
    simpa using hv.entry hkey hstop h
  derived := .last (.pair rfl rfl hv.derived)
  evaluated henv hdistinct := by
    rw [hv.evalProperties_pair henv (notMem_of_nodup hdistinct), evalProperties]
    rfl

/-- A property before others of an object. -/
theorem PropertiesSpelled.property (h : PropertiesSpelled properties text' w' ps)
    (hv : Spelled v text w n) (hkey : IsName key) :
    PropertiesSpelled ((key, v) :: properties)
      (key.toList ++ ':' :: ' ' :: (text ++ ',' :: ' ' :: text'))
      ((.ofName key :: ⟨.colon, ":"⟩ :: w) ++ ⟨.comma, ","⟩ :: w') (.pair key n :: ps) where
  spelled _ _ hstop hrest := by
    have hmore := (h.spelled hstop hrest).space.mark (c := ',') rfl (by decide)
    simpa using hv.entry hkey (delimited_cons (by decide) _) hmore
  derived := .more (.pair rfl rfl hv.derived) rfl h.derived
  evaluated henv hdistinct := by
    rw [hv.evalProperties_pair henv (notMem_of_nodup hdistinct), h.evaluated henv]
    · rw [List.append_assoc, List.singleton_append]
    · rwa [List.append_assoc, List.singleton_append]

end Entry

/-- The texts of properties, with commas between them, are spelled. -/
theorem exists_propertiesSpelled {properties : List (String × Value)} (hne : properties ≠ [])
    (hnames : ∀ entry ∈ properties, IsName entry.1)
    (hvalues : ∀ entry ∈ properties, ∃ w n, Spelled entry.2 entry.2.print.toList w n) :
    ∃ w ps, PropertiesSpelled properties
      (", ".intercalate (printProperties properties)).toList w ps := by
  induction properties with
  | nil => exact absurd rfl hne
  | cons entry properties ih =>
    obtain ⟨key, value⟩ := entry
    have hkey : IsName key := hnames (key, value) (by simp)
    obtain ⟨w, n, hvalue⟩ := hvalues (key, value) (by simp)
    cases properties with
    | nil =>
      have htext : (", ".intercalate (printProperties [(key, value)])).toList =
          key.toList ++ ':' :: ' ' :: value.print.toList := by
        simp [printProperties]
      rw [htext]
      exact ⟨_, _, hvalue.lastProperty hkey⟩
    | cons next rest =>
      obtain ⟨w', ps, hrest⟩ := ih (by simp) (fun e he => hnames e (List.mem_cons_of_mem _ he))
        (fun e he => hvalues e (List.mem_cons_of_mem _ he))
      have htext : (", ".intercalate (printProperties ((key, value) :: next :: rest))).toList =
          key.toList ++ ':' :: ' ' :: (value.print.toList ++ ',' :: ' ' ::
            (", ".intercalate (printProperties (next :: rest))).toList) := by
        simp [printProperties, String.intercalate_cons_cons]
      rw [htext]
      exact ⟨_, _, hrest.property hvalue hkey⟩

/-- Nothing between braces is an expression for an object without properties. -/
theorem spelled_empty :
    Spelled (.object []) ['{', '}'] [⟨.lbrace, "\x7b"⟩, ⟨.rbrace, "\x7d"⟩] (.object []) where
  spelled _ _ _ h := (h.mark (c := '}') rfl (by decide)).mark (c := '{') rfl (by decide)
  derived := .plain (.empty rfl rfl)
  evaluated _ := by
    rw [Node.eval, evalProperties]
    rfl

/-- Properties between braces are an expression for an object. -/
theorem PropertiesSpelled.object {properties : List (String × Value)} {text : List Char}
    {w : List Symbol} {ps : List Property} (h : PropertiesSpelled properties text w ps)
    (hdistinct : (properties.map Prod.fst).Nodup) :
    Spelled (.object properties) ('{' :: ' ' :: (text ++ [' ', '}']))
      (⟨.lbrace, "\x7b"⟩ :: (w ++ [⟨.rbrace, "\x7d"⟩])) (.object ps) where
  spelled _ _ _ hrest := by
    have hclose := (hrest.mark (c := '}') rfl (by decide)).space
    have hinner := (h.spelled (delimited_cons (by decide) _) hclose).space
    simpa using hinner.mark (c := '{') rfl (by decide)
  derived := .plain (.object rfl h.derived rfl)
  evaluated henv := by
    rw [Node.eval]
    exact Eval.bind_of_ok (h.evaluated henv hdistinct)

/-- The text of a value is an expression for it. -/
theorem Literal.exists_spelled (h : v.Literal) : ∃ w n, Spelled v v.print.toList w n := by
  induction h with
  | null =>
    exact ⟨_, _, spelled_name (by decide) fun henv => henv.null⟩
  | bool value =>
    have hname : IsName (Value.bool value).print := by cases value <;> decide
    exact ⟨_, _, spelled_name hname fun henv => henv.bool value⟩
  | number hx => exact ⟨_, _, spelled_number hx⟩
  | @object properties hdistinct hnames _ ih =>
    cases properties with
    | nil => exact ⟨_, _, spelled_empty⟩
    | cons entry rest =>
      obtain ⟨w, ps, hproperties⟩ := exists_propertiesSpelled (by simp) hnames ih
      have htext : (Value.object (entry :: rest)).print.toList = '{' :: ' ' ::
          ((", ".intercalate (printProperties (entry :: rest))).toList ++ [' ', '}']) := by
        simp [print]
      rw [htext]
      exact ⟨_, _, hproperties.object hdistinct⟩

end Value

/-- The text of a value is a program that evaluates to the value, with the properties of
every object in their order, in every new global environment. -/
theorem run_print {v : Value} {registry : Registry} {scope : Scope} (hv : v.Literal)
    (hscope : registry.globalScope = .ok scope) :
    run v.print (.root scope) = .ok v (.root scope) := by
  obtain ⟨w, n, hspelled⟩ := hv.exists_spelled
  have hlexes : Lexes false v.print.toList w := by
    simpa using hspelled.spelled (by simp) .nil false
  have hprogram : Grammar.Program w (.program [n]) := by
    have hstatements := Grammar.Statements.bare hspelled.derived .nil nofun
    rw [List.append_nil] at hstatements
    exact .statements hstatements
  rw [run_of_parse (hlexes.parse hprogram)]
  apply evaluate_program_ok
  rw [evalBody]
  exact Eval.bind_of_ok (hspelled.evaluated (Registry.namesLiterals hscope))

/-- Keys may be the names of constants, and are not looked up. -/
theorem run_print_nested :
    let x := Number.ofParts (.finite .positive 7205759403792794 (-56) (by decide))
    let v : Value := .object [("print", .object [("true", .number x), ("null", .object [])]),
      ("b", .bool false), ("a", .null)]
    v.Literal ∧ Registry.standard.globalScope = .ok ⟨Registry.standard.globals⟩ ∧
      v.print = "\x7b print: \x7b true: 0.1, null: \x7b\x7d \x7d, b: false, a: null \x7d" ∧
      run v.print Environment.global = .ok v Environment.global := by
  intro x v
  have hx : Number.IsPositional x :=
    ⟨3602879701896397 / 36028797018963968, by decide +kernel, .inr (by norm_num)⟩
  have hempty : (Value.object []).Literal := .object (by decide) (by decide) nofun
  have hinner : (Value.object [("true", .number x), ("null", .object [])]).Literal :=
    .object (by decide) (by decide) (by simpa using ⟨.number hx, hempty⟩)
  have hv : v.Literal :=
    .object (by decide) (by decide) (by simpa using ⟨hinner, .bool false, .null⟩)
  have htext : v.print =
      "\x7b print: \x7b true: 0.1, null: \x7b\x7d \x7d, b: false, a: null \x7d" := by
    decide +kernel
  exact ⟨hv, Registry.globalScope_standard, htext, run_print hv Registry.globalScope_standard⟩

end Scriptlet
