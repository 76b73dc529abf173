import TaggedUnion.Emit.Pending

/-! # The union type

    The definition of a union and the functions that build a value and look into it:

    * **imports** of the case types that live elsewhere, in order and each once;
    * **`from_…`** and, for cases with parameters, **`new_…`**;
    * **`tag`** and **`case_name`**;
    * **`is_…`**, **`try_get_…`** and **`try_into_…`**;
    * conversions from the case types of a named union, and the run-time trait.
-/

namespace TaggedUnion.Emit

open Code

/-- The paths brought into scope, in the order of their bytes. -/
def importPaths (s : Shape) : List String :=
  ((s.cases.filterMap (·.importPath)).mergeSort (fun a b => decide (a ≤ b))).eraseReps

/-- The definition of the type. -/
def enumOf (s : Shape) : Enum where
  docs :=
    if s.isGeneric then
      ["Union of " ++ toString s.arity ++ " cases: " ++ s.describeCases ++ ".", "",
        "Holds exactly one case at a time."]
    else
      ["Either " ++ s.describeCases ++ ".", "",
        "Holds exactly one case at a time. Same shape as `Union" ++ toString s.arity ++ "`."]
  attributes :=
    if s.isGeneric then ["derive(Debug, Clone, Copy, PartialEq, Eq, Hash)"]
    else if s.allRecords then ["derive(Debug, Clone, PartialEq)"] else []
  name := s.name
  typeParameters := s.typeParameters
  variants := s.cases.map fun c =>
    { docs := ["Case " ++ toString c.ordinal ++ ": `" ++ c.typeName ++ "`."]
      name := c.variant
      payload := c.typeName }

/-! ### Building a value -/

/-- The variant of a case applied to an expression. -/
def variantOf (c : ShapeCase) (e : Expr) : Expr := .wrap ("Self::" ++ c.variant) e

/-- The function that takes a value of the case type. -/
def fromFunction (s : Shape) (c : ShapeCase) : Function where
  docs := ["Creates a `" ++ s.name ++ "` holding the given `" ++ c.typeName ++ "`."]
  attributes := [mustUse]
  name := "from_" ++ c.stem
  parameters := [(s.binding, c.typeName)]
  result := some "Self"
  body := some [.value (variantOf c (.name s.binding))]

/-- A value of the case type, built from the arguments of the constructor: an implicit
    constructor sets the fields, an explicit one is called. -/
def construction (c : ShapeCase) (k : Schema.ConstructorRef) : Expr :=
  if k.implicit then
    .record c.typeName (c.parameters.map fun p => (p.fieldName, p.argumentName))
  else .call (c.typeName ++ "::" ++ k.name) (c.parameters.map (·.argumentName))

/-- The function that takes the parameters of the constructor, for a case that has one with
    parameters. -/
def newFunction (s : Shape) (c : ShapeCase) : Option Function :=
  match c.constructor with
  | none => none
  | some k =>
    if c.parameters.isEmpty then none
    else some {
      docs :=
        ["Creates a `" ++ s.name ++ "` holding a new `" ++ c.typeName ++ "`.", "", "# Arguments"]
          ++ c.parameters.map fun p => "* `" ++ p.argumentName ++ "` - " ++ p.displayText
      attributes :=
        (if 7 < c.parameters.length then ["allow(clippy::too_many_arguments)"] else [])
          ++ [mustUse]
      name := "new_" ++ c.stem
      parameters := c.parameters.map fun p => (p.argumentName, p.typeName)
      result := some "Self"
      body := some [.value (variantOf c (construction c k))] }

/-! ### Looking into a value -/

/-- A dispatch on the union itself. -/
def matchSelf (arms : List Arm) : Statement := .dispatch "self" arms

/-- The function that returns the ordinal of the held case. -/
def tagFunction (s : Shape) : Function where
  docs := ["Returns the 1-based ordinal of the held case."]
  attributes := [mustUse]
  isConst := true
  name := "tag"
  receiver := some "&self"
  result := some "u8"
  body := some [matchSelf (s.cases.map fun c =>
    ⟨.held c.variant "_", .name (toString c.ordinal)⟩)]

/-- The function that returns the name of the held case. -/
def caseNameFunction (s : Shape) : Function where
  docs := ["Returns the name of the held case."]
  attributes := [mustUse]
  isConst := true
  name := "case_name"
  receiver := some "&self"
  result := some "&'static str"
  body := some [matchSelf (s.cases.map fun c =>
    ⟨.held c.variant "_", .name ("\"" ++ c.variant ++ "\"")⟩)]

/-- The function that tells whether a case is held. -/
def isFunction (c : ShapeCase) : Function where
  docs := ["Returns `true` if the union holds a `" ++ c.typeName ++ "`."]
  attributes := [mustUse]
  isConst := true
  name := "is_" ++ c.stem
  receiver := some "&self"
  result := some "bool"
  body := some [.value (.call "matches!" ["self", "Self::" ++ c.variant ++ "(_)"])]

/-- The function that returns a reference to the value of a case. -/
def tryGetFunction (s : Shape) (c : ShapeCase) : Function where
  docs := ["Returns the held `" ++ c.typeName ++ "`, or `None` if another case is held."]
  attributes := [mustUse]
  name := "try_get_" ++ c.stem
  receiver := some "&self"
  result := some ("Option<&" ++ c.typeName ++ ">")
  body := some [matchSelf
    [arm s c (.call "Some" [s.binding]), ⟨.other "_", .name "None"⟩]]

/-- The function that gives up the union for the value of a case. -/
def tryIntoFunction (s : Shape) (c : ShapeCase) : Function where
  docs := ["Converts into the held `" ++ c.typeName ++ "`.", "", "# Errors",
    "Returns the union unchanged if another case is held."]
  name := "try_into_" ++ c.stem
  receiver := some "self"
  result := some ("Result<" ++ c.typeName ++ ", Self>")
  body := some [matchSelf
    [arm s c (.call "Ok" [s.binding]), ⟨.other "other", .call "Err" ["other"]⟩]]

/-! ### Items -/

/-- The functions of the union itself. -/
def coreFunctions (s : Shape) : List Function :=
  (s.cases.flatMap fun c => fromFunction s c :: (newFunction s c).toList)
    ++ [tagFunction s, caseNameFunction s]
    ++ s.cases.flatMap fun c => [isFunction c, tryGetFunction s c, tryIntoFunction s c]

/-- The conversion of a case type into the union. -/
def conversion (s : Shape) (c : ShapeCase) : Implementation where
  typeParameters := []
  trait := some ("From<" ++ c.typeName ++ ">")
  target := s.name
  functions := [{
    isPublic := false
    name := "from"
    parameters := [(s.binding, c.typeName)]
    result := some "Self"
    body := some [.value (variantOf c (.name s.binding))] }]

/-- A function of the run-time trait that calls the union's own function of the name. -/
def traitFunction (name result : String) : Function where
  isPublic := false
  name := name
  receiver := some "&self"
  result := some result
  body := some [.value (.call ("Self::" ++ name) ["self"])]

/-- The implementation of the run-time trait. -/
def unionImplementation (s : Shape) : Implementation where
  typeParameters := s.typeParameters
  trait := some (s.runtimePath ++ "::Union")
  target := s.selfType
  constants := ["ARITY: usize = " ++ toString s.arity]
  functions := [traitFunction "tag" "u8", traitFunction "case_name" "&'static str"]

/-- The union type with all that belongs to it. -/
def core (s : Shape) : List Item :=
  [.imports (importPaths s),
    .enum (enumOf s),
    .implementation {
      typeParameters := s.typeParameters
      target := s.selfType
      functions := coreFunctions s
      openEnd := true }]
    ++ (if s.isGeneric then [] else s.cases.map fun c => .implementation (conversion s c))
    ++ [.implementation (unionImplementation s)]

end TaggedUnion.Emit
