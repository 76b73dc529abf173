import TaggedUnion.Schema.Union

/-! # Shapes of unions

    A shape is what the emitters work from:

    * **`Shape.named`**: the shape of a union of a schema; its cases are named after their
      types.
    * **`Shape.generic`**: the shape of the union with a number of cases whose types are its
      own parameters `T1`, `T2`, …
    * **`Shape.fresh`**: a name that clashes with none of the shape's own.
-/

namespace TaggedUnion

open Schema (CaseParameter ConstructorRef)

/-- One case of a shape. -/
structure ShapeCase where
  /-- The position in the declaration, counted from one. -/
  ordinal : Nat
  /-- The name of the variant. -/
  variant : String
  /-- The type that the variant holds. -/
  typeName : String
  /-- The part that the names of emitted functions have in common. -/
  stem : String
  /-- The constructor that a value is built with, if any. -/
  constructor : Option ConstructorRef := none
  /-- The parameters of that constructor. -/
  parameters : List CaseParameter := []
  /-- The path brought into scope for the case type. -/
  importPath : Option String := none
  isRecord : Bool := true
deriving Repr, DecidableEq, Inhabited

/-- A union as the emitters see it. -/
structure Shape where
  name : String
  /-- The case types are type parameters of the union. -/
  isGeneric : Bool
  /-- The cases in order of declaration. -/
  cases : List ShapeCase
  /-- The path under which emitted code finds the run time. -/
  runtimePath : String
  /-- The name that a held value is bound to. -/
  binding : String
deriving Repr, DecidableEq, Inhabited

/-- The run-time path of emitted code, unless another one is asked for. -/
def defaultRuntimePath : String := "::unionforge_core"

namespace Shape

/-! ### The two kinds of shapes -/

/-- The path brought into scope for a case whose type lives in another module than the
    union. -/
def importOf (scope : String) (c : Schema.Case) : Option String :=
  match c.modulePath with
  | none => none
  | some m => if m ≠ "" ∧ m ≠ scope then some (m ++ "::" ++ c.name) else none

/-- The shape of a union of a schema. -/
def named (u : Schema.Union) (runtimePath : String) : Shape where
  name := u.name
  isGeneric := false
  cases := u.cases.map fun c =>
    { ordinal := c.ordinal
      variant := c.name
      typeName := c.name
      stem := c.stem
      constructor := c.constructor
      parameters := c.parameters
      importPath := importOf u.scope c
      isRecord := c.isRecord }
  runtimePath := runtimePath
  binding := Schema.heldName

/-- The case of a generic shape with an ordinal. -/
def genericCase (ordinal : Nat) : ShapeCase :=
  { ordinal := ordinal
    variant := "Case" ++ toString ordinal
    typeName := "T" ++ toString ordinal
    stem := "case" ++ toString ordinal }

/-- The shape of the generic union with a number of cases. -/
def generic (arity : Nat) (runtimePath : String) : Shape where
  name := "Union" ++ toString arity
  isGeneric := true
  cases := (List.range' 1 arity).map genericCase
  runtimePath := runtimePath
  binding := Schema.heldName

/-! ### What is read off a shape -/

variable (s : Shape)

def arity : Nat := s.cases.length

def snakeName : String := Name.snake s.name

/-- The case types in order. -/
def caseTypes : List String := s.cases.map (·.typeName)

/-- The type parameters of the union, in one group; a named union has none. -/
def typeParameters : List (List String) := if s.isGeneric then [s.caseTypes] else []

/-- The type parameters as a list without brackets. -/
def typeParameterList : String := ", ".intercalate s.typeParameters.flatten

/-- The type parameters in brackets, as written behind the name of the union. -/
def generics : String := if s.isGeneric then "<" ++ s.typeParameterList ++ ">" else ""

/-- The union type. -/
def selfType : String := s.name ++ s.generics

/-- The head of an implementation for the union. -/
def implHeader : String := "impl" ++ s.generics ++ " " ++ s.selfType

/-- The union type with other case types. A named union cannot change its own. -/
def retyped (types : List String) : String :=
  if s.isGeneric then s.name ++ "<" ++ ", ".intercalate types ++ ">" else s.name

/-- The union type with another type in the case at a position, counted from zero. -/
def retypedCase (position : Nat) (type : String) : String :=
  s.retyped (s.caseTypes.set position type)

/-- The case types in a sentence. -/
def describeCases : String :=
  let names := s.cases.map fun c => "`" ++ c.typeName ++ "`"
  match names.reverse with
  | [] => ""
  | [only] => only
  | last :: others => ", ".intercalate others.reverse ++ " or " ++ last

def allRecords : Bool := s.cases.all (·.isRecord)

/-- The attributes of a function with one handler per case: from seven cases on it has many
    parameters. -/
def handlerAttributes : List String :=
  if 7 ≤ s.arity then ["allow(clippy::too_many_arguments)"] else []

/-! ### Fresh names -/

/-- The names that a shape uses for types. -/
def takenNames : List String := s.name :: s.cases.flatMap fun c => [c.typeName, c.variant]

/-- A base with a number of underscores behind it. -/
def underscored (base : String) (count : Nat) : String :=
  base ++ String.ofList (List.replicate count '_')

/-- The base with as few underscores behind it as keep it from being a taken name. One more
    candidate than there are taken names is enough to find it. -/
def fresh (base : String) : String :=
  let candidates := (List.range (s.takenNames.length + 1)).map (underscored base)
  (candidates.find? (· ∉ s.takenNames)).getD base

/-- A fresh name for every case, numbered from one. -/
def freshNumbered (base : String) : List String :=
  (List.range' 1 s.arity).map fun i => s.fresh (base ++ toString i)

end Shape

end TaggedUnion
