import TaggedUnion.Name
import TaggedUnion.Schema.Document

/-! # Unions with their cases resolved

    What the checks and the emitters know about a union:

    * **`Case`**: a reference, the type that it leads to, and how a value of the case is
      built.
    * **`Union`**: the cases in order of declaration.
    * **`Union.ofDocument`** looks up a declaration and resolves its references; it neither
      drops nor checks any of them.
-/

namespace TaggedUnion.Schema

/-- The name that a held value is bound to in emitted code. -/
def heldName : String := "value"

/-- A parameter of the constructor that a case is built with. -/
structure CaseParameter where
  typeName : String
  name : String
  /-- What the documentation says about it. -/
  description : Option String := none
deriving Repr, DecidableEq, Inhabited

namespace CaseParameter

/-- The text that documents a parameter: its description, or else its name and type. -/
def displayText (p : CaseParameter) : String :=
  match p.description with
  | some d => d
  | none => p.name ++ " (" ++ p.typeName ++ ")"

/-- The name of the argument that stands for a parameter. -/
def argumentName (p : CaseParameter) : String := Name.identifier (Name.snake p.name)

/-- The name of the field that a parameter sets. -/
def fieldName (p : CaseParameter) : String := Name.identifier p.name

end CaseParameter

/-- The constructor that a case is built with. -/
structure ConstructorRef where
  name : String
  /-- The fields are set one by one. -/
  implicit : Bool
deriving Repr, DecidableEq, Inhabited

/-- A case of a union. -/
structure Case where
  /-- The position in the declaration, counted from one. -/
  ordinal : Nat
  /-- The name of the type it resolves to, or else the reference. -/
  name : String
  /-- The reference as declared. -/
  reference : String
  /-- The type that the reference leads to, if it leads anywhere. -/
  symbol : Option TypeSymbol
  constructor : Option ConstructorRef := none
  parameters : List CaseParameter := []
deriving Repr, DecidableEq, Inhabited

namespace Case

/-- The part that the names of emitted functions have in common. -/
def stem (c : Case) : String := Name.snake c.name

def isRecord (c : Case) : Bool := c.symbol.any TypeSymbol.isRecord

/-- The module of the case type, where it is declared. -/
def modulePath (c : Case) : Option String := c.symbol.bind (·.modulePath)

end Case

/-- A union and its cases. -/
structure Union where
  /-- The namespace it lives in. -/
  scope : String
  name : String
  isPartial : Bool
  cases : List Case
deriving Repr, DecidableEq, Inhabited

namespace Union

def arity (u : Union) : Nat := u.cases.length

/-- The case names as a list of type arguments. -/
def argumentList (u : Union) : String := ", ".intercalate (u.cases.map (·.name))

/-- The generic union type of the same shape. -/
def genericType (u : Union) : String :=
  "Union" ++ toString u.arity ++ "<" ++ u.argumentList ++ ">"

/-- The key under which findings about a union are reported. -/
def locationKey (u : Union) : String :=
  if u.scope = "" then u.name else u.scope ++ "::" ++ u.name

def snakeName (u : Union) : String := Name.snake u.name

/-- The case at a position, counted from zero, with the type that its reference means. -/
def resolveCase (d : Document) (position : Nat) (reference : String) : Case :=
  let symbol := d.type? reference
  { ordinal := position + 1
    name := (symbol.map (·.name)).getD reference
    reference := reference
    symbol := symbol }

/-- The union of a document with a name. -/
def ofDocument (d : Document) (name : String) : Except UnionNotFound Union :=
  match d.union? name with
  | none => .error ⟨name⟩
  | some u => .ok {
      scope := u.scope
      name := u.name
      isPartial := u.isPartial
      cases := u.cases.mapIdx (resolveCase d) }

end Union

end TaggedUnion.Schema
