import TaggedUnion.Schema.Error
import TaggedUnion.Schema.Symbol

/-! # The schema document

    A store of types and unions that is filled by three updates. An update may be refused, and
    there is a document behind it either way:

    * **`Update.addType`** appends a type, gives it its position and binds its name.
    * **`Update.addAlias`** binds one more name to the position of a type.
    * **`Update.addUnion`** appends a union; unions have names of their own.

    Each one looks at the names first, and changes the document only then. Names are kept in the
    order in which they were bound. A caller that stops at the first refusal has no use for the
    document behind it: `addType`, `addAlias` and `addUnion` give the outcome alone.
-/

namespace TaggedUnion.Schema

/-- The name of the type that every value has. -/
def topTypeName : String := "Any"

/-- The types and unions of a schema. -/
structure Document where
  /-- The namespace of the unions declared in the document. -/
  scope : String
  /-- The types, each at the position that is its `id`. -/
  types : List TypeSymbol
  /-- The unions, in order. -/
  unions : List UnionDeclaration
  /-- The position that each type name and alias is bound to. -/
  names : List (String × TypeId)
deriving Repr, DecidableEq, Inhabited

namespace Document

/-- The document that holds the top type only. -/
def empty (scope : String) : Document where
  scope := scope
  types := [{ id := 0, name := topTypeName, kind := .top }]
  unions := []
  names := [(topTypeName, 0)]

/-- The position that a name is bound to. -/
def typeId? (d : Document) (name : String) : Option TypeId := d.names.lookup name

/-- The type that a name or an alias means. -/
def type? (d : Document) (name : String) : Option TypeSymbol :=
  (d.typeId? name).bind fun id => d.types[id]?

/-- The union with a name. -/
def union? (d : Document) (name : String) : Option UnionDeclaration :=
  d.unions.find? (·.name == name)

/-! ### Changes -/

/-- Binds a name to a position; what the name was bound to before is forgotten. -/
def bindName (d : Document) (name : String) (id : TypeId) : Document :=
  { d with names := d.names.filter (·.1 != name) ++ [(name, id)] }

/-- Puts a type behind the others. -/
def pushType (d : Document) (symbol : TypeSymbol) : Document :=
  { d with types := d.types ++ [symbol] }

/-- Puts a union behind the others. -/
def pushUnion (d : Document) (declaration : UnionDeclaration) : Document :=
  { d with unions := d.unions ++ [declaration] }

/-! ### Updates -/

/-- A computation on a document: it has an answer or is refused, and leaves a document behind
    it in both cases. -/
abbrev Update := EStateM Error Document

/-- Appends a type; it gets the next position as its id. -/
def Update.addType (symbol : TypeSymbol) : Update TypeId := do
  let d ← get
  if (d.typeId? symbol.name).isSome then
    throw (.duplicate .type symbol.name)
  let id := d.types.length
  modify (·.bindName symbol.name id)
  modify (·.pushType { symbol with id := id })
  return id

/-- Binds an alias to the type that `target` means. A taken alias is refused before the
    target is looked at. -/
def Update.addAlias (name target : String) : Update TypeId := do
  let d ← get
  if (d.typeId? name).isSome then
    throw (.duplicate .aliasName name)
  let some id := d.typeId? target
    | throw (.unknownTarget name target)
  modify (·.bindName name id)
  return id

/-- Appends a union. -/
def Update.addUnion (declaration : UnionDeclaration) : Update Unit := do
  let d ← get
  if (d.union? declaration.name).isSome then
    throw (.duplicate .union declaration.name)
  modify (·.pushUnion declaration)

/-- The document behind an update, be it refused or not. -/
def Update.behind {α : Type} (x : Update α) (d : Document) : Document :=
  match x.run d with
  | .ok _ d' => d'
  | .error _ d' => d'

/-- The document behind an update with its answer; where it is refused only the cause is kept. -/
def Update.outcome {α : Type} (x : Update α) (d : Document) : Except Error (Document × α) :=
  match x.run d with
  | .ok a d' => .ok (d', a)
  | .error e _ => .error e

/-- The document with one more type, and the id of the type. -/
def addType (d : Document) (symbol : TypeSymbol) : Except Error (Document × TypeId) :=
  (Update.addType symbol).outcome d

/-- The document with one more alias, and the id of the type that the alias means. -/
def addAlias (d : Document) (name target : String) : Except Error (Document × TypeId) :=
  (Update.addAlias name target).outcome d

/-- The document with one more union. -/
def addUnion (d : Document) (declaration : UnionDeclaration) : Except Error Document :=
  ((Update.addUnion declaration).outcome d).map (·.1)

end Document

end TaggedUnion.Schema
