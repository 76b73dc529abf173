/-! # Types and unions as declared

    What a schema says about the types that unions are made of, and about the unions:

    * **`TypeSymbol`**: a type with its kind, place and constructors.
    * **`Constructor`**: a way to build a value, with parameters and documentation.
    * **`UnionDeclaration`**: a name and the references of its cases, in order.
-/

namespace TaggedUnion.Schema

/-- The position of a type in its document. Two references mean the same type exactly when
    they lead to the same position. -/
abbrev TypeId := Nat

/-- The kind of a type. -/
inductive TypeKind where
  /-- A value-like aggregate. -/
  | record
  /-- A plain aggregate. -/
  | struct
  /-- An interface; it has no values of its own. -/
  | trait
  /-- The one type that every value has. -/
  | top
deriving Repr, DecidableEq, Inhabited

/-- Reads a kind, in letters of either case; the top type has no written form. Only the
    letters `A` to `Z` have a small form inside one of these words, so `Char.toLower`
    decides. -/
def TypeKind.ofString? (s : String) : Option TypeKind :=
  match s.map Char.toLower with
  | "record" => some .record
  | "struct" | "class" => some .struct
  | "trait" | "interface" => some .trait
  | _ => none

/-- Who may call a constructor. -/
inductive Visibility where
  /-- Emitted code may call it. -/
  | exported
  /-- Emitted code may not call it. -/
  | hidden
deriving Repr, DecidableEq, Inhabited

/-- Reads a visibility, in letters of either case. -/
def Visibility.ofString? (s : String) : Option Visibility :=
  match s.map Char.toLower with
  | "public" | "pub" => some .exported
  | "private" | "crate" | "pub(crate)" => some .hidden
  | _ => none

/-- A parameter of a constructor, as declared. -/
structure Parameter where
  name : String
  /-- The type, as written in the language of the emitted code. -/
  typeName : String
deriving Repr, DecidableEq, Inhabited

/-- A way to build a value of a type. -/
structure Constructor where
  /-- The function to call, where the constructor is explicit. -/
  name : String := "new"
  visibility : Visibility := .exported
  /-- An implicit constructor sets the fields one by one. -/
  implicit : Bool := false
  parameters : List Parameter := []
  /-- Documentation as written, markup included. -/
  documentation : Option String := none
deriving Repr, DecidableEq, Inhabited

/-- Emitted code may call the public constructors only. -/
def Constructor.isPublic (c : Constructor) : Bool := c.visibility == .exported

/-- A type as declared. -/
structure TypeSymbol where
  /-- The position in the document that holds the type. -/
  id : TypeId := 0
  name : String
  kind : TypeKind := .struct
  isAbstract : Bool := false
  typeParameters : List String := []
  /-- The type it is declared inside of. -/
  containingType : Option String := none
  /-- The module it lives in. -/
  modulePath : Option String := none
  /-- Its constructors, in order. -/
  constructors : List Constructor := []
deriving Repr, DecidableEq, Inhabited

namespace TypeSymbol

def isTop (t : TypeSymbol) : Bool := t.kind == .top

def isInterface (t : TypeSymbol) : Bool := t.kind == .trait

def isRecord (t : TypeSymbol) : Bool := t.kind == .record

/-- A generic type has type parameters. -/
def isGeneric (t : TypeSymbol) : Bool := !t.typeParameters.isEmpty

/-- A nested type is declared inside another one. -/
def isNested (t : TypeSymbol) : Bool := t.containingType.isSome

def publicConstructors (t : TypeSymbol) : List Constructor :=
  t.constructors.filter Constructor.isPublic

end TypeSymbol

/-- A union as declared. -/
structure UnionDeclaration where
  /-- The namespace it is declared in. -/
  scope : String
  name : String
  /-- An open declaration accepts emitted members. -/
  isPartial : Bool := true
  /-- The references of its cases, in order. -/
  cases : List String := []
deriving Repr, DecidableEq, Inhabited

end TaggedUnion.Schema
