/-! # Emitted code

    The code that is emitted, before it is text. The syntax has what the emitters need:

    * **`Expr`**, **`Arm`**, **`BlockHead`**, **`Statement`**: bodies of functions.
    * **`Function`**: a signature with an optional body.
    * **`Item`**: imports, type definitions, traits and implementations.

    Types and paths are plain text; names, parameters, bounds and arms are data, so that
    what a piece of emitted code declares can be read off it.
-/

namespace TaggedUnion.Code

/-! ### Expressions -/

/-- An expression of emitted code. -/
inductive Expr where
  /-- A name, or a literal. -/
  | name (text : String)
  /-- A function called with names as arguments. -/
  | call (function : String) (arguments : List String)
  /-- A function or a variant applied to one expression. -/
  | wrap (function : String) (argument : Expr)
  /-- A value built field by field, from names. -/
  | record (type : String) (fields : List (String × String))
  /-- A method called with names as arguments. -/
  | method (receiver : Expr) (name : String) (arguments : List String)
  /-- The value that a future resolves to. -/
  | await (future : Expr)
  /-- The future of an expression, which takes over the names in it. -/
  | deferred (body : Expr)
deriving Repr, DecidableEq

/-- What an arm of a dispatch applies to. -/
inductive Pattern where
  /-- A variant of the union, its value bound to a name. -/
  | held (variant binding : String)
  /-- Whatever no arm before it applies to. -/
  | other (binding : String)
deriving Repr, DecidableEq

/-- An arm of a dispatch. -/
structure Arm where
  pattern : Pattern
  value : Expr
deriving Repr, DecidableEq

/-! ### Statements -/

/-- What stands in front of a block. -/
inductive BlockHead where
  /-- The block is for a union that holds a variant, whose value is bound to a name. -/
  | ifHeld (variant binding union : String)
  /-- The block is for two names whose values differ. -/
  | ifDifferent (left right : String)
  /-- The block is for each member of a list, bound to a name. -/
  | forEach (member list : String)
deriving Repr, DecidableEq

/-- A statement in the body of a function. -/
inductive Statement where
  /-- The value of the body. -/
  | value (e : Expr)
  /-- An expression run for its effect. -/
  | run (e : Expr)
  /-- A binding of a name. -/
  | bind (name : String) (e : Expr)
  /-- A dispatch on the cases of a name. -/
  | dispatch (scrutinee : String) (arms : List Arm)
  /-- A statement in a block. -/
  | within (head : BlockHead) (body : Statement)
deriving Repr, DecidableEq

/-! ### Functions -/

/-- A constraint on a type parameter. -/
structure Bound where
  parameter : String
  constraint : String
deriving Repr, DecidableEq

/-- Type parameters in groups, each with the names that one role contributes. A list without
    groups is not written; an empty group leaves its place. -/
abbrev TypeParameters := List (List String)

/-- A function: an associated function or a method. -/
structure Function where
  docs : List String := []
  attributes : List String := []
  isPublic : Bool := true
  isConst : Bool := false
  isAsync : Bool := false
  name : String
  typeParameters : TypeParameters := []
  /-- How a method takes the value that it is called on. -/
  receiver : Option String := none
  /-- The names of the other parameters, with their types. -/
  parameters : List (String × String) := []
  /-- One parameter a line. -/
  spread : Bool := false
  /-- The result type; without one nothing is returned. -/
  result : Option String := none
  bounds : Option (List Bound) := none
  /-- Without a body the function is only declared. -/
  body : Option (List Statement) := none
deriving Repr, DecidableEq

/-! ### Items -/

/-- A variant of a type definition, holding one value. -/
structure Variant where
  docs : List String
  name : String
  payload : String
deriving Repr, DecidableEq

/-- The definition of a type by its variants. -/
structure Enum where
  docs : List String
  attributes : List String
  name : String
  typeParameters : TypeParameters
  variants : List Variant
deriving Repr, DecidableEq

/-- A trait. -/
structure Trait where
  docs : List String
  name : String
  typeParameters : TypeParameters
  /-- What implementing types must be. -/
  supertraits : Option String := none
  functions : List Function
deriving Repr, DecidableEq

/-- An implementation for a type. -/
structure Implementation where
  typeParameters : TypeParameters
  /-- The trait that is implemented; without one the functions belong to the type itself. -/
  trait : Option String := none
  target : String
  bounds : Option (List Bound) := none
  constants : List String := []
  functions : List Function
  /-- A blank line stands behind the last function too. -/
  openEnd : Bool := false
deriving Repr, DecidableEq

/-- A piece of emitted code. -/
inductive Item where
  /-- Paths brought into scope. -/
  | imports (paths : List String)
  | enum (e : Enum)
  | trait (t : Trait)
  | implementation (i : Implementation)
deriving Repr, DecidableEq

end TaggedUnion.Code
