import TaggedUnion.Emit.Pending

/-! # Transforms

    A transform turns a union into a union, by a handler per case or by one handler for a
    single case, while the other cases pass through:

    * **`map`**: a handler returns the new value of its case.
    * **`bind`**: a handler returns a whole union.

    A generic union changes the types of the cases that handlers apply to; a named union
    keeps them. Every transform has a plain and an asynchronous form. A form is a **`Method`**,
    which is written twice: as a function of the union, and as one for a pending union.
-/

namespace TaggedUnion.Emit

open Code

/-- The two kinds of transforms. -/
inductive Transform where
  /-- The result of a handler is put back into its case. -/
  | map
  /-- The result of a handler is the new union. -/
  | bind
deriving Repr, DecidableEq

namespace Transform

/-- What the functions of a kind are named after. -/
def stem : Transform → String
  | .map => "map"
  | .bind => "bind"

/-- The trait of a pending union that is transformed. -/
def traitName (t : Transform) (s : Shape) : String :=
  match t with
  | .map => s.name ++ "MapFutureExt"
  | .bind => s.name ++ "BindFutureExt"

/-- The result of a handler as a union: for a map it is put back into the case. -/
def rebuild (t : Transform) (s : Shape) (c : ShapeCase) (result : Expr) : Expr :=
  match t with
  | .map => .wrap (s.name ++ "::" ++ c.variant) result
  | .bind => result

/-- What a handler returns, where `value` is the new type of its case and `union` the type
    of the new union. -/
def handlerResult (t : Transform) (value union : String) : String :=
  match t with
  | .map => value
  | .bind => union

/-- The first line of the documentation of the function with one handler per case. -/
def fullTitle : Transform → String
  | .map => "Replaces the held case value with its handler's result."
  | .bind => "Replaces the whole union with the union returned by the held case's handler."

/-- The first line of the documentation of the function for one case. -/
def caseTitle (t : Transform) (c : ShapeCase) : String :=
  match t with
  | .map => "Replaces a held `" ++ c.typeName ++ "` with the result of `f`."
  | .bind =>
    "Replaces the whole union with the result of `f` if it holds a `" ++ c.typeName ++ "`."

/-- The first line of the documentation of the trait. -/
def traitTitle (t : Transform) (s : Shape) : String :=
  match t with
  | .map => "Case transforms on a pending `" ++ s.name ++ "`."
  | .bind => "Rebinds on a pending `" ++ s.name ++ "`."

/-! ### Methods -/

/-- A method, before it is written for the union itself or for a pending one. -/
structure Method where
  docs : List String
  /-- The attributes of both functions. -/
  attributes : List String := []
  isAsync : Bool
  name : String
  typeParameters : TypeParameters
  parameters : List (String × String)
  result : String
  bounds : Option (List Bound)
  arms : List Arm
  /-- What is called on an awaited union, and with which arguments. -/
  forward : String × List String
deriving Repr, DecidableEq

/-- The function of the union itself. -/
def Method.inherent (m : Method) : Function where
  docs := m.docs
  attributes := m.attributes ++ (if m.isAsync then [] else [mustUse])
  isAsync := m.isAsync
  name := m.name
  typeParameters := m.typeParameters
  receiver := some "self"
  parameters := m.parameters
  spread := true
  result := some m.result
  bounds := m.bounds
  body := some [.dispatch "self" m.arms]

/-- The function for a pending union. -/
def Method.pending (m : Method) : Function where
  docs := [summary m.docs]
  attributes := m.attributes
  isPublic := false
  name := m.name
  typeParameters := m.typeParameters
  receiver := some "self"
  parameters := m.parameters
  spread := true
  result := some ("impl " ++ futureOf m.result)
  bounds := m.bounds
  body := some [.value (forwarding m.isAsync m.forward.1 m.forward.2)]

/-- The name of a form of a function. -/
def formName (isAsync : Bool) (name : String) : String :=
  if isAsync then name ++ "_async" else name

/-- Type parameters in one group, or none at all. -/
def oneGroup (names : List String) : TypeParameters := if names.isEmpty then [] else [names]

/-! ### One handler per case -/

/-- The new types of the cases. -/
def targets (s : Shape) : List String := if s.isGeneric then s.freshNumbered "U" else s.caseTypes

/-- The method with one handler per case. -/
def fullMethod (t : Transform) (s : Shape) (isAsync : Bool) : Method :=
  let union := s.retyped (targets s)
  let results := (targets s).map fun value => t.handlerResult value union
  let futures := s.freshNumbered "Fut"
  let name := formName isAsync t.stem
  { docs := [t.fullTitle, ""] ++ handlerDocs s
    attributes := s.handlerAttributes
    isAsync := isAsync
    name := name
    typeParameters :=
      oneGroup ((if s.isGeneric then targets s else []) ++ (if isAsync then futures else []))
    parameters := handlers s ((if isAsync then futures else results).map some)
    result := union
    bounds := if isAsync then some (futureBounds futures results) else none
    arms := s.cases.map fun c =>
      arm s c (t.rebuild s c (awaitedIf isAsync (.call (handlerName c) [s.binding])))
    forward := (name, handlerArguments s) }

/-- The function with one handler per case. -/
def full (t : Transform) (s : Shape) (isAsync : Bool) : Function :=
  (t.fullMethod s isAsync).inherent

/-! ### One handler -/

/-- The arm of a case in the function for the case `target`: the handler applies to that
    case, and another case is built again. -/
def caseArm (t : Transform) (s : Shape) (isAsync : Bool) (target c : ShapeCase) : Arm :=
  arm s c
    (if c.ordinal = target.ordinal then
      t.rebuild s c (awaitedIf isAsync (.call "f" [s.binding]))
    else .wrap (s.name ++ "::" ++ c.variant) (.name s.binding))

/-- The method for the case `target` at a position, counted from zero. -/
def singleMethod (t : Transform) (s : Shape) (position : Nat) (target : ShapeCase)
    (isAsync : Bool) : Method :=
  let value := if s.isGeneric then s.fresh "U" else target.typeName
  let union := s.retypedCase position value
  let result := t.handlerResult value union
  let future := s.fresh "Fut"
  let name := formName isAsync (t.stem ++ "_" ++ target.stem)
  { docs := [t.caseTitle target, "", "Other cases pass through unchanged."]
    isAsync := isAsync
    name := name
    typeParameters :=
      oneGroup ((if s.isGeneric then [value] else []) ++ (if isAsync then [future] else []))
    parameters :=
      [("f", handlerType target.typeName (some (if isAsync then future else result)))]
    result := union
    bounds := if isAsync then some (futureBounds [future] [result]) else none
    arms := s.cases.map (t.caseArm s isAsync target)
    forward := (name, ["f"]) }

/-- The function for the case `target` at a position. -/
def single (t : Transform) (s : Shape) (position : Nat) (target : ShapeCase) (isAsync : Bool) :
    Function :=
  (t.singleMethod s position target isAsync).inherent

/-! ### Items -/

/-- The methods of a kind, in both forms: for all cases, then for each one. -/
def methods (t : Transform) (s : Shape) : List Method :=
  [t.fullMethod s false, t.fullMethod s true]
    ++ (s.cases.mapIdx fun i c => [t.singleMethod s i c false, t.singleMethod s i c true]).flatten

/-- The functions of a kind. -/
def functions (t : Transform) (s : Shape) : List Function := (t.methods s).map Method.inherent

/-- The functions of a kind for a pending union. -/
def pendingFunctions (t : Transform) (s : Shape) : List Function :=
  (t.methods s).map Method.pending

/-- The functions of a kind, and those of a pending union. -/
def items (t : Transform) (s : Shape) : List Item :=
  withPending s (t.traitName s) (t.traitTitle s) (t.functions s) (t.pendingFunctions s)

end Transform

end TaggedUnion.Emit
