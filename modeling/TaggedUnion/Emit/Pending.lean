import TaggedUnion.Code.Layout
import TaggedUnion.Shape
import TaggedUnion.Text.Blank
import TaggedUnion.Text.Parts

/-! # Handlers and pending unions

    What the emitters of dispatching functions have in common:

    * **Handlers**: one function parameter per case, called with the value of the case.
    * **Pending unions**: the futures that resolve to a union have a trait of their own. A
      function of the trait awaits the union, calls a function of it, and hands its parameters
      on to it.
-/

namespace TaggedUnion.Emit

open Code

/-! ### Handlers -/

/-- The name of the handler of a case. -/
def handlerName (c : ShapeCase) : String := "on_" ++ c.stem

/-- The type of a handler for a value; without a result it returns nothing. -/
def handlerType (argument : String) (result : Option String) : String :=
  "impl FnOnce(" ++ argument ++ ")" ++
    match result with
    | some r => " -> " ++ r
    | none => ""

/-- One handler per case, with the results given in the order of the cases. -/
def handlers (s : Shape) (results : List (Option String)) : List (String × String) :=
  (s.cases.zip results).map fun (c, r) => (handlerName c, handlerType c.typeName r)

/-- The handlers as arguments of a call. -/
def handlerArguments (s : Shape) : List String := s.cases.map handlerName

/-- The documentation of the handlers. -/
def handlerDocs (s : Shape) : List String :=
  "# Arguments" :: s.cases.map fun c =>
    "* `" ++ handlerName c ++ "` - Called with the `" ++ c.typeName ++ "` case"

/-- An expression, awaited in the asynchronous form of a function. -/
def awaitedIf (isAsync : Bool) (e : Expr) : Expr := if isAsync then .await e else e

/-- The arm of a case, with the held value bound. -/
def arm (s : Shape) (c : ShapeCase) (value : Expr) : Arm := ⟨.held c.variant s.binding, value⟩

/-- The arm of a case that calls its handler with the held value. -/
def handlerArm (s : Shape) (isAsync : Bool) (c : ShapeCase) : Arm :=
  arm s c (awaitedIf isAsync (.call (handlerName c) [s.binding]))

/-! ### Futures -/

/-- The trait of futures with a given output. -/
def futureOf (output : String) : String := "::core::future::Future<Output = " ++ output ++ ">"

/-- The bounds that make each type parameter a future with its output. -/
def futureBounds (futures outputs : List String) : List Bound :=
  (futures.zip outputs).map fun (f, o) => ⟨f, futureOf o⟩

/-- The attribute of a function whose result is not to be dropped. -/
def mustUse : String := "must_use"

/-- The future of a call of a method on an awaited union. The call of an asynchronous method is
    awaited too. -/
def forwarding (isAsync : Bool) (method : String) (arguments : List String) : Expr :=
  .deferred (awaitedIf isAsync (.method (.await (.name "self")) method arguments))

/-- What is kept of the documentation of a method for a pending union: the first line, and of
    the other lines those that read as attributes. -/
def summary (docs : List String) : String :=
  let attributeLines := docs.flatMap fun d =>
    ((Text.lines d).drop 1).filter fun l =>
      ['#', '['].isPrefixOf (l.toList.dropWhile Text.isBlank)
  "\n".intercalate (docs.head?.toList.flatMap (fun d => (Text.lines d).take 1) ++ attributeLines)

/-! ### The trait of pending unions -/

/-- The trait with functions for the futures that resolve to the union. -/
def pendingTrait (s : Shape) (name title : String) (functions : List Function) : Trait where
  docs := [title, "",
    "Implemented for every future resolving to `" ++ s.name ++ "`; each method awaits the",
    "union first, then behaves like the method of the same name on the union."]
  name := name
  typeParameters := s.typeParameters
  supertraits := some (futureOf s.selfType ++ " + Sized")
  functions := functions

/-- The implementation that gives every such future the trait. -/
def pendingImplementation (s : Shape) (name : String) : Implementation :=
  let pending := s.fresh "Pending"
  { typeParameters := [pending] :: s.typeParameters
    trait := some (name ++ s.generics)
    target := pending
    bounds := some [⟨pending, futureOf s.selfType⟩]
    functions := [] }

/-- Functions of a union together with the trait that has functions for a pending one. -/
def withPending (s : Shape) (name title : String) (functions pending : List Function) :
    List Item :=
  [.implementation {
      typeParameters := s.typeParameters
      target := s.selfType
      functions := functions },
    .trait (pendingTrait s name title pending),
    .implementation (pendingImplementation s name)]

end TaggedUnion.Emit
