import TaggedUnion.Emit.Pending

/-! # Exhaustive dispatch

    A dispatch takes one handler per case and calls the one of the held case:

    * **`matchWith`**: the handlers return a value of one type.
    * **`switch`**: the handlers return nothing.

    Each has a plain and an asynchronous form. The two forms for a pending union are written from
    the cases once more, and name the method that they call.
-/

namespace TaggedUnion.Emit

open Code

/-- A dispatching function without documentation: its result, the results of its handlers,
    and its type parameters. In the asynchronous form the handlers return futures. -/
def dispatchFunction (s : Shape) (name : String) (result : Option String) (isAsync : Bool) :
    Function :=
  let futures := s.freshNumbered "Fut"
  let own : TypeParameters := result.toList.map ([·])
  { attributes := s.handlerAttributes
    isAsync := isAsync
    name := if isAsync then name ++ "_async" else name
    typeParameters := if isAsync then own ++ [futures] else own
    receiver := some "self"
    parameters :=
      handlers s (if isAsync then futures.map some else List.replicate s.arity result)
    spread := true
    result := result
    bounds :=
      if isAsync then
        some (futureBounds futures (List.replicate s.arity (result.getD "()")))
      else none
    body := some [.dispatch "self" (s.cases.map (handlerArm s isAsync))] }

/-- The documentation of the asynchronous form. -/
def asyncDispatchDocs (s : Shape) : List String :=
  ["Calls the handler of the held case and awaits its future.", ""] ++ handlerDocs s

/-! ### The two dispatches -/

/-- The trait of a pending union that matches. -/
def matchTraitName (s : Shape) : String := s.name ++ "MatchFutureExt"

/-- The trait of a pending union that switches. -/
def switchTraitName (s : Shape) : String := s.name ++ "SwitchFutureExt"

/-- The functions that match. -/
def matchFunctions (s : Shape) : List Function :=
  let result := some (s.fresh "R")
  [{ dispatchFunction s "match" result false with
      name := "match_with"
      docs :=
        ["Calls the handler of the held case and returns its result.", "",
          "Exactly one handler runs.", ""] ++ handlerDocs s },
    { dispatchFunction s "match" result true with docs := asyncDispatchDocs s }]

/-- The functions that switch. -/
def switchFunctions (s : Shape) : List Function :=
  [{ dispatchFunction s "switch" none false with
      docs := ["Calls the handler of the held case.", ""] ++ handlerDocs s },
    { dispatchFunction s "switch" none true with docs := asyncDispatchDocs s }]

/-! ### Pending unions -/

/-- A function for pending unions: it calls the plain dispatch `method` with all handlers. -/
def pendingDispatch (s : Shape) (name method : String) (result : Option String) : Function where
  docs := ["Awaits the union, then calls the handler of the held case."]
  attributes := s.handlerAttributes
  isPublic := false
  name := name
  typeParameters := result.toList.map ([·])
  receiver := some "self"
  parameters := handlers s (s.cases.map fun _ => result)
  spread := true
  result := some ("impl " ++ futureOf (result.getD "()"))
  body := some [.value (forwarding false method (handlerArguments s))]

/-- A function for pending unions: it calls the asynchronous dispatch `method` with all
    handlers, which return futures. -/
def pendingDispatchAsync (s : Shape) (name method : String) (result : Option String) :
    Function :=
  let futures := s.freshNumbered "Fut"
  { docs := ["Awaits the union, then calls the handler of the held case and awaits its future."]
    attributes := s.handlerAttributes
    isPublic := false
    name := name
    typeParameters := result.toList.map ([·]) ++ [futures]
    receiver := some "self"
    parameters := handlers s (futures.map some)
    spread := true
    result := some ("impl " ++ futureOf (result.getD "()"))
    bounds := some (futureBounds futures (List.replicate futures.length (result.getD "()")))
    body := some [.value (forwarding true method (handlerArguments s))] }

/-- The functions that match a pending union. -/
def pendingMatchFunctions (s : Shape) : List Function :=
  let result := some (s.fresh "R")
  [pendingDispatch s "match_with" "match_with" result,
    pendingDispatchAsync s "match_async" "match_async" result]

/-- The functions that switch on a pending union. -/
def pendingSwitchFunctions (s : Shape) : List Function :=
  [pendingDispatch s "switch" "switch" none,
    pendingDispatchAsync s "switch_async" "switch_async" none]

/-! ### Items -/

/-- The functions that match, and those of a pending union. -/
def matchWith (s : Shape) : List Item :=
  withPending s (matchTraitName s) ("Exhaustive match on a pending `" ++ s.name ++ "`.")
    (matchFunctions s) (pendingMatchFunctions s)

/-- The functions that switch, and those of a pending union. -/
def switch (s : Shape) : List Item :=
  withPending s (switchTraitName s) ("Exhaustive switch on a pending `" ++ s.name ++ "`.")
    (switchFunctions s) (pendingSwitchFunctions s)

end TaggedUnion.Emit
