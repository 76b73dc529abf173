import TaggedUnion.Emit.Pending

/-! # Assertions

    A trait for tests, with two functions per case that return the held value and fail
    otherwise: one demands the case, the other one the case with an equal value. The second
    one is there for the cases whose values can be compared, which are all cases of a
    generic union and the records of a named one.
-/

namespace TaggedUnion.Emit

open Code

/-- The trait of assertions. -/
def assertionsTraitName (s : Shape) : String := s.name ++ "Assertions"

/-- The values of a case can be compared. -/
def hasEquality (s : Shape) (c : ShapeCase) : Bool := s.isGeneric || c.isRecord

/-- A failure of an assertion that is raised: its kind and what it reports. -/
def raised (s : Shape) (kind : String) (arguments : List String) : Expr :=
  .method (.call (s.runtimePath ++ "::AssertionFailed::" ++ kind) arguments) "raise" []

/-- A literal text in emitted code. -/
def literal (text : String) : String := "\"" ++ text ++ "\""

/-- The function that demands a case, without a body. -/
def caseAssertion (c : ShapeCase) : Function where
  isPublic := false
  name := "should_be_" ++ c.stem
  receiver := some "&self"
  result := some ("&" ++ c.typeName)

/-- The function that demands a case with an equal value, without a body. -/
def valueAssertion (s : Shape) (c : ShapeCase) : Function where
  isPublic := false
  name := "should_be_" ++ c.stem ++ "_eq"
  receiver := some "&self"
  parameters := [("expected", "&" ++ c.typeName)]
  result := some ("&" ++ c.typeName)
  bounds :=
    if s.isGeneric then some [⟨c.typeName, "PartialEq + ::core::fmt::Debug"⟩] else none

/-! ### Declarations -/

/-- The declarations of the functions of a case. -/
def assertionDeclarations (s : Shape) (c : ShapeCase) : List Function :=
  { caseAssertion c with
    docs := ["Asserts the union holds a `" ++ c.typeName ++ "` and returns it.", "", "# Panics",
      "Panics with an `AssertionFailed` payload if another case is held."] }
  :: if hasEquality s c then
      [{ valueAssertion s c with
        docs := ["Asserts the union holds a `" ++ c.typeName
            ++ "` equal to `expected` and returns it.", "", "# Panics",
          "Panics with an `AssertionFailed` payload if another case is held or the values differ."] }]
    else []

/-! ### Definitions -/

/-- The attribute that reports the place of the caller. -/
def trackCaller : String := "track_caller"

/-- The body of the function that demands a case. -/
def caseAssertionBody (s : Shape) (c : ShapeCase) : List Statement :=
  [.dispatch "self"
    [arm s c (.name s.binding),
      ⟨.other "other",
        raised s "case_mismatch" [literal s.name, literal c.variant, "other.case_name()"]⟩]]

/-- The body of the function that demands an equal value. -/
def valueAssertionBody (s : Shape) (c : ShapeCase) : List Statement :=
  [.bind s.binding (.method (.name "self") ("should_be_" ++ c.stem) []),
    .within (.ifDifferent s.binding "expected")
      (.run (raised s "value_mismatch" [literal s.name, literal c.variant, "expected", s.binding])),
    .value (.name s.binding)]

/-- The definitions of the functions of a case. -/
def assertionDefinitions (s : Shape) (c : ShapeCase) : List Function :=
  { caseAssertion c with
    attributes := [trackCaller]
    body := some (caseAssertionBody s c) }
  :: if hasEquality s c then
      [{ valueAssertion s c with
        attributes := [trackCaller]
        body := some (valueAssertionBody s c) }]
    else []

/-- The trait of assertions and its implementation. -/
def assertions (s : Shape) : List Item :=
  [.trait {
      docs := ["Test assertions for `" ++ s.name ++ "`."]
      name := assertionsTraitName s
      typeParameters := s.typeParameters
      functions := s.cases.flatMap (assertionDeclarations s) },
    .implementation {
      typeParameters := s.typeParameters
      trait := some (assertionsTraitName s ++ s.generics)
      target := s.selfType
      functions := s.cases.flatMap (assertionDefinitions s) }]

end TaggedUnion.Emit
