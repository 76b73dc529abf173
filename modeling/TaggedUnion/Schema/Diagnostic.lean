/-! # Findings about a union

    Eight rules, each with a stable code, a title, a severity and a message about a subject.
    A finding is a rule together with what it was found about.
-/

namespace TaggedUnion.Schema

/-- How much a finding weighs. -/
inductive Severity where
  /-- It stops code from being emitted. -/
  | error
  /-- It is reported only. -/
  | warning
deriving Repr, DecidableEq

/-- The word for a severity. -/
def Severity.label : Severity → String
  | .error => "error"
  | .warning => "warning"

/-- The rules that a union has to keep. -/
inductive Rule where
  /-- There are at least two distinct cases. -/
  | enoughCases
  /-- No case type occurs twice. -/
  | distinctCases
  /-- Every case leads to a type other than the top type. -/
  | validCaseType
  /-- The declaration is open. -/
  | openDeclaration
  /-- A case type is a record. -/
  | recordCase
  /-- A case type is neither abstract nor an interface. -/
  | concreteCase
  /-- A case type has no type parameters. -/
  | nonGenericCase
  /-- A case type is not declared inside another one. -/
  | unnestedCase
deriving Repr, DecidableEq

namespace Rule

/-- All rules in the order of their codes. -/
def all : List Rule :=
  [.enoughCases, .distinctCases, .validCaseType, .openDeclaration, .recordCase, .concreteCase,
   .nonGenericCase, .unnestedCase]

/-- The stable code of a rule. -/
def code : Rule → String
  | .enoughCases => "TU001"
  | .distinctCases => "TU002"
  | .validCaseType => "TU003"
  | .openDeclaration => "TU004"
  | .recordCase => "TU005"
  | .concreteCase => "TU006"
  | .nonGenericCase => "TU007"
  | .unnestedCase => "TU008"

/-- What breaks a rule, in short. -/
def title : Rule → String
  | .enoughCases => "A union must declare at least two cases"
  | .distinctCases => "Duplicate union case"
  | .validCaseType => "Invalid union case type"
  | .openDeclaration => "Union must be partial"
  | .recordCase => "Union case should be a record"
  | .concreteCase => "Union case must be concrete"
  | .nonGenericCase => "Union case must be non generic"
  | .unnestedCase => "Union case must be non nested"

/-- Only the record rule is a matter of style. -/
def severity : Rule → Severity
  | .recordCase => .warning
  | _ => .error

/-- What is said about a subject that breaks a rule. -/
def message (rule : Rule) (subject : String) : String :=
  match rule with
  | .enoughCases => s!"Union '{subject}' must declare at least two distinct cases"
  | .distinctCases => s!"Union case '{subject}' is specified more than once"
  | .validCaseType => s!"Type '{subject}' is not a valid union case"
  | .openDeclaration => s!"Union declaration '{subject}' must be declared partial"
  | .recordCase => s!"Union case '{subject}' should be a record"
  | .concreteCase =>
    s!"Union case '{subject}' must be a concrete type, not an interface or abstract type"
  | .nonGenericCase => s!"Union case '{subject}' must be a non generic type"
  | .unnestedCase => s!"Union case '{subject}' must be an unnested type"

end Rule

/-- A rule that is broken. -/
structure Diagnostic where
  rule : Rule
  /-- What breaks it: a union or a case type. -/
  subject : String
  /-- The union that the finding is about. -/
  locationKey : String
deriving Repr, DecidableEq

namespace Diagnostic

def severity (d : Diagnostic) : Severity := d.rule.severity

def message (d : Diagnostic) : String := d.rule.message d.subject

def isError (d : Diagnostic) : Bool := d.severity == .error

/-- A finding on one line. -/
def display (d : Diagnostic) : String :=
  s!"{d.severity.label}[{d.rule.code}]: {d.message} (at {d.locationKey})"

end Diagnostic

end TaggedUnion.Schema
