import TaggedUnion.Artifact
import TaggedUnion.Files.Error
import TaggedUnion.Schema.Introspection
import TaggedUnion.Schema.Reader
import TaggedUnion.Schema.Validation

/-! # From a schema to code

    * **`Schema.Union.artifacts`** emits the files of a union, checked or not.
    * **`generate`** looks up a union of a document, checks it, and emits its files only if
      no error was found; warnings come along.
    * **`sweep`** emits the generic unions for a set of arities, a file per family.
-/

namespace TaggedUnion

open Schema (Document Diagnostic UnionNotFound)

/-- A cause for which no code is emitted. -/
inductive GenerateError where
  /-- The file of the document cannot be read. -/
  | file (cause : FileError)
  /-- The document cannot be read. -/
  | schema (cause : Schema.Error)
  /-- The union is not declared. -/
  | notFound (cause : UnionNotFound)
  /-- The union, known by its location key, breaks a rule. -/
  | invalid (locationKey : String) (diagnostics : List Diagnostic)
  /-- A generic union is asked for with too few cases. -/
  | invalidArity (arity : Nat)
  /-- No generic union is asked for. -/
  | noArities
deriving Repr, DecidableEq

/-- The least number of cases of a union. -/
def minArity : Nat := 2

namespace GenerateError

/-- The wording of a cause. -/
def message : GenerateError → String
  | .file e => e.report
  | .schema e => "schema parse error: " ++ e.message
  | .notFound e => "schema error: " ++ e.message
  | .invalid key ds => s!"union '{key}' is invalid ({ds.length} diagnostics)"
  | .invalidArity n => s!"invalid arity {n}: a union needs at least {minArity} cases"
  | .noArities => "generation error: no arities requested"

/-- The texts of a cause and of what caused it, outermost first. -/
def trail : GenerateError → List String
  | .file e => e.trail
  | .schema e => (GenerateError.schema e).message :: e.trail
  | .notFound e => [(GenerateError.notFound e).message, e.message]
  | e => [e.message]

end GenerateError

/-! ### Named unions -/

/-- The files of a union, one per family. -/
def Schema.Union.artifacts (u : Schema.Union) (runtimePath : String) : List Artifact :=
  Family.ofNamed.map (Artifact.ofShape (.named u runtimePath))

/-- What is emitted for a union. -/
structure Generated where
  artifacts : List Artifact
  /-- The warnings about the union. -/
  diagnostics : List Diagnostic
deriving Repr, DecidableEq

/-- Emits the code of a union of a document. -/
def generate (d : Document) (name runtimePath : String) : Except GenerateError Generated :=
  match Schema.Union.ofDocument d name with
  | .error e => .error (.notFound e)
  | .ok u =>
    if u.validate.isFatal then .error (.invalid u.locationKey u.validate.diagnostics)
    else .ok ⟨u.populate.artifacts runtimePath, u.validate.diagnostics⟩

/-- Reads a document and emits the code of one of its unions. -/
def generateFromText (text name runtimePath : String) : Except GenerateError Generated :=
  match Document.read text with
  | .error e => .error (.schema e)
  | .ok d => generate d name runtimePath

/-! ### Generic unions -/

/-- A number put into an ascending list without repetitions. -/
def insertAscending (n : Nat) : List Nat → List Nat
  | [] => [n]
  | m :: ms =>
    if n < m then n :: m :: ms else if n = m then m :: ms else m :: insertAscending n ms

/-- The numbers of a list, each once, in ascending order. -/
def ascending (ns : List Nat) : List Nat := ns.foldr insertAscending []

/-- The text of a family for the generic unions of several arities. -/
def sweepText (arities : List Nat) (runtimePath : String) (family : Family) : String :=
  String.join (arities.map fun n => family.text (.generic n runtimePath))

/-- Emits the generic unions of the arities in a list. Neither their order nor repetitions
    matter. -/
def sweep (arities : List Nat) (runtimePath : String) : Except GenerateError (List Artifact) :=
  match ascending arities with
  | [] => .error .noArities
  | n :: ns =>
    if n < minArity then .error (.invalidArity n)
    else .ok (Family.all.map fun f =>
      .ofBody f f.sweepPath (sweepText (n :: ns) runtimePath f))

/-- Emits the generic unions of all arities up to a greatest one. -/
def sweepUpTo (greatest : Nat) (runtimePath : String) : Except GenerateError (List Artifact) :=
  if greatest < minArity then .error (.invalidArity greatest)
  else sweep (List.range' minArity (greatest - 1)) runtimePath

end TaggedUnion
