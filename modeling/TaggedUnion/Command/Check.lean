import TaggedUnion.Command.Basic

/-! # Checking the unions of a schema

    The command prints what is found about each union, one line per finding, or a line that
    says that all is well. It fails if an error is among the findings.
-/

namespace TaggedUnion.Command

/-- What is printed about a union that is checked. -/
def checkLines (u : Schema.Union) : List String :=
  match u.validate.diagnostics with
  | [] => [u.locationKey ++ ": ok"]
  | ds => ds.map (·.display)

variable {m : Type → Type} [Monad m] [Host m]

/-- Checks a union of a document and says whether it breaks a rule. -/
def checkUnion (d : Schema.Document) (name : String) : Run m Bool := do
  let u ← orStop (.checking name) (pure (Schema.Union.ofDocument d name))
  Host.printLines (checkLines u)
  return u.validate.isFatal

/-- Checks unions of a document in order. -/
def checkUnions (d : Schema.Document) : List String → Run m ExitCode
  | [] => do
    Host.printLine "no unions declared"
    return .success
  | names => do
    let broken ← names.mapM (checkUnion d)
    return if broken.any id then .failure else .success

/-- Checks one union of the schema in a file, or all of them. -/
def check (schema : String) (union : Option String) : Run m ExitCode := do
  let d ← load schema
  checkUnions d (union.elim (d.unions.map (·.name)) ([·]))

end TaggedUnion.Command
