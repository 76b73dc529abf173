import TaggedUnion.Command.Basic

/-! # Emitting the code of a union

    The command writes the artifacts of a union below a directory and prints their paths.
    A union that breaks a rule is refused: its findings are printed and nothing is written.
-/

namespace TaggedUnion.Command

/-- The directory that artifacts of a union are written to, unless another one is given. -/
def generateRoot : String := "."

variable {m : Type → Type} [Monad m] [Host m]

/-- Emits and writes the code of a union of the schema in a file. -/
def generate (schema union root runtimePath : String) : Run m ExitCode := do
  let d ← load schema
  match TaggedUnion.generate d union runtimePath with
  | .error (.invalid locationKey diagnostics) =>
    Host.printLines (diagnostics.map (·.display))
    Host.printLine (locationKey ++ ": not generated")
    return .failure
  | .error e => throw (.generating union e)
  | .ok generated =>
    Host.printLines (generated.diagnostics.map (·.display))
    let paths ← writeArtifacts root generated.artifacts
    Host.printLines (paths.map ("wrote " ++ ·))
    return .success

end TaggedUnion.Command
