import TaggedUnion.Command.Error
import TaggedUnion.Output

/-! # What the commands share

    How a run ends, reading the schema, and writing artifacts.
-/

namespace TaggedUnion.Command

/-- How a run ends. -/
inductive ExitCode where
  /-- All is well. -/
  | success
  /-- A union breaks a rule, or the command had to stop. -/
  | failure
  /-- The arguments mean nothing. -/
  | misuse
deriving Repr, DecidableEq

/-- The number that a run ends with. -/
def ExitCode.number : ExitCode → UInt32
  | .success => 0
  | .failure => 1
  | .misuse => 2

variable {m : Type → Type} [Monad m] [Host m]

/-- A computation of a command, which can stop. -/
abbrev Run (m : Type → Type) := ExceptT Error m

/-- Goes on with the result of an operation, or stops with its cause in a context. -/
def orStop {ε γ : Type} (context : ε → Error) (x : m (Except ε γ)) : Run m γ :=
  ExceptT.mk do return (← x).mapError context

/-- Reads the document in a schema file. -/
def load (path : String) : Run m Schema.Document := do
  let text ← orStop (.reading path) (Host.readText path)
  orStop (.parsing path) (pure (Schema.Document.read text))

/-- Writes an artifact below a directory and returns the path of its file. -/
def writeArtifact (root : String) (a : Artifact) : Run m String := do
  let written ← orStop (.writing a.path) (a.writeTo root).run
  return written.path

/-- Writes artifacts below a directory, up to the first that cannot be written. -/
def writeArtifacts (root : String) (as : List Artifact) : Run m (List String) :=
  as.mapM (writeArtifact root)

end TaggedUnion.Command
