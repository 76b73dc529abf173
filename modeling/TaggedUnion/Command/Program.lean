import TaggedUnion.Command.Arguments
import TaggedUnion.Command.Check

/-! # The program

    The program reads its arguments and runs the command that they mean. What it says about
    a failure is part of how it ends; only what a command reports is printed.
-/

namespace TaggedUnion.Command

/-- How the program ends. -/
structure Outcome where
  code : ExitCode
  /-- What is said about a failure. -/
  complaint : Option String
deriving Repr, DecidableEq

/-- The name of the program and its version. -/
def versionLine : String := "unionforge 0.2.0"

/-- The forms of the arguments. -/
def usage : List String :=
  ["Usage: unionforge [-v] check --schema <PATH> [--union <NAME>]",
   "       unionforge [-v] generate --schema <PATH> --union <NAME> [--output <PATH>]" ++
     " [--runtime-path <PATH>]",
   "       unionforge [-v] sweep [--max-arity <N>] [--output <PATH>] [--runtime-path <PATH>]"]

variable {m : Type → Type} [Monad m] [Host m]

/-- Runs a command. -/
def Invocation.run : Invocation → Run m ExitCode
  | .check schema union => Command.check schema union
  | .generate schema union root runtimePath => Command.generate schema union root runtimePath
  | .sweep greatest root runtimePath => Command.sweep greatest root runtimePath

/-- Runs the program. -/
def program (arguments : List String) : m Outcome := do
  match Invocation.read arguments with
  | .error .version =>
    Host.printLine versionLine
    return ⟨.success, none⟩
  | .error .help =>
    Host.printLines usage
    return ⟨.success, none⟩
  | .error (.misuse cause) => return ⟨.misuse, some cause.message⟩
  | .ok invocation =>
    match ← invocation.run.run with
    | .ok code => return ⟨code, none⟩
    | .error e => return ⟨.failure, some e.message⟩

end TaggedUnion.Command
