import TaggedUnion.Command.Basic
import TaggedUnion.Text.Blank
import TaggedUnion.Text.Natural

/-! # Emitting the generic unions

    The command writes the generic unions of all arities up to a greatest one. Where the
    greatest arity is not given, it is asked for until a line has a number in range.
-/

namespace TaggedUnion.Command

/-- The directory that the generic unions are written to, unless another one is given. -/
def sweepRoot : String := "generated"

/-! ### Asking for the arity -/

/-- The lines that are printed before the first answer. -/
def greeting : List String :=
  ["Welcome to the union sweep generator",
   s!"Please indicate the maximum arity to generate (between {minArity} and {maxArity}):"]

/-- What is printed where a line is no arity in range. -/
def reprompt : String :=
  s!"Invalid input. Please enter a number between {minArity} and {maxArity}:"

/-- The arity that a line means, blanks around it aside. -/
def arity? (line : String) : Option Nat := (Text.natural? (Text.trim line)).filter isSupported

variable {m : Type → Type} [Monad m] [Host m]

/-- Asks for the greatest arity. -/
def askArity : Run m Nat := do
  Host.printLines greeting
  match ← orStop .asking (Host.ask arity? (reprompt ++ "\n")) with
  | some n => return n
  | none => throw .endOfInput

/-- The greatest arity: the given one, if it is in range, or what is answered. -/
def greatestArity : Option Nat → Run m Nat
  | some n => if isSupported n then return n else throw (.arityOutside n)
  | none => askArity

/-! ### Writing -/

/-- What is printed before an artifact is written. -/
def progressLine : Family → String
  | .core => "Generating unions"
  | f => "Generating " ++ f.label ++ " extensions"

/-- Says what is being written, and writes it. -/
def sweepArtifact (root : String) (a : Artifact) : Run m Unit := do
  Host.printLine (progressLine a.family)
  discard (writeArtifact root a)

/-- Emits and writes the generic unions up to a greatest arity. -/
def sweep (greatest : Option Nat) (root runtimePath : String) : Run m ExitCode := do
  let n ← greatestArity greatest
  let artifacts ← orStop .sweeping (pure (sweepUpTo n runtimePath))
  Host.printLine ""
  artifacts.forM (sweepArtifact root)
  Host.printLine ""
  Host.printLine "Generation completed successfully."
  return .success

end TaggedUnion.Command
