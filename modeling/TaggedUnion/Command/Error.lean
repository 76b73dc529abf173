import TaggedUnion.Generate

/-! # Why a command stops

    A command that stops says what it was doing, what went wrong, and what had caused
    that, outermost first and with colons between.
-/

namespace TaggedUnion.Command

/-- The greatest number of cases that can be asked for. -/
def maxArity : Nat := 15

/-- The number of cases lies in the range that can be asked for. -/
def isSupported (arity : Nat) : Bool := minArity ≤ arity && arity ≤ maxArity

/-- A cause for which a command stops. -/
inductive Error where
  /-- A schema file cannot be read. -/
  | reading (path : String) (cause : FileError)
  /-- A schema file cannot be understood. -/
  | parsing (path : String) (cause : Schema.Error)
  /-- A union that is to be checked is not declared. -/
  | checking (union : String) (cause : Schema.UnionNotFound)
  /-- No code can be emitted for a union. -/
  | generating (union : String) (cause : GenerateError)
  /-- No code can be emitted for the generic unions. -/
  | sweeping (cause : GenerateError)
  /-- An artifact cannot be written. -/
  | writing (path : String) (cause : FileError)
  /-- A greatest number of cases is given that cannot be asked for. -/
  | arityOutside (arity : Nat)
  /-- The input ended before it was answered what was asked. -/
  | endOfInput
  /-- A line of input cannot be read. -/
  | asking (cause : FileError)
deriving Repr, DecidableEq

namespace Error

/-- What the command was doing, if that is said, and what went wrong, outermost first. -/
def trail : Error → List String
  | .reading path e => ["reading schema " ++ path, e.message]
  | .parsing path e => ("parsing schema " ++ path) :: e.trail
  | .checking union e => ["checking union " ++ union, e.message]
  | .generating union e => ("generating union " ++ union) :: e.trail
  | .sweeping e => e.trail
  | .writing path e => ("writing " ++ path) :: e.trail
  | .arityOutside n => [s!"maximum arity {n} is outside {minArity}..={maxArity}"]
  | .endOfInput => ["input ended before a valid arity was entered"]
  | .asking e => [e.message]

/-- The wording of a cause. -/
def message (e : Error) : String := ": ".intercalate e.trail

end Error

end TaggedUnion.Command
