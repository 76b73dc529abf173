import TaggedUnion.Files.Error

/-! # What commands work with

    A host gives a command its files, its lines of input, and a place to print to. Commands
    are written for any host: the operating system is one, and a `Session` another.

    An operation that can fail returns its cause as a value, so that a command decides what
    becomes of it.
-/

namespace TaggedUnion

/-- Files, lines of input, and printed output. -/
class Host (m : Type → Type) where
  /-- The contents of a file. -/
  readFile : String → m (Except FileError ByteArray)
  /-- Makes what is missing of the directories that a path leads through to its last
      part. -/
  makeDirectories : String → m (Except FileError Unit)
  /-- Writes a file that has a text as its contents. -/
  writeFile : String → String → m (Except FileError Unit)
  /-- Prints a text. -/
  print : String → m Unit
  /-- Reads lines until one is accepted, and prints a reply to each one that is not. There
      is no result if the input ends before. A line comes with the line feed that ends it. -/
  ask {γ : Type} (accept : String → Option γ) (reply : String) :
    m (Except FileError (Option γ))

/-- A computation that can fail has the host of the computations below it. -/
instance {ε : Type} {m : Type → Type} [Monad m] [Host m] : Host (ExceptT ε m) where
  readFile path := ExceptT.lift (Host.readFile path)
  makeDirectories path := ExceptT.lift (Host.makeDirectories path)
  writeFile path text := ExceptT.lift (Host.writeFile path text)
  print text := ExceptT.lift (Host.print text)
  ask accept reply := ExceptT.lift (Host.ask accept reply)

namespace Host

variable {m : Type → Type} [Monad m] [Host m]

/-- The text that bytes encode. -/
def decode (bytes : ByteArray) : Except FileError String :=
  match String.fromUTF8? bytes with
  | some s => .ok s
  | none => .error .notText

/-- The contents of a file, as text. -/
def readText (path : String) : m (Except FileError String) := do
  return (← Host.readFile path).bind decode

/-- Prints a line. -/
def printLine (line : String) : m Unit := Host.print (line ++ "\n")

/-- Prints lines. -/
def printLines (lines : List String) : m Unit := lines.forM printLine

end Host

end TaggedUnion
