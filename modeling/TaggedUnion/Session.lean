import TaggedUnion.Files.Tree
import TaggedUnion.Host

/-! # Sessions

    A session is a host as a value: a tree of files, the lines of input that are left, and
    what has been printed. What a command does to it is a function, which can be run and
    reasoned about.
-/

namespace TaggedUnion

/-- A line of input: its bytes, with the line feed that ends it. -/
abbrev InputLine := List UInt8

/-- The byte that ends a line. -/
def lineFeed : UInt8 := 10

/-- The lines that input is made of. The last one may lack its line feed. -/
def inputLines : List UInt8 → List InputLine
  | [] => []
  | b :: bs =>
    if b = lineFeed then [b] :: inputLines bs
    else
      match inputLines bs with
      | [] => [[b]]
      | l :: ls => (b :: l) :: ls

/-- Files, the input that is left, and the output so far. -/
structure Session where
  files : FileTree
  /-- The lines that have not been read. -/
  input : List InputLine
  /-- What has been printed. -/
  output : String
deriving DecidableEq

/-- What comes of asking for a line. -/
structure Asked (γ : Type) where
  /-- What the accepted line means; none if the input ended before. -/
  answer : Except FileError (Option γ)
  /-- The number of lines that were refused. -/
  refused : Nat
  /-- The lines that have not been read. -/
  rest : List InputLine

/-- Reads lines until one is accepted. A line that is not text ends the reading. -/
def askLines {γ : Type} (accept : String → Option γ) : List InputLine → Asked γ
  | [] => ⟨.ok none, 0, []⟩
  | l :: ls =>
    match Host.decode l.toByteArray with
    | .error e => ⟨.error e, 0, ls⟩
    | .ok s =>
      match accept s with
      | some a => ⟨.ok (some a), 0, ls⟩
      | none =>
        let asked := askLines accept ls
        { asked with refused := asked.refused + 1 }

namespace Session

/-- The session that begins with files and input. -/
def begin (files : FileTree) (input : List UInt8) : Session := ⟨files, inputLines input, ""⟩

/-- The number of bytes of input that are left. -/
def inputLeft (s : Session) : Nat := s.input.flatten.length

/-- The session with more output. -/
def printed (s : Session) (text : String) : Session := { s with output := s.output ++ text }

instance : Host (StateM Session) where
  readFile path := do return (← get).files.read (.ofText path)
  makeDirectories path := modifyGet fun s =>
    let (files, made) := s.files.makeDirectories (.ofText path)
    (made, { s with files := files })
  writeFile path text := modifyGet fun s =>
    match s.files.write (.ofText path) text.toUTF8 with
    | .ok files => (.ok (), { s with files := files })
    | .error e => (.error e, s)
  print text := modify (·.printed text)
  ask accept reply := modifyGet fun s =>
    let asked := askLines accept s.input
    (asked.answer,
      { s with input := asked.rest }.printed (String.join (List.replicate asked.refused reply)))

end Session

end TaggedUnion
