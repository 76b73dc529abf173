import TaggedUnion.Files.Path
import TaggedUnion.Generate
import TaggedUnion.Host

/-! # Artifacts and documents as files

    * **`Artifact.writeTo`** writes an artifact below a directory. A file that has the
      contents already is left alone.
    * **`generateFromFile`** reads a document from a file and emits the code of a union.
-/

namespace TaggedUnion

variable {m : Type → Type} [Monad m] [Host m]

/-- What came of writing an artifact. -/
structure Written where
  /-- The path of its file. -/
  path : String
  /-- The file was written; it did not have the contents before. -/
  changed : Bool
deriving Repr, DecidableEq

/-- Where an artifact is written to, below a directory. -/
def Artifact.target (a : Artifact) (root : String) : String := joinPath root a.path

/-- The file at a path has the contents of the artifact. -/
def Artifact.isAt (a : Artifact) (path : String) : m Bool := do
  match ← Host.readText path with
  | .ok text => return text == a.contents
  | .error _ => return false

/-- Writes an artifact below a directory, and makes the directories that are missing. -/
def Artifact.writeTo (a : Artifact) (root : String) : ExceptT FileError m Written := do
  ExceptT.mk (Host.makeDirectories (a.target root))
  if ← a.isAt (a.target root) then return ⟨a.target root, false⟩
  ExceptT.mk (Host.writeFile (a.target root) a.contents)
  return ⟨a.target root, true⟩

/-- Reads a document from a file and emits the code of one of its unions. -/
def generateFromFile (path name runtimePath : String) : ExceptT GenerateError m Generated :=
  ExceptT.mk do
    match ← Host.readText path with
    | .ok text => return generateFromText text name runtimePath
    | .error e => return .error (.file e)

end TaggedUnion
