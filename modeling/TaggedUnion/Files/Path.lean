import TaggedUnion.Files.Error
import TaggedUnion.Text.Parts

/-! # Paths

    * **`joinPath`** puts one path behind another, as text.
    * **`Path`** is a path as it is walked: where it starts, and its parts between slashes.
    * **`Path.check`** refuses the paths that cannot be walked at all, wherever they lead.
-/

namespace TaggedUnion

/-- One path behind another. A path that starts at the root of the tree stays as it is. -/
def joinPath (root path : String) : String :=
  if path.toList.head? = some '/' then path
  else if root = "" ∨ root.toList.getLast? = some '/' then root ++ path
  else root ++ "/" ++ path

/-- A path as it is walked. -/
structure Path where
  /-- It starts at the root of the tree, not in the working directory. -/
  isAbsolute : Bool
  /-- What stands between its slashes, with an empty part where two slashes meet and where
      a slash ends the path. -/
  parts : List String
deriving Repr, DecidableEq, Inhabited

namespace Path

/-- The path that a text means. -/
def ofText (s : String) : Path :=
  match (Text.parts '/' s.toList).map String.ofList with
  | "" :: p :: ps => ⟨true, p :: ps⟩
  | ps => ⟨false, ps⟩

/-- A path as text. -/
def toText (p : Path) : String :=
  (if p.isAbsolute then "/" else "") ++ "/".intercalate p.parts

/-- The least number of bytes for which a path is too long. -/
def byteBound : Nat := 4096

/-- The greatest number of bytes of a name in a path. -/
def nameLimit : Nat := 255

/-- A part that names the directory it stands in. -/
def isHere (part : String) : Bool := part == "" || part == "."

/-- The part that names the directory above. -/
def above : String := ".."

/-- The path of the directory that the last part of a path stands in, as it is written:
    slashes that meet and parts that lead nowhere count in its length. -/
def parent (p : Path) : Path :=
  { p with parts := ((p.parts.reverse.dropWhile isHere).tail.dropWhile isHere).reverse }

/-- Refuses a path that cannot be walked at all: one with a null character, the empty one,
    and one that is too long. -/
def check (p : Path) : Except FileError Unit :=
  if p.parts.any (·.toList.contains '\x00') then .error .nullInName
  else if p.toText = "" then .error .notFound
  else if byteBound ≤ p.toText.utf8ByteSize then .error .nameTooLong
  else .ok ()

end Path

end TaggedUnion
