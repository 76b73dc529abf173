import TaggedUnion.Emit.Family

/-! # Artifacts

    An artifact is a file of emitted code: its family, a path below the directory that it
    is written to, and its contents, which begin with a header of two lines.
-/

namespace TaggedUnion

/-- The line that every emitted file begins with. -/
def generatedHeader : String := "// @generated by unionforge. Do not edit.\n"

/-- A file of emitted code. -/
structure Artifact where
  family : Family
  /-- The path below the output directory. -/
  path : String
  contents : String
deriving Repr, DecidableEq, Inhabited

namespace Artifact

/-- The artifact with a text behind the header. -/
def ofBody (family : Family) (path body : String) : Artifact :=
  ⟨family, path, generatedHeader ++ "\n" ++ body⟩

/-- The artifact of a family for the shape of a named union. -/
def ofShape (s : Shape) (family : Family) : Artifact :=
  .ofBody family (s.snakeName ++ "_" ++ family.fileSuffix ++ ".rs") (family.text s)

end Artifact

end TaggedUnion
