import TaggedUnion.Emit.Assertions
import TaggedUnion.Emit.Collect
import TaggedUnion.Emit.Core
import TaggedUnion.Emit.Dispatch
import TaggedUnion.Emit.Transform

/-! # Families of emitted code

    The code of a union comes in eight families, each written to a file of its own. A
    generic union has all of them; a named union has the six in `Family.ofNamed`.
-/

namespace TaggedUnion

/-- A family of emitted code. -/
inductive Family where
  /-- The union type, its constructors and accessors. -/
  | core
  /-- Dispatch to handlers that return a value. -/
  | matching
  /-- Dispatch to handlers that return nothing. -/
  | switching
  /-- Transforms of the held value. -/
  | map
  /-- Transforms into another union. -/
  | bind
  /-- Looks at the value of one case. -/
  | tap
  /-- Splitting unions by case. -/
  | partition
  /-- Assertions for tests. -/
  | assertions
deriving Repr, DecidableEq, Inhabited

namespace Family

/-- The families of a generic union, in order. -/
def all : List Family :=
  [.core, .matching, .switching, .map, .bind, .tap, .partition, .assertions]

/-- The families of a named union, in order. -/
def ofNamed : List Family := [.core, .matching, .switching, .map, .bind, .assertions]

/-- What a family is called. -/
def label : Family → String
  | .core => "core"
  | .matching => "match"
  | .switching => "switch"
  | .map => "map"
  | .bind => "bind"
  | .tap => "tap"
  | .partition => "partition"
  | .assertions => "test assertions"

/-- The end of the file name for a named union. -/
def fileSuffix : Family → String
  | .core => "union"
  | .matching => "match"
  | .switching => "switch"
  | .map => "map"
  | .bind => "bind"
  | .tap => "tap"
  | .partition => "partition"
  | .assertions => "test_extensions"

/-- The file for the generic unions. -/
def sweepPath : Family → String
  | .core => "union.rs"
  | .matching => "extensions/match_extensions.rs"
  | .switching => "extensions/switch_extensions.rs"
  | .map => "extensions/map_extensions.rs"
  | .bind => "extensions/bind_extensions.rs"
  | .tap => "extensions/tap_extensions.rs"
  | .partition => "collections/partition_extensions.rs"
  | .assertions => "test_extensions/test_extensions.rs"

/-- The code of a family for a shape. -/
def items (f : Family) (s : Shape) : List Code.Item :=
  match f with
  | .core => Emit.core s
  | .matching => Emit.matchWith s
  | .switching => Emit.switch s
  | .map => Emit.Transform.map.items s
  | .bind => Emit.Transform.bind.items s
  | .tap => Emit.tap s
  | .partition => Emit.partition s
  | .assertions => Emit.assertions s

/-- The text of a family for a shape. -/
def text (f : Family) (s : Shape) : String := Code.render (f.items s)

/-- The trait that a family adds to the union, if it adds one. -/
def traitName? (f : Family) (s : Shape) : Option String :=
  match f with
  | .matching => some (Emit.matchTraitName s)
  | .switching => some (Emit.switchTraitName s)
  | .map => some (Emit.Transform.map.traitName s)
  | .bind => some (Emit.Transform.bind.traitName s)
  | .assertions => some (Emit.assertionsTraitName s)
  | .core | .tap | .partition => none

end Family

end TaggedUnion
