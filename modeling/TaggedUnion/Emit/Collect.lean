import TaggedUnion.Emit.Core

/-! # Taps and partition

    * **`tap`**: a function per case that shows the held value of the case to `f` and
      returns the union as it is.
    * **`partition`**: a function that splits unions by case into one vector each.
-/

namespace TaggedUnion.Emit

open Code

/-! ### Taps -/

/-- The function that shows the value of a case. -/
def tapFunction (s : Shape) (c : ShapeCase) : Function where
  docs :=
    ["Calls `f` with the held `" ++ c.typeName ++ "`, if any, and returns the union unchanged."]
  attributes := [mustUse]
  name := "tap_" ++ c.stem
  receiver := some "self"
  parameters := [("f", "impl FnOnce(&" ++ c.typeName ++ ")")]
  result := some "Self"
  body := some
    [.within (.ifHeld c.variant s.binding "self") (.run (.call "f" [s.binding])),
      .value (.name "self")]

/-- A tap for every case. -/
def tap (s : Shape) : List Item :=
  [.implementation {
    typeParameters := s.typeParameters
    target := s.selfType
    functions := s.cases.map (tapFunction s) }]

/-! ### Partition -/

/-- Names or types in round brackets. -/
def tuple (xs : List String) : String := "(" ++ commaSeparated xs ++ ")"

/-- The function that splits unions by case. -/
def partitionFunction (s : Shape) : Function :=
  let items := s.fresh "I"
  { docs := ["Splits unions by held case, keeping their order within each case.", "",
      "# Returns", "One vector per case, in declaration order."]
    attributes := (if 4 ≤ s.arity then ["allow(clippy::type_complexity)"] else []) ++ [mustUse]
    name := "partition"
    typeParameters := [[items]]
    parameters := [("items", items)]
    result := some (tuple (s.cases.map fun c => "Vec<" ++ c.typeName ++ ">"))
    bounds := some [⟨items, "IntoIterator<Item = Self>"⟩]
    body := some
      ((s.cases.map fun c => .bind ("mut " ++ c.stem) (.call "Vec::new" []))
        ++ [.within (.forEach "item" "items")
              (.dispatch "item" (s.cases.map fun c =>
                arm s c (.method (.name c.stem) "push" [s.binding]))),
            .value (.name (tuple (s.cases.map (·.stem))))]) }

/-- The function that splits unions by case. -/
def partition (s : Shape) : List Item :=
  [.implementation {
    typeParameters := s.typeParameters
    target := s.selfType
    functions := [partitionFunction s] }]

end TaggedUnion.Emit
