import TaggedUnion.Schema.Documentation
import TaggedUnion.Schema.Union

/-! # How a case is built

    A case is built with the first public explicit constructor that has parameters, or else
    with the first public one of any kind that has. Its parameters are taken in order, each
    with its description from the constructor's documentation.
-/

namespace TaggedUnion.Schema

/-- The constructor that values of a type are built with. -/
def TypeSymbol.selectConstructor (t : TypeSymbol) : Option Constructor :=
  let candidates := t.publicConstructors.filter (!·.parameters.isEmpty)
  (candidates.find? (!·.implicit)).or candidates.head?

/-- The descriptions of the parameters of a constructor. -/
def Constructor.descriptions (c : Constructor) : Descriptions :=
  (c.documentation.bind Descriptions.read).getD []

/-- The parameters of a constructor with their descriptions. -/
def Constructor.caseParameters (c : Constructor) : List CaseParameter :=
  c.parameters.map fun p => ⟨p.typeName, p.name, c.descriptions.lookup p.name⟩

/-- A constructor as a case refers to it. -/
def Constructor.ref (c : Constructor) : ConstructorRef := ⟨c.name, c.implicit⟩

/-- The case with the constructor and the parameters that its type gives it. A case that
    leads nowhere stays as it is. -/
def Case.populate (c : Case) : Case :=
  match c.symbol with
  | none => c
  | some t =>
    let chosen := t.selectConstructor
    { c with
      constructor := chosen.map Constructor.ref
      parameters := (chosen.map Constructor.caseParameters).getD [] }

/-- The union with every case populated. -/
def Union.populate (u : Union) : Union := { u with cases := u.cases.map Case.populate }

end TaggedUnion.Schema
