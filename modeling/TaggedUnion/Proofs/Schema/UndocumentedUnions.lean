import TaggedUnion.Proofs.Schema.Checks
import TaggedUnion.Proofs.Schema.Gate
import TaggedUnion.Proofs.Schema.Undocumented

/-! # Unions without documentation

    The documentation of a constructor describes the parameters of the cases that are built with
    it, and that is all a union has of it:

    * **`Union.undocumented`**: a union without the documentation in its types and without the
      descriptions of its parameters.
    * **`UnionDeclaration.resolveIn_undocumented`**: a declaration means the same in a document
      without documentation, but for the documentation.
    * **`Union.validate_undocumented`**: no check looks at it.
    * **`Union.populate_undocumented`**: the choice of a constructor does not look at it, and its
      parameters are the same but for the descriptions.
-/

namespace TaggedUnion.Schema

/-! ### What is left out -/

/-- A parameter without its description. -/
def CaseParameter.undescribed (p : CaseParameter) : CaseParameter := { p with description := none }

/-- A case without the documentation of its type and of its parameters. -/
def Case.undocumented (c : Case) : Case :=
  { c with
    symbol := c.symbol.map TypeSymbol.undocumented
    parameters := c.parameters.map CaseParameter.undescribed }

/-- A union without documentation. -/
def Union.undocumented (u : Union) : Union := { u with cases := u.cases.map Case.undocumented }

/-! ### Looking up -/

theorem Document.type?_undocumented (d : Document) (name : String) :
    d.undocumented.type? name = (d.type? name).map TypeSymbol.undocumented := by
  rw [type?, typeId?_undocumented, type?, Option.map_bind]
  refine congrArg _ (funext fun id => ?_)
  exact List.getElem?_map

theorem Union.resolveCase_undocumented (d : Document) (position : Nat) (reference : String) :
    resolveCase d.undocumented position reference =
      (resolveCase d position reference).undocumented := by
  rw [resolveCase, d.type?_undocumented, resolveCase, Case.undocumented, Option.map_map]
  rfl

theorem UnionDeclaration.resolveIn_undocumented (declaration : UnionDeclaration) (d : Document) :
    declaration.resolveIn d.undocumented = (declaration.resolveIn d).undocumented := by
  have hcases : declaration.cases.mapIdx (Union.resolveCase d.undocumented) =
      (declaration.cases.mapIdx (Union.resolveCase d)).map Case.undocumented := by
    refine List.ext_getElem? fun i => ?_
    rw [List.getElem?_map, List.getElem?_mapIdx, List.getElem?_mapIdx, Option.map_map]
    exact congrArg (declaration.cases[i]?.map ·)
      (funext fun reference => Union.resolveCase_undocumented d i reference)
  rw [resolveIn, hcases]
  rfl

theorem Document.union?_undocumented (d : Document) (name : String) :
    d.undocumented.union? name = d.union? name := rfl

theorem Union.ofDocument_undocumented (d : Document) (name : String) :
    ofDocument d.undocumented name = (ofDocument d name).map undocumented := by
  cases hdeclared : d.union? name with
  | none =>
    rw [ofDocument, ofDocument, d.union?_undocumented, hdeclared]
    rfl
  | some declaration =>
    rw [ofDocument_of_union? hdeclared,
      ofDocument_of_union? ((d.union?_undocumented name).trans hdeclared),
      declaration.resolveIn_undocumented]
    rfl

/-! ### Checks -/

theorem TypeSymbol.keepsChecked_undocumented : KeepsChecked TypeSymbol.undocumented :=
  ⟨fun _ => rfl, fun _ => rfl, fun _ => rfl, fun _ => rfl, fun _ => rfl, fun _ => rfl⟩

/-- The checks find the same without documentation. -/
theorem Union.validate_undocumented (u : Union) : u.undocumented.validate = u.validate := by
  have hchange : u.undocumented.IsChangeOf u TypeSymbol.undocumented := List.map_map
  exact validate_congr rfl rfl rfl TypeSymbol.keepsChecked_undocumented hchange

/-! ### How a case is built -/

theorem TypeSymbol.selectConstructor_undocumented (t : TypeSymbol) :
    t.undocumented.selectConstructor = t.selectConstructor.map Constructor.undocumented := by
  have hcandidates : t.undocumented.publicConstructors.filter (!·.parameters.isEmpty) =
      (t.publicConstructors.filter (!·.parameters.isEmpty)).map Constructor.undocumented := by
    rw [publicConstructors, undocumented, List.filter_map, List.filter_map]
    rfl
  rw [selectConstructor, hcandidates, List.find?_map, List.head?_map, ← Option.map_or]
  rfl

theorem Constructor.caseParameters_undocumented (c : Constructor) :
    c.undocumented.caseParameters = c.caseParameters.map CaseParameter.undescribed := by
  rw [caseParameters, caseParameters, List.map_map]
  rfl

theorem Case.populate_undocumented (c : Case) :
    c.undocumented.populate = c.populate.undocumented := by
  obtain ⟨ordinal, name, reference, symbol, constructor, parameters⟩ := c
  cases symbol with
  | none => rfl
  | some t =>
    cases hchosen : t.selectConstructor with
    | none => simp [populate, undocumented, t.selectConstructor_undocumented, hchosen]
    | some k =>
      have href : k.undocumented.ref = k.ref := rfl
      simp [populate, undocumented, t.selectConstructor_undocumented, hchosen, href,
        k.caseParameters_undocumented]

theorem Union.populate_undocumented (u : Union) :
    u.undocumented.populate = u.populate.undocumented := by
  have hcases : (u.cases.map Case.undocumented).map Case.populate =
      (u.cases.map Case.populate).map Case.undocumented := by
    rw [List.map_map, List.map_map]
    exact List.map_congr_left fun c _ => c.populate_undocumented
  rw [populate, undocumented, hcases]
  rfl

end TaggedUnion.Schema
