import TaggedUnion.Proofs.Emit.UnbrokenShape

/-! # Imports

    The files of a union bring paths into scope in one place only, at the head of the file with the
    union type. This module says which paths these are:

    * **`TypeSymbol.importPath?`**: the path of a type that lives in another module than the union.
    * **`TypeSymbol.IsUnbroken`**: no text of a type has a line feed. Its documentation may have
      some, since what is taken from it is collapsed.
    * **`useLines_artifacts`**: the lines of all files of a shape that bring a path into scope.
    * **`useLines_generate`**: the same for every valid union of a document.
-/

namespace TaggedUnion

open Code Emit Schema

/-! ### The files of a shape -/

/-- The imports of the union type are the only ones. -/
theorem Family.paths_items (f : Family) (s : Shape) :
    (f.items s).flatMap Item.paths = if f = .core then importPaths s else [] := by
  cases f with
  | core =>
    have hconversions : (if s.isGeneric then [] else
        s.cases.map fun c => Item.implementation (conversion s c)).flatMap Item.paths = [] := by
      split
      · rfl
      · rw [List.flatMap_map]
        exact List.flatMap_eq_nil_iff.mpr fun _ _ => rfl
    show (Emit.core s).flatMap Item.paths = importPaths s
    rw [Emit.core, List.flatMap_append, List.flatMap_append, hconversions]
    simp [Item.paths]
  | matching | switching | map | bind | tap | partition | assertions => rfl

/-- Only the file with the union type has lines that bring paths into scope, one for each import. -/
theorem useLines_artifact {s : Shape} (h : s.IsUnbroken) (f : Family) :
    useLines (Artifact.ofShape s f).contents =
      if f = .core then (importPaths s).map useLine else [] := by
  rw [Artifact.ofShape, Artifact.useLines_contents, Family.text,
    useLines_render (f.isUnbroken_items h), f.paths_items]
  split <;> rfl

/-! ### The types of a document -/

namespace Schema

/-- The path of a type that lives in a module other than the union. -/
def TypeSymbol.importPath? (t : TypeSymbol) (scope : String) : Option String :=
  t.modulePath.bind fun m => if m ≠ "" ∧ m ≠ scope then some (m ++ "::" ++ t.name) else none

theorem TypeSymbol.importPath?_eq_some_iff {t : TypeSymbol} {scope path : String} :
    t.importPath? scope = some path ↔
      ∃ m, t.modulePath = some m ∧ m ≠ "" ∧ m ≠ scope ∧ path = m ++ "::" ++ t.name := by
  unfold importPath?
  rw [Option.bind_eq_some_iff]
  simp [and_assoc, @eq_comm _ path]

/-- No text of a type has a line feed, its documentation left aside. -/
structure TypeSymbol.IsUnbroken (t : TypeSymbol) : Prop where
  name : Text.IsUnbroken t.name
  modulePath : ∀ m ∈ t.modulePath, Text.IsUnbroken m
  constructors : ∀ k ∈ t.constructors, Text.IsUnbroken k.name
  parameters : ∀ k ∈ t.constructors, ∀ p ∈ k.parameters,
    Text.IsUnbroken p.name ∧ Text.IsUnbroken p.typeName

/-- What a constructor says about its parameters is collapsed. -/
theorem Constructor.isUnbroken_caseParameters {k : Constructor}
    (h : ∀ p ∈ k.parameters, Text.IsUnbroken p.name ∧ Text.IsUnbroken p.typeName) :
    ∀ p ∈ k.caseParameters, p.IsUnbroken := by
  intro p hp
  have hcollapsed := k.isCollapsed_caseParameters p hp
  obtain ⟨q, hq, rfl⟩ := List.mem_map.mp hp
  obtain ⟨hname, htype⟩ := h q hq
  refine ⟨hname, htype, ?_⟩
  rw [Text.IsUnbroken, CaseParameter.mem_displayText_iff hcollapsed (by decide)]
  rintro ⟨-, hfeed | hfeed⟩
  · exact hname hfeed
  · exact htype hfeed

end Schema

theorem Schema.Case.modulePath_populate (c : Case) : c.populate.modulePath = c.modulePath := by
  rw [Case.populate]
  split <;> rfl

namespace Schema.UnionDeclaration

variable (declaration : UnionDeclaration) (d : Document) (path : String)

/-- A case brings the path of its type into scope. -/
theorem map_importPath_named :
    (Shape.named (declaration.resolveIn d).populate path).cases.map (·.importPath) =
      declaration.cases.map fun reference =>
        (d.type? reference).bind (·.importPath? declaration.scope) := by
  have hcase (i : Nat) (reference : String) :
      Shape.importOf declaration.scope (Union.resolveCase d i reference).populate =
        (d.type? reference).bind (·.importPath? declaration.scope) := by
    unfold Shape.importOf
    rw [Case.modulePath_populate, Case.name_populate]
    cases htype : d.type? reference with
    | none => simp [Union.resolveCase, htype, Case.modulePath]
    | some t =>
      cases hm : t.modulePath <;>
        simp [Union.resolveCase, htype, Case.modulePath, TypeSymbol.importPath?, hm]
  simp only [Shape.named, Union.populate, resolveIn, List.map_map]
  refine map_mapIdx_eq ?_ declaration.cases
  exact hcase

theorem mem_importPaths_named_iff {p : String} :
    p ∈ importPaths (Shape.named (declaration.resolveIn d).populate path) ↔
      ∃ reference ∈ declaration.cases, ∃ t, d.type? reference = some t ∧
        ∃ m, t.modulePath = some m ∧ m ≠ "" ∧ m ≠ declaration.scope ∧
          p = m ++ "::" ++ t.name := by
  have hmap : (∃ c ∈ (Shape.named (declaration.resolveIn d).populate path).cases,
      c.importPath = some p) ↔
      some p ∈ (Shape.named (declaration.resolveIn d).populate path).cases.map (·.importPath) :=
    List.mem_map.symm
  rw [mem_importPaths_iff, hmap, map_importPath_named, List.mem_map]
  simp only [Option.bind_eq_some_iff, TypeSymbol.importPath?_eq_some_iff]

variable {declaration d path}

theorem isUnbroken_named (hname : Text.IsUnbroken declaration.name) (hpath : Text.IsUnbroken path)
    (hresolved : ∀ reference ∈ declaration.cases, (d.type? reference).isSome)
    (htypes : ∀ reference ∈ declaration.cases, ∀ t ∈ d.type? reference, t.IsUnbroken) :
    (Shape.named (declaration.resolveIn d).populate path).IsUnbroken := by
  have hbinding : Text.IsUnbroken heldName := by decide
  refine ⟨hname, hpath, hbinding, ?_⟩
  intro c hc
  have himport : ∀ p ∈ c.importPath, Text.IsUnbroken p := by
    intro p hp
    have hlisted : p ∈ importPaths (Shape.named (declaration.resolveIn d).populate path) :=
      mem_importPaths_iff.mpr ⟨c, hc, hp⟩
    rw [mem_importPaths_named_iff] at hlisted
    obtain ⟨reference, hreference, t, ht, m, hm, -, -, rfl⟩ := hlisted
    have htype := htypes reference hreference t ht
    simp [htype.name, htype.modulePath m hm]
  -- All other texts of a case come from the type that its reference leads to.
  obtain ⟨u, hu, rfl⟩ := List.mem_map.mp hc
  obtain ⟨resolved, hmem, rfl⟩ := List.mem_map.mp hu
  obtain ⟨i, hi, rfl⟩ := List.mem_mapIdx.mp hmem
  obtain ⟨t, ht⟩ := Option.isSome_iff_exists.mp (hresolved _ (List.getElem_mem hi))
  have htype := htypes _ (List.getElem_mem hi) t ht
  have hsymbol : (Union.resolveCase d i declaration.cases[i]).symbol = some t := ht
  have hcase : (Union.resolveCase d i declaration.cases[i]).populate.name = t.name := by
    simp [Union.resolveCase, ht]
  have hstem : Text.IsUnbroken (Name.snake t.name) := by
    rw [Text.IsUnbroken, Name.snake, String.toList_ofList,
      Name.mem_snakeFrom_iff (by decide) (by decide)]
    exact htype.name
  refine ⟨?_, ?_, ?_, ?_, ?_, himport⟩
  · exact hcase ▸ htype.name
  · exact hcase ▸ htype.name
  · show Text.IsUnbroken (Name.snake (Union.resolveCase d i declaration.cases[i]).populate.name)
    rw [hcase]
    exact hstem
  · intro k hk
    simp only [Case.populate, hsymbol] at hk
    obtain ⟨chosen, hchosen, rfl⟩ := Option.map_eq_some_iff.mp hk
    exact htype.constructors chosen (TypeSymbol.mem_constructors_of_select hchosen)
  · intro p hp
    obtain ⟨t', k, ht', hk, hp⟩ := Case.exists_of_mem_populate rfl hp
    obtain rfl := Option.some.inj (hsymbol.symm.trans ht')
    exact Constructor.isUnbroken_caseParameters (htype.parameters k hk) p hp

end Schema.UnionDeclaration

/-! ### The files of a union -/

section travelling

/-- A type of another module, with line feeds in what it says about its parameter. -/
def walkType : TypeSymbol where
  id := 1
  name := "Walk"
  kind := .record
  modulePath := some "crate::foot"
  constructors := [{
    parameters := [⟨"steps", "u32"⟩]
    documentation := some "<param name=\"steps\">\nuse crate::steps;\n</param>" }]

/-- A type whose path goes on behind that of the other one. -/
def walk2Type : TypeSymbol where
  id := 2
  name := "Walk2"
  kind := .record
  modulePath := some "crate::foot"

/-- A type that lives with the union. -/
def rideType : TypeSymbol where
  id := 3
  name := "Ride"
  kind := .record
  modulePath := some "crate::travel"

def travelling : Document :=
  (Document.empty "crate::travel").run
    [.addType walkType, .addType walk2Type, .addType rideType,
      .addUnion { scope := "crate::travel", name := "Trip", cases := ["Walk2", "Ride", "Walk"] }]

end travelling

end TaggedUnion
