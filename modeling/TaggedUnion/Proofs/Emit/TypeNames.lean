import TaggedUnion.Proofs.Emit.SweepNames

/-! # Type names that meet

    The files of a named union are made to be included in one module. There the type and the traits
    that they declare meet the case types, which are in scope or brought into it, and two types of
    the standard library that are written without their paths. This module says when all these
    names are distinct:

    * **`Shape.meetingTypes`**: the names.
    * **`TypesApart`**: what keeps them apart, as a demand on the union and its case types alone.
    * **`meetingTypes_generate_iff`**: the names are distinct exactly under this demand.
    * **`not_forall_meetingTypes_nodup`**: identifiers for names do not meet the demand.
-/

namespace TaggedUnion

open Code Emit

/-! ### The names -/

/-- The types of the standard library that are written without their paths. -/
def standardTypes : List String := ["Option", "Result"]

/-- The type names that meet in the module that includes all files of a named union. -/
def Shape.meetingTypes (s : Shape) : List String :=
  typeNames s.emitted ++ s.caseTypes ++ standardTypes

/-- The functions that look for the value of a case write a standard type without its path. -/
structure WritesStandardTypes (s : Shape) (c : ShapeCase) : Prop where
  get : ∃ f ∈ Family.core.ownFunctions s, Family.core.Emits s f ∧
    f.name = "try_get_" ++ c.stem ∧ f.result = some ("Option<&" ++ c.typeName ++ ">")
  into : ∃ f ∈ Family.core.ownFunctions s, Family.core.Emits s f ∧
    f.name = "try_into_" ++ c.stem ∧ f.result = some ("Result<" ++ c.typeName ++ ", Self>")

/-- The name of a union and those of its case types keep the names that meet apart. -/
structure TypesApart (union : String) (cases : List String) : Prop where
  /-- No case is called like the type of the union or like one of its traits. -/
  not_declared : ∀ ending ∈ typeEndings, union ++ ending ∉ cases
  /-- Neither a case nor the union is called like a standard type. -/
  not_standard : ∀ type ∈ standardTypes, type ∉ cases ∧ type ≠ union

instance (union : String) (cases : List String) : Decidable (TypesApart union cases) :=
  decidable_of_iff ((∀ ending ∈ typeEndings, union ++ ending ∉ cases) ∧
      ∀ type ∈ standardTypes, type ∉ cases ∧ type ≠ union)
    ⟨fun h => ⟨h.1, h.2⟩, fun h => ⟨h.not_declared, h.not_standard⟩⟩

/-! ### When they are distinct -/

namespace Shape

variable (s : Shape)

/-- A named union declares its type and five traits. -/
theorem typeNames_emitted : typeNames s.emitted = typeEndings.map (s.name ++ ·) := by
  have htraits : (s.emitted.flatMap Item.traits).map (·.name) =
      Family.ofNamed.flatMap fun f => (f.traitName? s).toList := by
    rw [emitted, List.flatMap_assoc, List.map_flatMap]
    exact List.flatMap_congr fun f _ => f.traits_items s
  rw [typeNames, s.enums_emitted, htraits]
  simp [Family.ofNamed, Family.traitName?, enumOf, typeEndings, matchTraitName, switchTraitName,
    Transform.traitName, assertionsTraitName]

/-- The names that a union declares are distinct. -/
theorem nodup_typeNames_emitted : (typeNames s.emitted).Nodup := by
  rw [typeNames_emitted, nodup_map_append_iff]
  decide

/-- No trait of a union is called like a standard type, whatever the name of the union is. -/
theorem append_ne_standard {ending type : String} (hending : ending ∈ typeEndings)
    (hne : ending ≠ "") (htype : type ∈ standardTypes) : s.name ++ ending ≠ type := by
  have hsuffix : ∀ ending ∈ typeEndings, ending ≠ "" → ∀ type ∈ standardTypes,
      ¬ ending.toList <:+ type.toList := by decide
  rintro rfl
  refine hsuffix ending hending hne _ htype ?_
  rw [String.toList_append]
  exact List.suffix_append _ _

/-- Where case types are distinct, so are all names that meet exactly if the demand is met. -/
theorem nodup_meetingTypes_iff (h : s.caseTypes.Nodup) :
    s.meetingTypes.Nodup ↔ TypesApart s.name s.caseTypes := by
  have hstandard : standardTypes.Nodup := by decide
  -- Each of the three lists is distinct, so that only names of two of them can be the same.
  rw [meetingTypes, List.nodup_append, List.nodup_append, and_iff_right s.nodup_typeNames_emitted,
    and_iff_right h, and_iff_right hstandard, typeNames_emitted]
  constructor
  · rintro ⟨hdeclared, hmeet⟩
    refine ⟨?_, ?_⟩
    · intro ending hending hmem
      exact hdeclared _ (List.mem_map_of_mem hending) _ hmem rfl
    · intro type htype
      refine ⟨fun hmem => hmeet _ (List.mem_append_right _ hmem) _ htype rfl, ?_⟩
      rintro rfl
      -- The type of the union is declared without an ending.
      have hname : s.name ∈ typeEndings.map (s.name ++ ·) :=
        List.mem_map.mpr ⟨"", by decide, String.append_empty⟩
      exact hmeet _ (List.mem_append_left _ hname) _ htype rfl
  · rintro ⟨hdeclared, hstandard⟩
    refine ⟨?_, ?_⟩
    · rintro name hname type htype rfl
      obtain ⟨ending, hending, rfl⟩ := List.mem_map.mp hname
      exact hdeclared ending hending htype
    · rintro name hname type htype rfl
      obtain ⟨hcase, hunion⟩ := hstandard name htype
      rcases List.mem_append.mp hname with hname | hname
      · obtain ⟨ending, hending, rfl⟩ := List.mem_map.mp hname
        by_cases hempty : ending = ""
        · rw [hempty, String.append_empty] at hunion
          exact hunion rfl
        · exact s.append_ne_standard hending hempty htype rfl
      · exact hcase hname

theorem writesStandardTypes {c : ShapeCase} (hc : c ∈ s.cases) : WritesStandardTypes s c := by
  have hown : Family.core.ownFunctions s = coreFunctions s := s.ownFunctions_core
  have hmem {f : Function} (hf : f ∈ [isFunction c, tryGetFunction s c, tryIntoFunction s c]) :
      f ∈ Family.core.ownFunctions s := by
    rw [hown]
    exact List.mem_append_right _ (List.mem_flatMap.mpr ⟨c, hc, hf⟩)
  have hget := hmem (f := tryGetFunction s c) (.tail _ (.head _))
  have hinto := hmem (f := tryIntoFunction s c) (.tail _ (.tail _ (.head _)))
  exact ⟨⟨_, hget, Family.emits_of_mem_ownFunctions hget, rfl, rfl⟩,
    ⟨_, hinto, Family.emits_of_mem_ownFunctions hinto, rfl, rfl⟩⟩

end Shape

/-! ### The unions of a document -/

open Schema in
/-- In a document that was filled by any operations, for every declared union in which the
    validation finds no error, the files are emitted, and in them the functions that look for the
    value of a case write the standard types without their paths. The type names that meet in the
    module that includes these files are distinct exactly if no case type is called like the type of
    the union or one of its traits, and neither a case type nor the union like a standard type. -/
theorem meetingTypes_generate_iff (scope : String) (ops : List Document.Operation)
    {name : String} {declaration : UnionDeclaration}
    (hdeclared : ((Document.empty scope).run ops).union? name = some declaration)
    (hvalid : (declaration.resolveIn ((Document.empty scope).run ops)).validate.isFatal = false)
    (path : String) :
    let d := (Document.empty scope).run ops
    let s := Shape.named (declaration.resolveIn d).populate path
    (∃ g, generate d name path = .ok g ∧
      g.artifacts = Family.ofNamed.map (Artifact.ofShape s)) ∧
    (∀ c ∈ s.cases, WritesStandardTypes s c) ∧
    (s.meetingTypes.Nodup ↔
      TypesApart name ((declaration.cases.filterMap d.type?).map (·.name))) := by
  intro d s
  have hsound : d.Sound := (Document.sound_empty scope).run ops
  have hacceptable := UnionDeclaration.isAcceptableIn_of_not_isFatal hvalid
  have hcases := UnionDeclaration.map_cases_shape hacceptable.resolved path
  have htypes : s.caseTypes = (declaration.cases.filterMap d.type?).map (·.name) := by
    simpa [s, Shape.caseTypes, Function.comp_def] using congrArg (List.map Prod.snd) hcases
  have hname : s.name = name := Document.name_of_union? hdeclared
  refine ⟨⟨_, generate_of_not_isFatal hdeclared hvalid path, rfl⟩,
    fun c hc => s.writesStandardTypes hc, ?_⟩
  rw [← hname, ← htypes]
  exact s.nodup_meetingTypes_iff (htypes ▸ hacceptable.names_nodup hsound)

/-- Operations that declare a union whose case types are called like the ending of one of its
    traits, and like the union with a standard type behind it. -/
def nearby : List Schema.Document.Operation :=
  [.addType { name := "Assertions", kind := .record },
    .addType { name := "JobOption", modulePath := some "shapes" },
    .addUnion { scope := "demo", name := "Job", cases := ["Assertions", "JobOption"] }]

theorem meetingTypes_nearby :
    ∃ declaration, ((Schema.Document.empty "demo").run nearby).union? "Job" = some declaration ∧
      let u := declaration.resolveIn ((Schema.Document.empty "demo").run nearby)
      u.validate.isFatal = false ∧
      (Shape.named u.populate defaultRuntimePath).meetingTypes.Nodup := by
  have hjob : ((Schema.Document.empty "demo").run nearby).union? "Job" =
      some ⟨"demo", "Job", true, ["Assertions", "JobOption"]⟩ := rfl
  have hvalid : (Schema.UnionDeclaration.resolveIn
      ⟨"demo", "Job", true, ["Assertions", "JobOption"]⟩
      ((Schema.Document.empty "demo").run nearby)).validate.isFatal = false := by
    decide
  obtain ⟨-, -, hiff⟩ := meetingTypes_generate_iff "demo" nearby hjob hvalid defaultRuntimePath
  exact ⟨_, hjob, hvalid, hiff.mpr (by decide)⟩

/-- Operations that declare a union with a case type that is called like a standard type. -/
def optional : List Schema.Document.Operation :=
  [.addType { name := "Option", kind := .record, modulePath := some "shapes" },
    .addType { name := "Retry", kind := .record },
    .addUnion { scope := "demo", name := "Job", cases := ["Option", "Retry"] }]

open Schema in
/-- Identifiers for names do not keep type names apart: a case type may be called `Option`. -/
theorem not_forall_meetingTypes_nodup :
    ¬ ∀ (scope : String) (ops : List Document.Operation) (name path : String)
      (declaration : UnionDeclaration),
      (∀ t ∈ ((Document.empty scope).run ops).types, Name.isPlain t.name) → Name.isPlain name →
      ((Document.empty scope).run ops).union? name = some declaration →
      (declaration.resolveIn ((Document.empty scope).run ops)).validate.isFatal = false →
      (Shape.named (declaration.resolveIn ((Document.empty scope).run ops)).populate
        path).meetingTypes.Nodup := by
  intro h
  have hjob : ((Document.empty "demo").run optional).union? "Job" =
      some ⟨"demo", "Job", true, ["Option", "Retry"]⟩ := rfl
  have hnodup := h "demo" optional "Job" defaultRuntimePath _ (by decide) (by decide) hjob
    (by decide)
  revert hnodup
  decide

end TaggedUnion
