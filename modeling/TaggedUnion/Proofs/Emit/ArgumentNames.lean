import TaggedUnion.Proofs.Emit.ConstructorFunctions

/-! # Names of arguments

    The arguments of a function that builds a case are named after the parameters of a constructor,
    in snake case and set apart from keywords. Either step may make one name of two. This module
    says when:

    * **`Name.identifier_eq_iff`**: names are set apart from keywords without looking at other
      names, so that a name that is written like a keyword set apart becomes the same.
    * **`ArgumentsApart`**: what keeps the arguments apart, as a demand on the parameter names.
    * **`arguments_nodup_iff`**: arguments are distinct exactly under this demand, in all functions
      that build cases.
    * **`not_forall_arguments_nodup`**: distinct names of parameters do not meet the demand.
-/

namespace TaggedUnion

open Code Emit

/-! ### Names that become the same -/

namespace Name

/-- A name is written as a keyword is that is set apart. -/
def IsEscapeOf (name keyword : String) : Prop := keyword ∈ keywords ∧ name = identifier keyword

instance (name keyword : String) : Decidable (IsEscapeOf name keyword) :=
  inferInstanceAs (Decidable (_ ∧ _))

theorem identifier_of_notMem {name : String} (h : name ∉ keywords) : identifier name = name := by
  have hrawless : ∀ keyword ∈ rawlessKeywords, keyword ∈ keywords := by decide
  rw [identifier, if_neg fun hmem => h (hrawless name hmem), if_neg h]

/-- A keyword that is set apart is no keyword. -/
theorem identifier_notMem_keywords (name : String) : identifier name ∉ keywords := by
  have hall : ∀ keyword ∈ keywords, identifier keyword ∉ keywords := by decide +kernel
  by_cases h : name ∈ keywords
  · exact hall name h
  · rwa [identifier_of_notMem h]

/-- Keywords stay different. -/
theorem nodup_map_identifier_keywords : (keywords.map identifier).Nodup := by decide +kernel

/-- Names become the same only where one of them is written as the other one is set apart. -/
theorem identifier_eq_iff {a b : String} :
    identifier a = identifier b ↔ a = b ∨ IsEscapeOf a b ∨ IsEscapeOf b a := by
  constructor
  · intro heq
    by_cases ha : a ∈ keywords
    · by_cases hb : b ∈ keywords
      · exact .inl (List.inj_on_of_nodup_map nodup_map_identifier_keywords ha hb heq)
      · exact .inr (.inr ⟨ha, by rw [heq, identifier_of_notMem hb]⟩)
    · by_cases hb : b ∈ keywords
      · exact .inr (.inl ⟨hb, by rw [← heq, identifier_of_notMem ha]⟩)
      · rw [identifier_of_notMem ha, identifier_of_notMem hb] at heq
        exact .inl heq
  · rintro (rfl | ⟨-, rfl⟩ | ⟨-, rfl⟩)
    · rfl
    · exact identifier_of_notMem (identifier_notMem_keywords b)
    · exact (identifier_of_notMem (identifier_notMem_keywords a)).symm

/-- No keyword is written as another one is set apart. -/
theorem not_isEscapeOf_self (name : String) : ¬ IsEscapeOf name name := by
  rintro ⟨hmem, heq⟩
  rw [heq] at hmem
  exact identifier_notMem_keywords name hmem

end Name

/-- The names of parameters keep the arguments for them apart. -/
structure ArgumentsApart (names : List String) : Prop where
  /-- They differ in snake case. -/
  nodup : (names.map Name.snake).Nodup
  /-- None is written as another one is that is a keyword. -/
  not_escape : ∀ a ∈ names, ∀ b ∈ names, ¬ Name.IsEscapeOf (Name.snake a) (Name.snake b)

instance (names : List String) : Decidable (ArgumentsApart names) :=
  decidable_of_iff ((names.map Name.snake).Nodup ∧
      ∀ a ∈ names, ∀ b ∈ names, ¬ Name.IsEscapeOf (Name.snake a) (Name.snake b))
    ⟨fun h => ⟨h.1, h.2⟩, fun h => ⟨h.nodup, h.not_escape⟩⟩

theorem nodup_map_argumentName_iff (parameters : List Schema.Parameter) :
    (parameters.map (·.argumentName)).Nodup ↔ ArgumentsApart (parameters.map (·.name)) := by
  have hsteps : parameters.map (·.argumentName) =
      ((parameters.map (·.name)).map Name.snake).map Name.identifier := by
    rw [List.map_map, List.map_map]
    rfl
  rw [hsteps]
  constructor
  · intro h
    refine ⟨h.of_map, ?_⟩
    intro a ha b hb hescape
    have heq := Name.identifier_eq_iff.mpr (.inr (.inl hescape))
    have hsame := List.inj_on_of_nodup_map h (List.mem_map_of_mem ha) (List.mem_map_of_mem hb) heq
    rw [hsame] at hescape
    exact Name.not_isEscapeOf_self _ hescape
  · rintro ⟨hnodup, hescape⟩
    refine List.Nodup.map_on ?_ hnodup
    intro x hx y hy heq
    obtain ⟨a, ha, rfl⟩ := List.mem_map.mp hx
    obtain ⟨b, hb, rfl⟩ := List.mem_map.mp hy
    rcases Name.identifier_eq_iff.mp heq with hsame | hab | hba
    · exact hsame
    · exact absurd hab (hescape a ha b hb)
    · exact absurd hba (hescape b hb a ha)

/-! ### The functions of a union -/

open Schema in
/-- For every union that a document declares, valid or not, each function that builds a case
    declares an argument for each parameter of the constructor, and these arguments are distinct
    exactly if the parameter names differ in snake case and none of them is there written as another
    one is that is a keyword. -/
theorem arguments_nodup_iff (declaration : UnionDeclaration) (d : Document) (path : String) :
    List.Forall₂
      (fun t f => f.name = "new_" ++ t.stem ∧ ∃ k, t.IsBuiltWith k ∧
        f.parameters.map (·.1) =
          k.parameters.map (fun p => Name.identifier (Name.snake p.name)) ∧
        ((f.parameters.map (·.1)).Nodup ↔ ArgumentsApart (k.parameters.map (·.name))))
      ((declaration.cases.filterMap d.type?).filter fun t => decide t.IsBuildable)
      ((Family.core.ownFunctions
        (Shape.named (declaration.resolveIn d).populate path)).filter Function.isNew) := by
  refine (declaration.forall₂_buildsCase d path).imp ?_
  rintro t f ⟨k, hk, hbuilds⟩
  have harguments : f.parameters.map (·.1) = k.parameters.map (·.argumentName) := by
    rw [hbuilds.parameters, List.map_map]
    rfl
  refine ⟨hbuilds.name, k, hk, harguments, ?_⟩
  rw [harguments]
  exact nodup_map_argumentName_iff k.parameters

/-! ### Distinct names are not enough -/

section escaped

open Schema

/-- A constructor with a keyword for a parameter name, and a name that is written like it. -/
def escapedType : TypeSymbol where
  id := 1
  name := "Run"
  kind := .record
  constructors := [{ parameters := [⟨"self", "u8"⟩, ⟨"self_", "u8"⟩] }]

def escaped : Document :=
  (Document.empty "demo").run
    [.addType escapedType, .addType { name := "Stop", kind := .record },
      .addUnion { scope := "demo", name := "Job", cases := ["Run", "Stop"] }]

/-- Arguments of one function may have one name though the names of the parameters are distinct, and
    are identifiers or keywords: the keyword `self` is set apart by an underscore. -/
theorem not_forall_arguments_nodup :
    ¬ ∀ (d : Document) (name path : String) (declaration : UnionDeclaration),
      d.union? name = some declaration →
      (declaration.resolveIn d).validate.isFatal = false →
      ∀ t ∈ declaration.cases.filterMap d.type?, ∀ k, t.IsBuiltWith k →
      (k.parameters.map (·.name)).Nodup →
      (∀ p ∈ k.parameters, Name.isPlain p.name ∨ p.name ∈ Name.keywords) →
      ∀ f ∈ Family.core.ownFunctions (Shape.named (declaration.resolveIn d).populate path),
        BuildsCase name t k f → (f.parameters.map (·.1)).Nodup := by
  intro h
  have hjob : escaped.union? "Job" = some ⟨"demo", "Job", true, ["Run", "Stop"]⟩ := rfl
  have htypes : (["Run", "Stop"].filterMap escaped.type?).filter (fun t => decide t.IsBuildable) =
      [escapedType] := rfl
  have hall := (⟨"demo", "Job", true, ["Run", "Stop"]⟩ : UnionDeclaration).forall₂_buildsCase
    escaped defaultRuntimePath
  rw [htypes] at hall
  obtain ⟨f, rest, ⟨k, hk, hbuilds⟩, -, hfunctions⟩ := List.forall₂_cons_left_iff.mp hall
  have hf := List.mem_of_mem_filter (hfunctions ▸ List.mem_cons_self)
  -- The type has one constructor.
  have hselected : escapedType.selectConstructor = escapedType.constructors[0]? := rfl
  rw [TypeSymbol.selectConstructor_eq_some_iff.mpr hk] at hselected
  obtain rfl := Option.some.inj hselected
  have hnodup := h escaped "Job" defaultRuntimePath _ hjob (by decide) escapedType (.head _) _ hk
    (by decide) (by decide) f hf hbuilds
  rw [hbuilds.parameters] at hnodup
  revert hnodup
  decide

end escaped

end TaggedUnion
