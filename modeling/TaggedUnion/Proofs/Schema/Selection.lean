import Mathlib
import TaggedUnion.Schema.Introspection

/-! # How constructors are chosen

    The constructor that values of a type are built with is found by two searches, of which the
    second one may find what the first one was not looking for. This module says which constructor
    that is, and what documents its parameters:

    * **`Constructor.IsUsable`**: the constructors that are considered.
    * **`TypeSymbol.IsBuiltWith`**: the one that is chosen, by what stands before it.
    * **`Constructor.Documents`**: the text that documents a parameter.
-/

namespace TaggedUnion.Schema

/-! ### The choice -/

/-- A constructor that emitted code may call, and that has parameters. -/
structure Constructor.IsUsable (k : Constructor) : Prop where
  isPublic : k.isPublic = true
  parameters : k.parameters ≠ []

theorem Constructor.isUsable_iff (k : Constructor) :
    k.IsUsable ↔ (k.isPublic && !k.parameters.isEmpty) = true := by
  rw [Bool.and_eq_true, Bool.not_eq_true', List.isEmpty_eq_false_iff]
  exact ⟨fun h => ⟨h.isPublic, h.parameters⟩, fun h => ⟨h.1, h.2⟩⟩

instance : DecidablePred Constructor.IsUsable := fun k =>
  decidable_of_iff _ k.isUsable_iff.symm

/-- A type that values can be built of from parameters. -/
def TypeSymbol.IsBuildable (t : TypeSymbol) : Prop := ∃ k ∈ t.constructors, k.IsUsable

instance : DecidablePred TypeSymbol.IsBuildable := fun t =>
  inferInstanceAs (Decidable (∃ k ∈ t.constructors, k.IsUsable))

/-- The constructor that values of a type are built with. -/
inductive TypeSymbol.IsBuiltWith (t : TypeSymbol) (k : Constructor) : Prop where
  /-- The first explicit one. -/
  | explicit (before after : List Constructor) (split : t.constructors = before ++ k :: after)
      (usable : k.IsUsable) (kind : k.implicit = false)
      (first : ∀ j ∈ before, j.IsUsable → j.implicit = true)
  /-- The first one, where none is explicit. -/
  | implicit (before after : List Constructor) (split : t.constructors = before ++ k :: after)
      (usable : k.IsUsable) (first : ∀ j ∈ before, ¬ j.IsUsable)
      (kind : ∀ j ∈ t.constructors, j.IsUsable → j.implicit = true)

theorem TypeSymbol.IsBuiltWith.usable {t : TypeSymbol} {k : Constructor} (h : t.IsBuiltWith k) :
    k.IsUsable := by
  cases h with
  | explicit _ _ _ usable => exact usable
  | implicit _ _ _ usable => exact usable

theorem TypeSymbol.IsBuiltWith.isBuildable {t : TypeSymbol} {k : Constructor}
    (h : t.IsBuiltWith k) : t.IsBuildable := by
  refine ⟨k, ?_, h.usable⟩
  cases h with
  | explicit before after split => simp [split]
  | implicit before after split => simp [split]

namespace TypeSymbol

variable (t : TypeSymbol)

/-- The two searches, over all constructors. -/
theorem selectConstructor_eq :
    t.selectConstructor =
      (t.constructors.find? fun k => decide (k.IsUsable ∧ k.implicit = false)).or
        (t.constructors.find? fun k => decide k.IsUsable) := by
  have hcandidates : t.publicConstructors.filter (!·.parameters.isEmpty) =
      t.constructors.filter fun k => decide k.IsUsable := by
    rw [publicConstructors, List.filter_filter]
    refine List.filter_congr ?_
    intro k _
    rw [Bool.and_comm, Bool.eq_iff_iff, decide_eq_true_iff]
    exact k.isUsable_iff.symm
  rw [selectConstructor, hcandidates, List.find?_filter, List.head?_filter]
  simp only [Bool.not_eq_true', decide_eq_true_eq]

theorem selectConstructor_eq_some_iff {t : TypeSymbol} {k : Constructor} :
    t.selectConstructor = some k ↔ t.IsBuiltWith k := by
  rw [selectConstructor_eq, Option.or_eq_some_iff]
  simp only [List.find?_eq_some_iff_append, List.find?_eq_none, decide_eq_true_eq, not_and,
    Bool.not_eq_false, Bool.not_eq_true', decide_eq_false_iff_not]
  constructor
  · rintro (⟨⟨husable, hkind⟩, before, after, hsplit, hfirst⟩ |
      ⟨hkind, husable, before, after, hsplit, hfirst⟩)
    · exact .explicit before after hsplit husable hkind hfirst
    · exact .implicit before after hsplit husable hfirst hkind
  · rintro (⟨before, after, hsplit, husable, hkind, hfirst⟩ |
      ⟨before, after, hsplit, husable, hfirst, hkind⟩)
    · exact .inl ⟨⟨husable, hkind⟩, before, after, hsplit, hfirst⟩
    · exact .inr ⟨hkind, husable, before, after, hsplit, hfirst⟩

theorem selectConstructor_eq_none_iff {t : TypeSymbol} :
    t.selectConstructor = none ↔ ¬ t.IsBuildable := by
  rw [selectConstructor_eq, Option.or_eq_none_iff]
  simp only [List.find?_eq_none, decide_eq_true_eq, IsBuildable, not_exists, not_and]
  exact and_iff_right_of_imp fun h k hk husable => absurd husable (h k hk)

end TypeSymbol

/-! ### Parameters -/

/-- The name of the argument that stands for a parameter. -/
def Parameter.argumentName (p : Parameter) : String := Name.identifier (Name.snake p.name)

/-- The name of the field that a parameter sets. -/
def Parameter.fieldName (p : Parameter) : String := Name.identifier p.name

/-- The text that documents a parameter of a constructor. -/
inductive Constructor.Documents (k : Constructor) (p : Parameter) : String → Prop where
  /-- The documentation of the constructor describes it. -/
  | described {raw text : String} {ds : Descriptions} (documentation : k.documentation = some raw)
      (read : Descriptions.read raw = some ds) (found : ds.lookup p.name = some text) :
      Documents k p text
  /-- Where no documentation does, its name and type stand for it. -/
  | undescribed (silent : ∀ raw ds, k.documentation = some raw → Descriptions.read raw = some ds →
      ds.lookup p.name = none) : Documents k p (p.name ++ " (" ++ p.typeName ++ ")")

/-- A parameter as a case that is built with a constructor has it. -/
def Constructor.caseParameter (k : Constructor) (p : Parameter) : CaseParameter :=
  ⟨p.typeName, p.name, k.descriptions.lookup p.name⟩

theorem Constructor.map_caseParameters {α : Type} (k : Constructor) (f : CaseParameter → α) :
    k.caseParameters.map f = k.parameters.map fun p => f (k.caseParameter p) := by
  rw [caseParameters, List.map_map]
  rfl

namespace Constructor

variable {k : Constructor} {p : Parameter} {raw text : String} {ds : Descriptions}

theorem descriptions_of_read (hdocumentation : k.documentation = some raw)
    (hread : Descriptions.read raw = some ds) : k.descriptions = ds := by
  rw [descriptions, hdocumentation, Option.bind_some, hread, Option.getD_some]

/-- A description comes from the documentation. -/
theorem exists_read_of_lookup (h : k.descriptions.lookup p.name = some text) :
    ∃ raw ds, k.documentation = some raw ∧ Descriptions.read raw = some ds ∧
      ds.lookup p.name = some text := by
  cases hread : k.documentation.bind Descriptions.read with
  | none =>
    rw [descriptions, hread] at h
    cases h
  | some ds =>
    obtain ⟨raw, hraw, hds⟩ := Option.bind_eq_some_iff.mp hread
    rw [descriptions_of_read hraw hds] at h
    exact ⟨raw, ds, hraw, hds, h⟩

/-- The emitted text is the one that documents the parameter, and no other one does. -/
theorem documents_iff : k.Documents p text ↔ text = (k.caseParameter p).displayText := by
  have hdescription : (k.caseParameter p).description = k.descriptions.lookup p.name := rfl
  rw [CaseParameter.displayText, hdescription]
  constructor
  · rintro (⟨hraw, hds, hfound⟩ | hsilent)
    · rw [descriptions_of_read hraw hds, hfound]
    · cases hlookup : k.descriptions.lookup p.name with
      | none => rfl
      | some text =>
        obtain ⟨raw, ds, hraw, hds, hfound⟩ := exists_read_of_lookup hlookup
        rw [hsilent raw ds hraw hds] at hfound
        cases hfound
  · rintro rfl
    cases hlookup : k.descriptions.lookup p.name with
    | none =>
      refine .undescribed ?_
      intro raw ds hraw hds
      rwa [descriptions_of_read hraw hds] at hlookup
    | some text =>
      obtain ⟨raw, ds, hraw, hds, hfound⟩ := exists_read_of_lookup hlookup
      exact .described hraw hds hfound

end Constructor

end TaggedUnion.Schema
