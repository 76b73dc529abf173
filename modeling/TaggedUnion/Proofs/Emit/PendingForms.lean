import TaggedUnion.Proofs.Emit.Mirrors

/-! # The methods of a pending union

    A union that is still awaited is dispatched on and transformed through a trait. What each of
    its functions has in common with a method of the union itself is told in `Mirrors`; this module
    compares the trait as a whole:

    * **`Family.PendingForms`**: the trait of a family has a function for each method that the
      family adds to the union, in the same order, and the text of the family has nothing else.
    * **`Shape.pendingForms`**: matching, switching and both transforms have such a trait.
-/

namespace TaggedUnion

open Code Emit

/-! ### Families with a trait for pending unions -/

/-- Type parameters as written are the list in brackets that the union itself is written with. -/
theorem Shape.text_typeParameters (s : Shape) :
    TypeParameters.text s.typeParameters = s.generics := by
  cases hgeneric : s.isGeneric with
  | false => simp [typeParameters, generics, hgeneric, TypeParameters.text]
  | true =>
    simp [typeParameters, generics, hgeneric, TypeParameters.text, typeParameterList,
      commaSeparated]

/-- The family adds methods of the given names to the union, and declares a trait that has an
    image of each of them, and nothing else. -/
structure Family.PendingForms (f : Family) (s : Shape) (names : List String) : Prop where
  names_eq : (f.ownFunctions s).map (·.name) = names
  mirrors : List.Forall₂ Mirrors (f.ownFunctions s) (f.pendingFunctions s)
  /-- The text is the methods, the trait, and the implementation for all futures of unions. -/
  text_eq : ∃ traitName docs, f.traitName? s = some traitName ∧ f.text s = renderLines
    (block ("impl" ++ s.generics ++ " " ++ s.selfType) (functionLines (f.ownFunctions s)) ++
      [Line.blank] ++
      (leadLines docs [] ++
        block ("pub trait " ++ traitName ++ s.generics ++ ": " ++ futureOf s.selfType ++ " + Sized")
          (functionLines (f.pendingFunctions s)) ++ [Line.blank]) ++
      ((pendingImplementation s traitName).lines ++ [Line.blank]))

namespace Shape

variable (s : Shape)

/-- A family that is made together with its trait has images of its methods. -/
theorem pendingForms_of_items_eq {f : Family} {traitName title : String}
    {functions pending : List Function}
    (hitems : f.items s = withPending s traitName title functions pending)
    (htrait : f.traitName? s = some traitName) (hmirrors : List.Forall₂ Mirrors functions pending) :
    f.PendingForms s (functions.map (·.name)) := by
  have hown : f.ownFunctions s = functions := by
    rw [Family.ownFunctions, hitems, s.ownFunctions_withPending]
  have hpending : f.pendingFunctions s = pending := by
    rw [Family.pendingFunctions, hitems, traits_withPending, List.flatMap_singleton]
    rfl
  refine ⟨by rw [hown], Family.mirrors_of_items_eq hitems hmirrors, ?_⟩
  refine ⟨traitName, (pendingTrait s traitName title []).docs, htrait, ?_⟩
  rw [Family.text, hitems, hown, hpending, render]
  -- The three items one after the other, each with the blank line behind it.
  simp only [withPending, List.flatMap_cons, List.flatMap_nil, List.append_nil, Item.lines,
    Implementation.lines, Trait.lines, pendingTrait, boundedBlock, text_typeParameters,
    List.nil_append, Bool.false_eq_true, if_false, String.append_assoc, List.append_assoc]

/-- A transform has a trait with the images of its methods. -/
theorem pendingForms_transform {f : Family} {t : Transform} (hitems : f.items s = t.items s)
    (htrait : f.traitName? s = some (t.traitName s)) : f.PendingForms s (s.transformNames t) := by
  rw [← s.map_name_functions t]
  exact s.pendingForms_of_items_eq hitems htrait (t.mirrors_functions s)

/-- Matching, switching and both transforms have a trait for pending unions, with the images of
    just the methods of the union itself. -/
theorem pendingForms :
    Family.matching.PendingForms s ["match_with", "match_async"] ∧
      Family.switching.PendingForms s ["switch", "switch_async"] ∧
      Family.map.PendingForms s (s.transformNames .map) ∧
      Family.bind.PendingForms s (s.transformNames .bind) := by
  refine ⟨?_, ?_, s.pendingForms_transform rfl rfl, s.pendingForms_transform rfl rfl⟩
  · have hitems : Family.matching.items s =
        withPending s (matchTraitName s) _ (matchFunctions s) (pendingMatchFunctions s) := rfl
    exact s.pendingForms_of_items_eq hitems rfl (mirrors_matchFunctions s)
  · have hitems : Family.switching.items s =
        withPending s (switchTraitName s) _ (switchFunctions s) (pendingSwitchFunctions s) := rfl
    exact s.pendingForms_of_items_eq hitems rfl (mirrors_switchFunctions s)

end Shape

end TaggedUnion
