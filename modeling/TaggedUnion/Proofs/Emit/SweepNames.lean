import TaggedUnion.Proofs.Emit.Methods
import TaggedUnion.Proofs.Emit.Sweep
import TaggedUnion.Proofs.Emit.Variants
import TaggedUnion.Proofs.Text.Numerals

/-! # Names in a sweep

    The files of a sweep are included in one module, with the generic unions of all its arities.
    This module says that nothing is defined there twice:

    * **`DefinesOnce`**: types and traits have names of their own, and so have the functions of
      each type and of each trait.
    * **`sweepItems`**: what a sweep emits, as code; **`sweepText_eq_render`** is its text.
    * **`namesDistinct_generic`**: the functions of one generic union, whose cases are numbered.
    * **`nodup_typeNames_sweep`**: the types and traits. A name has the arity as a numeral in
      it, with no digit behind, so that the names of two arities differ.
    * **`definesOnce_sweep`**: a sweep defines every name once.
-/

namespace TaggedUnion

open Code Emit

/-! ### Modules -/

namespace Code

/-- The names of the types and traits that items define. -/
def typeNames (items : List Item) : List String :=
  (items.flatMap Item.enums).map (·.name) ++ (items.flatMap Item.traits).map (·.name)

/-- The functions that items add to a type itself, in all its implementations. -/
def ownFunctionsOf (type : String) (items : List Item) : List Function :=
  ((items.flatMap Item.implementations).filter
    fun i => i.trait.isNone && i.target == type).flatMap (·.functions)

/-- Items that can stand in one module: no name is defined twice in one place. -/
structure DefinesOnce (items : List Item) : Prop where
  types : (typeNames items).Nodup
  own : ∀ type, ((ownFunctionsOf type items).map (·.name)).Nodup
  traits : ∀ t ∈ items.flatMap Item.traits, (t.functions.map (·.name)).Nodup

theorem renderLines_append (as bs : List Line) :
    renderLines (as ++ bs) = renderLines as ++ renderLines bs := by
  rw [renderLines, List.map_append, String.join_append]
  rfl

theorem render_append (as bs : List Item) : render (as ++ bs) = render as ++ render bs := by
  rw [render, List.flatMap_append, renderLines_append]
  rfl

end Code

namespace Code

theorem ownFunctionsOf_flatMap {α : Type} (type : String) (f : α → List Item) (xs : List α) :
    ownFunctionsOf type (xs.flatMap f) = xs.flatMap fun x => ownFunctionsOf type (f x) := by
  induction xs with
  | nil => rfl
  | cons x xs ih =>
    rw [List.flatMap_cons, List.flatMap_cons, ← ih]
    simp only [ownFunctionsOf, List.flatMap_append, List.filter_append]

theorem Item.ownFunctions_eq (item : Item) :
    item.ownFunctions = (item.implementations.filter (·.trait.isNone)).flatMap (·.functions) := by
  cases item with
  | imports | enum | trait => rfl
  | implementation i =>
    cases htrait : i.trait <;> simp [ownFunctions, implementations, htrait]

/-- Where all functions that belong to no trait are added to one type, they are the functions of
    this type. -/
theorem ownFunctionsOf_eq {items : List Item} {target : String}
    (h : ∀ i ∈ items.flatMap Item.implementations, i.trait = none → i.target = target)
    (type : String) :
    ownFunctionsOf type items =
      if target = type then items.flatMap Item.ownFunctions else [] := by
  have hfilter : (items.flatMap Item.implementations).filter
      (fun i => i.trait.isNone && i.target == type) =
        if target = type then (items.flatMap Item.implementations).filter (·.trait.isNone)
        else [] := by
    split
    · next heq =>
      refine List.filter_congr fun i hi => ?_
      cases htrait : i.trait with
      | none => simp [h i hi htrait, heq]
      | some _ => rfl
    · next hne =>
      refine List.filter_eq_nil_iff.mpr fun i hi hkept => ?_
      simp only [Bool.and_eq_true, Option.isNone_iff_eq_none, beq_iff_eq] at hkept
      exact hne ((h i hi hkept.1).symm.trans hkept.2)
  rw [ownFunctionsOf, hfilter]
  split
  · rw [List.filter_flatMap, List.flatMap_assoc]
    exact List.flatMap_congr fun item _ => item.ownFunctions_eq.symm
  · rfl

end Code

/-- What a sweep emits in a family: the items for each arity, in ascending order. -/
def sweepItems (arities : List Nat) (path : String) (f : Family) : List Item :=
  (ascending arities).flatMap fun n => f.items (.generic n path)

theorem sweepText_eq_render (ns : List Nat) (path : String) (f : Family) :
    sweepText ns path f = render (ns.flatMap fun n => f.items (.generic n path)) := by
  induction ns with
  | nil => rfl
  | cons n ns ih =>
    rw [List.flatMap_cons, render_append, ← ih, ← List.singleton_append, sweepText_append]
    exact congrArg (· ++ sweepText ns path f) String.empty_append

/-! ### The functions of one generic union -/

/-- The names of the functions of a union itself, over the eight families of a generic union. -/
def Shape.allOwnNames (s : Shape) : List String :=
  Family.all.flatMap fun f => (f.ownFunctions s).map (·.name)

/-- A generic union has the functions of a named one, a tap for each case, and the partition. -/
theorem Shape.allOwnNames_eq (s : Shape) :
    s.allOwnNames = s.ownNames ++ (s.stems.map ("tap_" ++ ·) ++ ["partition"]) := by
  have htap : (Family.tap.ownFunctions s).map (·.name) = s.stems.map ("tap_" ++ ·) := by
    simp [Family.ownFunctions, Family.items, tap, Item.ownFunctions, tapFunction, stems,
      Function.comp_def]
  have hpartition : (Family.partition.ownFunctions s).map (·.name) = ["partition"] := rfl
  have hassertions : (Family.assertions.ownFunctions s).map (·.name) = [] := rfl
  simp only [allOwnNames, ownNames, Family.all, Family.ofNamed, List.flatMap_cons,
    List.flatMap_nil, htap, hpartition, hassertions]
  simp [Family.ownFunctions, Family.items, assertions, Item.ownFunctions]

/-- The names that only a generic union has begin with no head of the others. -/
theorem Head.text_append_ne_of_generic {h : Head} (hh : h ∈ Head.all) {p : String}
    (hp : p ∈ ["tap_", "partition"]) (a b : String) : h.text ++ a ≠ p ++ b := by
  have hapart : ∀ h ∈ Head.all, ∀ p ∈ ["tap_", "partition"],
      ¬ h.text.toList <+: p.toList ∧ ¬ p.toList <+: h.text.toList := by
    decide
  exact append_ne_append (hapart h hh p hp).1 (hapart h hh p hp).2 a b

theorem Shape.nodup_allOwnNames {s : Shape} (h : s.NamesDistinct) (hstems : s.stems.Nodup) :
    s.allOwnNames.Nodup := by
  have hgeneric : (s.stems.map ("tap_" ++ ·) ++ ["partition"]).Nodup := by
    refine List.nodup_append.mpr ⟨(nodup_map_append_iff _).mpr hstems, List.nodup_singleton _, ?_⟩
    intro a ha b hb
    obtain ⟨stem, -, rfl⟩ := List.mem_map.mp ha
    obtain rfl := List.mem_singleton.mp hb
    exact append_ne_append (q := "partition") (by decide) (by decide) stem ""
  rw [s.allOwnNames_eq]
  refine List.nodup_append.mpr ⟨h.own, hgeneric, ?_⟩
  intro a ha b hb
  obtain ⟨head, hhead, ha⟩ := List.mem_flatMap.mp (s.ownNames_perm.mem_iff.mp ha)
  obtain ⟨rest, -, rfl⟩ := List.mem_map.mp ha
  rcases List.mem_append.mp hb with hb | hb
  · obtain ⟨stem, -, rfl⟩ := List.mem_map.mp hb
    exact Head.text_append_ne_of_generic hhead (by decide) rest stem
  · obtain rfl := List.mem_singleton.mp hb
    exact Head.text_append_ne_of_generic hhead (p := "partition") (by decide) rest ""

namespace Shape

variable (arity : Nat) (path : String)

theorem stemsApart_generic :
    StemsApart (generic arity path).cases (·.stem) (hasEquality (generic arity path)) := by
  rw [generic, stemsApart_map_iff]
  show StemsApart (List.range' 1 arity) (fun i => "case" ++ toString i) _
  have hsuffix {suffix : String} (hends : Text.endsNumeral suffix) (hne : "" ≠ suffix)
      (i j : Nat) : "case" ++ toString i ≠ "case" ++ toString j ++ suffix := by
    intro h
    rw [String.append_assoc, String.append_right_inj] at h
    have hnumeral : toString i ++ "" = toString j ++ suffix := by rw [String.append_empty, h]
    exact hne ((Text.toString_append_inj rfl hends).mp hnumeral).2
  refine ⟨?_, ?_, ?_, ?_⟩
  · refine List.Nodup.map ?_ List.nodup_range'
    intro i j h
    exact Text.toString_injective ((String.append_right_inj "case").mp h)
  · intro i _
    exact append_ne_append (p := "case") (q := "async") (by decide) (by decide) _ ""
  · intro i _ j _
    exact hsuffix (by decide) (by decide) i j
  · intro i _ j _ _
    exact hsuffix (by decide) (by decide) i j

theorem namesDistinct_generic : (generic arity path).NamesDistinct :=
  (namesDistinct_iff _).mpr (stemsApart_generic arity path)

theorem nodup_allOwnNames_generic : (generic arity path).allOwnNames.Nodup :=
  nodup_allOwnNames (namesDistinct_generic arity path) (stemsApart_generic arity path).nodup

end Shape

/-! ### What one family adds -/

section family

variable (f : Family) (s : Shape)

theorem Family.enums_items :
    ((f.items s).flatMap Item.enums).map (·.name) = if f = .core then [s.name] else [] := by
  cases f with
  | core => cases hgeneric : s.isGeneric <;> simp [items, Emit.core, Item.enums, hgeneric, enumOf]
  | matching | switching | map | bind | tap | partition | assertions => rfl

/-- A family declares the trait that it is said to add, and no other one. -/
theorem Family.traits_items :
    ((f.items s).flatMap Item.traits).map (·.name) = (f.traitName? s).toList := by
  cases f with
  | core =>
    cases hgeneric : s.isGeneric <;> simp [items, Emit.core, Item.traits, hgeneric, traitName?]
  | matching | switching | map | bind | tap | partition | assertions => rfl

/-- All functions that do not belong to a trait are added to the union. -/
theorem Family.target_of_mem_items {i : Implementation}
    (hi : i ∈ (f.items s).flatMap Item.implementations) (htrait : i.trait = none) :
    i.target = s.selfType := by
  have hpending {name title : String} {functions pending : List Function}
      (hi : i ∈ (withPending s name title functions pending).flatMap Item.implementations) :
      i.target = s.selfType := by
    rcases List.mem_cons.mp hi with rfl | hi
    · rfl
    · -- The other one implements the trait of pending unions.
      obtain rfl := List.mem_singleton.mp hi
      cases htrait
  cases f with
  | core =>
    rw [items, s.implementations_core] at hi
    rcases List.mem_append.mp hi with hi | hi
    · rcases List.mem_cons.mp hi with rfl | hi
      · rfl
      · split at hi
        · cases hi
        · obtain ⟨c, -, rfl⟩ := List.mem_map.mp hi
          cases htrait
    · obtain rfl := List.mem_singleton.mp hi
      cases htrait
  | matching | switching | map | bind => exact hpending hi
  | tap | partition =>
    obtain rfl := List.mem_singleton.mp hi
    rfl
  | assertions =>
    obtain rfl := List.mem_singleton.mp hi
    cases htrait

end family

/-! ### All files of a sweep -/

section sweep

variable (arities : List Nat) (path : String)

/-- What stands behind the name of a union in the names of its type and of its traits. -/
def typeEndings : List String :=
  ["", "MatchFutureExt", "SwitchFutureExt", "MapFutureExt", "BindFutureExt", "Assertions"]

theorem typeNames_sweep :
    typeNames (Family.all.flatMap (sweepItems arities path)) =
      typeEndings.flatMap fun ending =>
        (ascending arities).map fun n => "Union" ++ (toString n ++ ending) := by
  have henums (f : Family) : ((sweepItems arities path f).flatMap Item.enums).map (·.name) =
      (ascending arities).flatMap fun n => if f = .core then ["Union" ++ toString n] else [] := by
    rw [sweepItems, List.flatMap_assoc, List.map_flatMap]
    exact List.flatMap_congr fun n _ => f.enums_items (.generic n path)
  have htraits (f : Family) : ((sweepItems arities path f).flatMap Item.traits).map (·.name) =
      (ascending arities).flatMap fun n => (f.traitName? (.generic n path)).toList := by
    rw [sweepItems, List.flatMap_assoc, List.map_flatMap]
    exact List.flatMap_congr fun n _ => f.traits_items (.generic n path)
  rw [typeNames, List.flatMap_assoc, List.map_flatMap, List.flatMap_assoc, List.map_flatMap]
  have hnothing : (ascending arities).flatMap (fun _ => ([] : List String)) = [] :=
    List.flatMap_eq_nil_iff.mpr fun _ _ => rfl
  simp only [henums, htraits]
  simp [hnothing, Family.all, typeEndings, Family.traitName?, ← List.map_eq_flatMap, matchTraitName,
    switchTraitName, Transform.traitName, assertionsTraitName, Shape.generic, String.append_assoc]

/-- A name determines its ending and, by its numeral, its arity. -/
theorem nodup_typeNames_sweep :
    (typeNames (Family.all.flatMap (sweepItems arities path))).Nodup := by
  have hends : ∀ ending ∈ typeEndings, Text.endsNumeral ending := by decide
  have hendings : typeEndings.Nodup := by decide
  have hascending : (ascending arities).Nodup := (pairwise_ascending arities).imp ne_of_lt
  rw [typeNames_sweep, List.nodup_flatMap]
  constructor
  · intro ending _
    refine List.Nodup.map ?_ hascending
    intro n m h
    have hnumeral := (String.append_right_inj "Union").mp h
    exact Text.toString_injective ((String.append_left_inj ending).mp hnumeral)
  · refine hendings.imp_of_mem ?_
    intro x y hx hy hne name hname hname'
    obtain ⟨n, -, rfl⟩ := List.mem_map.mp hname
    obtain ⟨m, -, h⟩ := List.mem_map.mp hname'
    have hnumeral := (String.append_right_inj "Union").mp h.symm
    exact hne ((Text.toString_append_inj (hends x hx) (hends y hy)).mp hnumeral).2

theorem Shape.selfType_generic (n : Nat) :
    (generic n path).selfType =
      "Union" ++ (toString n ++ ("<" ++ ((generic n path).typeParameterList ++ ">"))) := by
  simp [selfType, generics, generic, String.append_assoc]

/-- Generic unions of different arities are different types. -/
theorem Shape.selfType_generic_injective :
    Function.Injective fun n => (generic n path).selfType := by
  intro n m h
  simp only [selfType_generic, String.append_right_inj] at h
  have hends (s : String) : Text.endsNumeral ("<" ++ s) := by simp [Text.endsNumeral]
  exact ((Text.toString_append_inj (hends _) (hends _)).mp h).1

/-- The functions of a type are those of the generic union that it is, over all families. -/
theorem ownFunctionsOf_sweep (type : String) :
    ownFunctionsOf type (Family.all.flatMap (sweepItems arities path)) =
      Family.all.flatMap fun f => (ascending arities).flatMap fun n =>
        if (Shape.generic n path).selfType = type then f.ownFunctions (.generic n path)
        else [] := by
  rw [ownFunctionsOf_flatMap]
  refine List.flatMap_congr fun f _ => ?_
  rw [sweepItems, ownFunctionsOf_flatMap]
  refine List.flatMap_congr fun n _ => ?_
  exact ownFunctionsOf_eq (fun _ => f.target_of_mem_items (.generic n path)) type

/-- Among distinct elements, one alone has a given key. -/
theorem flatMap_ite_key {α β κ : Type} [DecidableEq κ] {xs : List α} (hnodup : xs.Nodup) {a : α}
    (ha : a ∈ xs) {key : α → κ} (hkey : Function.Injective key) (f : α → List β) :
    (xs.flatMap fun x => if key x = key a then f x else []) = f a := by
  induction xs with
  | nil => cases ha
  | cons x xs ih =>
    obtain ⟨hx, hxs⟩ := List.nodup_cons.mp hnodup
    rw [List.flatMap_cons]
    rcases List.mem_cons.mp ha with rfl | hmem
    · have hothers : (xs.flatMap fun x => if key x = key a then f x else []) = [] := by
        refine List.flatMap_eq_nil_iff.mpr fun y hy => if_neg fun heq => hx ?_
        exact hkey heq ▸ hy
      rw [if_pos rfl, hothers, List.append_nil]
    · have hne : key x ≠ key a := fun heq => hx (hkey heq ▸ hmem)
      rw [if_neg hne, ih hxs hmem, List.nil_append]

theorem nodup_ownFunctionsOf_sweep (type : String) :
    ((ownFunctionsOf type (Family.all.flatMap (sweepItems arities path))).map (·.name)).Nodup := by
  rw [ownFunctionsOf_sweep]
  by_cases htype : ∃ n ∈ ascending arities, (Shape.generic n path).selfType = type
  · obtain ⟨n, hn, rfl⟩ := htype
    have hascending : (ascending arities).Nodup := (pairwise_ascending arities).imp ne_of_lt
    simp only [flatMap_ite_key hascending hn (Shape.selfType_generic_injective path)]
    rw [List.map_flatMap]
    exact Shape.nodup_allOwnNames_generic n path
  · -- No union of the sweep is this type.
    have hnone (f : Family) : ((ascending arities).flatMap fun n =>
        if (Shape.generic n path).selfType = type then f.ownFunctions (.generic n path)
        else []) = [] :=
      List.flatMap_eq_nil_iff.mpr fun n hn => if_neg fun heq => htype ⟨n, hn, heq⟩
    simp [hnone, Family.all]

/-- A trait of a sweep is declared for one of its arities. -/
theorem exists_of_mem_traits_sweep {t : Trait}
    (ht : t ∈ (Family.all.flatMap (sweepItems arities path)).flatMap Item.traits) :
    ∃ n ∈ arities, t ∈ (Shape.generic n path).traits := by
  obtain ⟨item, hitem, ht⟩ := List.mem_flatMap.mp ht
  obtain ⟨f, -, hitem⟩ := List.mem_flatMap.mp hitem
  obtain ⟨n, hn, hitem⟩ := List.mem_flatMap.mp hitem
  refine ⟨n, mem_ascending.mp hn, ?_⟩
  have hmem : t ∈ (f.items (.generic n path)).flatMap Item.traits :=
    List.mem_flatMap.mpr ⟨item, hitem, ht⟩
  cases f with
  | tap | partition => cases hmem
  | core | matching | switching | map | bind | assertions =>
    exact List.mem_flatMap.mpr ⟨_, by decide, hmem⟩

/-- Every function of a sweep that belongs to no trait is added to one of its unions. -/
theorem exists_target_sweep {i : Implementation}
    (hi : i ∈ (Family.all.flatMap (sweepItems arities path)).flatMap Item.implementations)
    (htrait : i.trait = none) : ∃ n ∈ arities, i.target = (Shape.generic n path).selfType := by
  obtain ⟨item, hitem, hi⟩ := List.mem_flatMap.mp hi
  obtain ⟨f, -, hitem⟩ := List.mem_flatMap.mp hitem
  obtain ⟨n, hn, hitem⟩ := List.mem_flatMap.mp hitem
  have hmem : i ∈ (f.items (.generic n path)).flatMap Item.implementations :=
    List.mem_flatMap.mpr ⟨item, hitem, hi⟩
  exact ⟨n, mem_ascending.mp hn, f.target_of_mem_items _ hmem htrait⟩

end sweep

/-- The files of a sweep can be included in one module: no type or trait is defined twice, no
    function twice in one trait, and no function twice in all the implementations of a type, which
    are those of the unions that were asked for. -/
theorem definesOnce_sweep {arities : List Nat} (path : String) (hne : arities ≠ [])
    (hbound : ∀ n ∈ arities, minArity ≤ n) :
    let items := sweepItems arities path
    sweep arities path = .ok (sweepArtifacts fun f => render (items f)) ∧
    DefinesOnce (Family.all.flatMap items) ∧
    ∀ i ∈ (Family.all.flatMap items).flatMap Item.implementations, i.trait = none →
      ∃ n ∈ arities, i.target = (Shape.generic n path).selfType := by
  refine ⟨?_, ⟨?_, ?_, ?_⟩, ?_⟩
  · have htext : sweepText (ascending arities) path = fun f =>
        render (sweepItems arities path f) := funext fun f => sweepText_eq_render _ path f
    exact sweep_eq_ok_iff.mpr ⟨hne, hbound, congrArg sweepArtifacts htext.symm⟩
  · exact nodup_typeNames_sweep arities path
  · exact nodup_ownFunctionsOf_sweep arities path
  · intro t ht
    obtain ⟨n, -, ht⟩ := exists_of_mem_traits_sweep arities path ht
    exact (Shape.namesDistinct_generic n path).traits t ht
  · intro i hi htrait
    exact exists_target_sweep arities path hi htrait

/-- Arities that repeat, and whose numerals begin alike as those of their cases do. -/
theorem definesOnce_sweep_elevenTwelve :
    sweep [12, 11, 2, 12] defaultRuntimePath = .ok (sweepArtifacts fun f =>
      render (sweepItems [12, 11, 2, 12] defaultRuntimePath f)) ∧
    DefinesOnce (Family.all.flatMap (sweepItems [12, 11, 2, 12] defaultRuntimePath)) := by
  have hne : ([12, 11, 2, 12] : List Nat) ≠ [] := by decide
  have hbound : ∀ n ∈ [12, 11, 2, 12], minArity ≤ n := by decide
  obtain ⟨hsweep, honce, -⟩ := definesOnce_sweep defaultRuntimePath hne hbound
  exact ⟨hsweep, honce⟩

end TaggedUnion
