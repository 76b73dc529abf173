import Mathlib.Data.List.Nodup
import Mathlib.Data.List.Perm.Basic
import TaggedUnion.Proofs.Schema.Gate
import TaggedUnion.Proofs.Schema.Store

/-! # Names of emitted functions

    The families of a named union are emitted to be included in one module, so that a function
    name may occur once among the functions of the union itself, and once in each trait. This
    module says when that is so:

    * **`NamesDistinct`**: no name is emitted twice in one place.
    * **`Head`** and **`rests`**: every name of a function of the union begins with one of
      eleven heads, and what stands behind a head comes from the stems of the cases.
    * **`StemsApart`**: the demand on the stems that **`namesDistinct_iff`** proves equivalent,
      for the types that the cases of a declared union lead to in **`namesDistinct_generate_iff`**.

    No head begins with another one. Names with different heads are thus different, and the
    names behind one head are compared by what follows it.
-/

namespace TaggedUnion

open Code Emit

/-! ### What is emitted -/

/-- The functions that an item adds to a type itself, and not to a trait. -/
def Code.Item.ownFunctions : Item → List Function
  | .implementation i => if i.trait.isNone then i.functions else []
  | _ => []

/-- The traits that an item declares. -/
def Code.Item.traits : Item → List Trait
  | .trait t => [t]
  | _ => []

namespace Shape

/-- The names of the functions of the union itself, over all families of a named union. -/
def ownNames (s : Shape) : List String :=
  Family.ofNamed.flatMap fun f => ((f.items s).flatMap Item.ownFunctions).map (·.name)

/-- The traits that all families of a named union declare. -/
def traits (s : Shape) : List Trait :=
  Family.ofNamed.flatMap fun f => (f.items s).flatMap Item.traits

/-- No function name is emitted twice in one place. -/
structure NamesDistinct (s : Shape) : Prop where
  own : s.ownNames.Nodup
  traits : ∀ t ∈ s.traits, (t.functions.map (·.name)).Nodup

/-- The stems of the cases, in order. -/
def stems (s : Shape) : List String := s.cases.map (·.stem)

end Shape

/-- The stems keep the names of emitted functions apart; `comparable` tells which values can be
    compared. -/
structure StemsApart {α : Type} (xs : List α) (stem : α → String) (comparable : α → Bool) :
    Prop where
  nodup : (xs.map stem).Nodup
  /-- No function for a case is called like the asynchronous form for all cases. -/
  ne_async : ∀ x ∈ xs, stem x ≠ "async"
  /-- No function for a case is called like the asynchronous form for another one. -/
  ne_append_async : ∀ x ∈ xs, ∀ y ∈ xs, stem x ≠ stem y ++ "_async"
  /-- No demand for a case is called like the demand for an equal value of another one. -/
  ne_append_eq : ∀ x ∈ xs, ∀ y ∈ xs, comparable y → stem x ≠ stem y ++ "_eq"

/-! ### Names with one head -/

section lists

variable {α β : Type}

/-- What is listed for each element can be listed one kind after the other. -/
theorem flatMap_cons_perm (xs : List α) (f : α → β) (g : α → List β) :
    (xs.flatMap fun x => f x :: g x).Perm (xs.map f ++ xs.flatMap g) := by
  have h := (List.flatMap_append_perm xs (fun x => [f x]) g).symm
  rwa [← List.map_eq_flatMap] at h

theorem nodup_map_append_iff {xs : List String} (p : String) :
    (xs.map (p ++ ·)).Nodup ↔ xs.Nodup :=
  List.nodup_map_iff fun _ _ => (String.append_right_inj p).mp

/-- Names that may also be listed with a suffix are distinct exactly if they are distinct
    without it and none is another one with it. -/
theorem nodup_suffixed_iff (xs : List α) (f : α → String) (suffixed : α → Bool) (t : String) :
    (xs.flatMap fun x => f x :: if suffixed x then [f x ++ t] else []).Nodup ↔
      (xs.map f).Nodup ∧ ∀ x ∈ xs, ∀ y ∈ xs, suffixed y → f x ≠ f y ++ t := by
  have hsuffixed : (xs.flatMap fun x => if suffixed x then [f x ++ t] else []) =
      ((xs.filter suffixed).map f).map (· ++ t) := by
    induction xs with
    | nil => rfl
    | cons x xs ih => cases hx : suffixed x <;> simp [hx, ih]
  rw [(flatMap_cons_perm xs f _).nodup_iff, hsuffixed, List.nodup_append]
  -- Names of one kind differ as the names without the suffix do; the rest is the demand on a
  -- name of each kind.
  constructor
  · rintro ⟨hnodup, -, hdisjoint⟩
    refine ⟨hnodup, ?_⟩
    intro x hx y hy hsy
    refine hdisjoint _ (List.mem_map_of_mem hx) _ ?_
    exact List.mem_map_of_mem (List.mem_map_of_mem (List.mem_filter.mpr ⟨hy, hsy⟩))
  · rintro ⟨hnodup, hne⟩
    refine ⟨hnodup, ?_, ?_⟩
    · refine List.Nodup.map (fun _ _ => (String.append_left_inj t).mp) ?_
      exact hnodup.sublist (List.filter_sublist.map f)
    · intro a ha b hb
      obtain ⟨x, hx, rfl⟩ := List.mem_map.mp ha
      obtain ⟨fy, hfy, rfl⟩ := List.mem_map.mp hb
      obtain ⟨y, hy, rfl⟩ := List.mem_map.mp hfy
      obtain ⟨hy, hsy⟩ := List.mem_filter.mp hy
      exact hne x hx y hy hsy

end lists

/-! ### Heads -/

/-- Names are different if neither of their heads begins with the other one. -/
theorem append_ne_append {p q : String} (hp : ¬ p.toList <+: q.toList)
    (hq : ¬ q.toList <+: p.toList) (a b : String) : p ++ a ≠ q ++ b := by
  intro heq
  have hlist : p.toList ++ a.toList = q.toList ++ b.toList := by
    rw [← String.toList_append, heq, String.toList_append]
  -- Both heads begin the same name, so that one of them begins with the other.
  have hleft : p.toList <+: q.toList ++ b.toList := ⟨a.toList, hlist⟩
  exact (List.prefix_or_prefix_of_prefix hleft (List.prefix_append _ _)).elim hp hq

/-- What the name of a function of a union begins with. -/
inductive Head where
  | from
  | new
  | tag
  | caseName
  | is
  | tryGet
  | tryInto
  | matching
  | switching
  | transform (t : Transform)
deriving Repr, DecidableEq

namespace Head

/-- All heads. -/
def all : List Head :=
  [.from, .new, .tag, .caseName, .is, .tryGet, .tryInto, .matching, .switching,
   .transform .map, .transform .bind]

/-- The characters of a head. -/
def text : Head → String
  | .from => "from_"
  | .new => "new_"
  | .tag => "tag"
  | .caseName => "case_name"
  | .is => "is_"
  | .tryGet => "try_get_"
  | .tryInto => "try_into_"
  | .matching => "match"
  | .switching => "switch"
  | .transform t => t.stem

/-- No head begins with another one. -/
theorem eq_of_isPrefix :
    ∀ h ∈ all, ∀ k ∈ all, h.text.toList <+: k.text.toList → h = k := by
  decide

/-- Names with different heads are different. -/
theorem text_append_ne {h k : Head} (hh : h ∈ all) (hk : k ∈ all) (hne : h ≠ k)
    (a b : String) : h.text ++ a ≠ k.text ++ b := by
  refine append_ne_append ?_ ?_ a b
  · exact fun hpre => hne (eq_of_isPrefix h hh k hk hpre)
  · exact fun hpre => hne (eq_of_isPrefix k hk h hh hpre).symm

end Head

namespace Shape

variable (s : Shape)

/-- What stands behind a head in the names of the functions of the union. -/
def rests : Head → List String
  | .from | .is | .tryGet | .tryInto => s.stems
  | .new => (s.cases.filter fun c => (newFunction s c).isSome).map (·.stem)
  | .tag | .caseName => [""]
  | .matching => ["_with", "_async"]
  | .switching => ["", "_async"]
  | .transform _ => ("" :: s.stems.map ("_" ++ ·)).flatMap fun a => [a, a ++ "_async"]

/-- The names with one head. -/
def namesBehind (h : Head) : List String := (s.rests h).map (h.text ++ ·)

/-- Names are distinct exactly if what stands behind each head is. -/
theorem nodup_flatMap_namesBehind_iff :
    (Head.all.flatMap s.namesBehind).Nodup ↔ ∀ h ∈ Head.all, (s.rests h).Nodup := by
  have hdisjoint : Head.all.Pairwise (Function.onFun List.Disjoint s.namesBehind) := by
    have hne : Head.all.Pairwise (· ≠ ·) := by decide
    refine hne.imp_of_mem ?_
    intro h k hh hk hne n hn hn'
    obtain ⟨a, -, rfl⟩ := List.mem_map.mp hn
    obtain ⟨b, -, hb⟩ := List.mem_map.mp hn'
    exact Head.text_append_ne hh hk hne a b hb.symm
  rw [List.nodup_flatMap]
  constructor
  · rintro ⟨h, -⟩ k hk
    exact (nodup_map_append_iff k.text).mp (h k hk)
  · intro h
    exact ⟨fun k hk => (nodup_map_append_iff k.text).mpr (h k hk), hdisjoint⟩

/-! ### The names of the families -/

theorem name_of_mem_newFunction {c : ShapeCase} {f : Function} (hf : f ∈ newFunction s c) :
    f.name = "new_" ++ c.stem := by
  rw [newFunction] at hf
  split at hf
  · cases hf
  · split at hf
    · cases hf
    · rw [← Option.some.inj hf]

theorem flatMap_name_newFunction (cases : List ShapeCase) :
    (cases.flatMap fun c => (newFunction s c).toList.map (·.name)) =
      ((cases.filter fun c => (newFunction s c).isSome).map (·.stem)).map ("new_" ++ ·) := by
  induction cases with
  | nil => rfl
  | cons c cs ih =>
    rw [List.flatMap_cons, ih]
    cases hnew : newFunction s c with
    | none => simp [hnew]
    | some f => simp [hnew, s.name_of_mem_newFunction hnew]

/-- The functions that build a value and look into it have seven heads. -/
theorem coreNames_perm :
    ((coreFunctions s).map (·.name)).Perm
      ([.from, .new, .tag, .caseName, .is, .tryGet, .tryInto].flatMap s.namesBehind) := by
  -- The functions are listed case by case, the heads head by head.
  have hbuild := flatMap_cons_perm s.cases (fun c => "from_" ++ c.stem)
    (fun c => (newFunction s c).toList.map (·.name))
  have hlook := (flatMap_cons_perm s.cases (fun c => "is_" ++ c.stem)
    (fun c => ["try_get_" ++ c.stem, "try_into_" ++ c.stem])).trans
    ((flatMap_cons_perm s.cases (fun c => "try_get_" ++ c.stem)
      (fun c => ["try_into_" ++ c.stem])).append_left _)
  rw [flatMap_name_newFunction] at hbuild
  have := (hbuild.append_right ["tag", "case_name"]).append hlook
  simpa [coreFunctions, fromFunction, tagFunction, caseNameFunction, isFunction, tryGetFunction,
    tryIntoFunction, List.map_flatMap, ← List.map_eq_flatMap, Function.comp_def, namesBehind,
    rests, stems, Head.text] using this

/-- The functions of a transform: two for all cases, then two for each case. -/
theorem transformFunctions_eq (t : Transform) :
    t.functions s = [t.full s false, t.full s true] ++
      (s.cases.mapIdx fun i c => [t.single s i c false, t.single s i c true]).flatten := by
  have hsingles : (s.cases.mapIdx fun i c => [t.singleMethod s i c false,
      t.singleMethod s i c true]).map (·.map Transform.Method.inherent) =
        s.cases.mapIdx fun i c => [t.single s i c false, t.single s i c true] := by
    refine List.ext_getElem? fun i => ?_
    rw [List.getElem?_map, List.getElem?_mapIdx, List.getElem?_mapIdx, Option.map_map]
    rfl
  rw [Transform.functions, Transform.methods, List.map_append, List.map_flatten, hsingles]
  rfl

/-- The functions of a transform all have its head. -/
theorem transformNames_eq (t : Transform) :
    (t.functions s).map (·.name) = s.namesBehind (.transform t) := by
  have hcases : (s.cases.mapIdx fun i c => [t.single s i c false, t.single s i c true]).map
      (·.map (·.name)) =
        s.cases.map fun c => [t.stem ++ "_" ++ c.stem, t.stem ++ "_" ++ c.stem ++ "_async"] := by
    refine Schema.map_mapIdx_eq ?_ s.cases
    intro i c
    rfl
  have hfull (isAsync : Bool) : (t.full s isAsync).name = Transform.formName isAsync t.stem := rfl
  rw [transformFunctions_eq, List.map_append, List.map_flatten, hcases]
  simp [hfull, Transform.formName, namesBehind, rests, stems, Head.text, Function.comp_def,
    List.flatMap_def, String.append_assoc]

theorem ownFunctions_core : (core s).flatMap Item.ownFunctions = coreFunctions s := by
  cases hgeneric : s.isGeneric <;>
    simp [core, Item.ownFunctions, conversion, unionImplementation, hgeneric]

theorem ownFunctions_withPending (name title : String) (functions pending : List Function) :
    (withPending s name title functions pending).flatMap Item.ownFunctions = functions := by
  simp [withPending, Item.ownFunctions, pendingImplementation]

/-- The names of the functions of the union, with the heads one after the other. -/
theorem ownNames_perm : s.ownNames.Perm (Head.all.flatMap s.namesBehind) := by
  have hown : s.ownNames = (coreFunctions s).map (·.name) ++
      (s.namesBehind .matching ++ s.namesBehind .switching ++
        (s.namesBehind (.transform .map) ++ s.namesBehind (.transform .bind))) := by
    rw [← transformNames_eq, ← transformNames_eq]
    simp [ownNames, Family.ofNamed, ownFunctions_core, Family.items, matchWith, switch,
      Transform.items, ownFunctions_withPending, assertions, Item.ownFunctions, namesBehind,
      rests, Head.text, matchFunctions, switchFunctions, dispatchFunction]
  rw [hown]
  refine (s.coreNames_perm.append_right _).trans (List.Perm.of_eq ?_)
  simp [Head.all]

/-- The names of the functions of the trait of assertions. -/
def assertionNames : List String :=
  s.cases.flatMap fun c =>
    ("should_be_" ++ c.stem) ::
      if hasEquality s c then ["should_be_" ++ c.stem ++ "_eq"] else []

/-- The names of the functions of each trait in a list of items. -/
def traitNames (items : List Item) : List (List String) :=
  (items.flatMap Item.traits).map (·.functions.map (·.name))

theorem traitNames_withPending (name title : String) (functions pending : List Function) :
    traitNames (withPending s name title functions pending) = [pending.map (·.name)] := by
  simp [traitNames, withPending, Item.traits, pendingTrait]

theorem traitNames_core : traitNames (core s) = [] := by
  cases hgeneric : s.isGeneric <;> simp [traitNames, core, Item.traits, hgeneric]

theorem traitNames_matchWith : traitNames (matchWith s) = [s.namesBehind .matching] := by
  rw [matchWith, traitNames_withPending]
  simp [pendingMatchFunctions, pendingDispatch, pendingDispatchAsync, namesBehind, rests, Head.text]

theorem traitNames_switch : traitNames (switch s) = [s.namesBehind .switching] := by
  rw [switch, traitNames_withPending]
  simp [pendingSwitchFunctions, pendingDispatch, pendingDispatchAsync, namesBehind, rests,
    Head.text]

theorem traitNames_transform (t : Transform) :
    traitNames (t.items s) = [s.namesBehind (.transform t)] := by
  rw [Transform.items, traitNames_withPending, ← transformNames_eq, Transform.pendingFunctions,
    Transform.functions, List.map_map, List.map_map]
  rfl

theorem traitNames_assertions : traitNames (assertions s) = [s.assertionNames] := by
  have hcases : (s.cases.flatMap (assertionDeclarations s)).map (·.name) = s.assertionNames := by
    rw [List.map_flatMap, assertionNames]
    refine List.flatMap_congr fun c _ => ?_
    cases hequal : hasEquality s c <;>
      simp [assertionDeclarations, caseAssertion, valueAssertion, hequal]
  simp [traitNames, assertions, Item.traits, hcases]

/-- The names of the functions of each trait: those of a pending union are the ones that the
    family adds to the union itself. -/
theorem map_functions_traits :
    s.traits.map (·.functions.map (·.name)) =
      [s.namesBehind .matching, s.namesBehind .switching, s.namesBehind (.transform .map),
        s.namesBehind (.transform .bind), s.assertionNames] := by
  have hfamilies : s.traits.map (·.functions.map (·.name)) =
      Family.ofNamed.flatMap fun f => traitNames (f.items s) := List.map_flatMap
  rw [hfamilies]
  show traitNames (core s) ++ (traitNames (matchWith s) ++ (traitNames (switch s) ++
    (traitNames (Transform.map.items s) ++ (traitNames (Transform.bind.items s) ++
      (traitNames (assertions s) ++ []))))) = _
  rw [traitNames_core, traitNames_matchWith, traitNames_switch, traitNames_transform,
    traitNames_transform, traitNames_assertions]
  rfl

/-! ### When the names are distinct -/

theorem nodup_assertionNames_iff :
    s.assertionNames.Nodup ↔
      s.stems.Nodup ∧
        ∀ x ∈ s.cases, ∀ y ∈ s.cases, hasEquality s y → x.stem ≠ y.stem ++ "_eq" := by
  have hmap : s.cases.map (fun c => "should_be_" ++ c.stem) =
      s.stems.map ("should_be_" ++ ·) := by
    rw [stems, List.map_map]
    rfl
  rw [assertionNames, nodup_suffixed_iff, hmap, nodup_map_append_iff]
  refine and_congr_right fun _ => forall₂_congr fun x _ => forall₂_congr fun y _ => ?_
  rw [String.append_assoc, Ne, String.append_right_inj]

/-- What a transform adds is distinct exactly if no function for one case is called like an
    asynchronous form, neither like that for all cases nor like that for another one. -/
theorem nodup_rests_transform_iff (t : Transform) :
    (s.rests (.transform t)).Nodup ↔
      s.stems.Nodup ∧ (∀ a ∈ s.stems, a ≠ "async") ∧
        ∀ a ∈ s.stems, ∀ b ∈ s.stems, a ≠ b ++ "_async" := by
  have hempty (a : String) : "_" ++ a ≠ "" := by
    simp
  have hnodup : ("" :: s.stems.map ("_" ++ ·)).Nodup ↔ s.stems.Nodup := by
    rw [List.nodup_cons, nodup_map_append_iff]
    refine and_iff_right ?_
    intro hmem
    obtain ⟨a, -, ha⟩ := List.mem_map.mp hmem
    exact hempty a ha
  -- The function for all cases has nothing behind the head, those for one case have a stem.
  have hsuffixed := nodup_suffixed_iff ("" :: s.stems.map ("_" ++ ·)) id (fun _ => true) "_async"
  rw [List.map_id, hnodup] at hsuffixed
  refine hsuffixed.trans (and_congr_right fun _ => ?_)
  have hall (a : String) : "_" ++ a ≠ "" ++ "_async" ↔ a ≠ "async" :=
    not_congr (String.append_right_inj "_" : "_" ++ a = "_" ++ "async" ↔ _)
  have hone (a b : String) : "_" ++ a ≠ "_" ++ b ++ "_async" ↔ a ≠ b ++ "_async" := by
    rw [String.append_assoc, Ne, String.append_right_inj]
  constructor
  · intro h
    refine ⟨?_, ?_⟩
    · intro a ha
      exact (hall a).mp (h _ (List.mem_cons_of_mem _ (List.mem_map_of_mem ha)) ""
        List.mem_cons_self rfl)
    · intro a ha b hb
      exact (hone a b).mp (h _ (List.mem_cons_of_mem _ (List.mem_map_of_mem ha)) _
        (List.mem_cons_of_mem _ (List.mem_map_of_mem hb)) rfl)
  · rintro ⟨hasync, hsuffix⟩ x hx y hy -
    rcases List.mem_cons.mp hx with rfl | hx
    · simp
    · obtain ⟨a, ha, rfl⟩ := List.mem_map.mp hx
      rcases List.mem_cons.mp hy with rfl | hy
      · exact (hall a).mpr (hasync a ha)
      · obtain ⟨b, hb, rfl⟩ := List.mem_map.mp hy
        exact (hone a b).mpr (hsuffix a ha b hb)

/-- The names of emitted functions are distinct exactly if the stems are apart. -/
theorem namesDistinct_iff :
    s.NamesDistinct ↔ StemsApart s.cases (·.stem) (hasEquality s) := by
  have hown : s.ownNames.Nodup ↔ ∀ h ∈ Head.all, (s.rests h).Nodup :=
    s.ownNames_perm.nodup_iff.trans s.nodup_flatMap_namesBehind_iff
  have htraits : (∀ t ∈ s.traits, (t.functions.map (·.name)).Nodup) ↔
      ∀ names ∈ [s.namesBehind .matching, s.namesBehind .switching,
        s.namesBehind (.transform .map), s.namesBehind (.transform .bind), s.assertionNames],
        names.Nodup := by
    rw [← map_functions_traits, List.forall_mem_map]
  constructor
  · rintro ⟨hnames, hinside⟩
    -- One transform and the assertions ask for everything.
    have hmap := (s.nodup_rests_transform_iff .map).mp (hown.mp hnames _ (by decide))
    have hassertions := s.nodup_assertionNames_iff.mp (htraits.mp hinside _ (by simp))
    simp only [stems, List.forall_mem_map] at hmap
    exact ⟨hmap.1, hmap.2.1, hmap.2.2, hassertions.2⟩
  · intro h
    have htransform (t : Transform) : (s.rests (.transform t)).Nodup := by
      rw [nodup_rests_transform_iff]
      simp only [stems, List.forall_mem_map]
      exact ⟨h.nodup, h.ne_async, h.ne_append_async⟩
    have hnew : (s.rests .new).Nodup := h.nodup.sublist (List.filter_sublist.map _)
    -- Behind every other head stand stems or fixed words.
    have hrests : ∀ k ∈ Head.all, (s.rests k).Nodup := by
      intro k _
      cases k with
      | «from» | is | tryGet | tryInto => exact h.nodup
      | new => exact hnew
      | tag | caseName => exact List.nodup_singleton _
      | matching => exact (by decide : ["_with", "_async"].Nodup)
      | switching => exact (by decide : ["", "_async"].Nodup)
      | transform t => exact htransform t
    refine ⟨hown.mpr hrests, htraits.mpr ?_⟩
    have hbehind (k : Head) (hk : k ∈ Head.all) : (s.namesBehind k).Nodup :=
      (nodup_map_append_iff k.text).mpr (hrests k hk)
    simp only [List.forall_mem_cons, List.not_mem_nil, false_implies, implies_true, and_true]
    exact ⟨hbehind _ (by decide), hbehind _ (by decide), hbehind _ (by decide),
      hbehind _ (by decide), s.nodup_assertionNames_iff.mpr ⟨h.nodup, h.ne_append_eq⟩⟩

end Shape

/-! ### The unions of a document -/

section documents

open Schema

@[simp] theorem Schema.Case.name_populate (c : Case) : c.populate.name = c.name := by
  rw [Case.populate]
  split <;> rfl

@[simp] theorem Schema.Case.isRecord_populate (c : Case) : c.populate.isRecord = c.isRecord := by
  rw [Case.populate]
  split <;> rfl

/-- The cases of a union whose references all lead to types have the names of these types. -/
theorem Schema.UnionDeclaration.map_cases_resolveIn {declaration : UnionDeclaration}
    {d : Document} (h : ∀ reference ∈ declaration.cases, (d.type? reference).isSome) :
    (declaration.resolveIn d).cases.map (fun c => (c.name, c.isRecord)) =
      (declaration.cases.filterMap d.type?).map fun t => (t.name, t.isRecord) := by
  have hcase : (declaration.resolveIn d).cases.map (fun c => (c.name, c.isRecord)) =
      declaration.cases.map fun reference =>
        (((d.type? reference).map (·.name)).getD reference,
          (d.type? reference).any TypeSymbol.isRecord) := by
    refine map_mapIdx_eq ?_ declaration.cases
    intro i reference
    rfl
  rw [hcase]
  -- No case falls back on the text of its reference, for all references lead to types.
  generalize declaration.cases = references at h
  induction references with
  | nil => rfl
  | cons reference references ih =>
    obtain ⟨t, ht⟩ := Option.isSome_iff_exists.mp (h reference List.mem_cons_self)
    have hrest := ih fun r hr => h r (List.mem_cons_of_mem _ hr)
    simp [ht, hrest]

/-- Only the stems themselves and what can be compared count. -/
theorem stemsApart_map_iff {α β : Type} (f : α → β) (xs : List α) (stem : β → String)
    (comparable : β → Bool) :
    StemsApart (xs.map f) stem comparable ↔
      StemsApart xs (fun x => stem (f x)) (fun x => comparable (f x)) := by
  have hnodup : (xs.map f).map stem = xs.map fun x => stem (f x) := List.map_map
  constructor
  · rintro ⟨h₁, h₂, h₃, h₄⟩
    simp only [List.forall_mem_map] at h₂ h₃ h₄
    exact ⟨hnodup ▸ h₁, h₂, h₃, h₄⟩
  · rintro ⟨h₁, h₂, h₃, h₄⟩
    refine ⟨hnodup.symm ▸ h₁, ?_, ?_, ?_⟩ <;> simpa only [List.forall_mem_map]

/-- The stem of the cases that lead to a type. -/
def Schema.TypeSymbol.stem (t : TypeSymbol) : String := Name.snake t.name

/-- Where code is emitted for a union, no function name is emitted twice in one place exactly
    if the stems of its case types are apart. -/
theorem namesDistinct_generate_iff {d : Document} {name path : String} {g : Generated}
    (h : generate d name path = .ok g) :
    ∃ declaration, d.union? name = some declaration ∧
      let s := Shape.named (declaration.resolveIn d).populate path
      g.artifacts = Family.ofNamed.map (Artifact.ofShape s) ∧
      (s.NamesDistinct ↔
        StemsApart (declaration.cases.filterMap d.type?) TypeSymbol.stem TypeSymbol.isRecord) := by
  obtain ⟨declaration, hdeclared, hacceptable, rfl⟩ := exists_of_generate_ok h
  refine ⟨declaration, hdeclared, rfl, (Shape.namesDistinct_iff _).trans ?_⟩
  -- Of a case only the name and whether it is a record count, and these are those of its type.
  have hcases := stemsApart_map_iff (fun c : Case => (c.name, c.isRecord))
    (declaration.resolveIn d).cases (fun x => Name.snake x.1) (·.2)
  rw [UnionDeclaration.map_cases_resolveIn hacceptable.resolved] at hcases
  rw [Shape.named, stemsApart_map_iff, Union.populate, stemsApart_map_iff]
  simp only [Case.stem, Case.name_populate, hasEquality, Case.isRecord_populate,
    Bool.false_or]
  exact hcases.symm.trans (stemsApart_map_iff ..)

/-- A document with stems that are apart: one of them is another one with `_eq`, but values of
    that other type are not compared. -/
def separated : Document :=
  (Document.empty "demo").run
    [.addType { name := "Ping" },
      .addType { name := "PingEq", kind := .record },
      .addType { name := "AsyncPing", kind := .record },
      .addAlias "Echo" "Ping",
      .addUnion { scope := "demo", name := "Signal", cases := ["PingEq", "Echo", "AsyncPing"] }]

theorem namesDistinct_separated :
    ∃ g declaration, generate separated "Signal" defaultRuntimePath = .ok g ∧
      separated.union? "Signal" = some declaration ∧
      (Shape.named (declaration.resolveIn separated).populate
        defaultRuntimePath).NamesDistinct := by
  have hsignal : separated.union? "Signal" =
      some ⟨"demo", "Signal", true, ["PingEq", "Echo", "AsyncPing"]⟩ := rfl
  have hgenerate := generate_of_union? hsignal defaultRuntimePath
  obtain ⟨declaration, hdeclared, -, hiff⟩ := namesDistinct_generate_iff hgenerate
  refine ⟨_, declaration, hgenerate, hdeclared, hiff.mpr ?_⟩
  obtain rfl := Option.some.inj hdeclared
  exact ⟨by decide, by decide, by decide, by decide⟩

/-- A plain name: ASCII letters, digits and underscores, first a letter, and no keyword. -/
def Name.isPlain (name : String) : Bool :=
  name.toList.all (fun c => c.isAlphanum || c == '_') && name.toList.head?.any Char.isAlpha
    && !keywords.contains name

/-- A document with a type whose stem is `async`. -/
def clashing : Document :=
  (Document.empty "demo").run
    [.addType { name := "Async", kind := .record },
      .addType { name := "Retry", kind := .record },
      .addUnion { scope := "demo", name := "Job", cases := ["Async", "Retry"] }]

/-- Plain names do not keep the names of emitted functions apart: the transform of a type
    `Async` is called like the asynchronous form for all cases. -/
theorem exists_plain_not_namesDistinct :
    ¬ ∀ (d : Document) (name path : String) (declaration : UnionDeclaration) (g : Generated),
      (∀ t ∈ d.types, Name.isPlain t.name) → Name.isPlain name →
      d.union? name = some declaration → generate d name path = .ok g →
      (Shape.named (declaration.resolveIn d).populate path).NamesDistinct := by
  intro h
  have hjob : clashing.union? "Job" = some ⟨"demo", "Job", true, ["Async", "Retry"]⟩ := rfl
  have hgenerate := generate_of_union? hjob defaultRuntimePath
  have hdistinct := h clashing "Job" defaultRuntimePath _ _ (by decide) (by decide) hjob hgenerate
  have hstem := ((Shape.namesDistinct_iff _).mp hdistinct).ne_async
  revert hstem
  decide

end documents

end TaggedUnion
