import TaggedUnion.Proofs.Emit.FreshNames
import TaggedUnion.Proofs.Emit.Mirrors

/-! # The names of type parameters

    Emitted code has type parameters of its own: for results, for futures, for the new types of
    cases, and for pending unions. None of them may be mistaken for another type:

    * **`Family.parameterLists`**: all lists of type parameters that a family writes.
    * **`Shape.AddsNew`**: a list has new names, and behind them those of the union itself or none.
    * **`Family.addsNew`**: every list that a family writes is of this form.
    * **`Shape.isHygienic`**: the names in a list are distinct, and none of the new ones is a name
      that the shape uses for a type.

    All new names of all emitters come from the list `Shape.newNames`, in its order, so that a
    function is checked by finding its bases there.
-/

namespace TaggedUnion

open Code Emit

/-- The lists of type parameters in an item: its own, and those of its functions. -/
def Code.Item.parameterLists : Item → List TypeParameters
  | .imports _ => []
  | .enum e => [e.typeParameters]
  | .trait t => t.typeParameters :: t.functions.map (·.typeParameters)
  | .implementation i => i.typeParameters :: i.functions.map (·.typeParameters)

/-- The names in the lists of type parameters that a family writes. -/
def Family.parameterLists (f : Family) (s : Shape) : List (List String) :=
  ((f.items s).flatMap Item.parameterLists).map List.flatten

namespace Shape

variable (s : Shape)

/-- New names for type parameters, and behind them those of the union itself or none. -/
def AddsNew (names : List String) : Prop :=
  ∃ own, own.Sublist s.newNames ∧ (names = own ∨ names = own ++ s.typeParameters.flatten)

theorem addsNew_of_sublist {names : List String} (h : names.Sublist s.newNames) :
    s.AddsNew names := ⟨names, h, .inl rfl⟩

theorem addsNew_typeParameters : s.AddsNew s.typeParameters.flatten :=
  ⟨[], List.nil_sublist _, .inr rfl⟩

theorem newNames_eq :
    s.newNames = loneBases.map s.fresh ++ (s.freshNumbered "U" ++ s.freshNumbered "Fut") := by
  rw [newNames, bases, List.map_append, List.map_append, map_fresh_numbered, map_fresh_numbered]

/-- Fresh names of some of the bases that stand for themselves, in order. -/
theorem sublist_lone (names : List String) (h : names.Sublist loneBases) :
    (names.map s.fresh).Sublist s.newNames := by
  rw [newNames_eq]
  exact (h.map s.fresh).trans (List.sublist_append_left ..)

end Shape

/-- All lists of an item are of this form. -/
def Code.Item.AddsNew (item : Item) (s : Shape) : Prop :=
  ∀ ps ∈ item.parameterLists, s.AddsNew ps.flatten

namespace Emit

variable (s : Shape)

/-! ### Functions -/

theorem sublist_ite {names more : List String} (b : Bool) (h : names.Sublist more) :
    (if b then names else []).Sublist more := by
  cases b with
  | false => exact List.nil_sublist _
  | true => exact h

/-- A dispatch has a parameter for its result, if it has one, and a future for each case. -/
theorem newNames_dispatchFunction (stem : String) {result : Option String}
    (hresult : ∀ r ∈ result, r = s.fresh "R") (isAsync : Bool) :
    (dispatchFunction s stem result isAsync).typeParameters.flatten.Sublist s.newNames := by
  have hown : (result.toList.map ([·])).flatten = result.toList := by
    cases result with
    | none => rfl
    | some r => rfl
  have hlone : result.toList.Sublist (["R"].map s.fresh) := by
    cases result with
    | none => exact List.nil_sublist _
    | some r =>
      rw [hresult r rfl]
      exact List.Sublist.refl _
  have hflatten : (dispatchFunction s stem result isAsync).typeParameters.flatten =
      result.toList ++ (if isAsync then s.freshNumbered "Fut" else []) := by
    cases isAsync <;> simp [dispatchFunction, hown]
  rw [hflatten, s.newNames_eq]
  refine List.Sublist.append (hlone.trans ?_) (sublist_ite _ (List.sublist_append_right ..))
  exact List.Sublist.map s.fresh (by decide)

theorem newNames_matchFunctions {f : Function} (h : f ∈ matchFunctions s) :
    f.typeParameters.flatten.Sublist s.newNames := by
  have hresult : ∀ r ∈ some (s.fresh "R"), r = s.fresh "R" := fun _ h => (Option.some.inj h).symm
  simp only [matchFunctions, List.mem_cons, List.not_mem_nil, or_false] at h
  rcases h with rfl | rfl
  · exact newNames_dispatchFunction s "match" hresult false
  · exact newNames_dispatchFunction s "match" hresult true

theorem newNames_switchFunctions {f : Function} (h : f ∈ switchFunctions s) :
    f.typeParameters.flatten.Sublist s.newNames := by
  have hresult : ∀ r ∈ (none : Option String), r = s.fresh "R" := fun _ h => nomatch h
  simp only [switchFunctions, List.mem_cons, List.not_mem_nil, or_false] at h
  rcases h with rfl | rfl
  · exact newNames_dispatchFunction s "switch" hresult false
  · exact newNames_dispatchFunction s "switch" hresult true

namespace Transform

variable (t : Transform)

theorem flatten_oneGroup (names : List String) : (oneGroup names).flatten = names := by
  cases names <;> simp [oneGroup]

/-- A transform has the new types of the cases that it changes, and the futures of its handlers. -/
theorem newNames_functions {m : Function} (h : m ∈ t.functions s) :
    m.typeParameters.flatten.Sublist s.newNames := by
  rcases (t.mem_functions_iff s).mp h with ⟨isAsync, rfl⟩ | ⟨i, hi, isAsync, rfl⟩
  · have hflatten : (t.full s isAsync).typeParameters.flatten =
        (if s.isGeneric then s.freshNumbered "U" else []) ++
          (if isAsync then s.freshNumbered "Fut" else []) := by
      cases hgeneric : s.isGeneric <;>
        simp [full, fullMethod, Method.inherent, flatten_oneGroup, targets, hgeneric]
    rw [hflatten, s.newNames_eq]
    refine List.Sublist.trans ?_ (List.sublist_append_right ..)
    exact (sublist_ite _ (List.Sublist.refl _)).append (sublist_ite _ (List.Sublist.refl _))
  · have hflatten : (t.single s i s.cases[i] isAsync).typeParameters.flatten =
        (if s.isGeneric then ["U"].map s.fresh else []) ++
          (if isAsync then ["Fut"].map s.fresh else []) := by
      cases hgeneric : s.isGeneric <;>
        simp [single, singleMethod, Method.inherent, flatten_oneGroup, hgeneric]
    rw [hflatten]
    refine List.Sublist.trans ?_ (s.sublist_lone ["U", "Fut"] (by decide))
    exact (sublist_ite _ (List.Sublist.refl _)).append (sublist_ite _ (List.Sublist.refl _))

end Transform

theorem typeParameters_newFunction {c : ShapeCase} {m : Function} (h : newFunction s c = some m) :
    m.typeParameters = [] := by
  unfold newFunction at h
  split at h
  · cases h
  · split at h
    · cases h
    · rw [← Option.some.inj h]

theorem typeParameters_coreFunctions {m : Function} (h : m ∈ coreFunctions s) :
    m.typeParameters = [] := by
  rcases List.mem_append.mp h with h | h
  · rcases List.mem_append.mp h with h | h
    · obtain ⟨c, -, h⟩ := List.mem_flatMap.mp h
      rcases List.mem_cons.mp h with rfl | h
      · rfl
      · exact typeParameters_newFunction s (Option.mem_toList.mp h)
    · simp only [List.mem_cons, List.not_mem_nil, or_false] at h
      rcases h with rfl | rfl
      · rfl
      · rfl
  · obtain ⟨c, -, h⟩ := List.mem_flatMap.mp h
    simp only [List.mem_cons, List.not_mem_nil, or_false] at h
    rcases h with rfl | rfl | rfl
    · rfl
    · rfl
    · rfl

/-- A case is asserted by a first function, and perhaps by a second one. -/
theorem typeParameters_assertion {first second : Function} {b : Bool} {m : Function}
    (hfirst : first.typeParameters = []) (hsecond : second.typeParameters = [])
    (h : m ∈ first :: if b then [second] else []) : m.typeParameters = [] := by
  rcases List.mem_cons.mp h with rfl | h
  · exact hfirst
  · split at h
    · rw [List.mem_singleton.mp h]
      exact hsecond
    · cases h

/-! ### Items -/

section items

variable {s}

/-- The lists of an item, from its own one and those of its functions. -/
theorem addsNew_parameterLists {own : TypeParameters} {functions : List Function}
    (hown : s.AddsNew own.flatten)
    (hfunctions : ∀ m ∈ functions, m.typeParameters.flatten.Sublist s.newNames) :
    ∀ ps ∈ own :: functions.map (·.typeParameters), s.AddsNew ps.flatten := by
  intro ps hps
  rcases List.mem_cons.mp hps with rfl | hps
  · exact hown
  · obtain ⟨m, hm, rfl⟩ := List.mem_map.mp hps
    exact s.addsNew_of_sublist (hfunctions m hm)

/-- Functions without type parameters add no name. -/
theorem newNames_of_eq_nil {functions : List Function}
    (h : ∀ m ∈ functions, m.typeParameters = []) :
    ∀ m ∈ functions, m.typeParameters.flatten.Sublist s.newNames := by
  intro m hm
  rw [h m hm]
  exact List.nil_sublist _

theorem addsNew_core : ∀ item ∈ core s, item.AddsNew s := by
  have hunion := s.addsNew_typeParameters
  intro item hitem
  rcases List.mem_append.mp hitem with hitem | hitem
  · rcases List.mem_append.mp hitem with hitem | hitem
    · simp only [List.mem_cons, List.not_mem_nil, or_false] at hitem
      rcases hitem with rfl | rfl | rfl
      · exact fun _ h => absurd h List.not_mem_nil
      · exact fun ps h => List.mem_singleton.mp h ▸ hunion
      · exact addsNew_parameterLists hunion
          (newNames_of_eq_nil fun _ => typeParameters_coreFunctions s)
    · split at hitem
      · cases hitem
      · obtain ⟨c, -, rfl⟩ := List.mem_map.mp hitem
        refine addsNew_parameterLists (s.addsNew_of_sublist (List.nil_sublist _)) ?_
        exact newNames_of_eq_nil (List.forall_mem_singleton.mpr rfl)
  · rw [List.mem_singleton.mp hitem]
    refine addsNew_parameterLists hunion (newNames_of_eq_nil ?_)
    exact List.forall_mem_cons.mpr ⟨rfl, List.forall_mem_singleton.mpr rfl⟩

theorem addsNew_withPending {name title : String} {functions pending : List Function}
    (hmirrors : List.Forall₂ Mirrors functions pending)
    (h : ∀ f ∈ functions, f.typeParameters.flatten.Sublist s.newNames) :
    ∀ item ∈ withPending s name title functions pending, item.AddsNew s := by
  have hunion := s.addsNew_typeParameters
  intro item hitem
  simp only [withPending, List.mem_cons, List.not_mem_nil, or_false] at hitem
  rcases hitem with rfl | rfl | rfl
  · exact addsNew_parameterLists hunion h
  · -- An image has the type parameters of its method.
    refine addsNew_parameterLists hunion fun f hf => ?_
    obtain ⟨own, hown, hf⟩ := exists_of_mem_right hmirrors hf
    rw [hf.typeParameters]
    exact h own hown
  · refine addsNew_parameterLists ?_ fun _ h => absurd h List.not_mem_nil
    exact ⟨["Pending"].map s.fresh, s.sublist_lone ["Pending"] (by decide), .inr rfl⟩

theorem addsNew_transform (t : Transform) :
    ∀ item ∈ t.items s, item.AddsNew s :=
  addsNew_withPending (t.mirrors_functions s) fun _ => t.newNames_functions s

theorem addsNew_assertions :
    ∀ item ∈ assertions s, item.AddsNew s := by
  have hunion := s.addsNew_typeParameters
  intro item hitem
  simp only [assertions, List.mem_cons, List.not_mem_nil, or_false] at hitem
  rcases hitem with rfl | rfl
  · refine addsNew_parameterLists hunion (newNames_of_eq_nil ?_)
    intro m hm
    obtain ⟨c, -, hm⟩ := List.mem_flatMap.mp hm
    exact typeParameters_assertion rfl rfl hm
  · refine addsNew_parameterLists hunion (newNames_of_eq_nil ?_)
    intro m hm
    obtain ⟨c, -, hm⟩ := List.mem_flatMap.mp hm
    exact typeParameters_assertion rfl rfl hm

theorem addsNew_tap : ∀ item ∈ tap s, item.AddsNew s := by
  refine List.forall_mem_singleton.mpr ?_
  refine addsNew_parameterLists s.addsNew_typeParameters (newNames_of_eq_nil ?_)
  exact List.forall_mem_map.mpr fun _ _ => rfl

theorem addsNew_partition :
    ∀ item ∈ partition s, item.AddsNew s := by
  refine List.forall_mem_singleton.mpr ?_
  refine addsNew_parameterLists s.addsNew_typeParameters (List.forall_mem_singleton.mpr ?_)
  exact s.sublist_lone ["I"] (by decide)

end items

end Emit

theorem Family.addsNew_items (f : Family) (s : Shape) : ∀ item ∈ f.items s, item.AddsNew s := by
  cases f with
  | core => exact addsNew_core
  | matching =>
    exact addsNew_withPending (mirrors_matchFunctions s) fun _ => newNames_matchFunctions s
  | switching =>
    exact addsNew_withPending (mirrors_switchFunctions s) fun _ => newNames_switchFunctions s
  | map => exact addsNew_transform .map
  | bind => exact addsNew_transform .bind
  | tap => exact addsNew_tap
  | partition => exact addsNew_partition
  | assertions => exact addsNew_assertions

/-- A family writes new names and those of the union itself, and no others. -/
theorem Family.addsNew (f : Family) {s : Shape} {names : List String}
    (h : names ∈ f.parameterLists s) : s.AddsNew names := by
  obtain ⟨ps, hps, rfl⟩ := List.mem_map.mp h
  obtain ⟨item, hitem, hps⟩ := List.mem_flatMap.mp hps
  exact f.addsNew_items s item hitem ps hps

namespace Shape

/-! ### Distinct names -/

/-- A name that the shape uses for a type: its own, that of a case type, or that of a variant. -/
def UsesName (s : Shape) (name : String) : Prop :=
  name = s.name ∨ ∃ c ∈ s.cases, name = c.typeName ∨ name = c.variant

theorem caseTypes_generic (n : Nat) (path : String) :
    (generic n path).caseTypes = (generic n path).numbered "T" := by
  simp [caseTypes, generic, numbered, arity, genericCase, Function.comp_def]

/-- New names stay apart from the type parameters of the union. -/
theorem AddsNew.nodup {s : Shape} {names : List String} (h : s.AddsNew names)
    (hcases : s.isGeneric = true → s.caseTypes.Nodup) : names.Nodup := by
  obtain ⟨own, hown, rfl | rfl⟩ := h
  · exact s.nodup_newNames.sublist hown
  · rw [typeParameters]
    split
    · next hgeneric =>
      refine List.nodup_append.mpr ⟨s.nodup_newNames.sublist hown, ?_, ?_⟩
      · simpa using hcases hgeneric
      · -- A case type is a taken name, and a new one is not.
        intro name hname type htype heq
        have htype : type ∈ s.caseTypes := by simpa using htype
        obtain ⟨c, hc, rfl⟩ := List.mem_map.mp htype
        refine s.notMem_of_mem_newNames (hown.subset hname) ?_
        exact s.mem_takenNames_iff.mpr (.inr ⟨c, hc, .inl heq⟩)
    · simpa using s.nodup_newNames.sublist hown

/-- What type parameters are called for a shape. -/
structure IsHygienic (s : Shape) : Prop where
  /-- The loop that looks for a fresh name ends, and with that name. -/
  ends : ∀ base, lengthen s.takenNames base = s.fresh base
  /-- That is the base with the fewest underscores that make another name of it. -/
  least : ∀ base, ∃ count ≤ 2 * s.cases.length + 1, s.fresh base = underscored base count ∧
    ¬ s.UsesName (underscored base count) ∧ ∀ fewer < count, s.UsesName (underscored base fewer)
  /-- A list of type parameters consists of new names and those of the union itself, if any. -/
  new : ∀ f : Family, ∀ names ∈ f.parameterLists s,
    ∃ own, (names = own ∨ names = own ++ s.typeParameters.flatten) ∧ own.Nodup ∧
      ∀ name ∈ own, ¬ s.UsesName name
  /-- Its names are distinct, unless those of the union itself are not. -/
  distinct : (s.isGeneric = true → s.caseTypes.Nodup) →
    ∀ f : Family, ∀ names ∈ f.parameterLists s, names.Nodup

/-- Type parameters are apart from the names of every shape, and from one another in the shapes
    of a schema and in those of a generic union, whose case types are `T1`, `T2` and so on. -/
theorem isHygienic :
    (∀ s : Shape, s.IsHygienic) ∧
    (∀ (u : Schema.Union) (path : String) (f : Family),
      ∀ names ∈ f.parameterLists (named u path), names.Nodup) ∧
    ∀ (n : Nat) (path : String),
      (generic n path).caseTypes = ((List.range' 1 n).map fun i => "T" ++ toString i) ∧
        ∀ f : Family, ∀ names ∈ f.parameterLists (generic n path), names.Nodup := by
  have huses (s : Shape) {name : String} : name ∈ s.takenNames ↔ s.UsesName name :=
    s.mem_takenNames_iff
  refine ⟨?_, ?_, ?_⟩
  · intro s
    refine ⟨s.lengthen_eq_fresh, ?_, ?_, ?_⟩
    · intro base
      obtain ⟨count, hle, hfresh, hfree, htaken⟩ := s.exists_fresh base
      rw [length_takenNames] at hle
      exact ⟨count, hle, hfresh, fun huse => hfree ((huses s).mpr huse),
        fun fewer hlt => (huses s).mp (htaken fewer hlt)⟩
    · intro f names hnames
      obtain ⟨own, hown, hnames⟩ := f.addsNew hnames
      refine ⟨own, hnames, s.nodup_newNames.sublist hown, ?_⟩
      intro name hname huse
      exact s.notMem_of_mem_newNames (hown.subset hname) ((huses s).mpr huse)
    · intro hcases f names hnames
      exact (f.addsNew hnames).nodup hcases
  · intro u path f names hnames
    have hnamed : (named u path).isGeneric = false := rfl
    refine (f.addsNew hnames).nodup fun hgeneric => ?_
    rw [hnamed] at hgeneric
    cases hgeneric
  · intro n path
    refine ⟨?_, ?_⟩
    · rw [caseTypes_generic]
      simp [numbered, generic, arity]
    · intro f names hnames
      refine (f.addsNew hnames).nodup fun _ => ?_
      rw [caseTypes_generic]
      exact nodup_numbered _ _

end Shape

end TaggedUnion
