import TaggedUnion.Proofs.Emit.FreshNames
import TaggedUnion.Proofs.Emit.ImportPaths
import TaggedUnion.Proofs.Emit.Mirrors
import TaggedUnion.Proofs.Emit.UnbrokenCode

/-! # Unbroken shapes

    Emitted code has unbroken texts, and so unbroken lines, where no text of the shape has a line
    feed. This module follows the families:

    * **`Shape.IsUnbroken`**: no text of a shape has a line feed.
    * **`isUnbroken_withPending`**: a family with a trait for pending unions has unbroken texts if
      its functions have.
    * **`Family.isUnbroken_items`**: every item of every family has unbroken texts.
-/

namespace TaggedUnion

open Code Emit Schema Text

/-! ### Unbroken shapes -/

/-- No text of a parameter has a line feed, nor has what is said about it. -/
structure Schema.CaseParameter.IsUnbroken (p : CaseParameter) : Prop where
  name : Text.IsUnbroken p.name
  typeName : Text.IsUnbroken p.typeName
  displayText : Text.IsUnbroken p.displayText

/-- No text of a case has a line feed. -/
structure ShapeCase.IsUnbroken (c : ShapeCase) : Prop where
  variant : Text.IsUnbroken c.variant
  typeName : Text.IsUnbroken c.typeName
  stem : Text.IsUnbroken c.stem
  constructor : ∀ k ∈ c.constructor, Text.IsUnbroken k.name
  parameters : ∀ p ∈ c.parameters, p.IsUnbroken
  importPath : ∀ path ∈ c.importPath, Text.IsUnbroken path

/-- No text of a shape has a line feed. -/
structure Shape.IsUnbroken (s : Shape) : Prop where
  name : Text.IsUnbroken s.name
  runtimePath : Text.IsUnbroken s.runtimePath
  binding : Text.IsUnbroken s.binding
  cases : ∀ c ∈ s.cases, c.IsUnbroken

/-! ### Names made from names -/

@[simp] theorem lineFeed_mem_toDigits (n : Nat) : '\n' ∉ Nat.toDigits 10 n := by
  simpa using (isNeat_toString n).oneLine

@[simp] theorem lineFeed_mem_intercalate (xs : List String) :
    '\n' ∈ [',', ' '].intercalate (xs.map String.toList) ↔ ∃ x ∈ xs, '\n' ∈ x.toList := by
  rw [← lineFeed_mem_commaSeparated]
  simp [commaSeparated]

@[simp] theorem lineFeed_mem_argumentName (p : CaseParameter) :
    '\n' ∈ p.argumentName.toList ↔ '\n' ∈ p.name.toList := p.mem_argumentName_iff (by decide)

@[simp] theorem lineFeed_mem_fieldName (p : CaseParameter) :
    '\n' ∈ p.fieldName.toList ↔ '\n' ∈ p.name.toList := Name.mem_identifier_iff (by decide) p.name

namespace Shape

variable (s : Shape)

/-- The underscores of a fresh name do not break it. -/
@[simp] theorem lineFeed_mem_fresh {base : String} :
    '\n' ∈ (s.fresh base).toList ↔ '\n' ∈ base.toList := by
  obtain ⟨count, -, hfresh, -, -⟩ := s.exists_fresh base
  simp [hfresh, underscored]

theorem isUnbroken_of_mem_freshNumbered {base : String} (h : Text.IsUnbroken base) :
    ∀ name ∈ s.freshNumbered base, Text.IsUnbroken name := by
  refine List.forall_mem_map.mpr ?_
  intro i _
  simpa using h

variable {s} (h : s.IsUnbroken)

include h

theorem IsUnbroken.caseTypes : ∀ name ∈ s.caseTypes, Text.IsUnbroken name :=
  List.forall_mem_map.mpr fun c hc => (h.cases c hc).typeName

theorem IsUnbroken.typeParameters :
    ∀ group ∈ s.typeParameters, ∀ name ∈ group, Text.IsUnbroken name := by
  unfold Shape.typeParameters
  split
  · exact List.forall_mem_singleton.mpr h.caseTypes
  · rintro _ ⟨⟩

theorem IsUnbroken.retyped {types : List String} (htypes : ∀ t ∈ types, Text.IsUnbroken t) :
    Text.IsUnbroken (s.retyped types) := by
  unfold Shape.retyped
  split
  · simpa [h.name] using htypes
  · exact h.name

theorem IsUnbroken.generics : Text.IsUnbroken s.generics := by
  have hlist : Text.IsUnbroken s.typeParameterList := by
    rw [Text.IsUnbroken, Shape.typeParameterList, ← commaSeparated, lineFeed_mem_commaSeparated]
    rintro ⟨name, hname, hfeed⟩
    obtain ⟨group, hgroup, hname⟩ := List.mem_flatten.mp hname
    exact h.typeParameters group hgroup name hname hfeed
  unfold Shape.generics
  split
  · simpa using hlist
  · simp

theorem IsUnbroken.selfType : Text.IsUnbroken s.selfType := by
  simp [Shape.selfType, h.name, h.generics]

omit h in
theorem isUnbroken_handlerAttributes : ∀ x ∈ s.handlerAttributes, Text.IsUnbroken x := by
  unfold handlerAttributes
  split
  · exact isUnbroken_of_mem_literal (by decide)
  · rintro _ ⟨⟩

end Shape

/-! ### Parts that the emitters have in common -/

variable {s : Shape} {c : ShapeCase}

@[simp] theorem lineFeed_mem_mustUse : '\n' ∉ mustUse.toList := by simp [mustUse]

@[simp] theorem lineFeed_mem_futureOf (output : String) :
    '\n' ∈ (futureOf output).toList ↔ '\n' ∈ output.toList := by
  unfold futureOf
  simp

@[simp] theorem lineFeed_mem_handlerName (c : ShapeCase) :
    '\n' ∈ (handlerName c).toList ↔ '\n' ∈ c.stem.toList := by simp [handlerName]

@[simp] theorem lineFeed_mem_handlerType (argument : String) (result : Option String) :
    '\n' ∈ (handlerType argument result).toList ↔
      '\n' ∈ argument.toList ∨ ∃ r ∈ result, '\n' ∈ r.toList := by
  unfold handlerType
  cases result <;> simp

@[simp] theorem lineFeed_mem_awaitedIf (isAsync : Bool) (e : Expr) :
    '\n' ∈ (awaitedIf isAsync e).text.toList ↔ '\n' ∈ e.text.toList := by
  cases isAsync <;> simp [awaitedIf]

/-- Texts that are only there in one form, or only for a generic union. -/
theorem isUnbroken_of_mem_optional {p : Prop} [Decidable p] {texts : List String}
    (h : ∀ x ∈ texts, IsUnbroken x) : ∀ x ∈ (if p then texts else []), IsUnbroken x := by
  split
  · exact h
  · rintro _ ⟨⟩

/-- An arm for a case is as unbroken as its value. -/
theorem Shape.IsUnbroken.arm (h : s.IsUnbroken) (hc : c.IsUnbroken) {e : Expr}
    (he : Text.IsUnbroken e.text) : Text.IsUnbroken (Emit.arm s c e).text := by
  simpa [Emit.arm, hc.variant, h.binding] using he

theorem Shape.IsUnbroken.handlers (h : s.IsUnbroken) {results : List (Option String)}
    (hresults : ∀ result ∈ results, ∀ r ∈ result, Text.IsUnbroken r) :
    ∀ p ∈ Emit.handlers s results, Text.IsUnbroken p.1 ∧ Text.IsUnbroken p.2 := by
  intro p hp
  obtain ⟨⟨c, r⟩, hzip, rfl⟩ := List.mem_map.mp hp
  obtain ⟨hmem, hr⟩ := List.of_mem_zip hzip
  have hc := h.cases c hmem
  simpa [hc.stem, hc.typeName] using hresults r hr

theorem Shape.IsUnbroken.handlerDocs (h : s.IsUnbroken) :
    ∀ doc ∈ Emit.handlerDocs s, Text.IsUnbroken doc := by
  refine List.forall_mem_cons.mpr ⟨by simp, List.forall_mem_map.mpr ?_⟩
  intro c hmem
  have hc := h.cases c hmem
  simp [hc.stem, hc.typeName]

theorem isUnbroken_futureBounds {futures outputs : List String}
    (hfutures : ∀ f ∈ futures, IsUnbroken f) (houtputs : ∀ o ∈ outputs, IsUnbroken o) :
    ∀ b ∈ futureBounds futures outputs, IsUnbroken b.text := by
  intro b hb
  obtain ⟨⟨f, o⟩, hzip, rfl⟩ := List.mem_map.mp hb
  obtain ⟨hf, ho⟩ := List.of_mem_zip hzip
  simp [hfutures f hf, houtputs o ho]

/-- An asynchronous method asks its futures for what the handlers result in. -/
theorem isUnbroken_optionalBounds (isAsync : Bool) {futures outputs : List String}
    (hfutures : ∀ f ∈ futures, IsUnbroken f) (houtputs : ∀ o ∈ outputs, IsUnbroken o) :
    ∀ bs ∈ (if isAsync then some (futureBounds futures outputs) else none),
      ∀ b ∈ bs, IsUnbroken b.text := by
  cases isAsync with
  | true =>
    rintro _ ⟨⟩
    exact isUnbroken_futureBounds hfutures houtputs
  | false => rintro _ ⟨⟩

/-- The functions of the union itself. -/
theorem isUnbroken_inherent (h : s.IsUnbroken) {functions : List Function}
    (hfunctions : ∀ f ∈ functions, f.IsUnbroken) {openEnd : Bool} : Implementation.IsUnbroken
      ⟨s.typeParameters, none, s.selfType, none, [], functions, openEnd⟩ where
  typeParameters := h.typeParameters
  trait := by rintro _ ⟨⟩
  target := h.selfType
  bounds := by rintro _ ⟨⟩
  constants := by rintro _ ⟨⟩
  functions := hfunctions

/-! ### Pending unions -/

/-- The image of a method brings only its documentation and its attributes along. -/
theorem isUnbroken_of_forwards {own pending : Function} (h : Forwards own pending)
    (hown : own.IsUnbroken) (hdocs : ∀ doc ∈ pending.docs, IsUnbroken doc)
    (hattributes : ∀ x ∈ pending.attributes, IsUnbroken x) : pending.IsUnbroken where
  docs := hdocs
  attributes := hattributes
  name := h.name ▸ hown.name
  typeParameters := h.typeParameters ▸ hown.typeParameters
  receiver := by simp [h.receivers.2]
  parameters := h.parameters ▸ hown.parameters
  result := by
    have hresult : IsUnbroken own.resultType := by
      rw [Function.resultType]
      cases hr : own.result with
      | none => simp
      | some r => exact hown.result r hr
    simpa [h.result] using hresult
  bounds := h.bounds ▸ hown.bounds
  body := by
    have harguments : ∀ p ∈ own.parameters, IsUnbroken p.1 := fun p hp => (hown.parameters p hp).1
    rw [h.body]
    rintro _ ⟨⟩
    -- An asynchronous method is awaited once more.
    cases hasync : own.isAsync <;>
      simpa [Function.forwarded, hasync, hown.name] using harguments

theorem isUnbroken_withPending (h : s.IsUnbroken) {name title : String} (hname : IsUnbroken name)
    (htitle : IsUnbroken title) {functions pending : List Function}
    (hmirrors : List.Forall₂ Mirrors functions pending)
    (hfunctions : ∀ f ∈ functions, f.IsUnbroken)
    (hlead : ∀ f ∈ pending, (∀ doc ∈ f.docs, IsUnbroken doc) ∧
      ∀ x ∈ f.attributes, IsUnbroken x) :
    ∀ item ∈ withPending s name title functions pending, item.IsUnbroken := by
  have hown : Implementation.IsUnbroken
      ⟨s.typeParameters, none, s.selfType, none, [], functions, false⟩ :=
    isUnbroken_inherent h hfunctions
  have htrait : (pendingTrait s name title pending).IsUnbroken :=
    { docs := by
        have hresolving : IsUnbroken ("Implemented for every future resolving to `" ++ s.name ++
            "`; each method awaits the") :=
          isUnbroken_within h.name (by decide)
        exact List.forall_mem_append.mpr ⟨isUnbroken_title htitle, List.forall_mem_cons.mpr
          ⟨hresolving, isUnbroken_of_mem_literal (by decide)⟩⟩
      name := hname
      typeParameters := h.typeParameters
      supertraits := by simp [pendingTrait, h.selfType]
      functions := by
        intro f hf
        obtain ⟨own, hown, hf'⟩ := exists_of_mem_right hmirrors hf
        exact isUnbroken_of_forwards hf'.toForwards (hfunctions own hown) (hlead f hf).1
          (hlead f hf).2 }
  have hall : (pendingImplementation s name).IsUnbroken :=
    { typeParameters := List.forall_mem_cons.mpr ⟨by simp, h.typeParameters⟩
      trait := by simp [pendingImplementation, hname, h.generics]
      target := by simp [pendingImplementation]
      bounds := by simp [pendingImplementation, h.selfType]
      constants := by rintro _ ⟨⟩
      functions := by rintro _ ⟨⟩ }
  simp only [withPending, List.forall_mem_cons, List.not_mem_nil, false_implies, implies_true,
    and_true]
  exact ⟨hown, htrait, hall⟩

/-! ### The union type -/

@[simp] theorem lineFeed_mem_variantOf (c : ShapeCase) (e : Expr) :
    '\n' ∈ (variantOf c e).text.toList ↔ '\n' ∈ c.variant.toList ∨ '\n' ∈ e.text.toList := by
  unfold variantOf
  simp

theorem isUnbroken_fromFunction (h : s.IsUnbroken) (hc : c.IsUnbroken) :
    (fromFunction s c).IsUnbroken := by
  rw [Function.isUnbroken_iff]
  simp [fromFunction, h.name, h.binding, hc.typeName, hc.stem, hc.variant]

theorem isUnbroken_construction (hc : c.IsUnbroken) {k : ConstructorRef}
    (hk : IsUnbroken k.name) : IsUnbroken (construction c k).text := by
  have hnames : ∀ p ∈ c.parameters, IsUnbroken p.name := fun p hp => (hc.parameters p hp).name
  unfold construction
  split
  · simpa [hc.typeName] using hnames
  · simpa [hc.typeName, hk] using hnames

theorem isUnbroken_newFunction (h : s.IsUnbroken) (hc : c.IsUnbroken) :
    ∀ f ∈ newFunction s c, f.IsUnbroken := by
  intro f hf
  -- Only a case whose constructor has parameters has the function.
  unfold newFunction at hf
  split at hf
  · cases hf
  · next k hk =>
    split at hf
    · cases hf
    · obtain rfl := Option.some.inj hf
      exact {
        docs := by
          refine List.forall_mem_append.mpr ⟨?_, List.forall_mem_map.mpr ?_⟩
          · simp [h.name, hc.typeName]
          · intro p hp
            simp [(hc.parameters p hp).name, (hc.parameters p hp).displayText]
        attributes := List.forall_mem_append.mpr
          ⟨isUnbroken_of_mem_optional (isUnbroken_of_mem_literal (by decide)), by simp⟩
        name := by simp [hc.stem]
        typeParameters := by rintro _ ⟨⟩
        receiver := by rintro _ ⟨⟩
        parameters := by
          refine List.forall_mem_map.mpr ?_
          intro p hp
          simp [(hc.parameters p hp).name, (hc.parameters p hp).typeName]
        result := by simp
        bounds := by rintro _ ⟨⟩
        body := by
          have hbuilt := isUnbroken_construction hc (hc.constructor k hk)
          simpa [hc.variant] using hbuilt }

theorem isUnbroken_tagFunction (h : s.IsUnbroken) : (tagFunction s).IsUnbroken := by
  have hvariant : ∀ c ∈ s.cases, IsUnbroken c.variant := fun c hmem => (h.cases c hmem).variant
  rw [Function.isUnbroken_iff]
  refine ⟨isUnbroken_of_mem_literal (by decide), ?_⟩
  simpa [tagFunction, matchSelf] using hvariant

theorem isUnbroken_caseNameFunction (h : s.IsUnbroken) :
    (caseNameFunction s).IsUnbroken := by
  have hvariant : ∀ c ∈ s.cases, IsUnbroken c.variant := fun c hmem => (h.cases c hmem).variant
  rw [Function.isUnbroken_iff]
  refine ⟨isUnbroken_of_mem_literal (by decide), ?_⟩
  simpa [caseNameFunction, matchSelf] using hvariant

theorem isUnbroken_isFunction (hc : c.IsUnbroken) : (isFunction c).IsUnbroken := by
  have hdoc : IsUnbroken ("Returns `true` if the union holds a `" ++ c.typeName ++ "`.") :=
    isUnbroken_within hc.typeName (by decide)
  rw [Function.isUnbroken_iff]
  refine ⟨List.forall_mem_singleton.mpr hdoc, ?_⟩
  simp [isFunction, hc.stem, hc.variant]

theorem isUnbroken_tryGetFunction (h : s.IsUnbroken) (hc : c.IsUnbroken) :
    (tryGetFunction s c).IsUnbroken := by
  have hdoc : IsUnbroken ("Returns the held `" ++ c.typeName ++
      "`, or `None` if another case is held.") :=
    isUnbroken_within hc.typeName (by decide)
  rw [Function.isUnbroken_iff]
  refine ⟨List.forall_mem_singleton.mpr hdoc, ?_⟩
  simp [tryGetFunction, matchSelf, arm, h.binding, hc.typeName, hc.stem, hc.variant]

theorem isUnbroken_tryIntoFunction (h : s.IsUnbroken) (hc : c.IsUnbroken) :
    (tryIntoFunction s c).IsUnbroken := by
  have htitle : IsUnbroken ("Converts into the held `" ++ c.typeName ++ "`.") :=
    isUnbroken_within hc.typeName (by decide)
  rw [Function.isUnbroken_iff]
  refine ⟨isUnbroken_section htitle (by decide), ?_⟩
  simp [tryIntoFunction, matchSelf, arm, h.binding, hc.typeName, hc.stem, hc.variant]

theorem isUnbroken_coreFunctions (h : s.IsUnbroken) :
    ∀ f ∈ coreFunctions s, f.IsUnbroken := by
  intro f hf
  rcases List.mem_append.mp hf with hf | hf
  · rcases List.mem_append.mp hf with hf | hf
    · obtain ⟨c, hmem, hf⟩ := List.mem_flatMap.mp hf
      rcases List.mem_cons.mp hf with rfl | hf
      · exact isUnbroken_fromFunction h (h.cases c hmem)
      · exact isUnbroken_newFunction h (h.cases c hmem) f (Option.mem_toList.mp hf)
    · simp only [List.mem_cons, List.not_mem_nil, or_false] at hf
      rcases hf with rfl | rfl
      · exact isUnbroken_tagFunction h
      · exact isUnbroken_caseNameFunction h
  · obtain ⟨c, hmem, hf⟩ := List.mem_flatMap.mp hf
    have hc := h.cases c hmem
    simp only [List.mem_cons, List.not_mem_nil, or_false] at hf
    rcases hf with rfl | rfl | rfl
    · exact isUnbroken_isFunction hc
    · exact isUnbroken_tryGetFunction h hc
    · exact isUnbroken_tryIntoFunction h hc

theorem isUnbroken_describeCases (h : s.IsUnbroken) : IsUnbroken s.describeCases := by
  have hnames : ∀ name ∈ (s.cases.map fun c => "`" ++ c.typeName ++ "`").reverse,
      IsUnbroken name := by
    intro name hname
    obtain ⟨c, hmem, rfl⟩ := List.mem_map.mp (List.mem_reverse.mp hname)
    simp [(h.cases c hmem).typeName]
  -- The text depends on how many names there are, and the last one is set off from the others.
  unfold Shape.describeCases
  simp only
  split
  · simp
  · next only heq =>
    exact hnames only (heq ▸ List.mem_cons_self)
  · next last others _ heq =>
    rw [heq] at hnames
    have hothers : IsUnbroken (commaSeparated others.reverse) := by
      rw [IsUnbroken, lineFeed_mem_commaSeparated]
      rintro ⟨x, hx, hfeed⟩
      exact hnames x (List.mem_cons_of_mem _ (List.mem_reverse.mp hx)) hfeed
    show '\n' ∉ (commaSeparated others.reverse ++ " or " ++ last).toList
    simp only [String.toList_append, List.mem_append, not_or]
    exact ⟨⟨hothers, by simp⟩, hnames last List.mem_cons_self⟩

theorem isUnbroken_enumOf (h : s.IsUnbroken) : (enumOf s).IsUnbroken where
  docs := by
    have hcases := isUnbroken_describeCases h
    unfold enumOf
    split
    · have hfirst : IsUnbroken
          ("Union of " ++ toString s.arity ++ " cases: " ++ s.describeCases ++ ".") := by
        simp [hcases]
      exact List.forall_mem_append.mpr
        ⟨isUnbroken_title hfirst, isUnbroken_of_mem_literal (by decide)⟩
    · have hsame : IsUnbroken ("Holds exactly one case at a time. Same shape as `Union" ++
          toString s.arity ++ "`.") :=
        isUnbroken_within (by simp) (by decide)
      exact List.forall_mem_append.mpr
        ⟨isUnbroken_title (by simp [hcases]), List.forall_mem_singleton.mpr hsame⟩
  attributes := by
    unfold enumOf
    split
    · exact isUnbroken_of_mem_literal (by decide)
    · exact isUnbroken_of_mem_optional (isUnbroken_of_mem_literal (by decide))
  name := h.name
  typeParameters := h.typeParameters
  variants := by
    refine List.forall_mem_map.mpr ?_
    intro c hmem
    simp [(h.cases c hmem).typeName, (h.cases c hmem).variant]

theorem isUnbroken_conversion (h : s.IsUnbroken) (hc : c.IsUnbroken) :
    (conversion s c).IsUnbroken := by
  rw [Implementation.isUnbroken_iff]
  simp [conversion, Function.isUnbroken_iff, h.name, h.binding,
    hc.typeName, hc.variant]

theorem isUnbroken_unionImplementation (h : s.IsUnbroken) :
    (unionImplementation s).IsUnbroken where
  typeParameters := h.typeParameters
  trait := by simp [unionImplementation, h.runtimePath]
  target := h.selfType
  bounds := by rintro _ ⟨⟩
  constants := by simp [unionImplementation]
  functions := by simp [unionImplementation, traitFunction, Function.isUnbroken_iff]

theorem isUnbroken_importPaths (h : s.IsUnbroken) : ∀ path ∈ importPaths s, IsUnbroken path := by
  intro path hpath
  obtain ⟨c, hmem, hc⟩ := mem_importPaths_iff.mp hpath
  exact (h.cases c hmem).importPath path hc

theorem isUnbroken_core (h : s.IsUnbroken) : ∀ item ∈ core s, item.IsUnbroken := by
  intro item hitem
  rcases List.mem_append.mp hitem with hitem | hitem
  · rcases List.mem_append.mp hitem with hitem | hitem
    · simp only [List.mem_cons, List.not_mem_nil, or_false] at hitem
      rcases hitem with rfl | rfl | rfl
      · exact isUnbroken_importPaths h
      · exact isUnbroken_enumOf h
      · exact isUnbroken_inherent h (isUnbroken_coreFunctions h)
    · split at hitem
      · cases hitem
      · obtain ⟨c, hmem, rfl⟩ := List.mem_map.mp hitem
        exact isUnbroken_conversion h (h.cases c hmem)
  · rw [List.mem_singleton.mp hitem]
    exact isUnbroken_unionImplementation h

/-! ### Dispatches -/

theorem isUnbroken_of_mem_futures (s : Shape) : ∀ f ∈ s.freshNumbered "Fut", IsUnbroken f :=
  s.isUnbroken_of_mem_freshNumbered (by simp)

theorem isUnbroken_dispatchFunction (h : s.IsUnbroken) (stem : String) (isAsync : Bool)
    {name : String} {result : Option String} {docs : List String} (hname : IsUnbroken name)
    (hdocs : ∀ doc ∈ docs, IsUnbroken doc) (hresult : ∀ r ∈ result, IsUnbroken r) :
    ({ dispatchFunction s stem result isAsync with name := name, docs := docs }
      : Function).IsUnbroken := by
  have hfutures := isUnbroken_of_mem_futures s
  have hown : ∀ group ∈ result.toList.map ([·]), ∀ x ∈ group, IsUnbroken x := by
    simpa using hresult
  have houtputs : ∀ o ∈ List.replicate s.arity (result.getD "()"), IsUnbroken o := by
    intro o ho
    rw [(List.mem_replicate.mp ho).2]
    cases result with
    | none => simp
    | some r => exact hresult r rfl
  -- What the handlers return: a future each, or what the function itself returns.
  have hhandled : ∀ r ∈ (if isAsync then (s.freshNumbered "Fut").map some
      else List.replicate s.arity result), ∀ x ∈ r, IsUnbroken x := by
    cases isAsync with
    | true =>
      refine List.forall_mem_map.mpr ?_
      rintro f hf _ ⟨⟩
      exact hfutures f hf
    | false =>
      intro r hr
      rw [(List.mem_replicate.mp hr).2]
      exact hresult
  have harms : ∀ c ∈ s.cases, IsUnbroken (handlerArm s isAsync c).text := by
    intro c hmem
    refine h.arm (h.cases c hmem) ?_
    simp [h.binding, (h.cases c hmem).stem]
  exact {
    docs := hdocs
    attributes := Shape.isUnbroken_handlerAttributes
    name := hname
    typeParameters := by
      cases isAsync with
      | true => exact List.forall_mem_append.mpr ⟨hown, List.forall_mem_singleton.mpr hfutures⟩
      | false => exact hown
    receiver := by simp [dispatchFunction]
    parameters := h.handlers hhandled
    result := hresult
    bounds := isUnbroken_optionalBounds isAsync hfutures houtputs
    body := by simpa [dispatchFunction] using harms }

theorem isUnbroken_asyncDispatchDocs (h : s.IsUnbroken) :
    ∀ doc ∈ asyncDispatchDocs s, IsUnbroken doc :=
  List.forall_mem_append.mpr
    ⟨isUnbroken_title (isUnbroken_literal (by decide)), h.handlerDocs⟩

theorem isUnbroken_lead_of_isPendingDispatch {f : Function} (hf : IsPendingDispatch s f) :
    (∀ doc ∈ f.docs, IsUnbroken doc) ∧ ∀ x ∈ f.attributes, IsUnbroken x := by
  obtain ⟨name, method, result, rfl | rfl⟩ := hf
  · exact ⟨isUnbroken_of_mem_literal (by decide), Shape.isUnbroken_handlerAttributes⟩
  · exact ⟨isUnbroken_of_mem_literal (by decide), Shape.isUnbroken_handlerAttributes⟩

theorem isUnbroken_matchWith (h : s.IsUnbroken) : ∀ item ∈ matchWith s, item.IsUnbroken := by
  have hresult : ∀ r ∈ some (s.fresh "R"), IsUnbroken r := by simp
  have hdocs : ∀ doc ∈ ["Calls the handler of the held case and returns its result.", "",
      "Exactly one handler runs.", ""] ++ handlerDocs s, IsUnbroken doc :=
    List.forall_mem_append.mpr
      ⟨isUnbroken_section (isUnbroken_literal (by decide)) (by decide), h.handlerDocs⟩
  have hwith : IsUnbroken "match_with" := by simp
  have hname : IsUnbroken ("match" ++ "_async") := by simp
  have hplain := isUnbroken_dispatchFunction h "match" false hwith hdocs hresult
  have hasync :=
    isUnbroken_dispatchFunction h "match" true hname (isUnbroken_asyncDispatchDocs h) hresult
  exact isUnbroken_withPending h (by simp [matchTraitName, h.name]) (by simp [h.name])
    (mirrors_matchFunctions s)
    (List.forall_mem_cons.mpr ⟨hplain, List.forall_mem_singleton.mpr hasync⟩)
    fun f hf => isUnbroken_lead_of_isPendingDispatch (isPendingDispatch_of_mem_match s hf)

theorem isUnbroken_switch (h : s.IsUnbroken) : ∀ item ∈ switch s, item.IsUnbroken := by
  have hresult : ∀ r ∈ (none : Option String), IsUnbroken r := by rintro _ ⟨⟩
  have hdocs : ∀ doc ∈ ["Calls the handler of the held case.", ""] ++ handlerDocs s,
      IsUnbroken doc :=
    List.forall_mem_append.mpr
      ⟨isUnbroken_title (isUnbroken_literal (by decide)), h.handlerDocs⟩
  have hstem : IsUnbroken "switch" := by simp
  have hname : IsUnbroken ("switch" ++ "_async") := by simp
  have hplain := isUnbroken_dispatchFunction h "switch" false hstem hdocs hresult
  have hasync :=
    isUnbroken_dispatchFunction h "switch" true hname (isUnbroken_asyncDispatchDocs h) hresult
  exact isUnbroken_withPending h (by simp [switchTraitName, h.name]) (by simp [h.name])
    (mirrors_switchFunctions s)
    (List.forall_mem_cons.mpr ⟨hplain, List.forall_mem_singleton.mpr hasync⟩)
    fun f hf => isUnbroken_lead_of_isPendingDispatch (isPendingDispatch_of_mem_switch s hf)

/-! ### Transforms -/

theorem isUnbroken_formName {isAsync : Bool} {name : String} (hname : IsUnbroken name) :
    IsUnbroken (Transform.formName isAsync name) := by
  cases isAsync <;> simpa [Transform.formName] using hname

theorem isUnbroken_oneGroup {names : List String} (h : ∀ name ∈ names, IsUnbroken name) :
    ∀ group ∈ Transform.oneGroup names, ∀ name ∈ group, IsUnbroken name := by
  unfold Transform.oneGroup
  split
  · rintro _ ⟨⟩
  · exact List.forall_mem_singleton.mpr h

theorem isUnbroken_stem (t : Transform) : IsUnbroken t.stem := by
  cases t <;> simp [Transform.stem]

theorem isUnbroken_rebuild (h : s.IsUnbroken) (hc : c.IsUnbroken) (t : Transform) {e : Expr}
    (he : IsUnbroken e.text) : IsUnbroken (t.rebuild s c e).text := by
  cases t <;> simpa [Transform.rebuild, h.name, hc.variant] using he

theorem isUnbroken_handlerResult (t : Transform) {value union : String} (hvalue : IsUnbroken value)
    (hunion : IsUnbroken union) : IsUnbroken (t.handlerResult value union) := by
  cases t with
  | map => exact hvalue
  | bind => exact hunion

theorem isUnbroken_targets (h : s.IsUnbroken) : ∀ name ∈ Transform.targets s, IsUnbroken name := by
  unfold Transform.targets
  split
  · exact s.isUnbroken_of_mem_freshNumbered (by simp)
  · exact h.caseTypes

theorem isUnbroken_of_mem_mustUseUnless (isAsync : Bool) :
    ∀ x ∈ (if isAsync then [] else [mustUse]), IsUnbroken x := by
  cases isAsync <;> simp

theorem isUnbroken_full (h : s.IsUnbroken) (t : Transform) (isAsync : Bool) :
    (t.full s isAsync).IsUnbroken := by
  have htargets := isUnbroken_targets h
  have hunion := h.retyped htargets
  have hfutures := isUnbroken_of_mem_futures s
  have hresults : ∀ r ∈ (Transform.targets s).map fun value =>
      t.handlerResult value (s.retyped (Transform.targets s)), IsUnbroken r :=
    List.forall_mem_map.mpr fun value hvalue =>
      isUnbroken_handlerResult t (htargets value hvalue) hunion
  have harms : ∀ c ∈ s.cases, IsUnbroken (arm s c (t.rebuild s c
      (awaitedIf isAsync (.call (handlerName c) [s.binding])))).text := by
    intro c hmem
    have hc := h.cases c hmem
    refine h.arm hc (isUnbroken_rebuild h hc t ?_)
    simp [h.binding, hc.stem]
  exact {
    docs := by
      refine List.forall_mem_append.mpr ⟨isUnbroken_title ?_, h.handlerDocs⟩
      cases t <;> exact isUnbroken_literal (by decide)
    attributes := List.forall_mem_append.mpr
      ⟨Shape.isUnbroken_handlerAttributes, isUnbroken_of_mem_mustUseUnless isAsync⟩
    name := isUnbroken_formName (isUnbroken_stem t)
    typeParameters := isUnbroken_oneGroup (List.forall_mem_append.mpr
      ⟨isUnbroken_of_mem_optional htargets, isUnbroken_of_mem_optional hfutures⟩)
    receiver := by
      rintro _ ⟨⟩
      simp
    parameters := by
      refine h.handlers (List.forall_mem_map.mpr ?_)
      rintro r hr _ ⟨⟩
      cases isAsync with
      | true => exact hfutures r hr
      | false => exact hresults r hr
    result := by
      rintro _ ⟨⟩
      exact hunion
    bounds := isUnbroken_optionalBounds isAsync hfutures hresults
    body := by
      rintro _ ⟨⟩
      simpa [Transform.fullMethod] using harms }

theorem isUnbroken_single (h : s.IsUnbroken) (hc : c.IsUnbroken) (t : Transform) (position : Nat)
    (isAsync : Bool) : (t.single s position c isAsync).IsUnbroken := by
  have hvalue : IsUnbroken (if s.isGeneric then s.fresh "U" else c.typeName) := by
    split
    · simp
    · exact hc.typeName
  have hunion : IsUnbroken (s.retypedCase position
      (if s.isGeneric then s.fresh "U" else c.typeName)) := by
    refine h.retyped ?_
    intro name hname
    rcases List.mem_or_eq_of_mem_set hname with hname | rfl
    · exact h.caseTypes name hname
    · exact hvalue
  have hresult := isUnbroken_handlerResult t hvalue hunion
  have hfuture : IsUnbroken (s.fresh "Fut") := by simp
  have harms : ∀ d ∈ s.cases, IsUnbroken (t.caseArm s isAsync c d).text := by
    intro d hmem
    have hd := h.cases d hmem
    refine h.arm hd ?_
    split
    · refine isUnbroken_rebuild h hd t ?_
      simp [h.binding]
    · simp [h.name, h.binding, hd.variant]
  exact {
    docs := by
      have htitle : IsUnbroken (t.caseTitle c) := by
        cases t <;> exact isUnbroken_within hc.typeName (by decide)
      exact List.forall_mem_append.mpr
        ⟨isUnbroken_title htitle, isUnbroken_of_mem_literal (by decide)⟩
    attributes := isUnbroken_of_mem_mustUseUnless isAsync
    name := isUnbroken_formName (by simp [isUnbroken_stem t, hc.stem])
    typeParameters := isUnbroken_oneGroup (List.forall_mem_append.mpr
      ⟨isUnbroken_of_mem_optional (List.forall_mem_singleton.mpr hvalue),
        isUnbroken_of_mem_optional (List.forall_mem_singleton.mpr hfuture)⟩)
    receiver := by
      rintro _ ⟨⟩
      simp
    parameters := by
      -- The one handler returns a future or the result itself.
      refine List.forall_mem_singleton.mpr ?_
      cases isAsync with
      | true => simp [hc.typeName]
      | false => simpa [hc.typeName] using hresult
    result := by
      rintro _ ⟨⟩
      exact hunion
    bounds := isUnbroken_optionalBounds isAsync (List.forall_mem_singleton.mpr hfuture)
      (List.forall_mem_singleton.mpr hresult)
    body := by
      rintro _ ⟨⟩
      simpa [Transform.singleMethod] using harms }

theorem isUnbroken_transform (h : s.IsUnbroken) (t : Transform) :
    ∀ item ∈ t.items s, item.IsUnbroken := by
  have hfunctions : ∀ f ∈ t.functions s, f.IsUnbroken := by
    intro f hf
    rcases (t.mem_functions_iff s).mp hf with ⟨isAsync, rfl⟩ | ⟨i, hi, isAsync, rfl⟩
    · exact isUnbroken_full h t isAsync
    · exact isUnbroken_single h (h.cases _ (List.getElem_mem hi)) t i isAsync
  have htrait : IsUnbroken (t.traitName s) := by
    unfold Transform.traitName
    cases t <;> simp [h.name]
  have htitle : IsUnbroken (t.traitTitle s) := by
    cases t <;> exact isUnbroken_within h.name (by decide)
  refine isUnbroken_withPending h htrait htitle (t.mirrors_functions s) hfunctions
    (List.forall_mem_map.mpr ?_)
  intro m hm
  have hunbroken := hfunctions m.inherent (List.mem_map_of_mem hm)
  refine ⟨List.forall_mem_singleton.mpr (oneLine_summary hunbroken.docs), ?_⟩
  exact fun x hx => hunbroken.attributes x (List.mem_append_left _ hx)

/-! ### Taps and partition -/

theorem isUnbroken_tapFunction (h : s.IsUnbroken) (hc : c.IsUnbroken) :
    (tapFunction s c).IsUnbroken := by
  have hdoc : IsUnbroken ("Calls `f` with the held `" ++ c.typeName ++
      "`, if any, and returns the union unchanged.") :=
    isUnbroken_within hc.typeName (by decide)
  rw [Function.isUnbroken_iff]
  refine ⟨List.forall_mem_singleton.mpr hdoc, ?_⟩
  simp [tapFunction, h.binding, hc.typeName, hc.stem, hc.variant]

theorem isUnbroken_tap (h : s.IsUnbroken) : ∀ item ∈ tap s, item.IsUnbroken :=
  List.forall_mem_singleton.mpr (isUnbroken_inherent h (List.forall_mem_map.mpr fun c hmem =>
    isUnbroken_tapFunction h (h.cases c hmem)))

theorem isUnbroken_tuple {xs : List String} (h : ∀ x ∈ xs, IsUnbroken x) :
    IsUnbroken (tuple xs) := by
  unfold tuple
  simpa using h

theorem isUnbroken_partitionFunction (h : s.IsUnbroken) :
    (partitionFunction s).IsUnbroken := by
  have hstem : ∀ c ∈ s.cases, IsUnbroken c.stem := fun c hmem => (h.cases c hmem).stem
  have hvectors : IsUnbroken (tuple (s.cases.map fun c => "Vec<" ++ c.typeName ++ ">")) := by
    refine isUnbroken_tuple (List.forall_mem_map.mpr ?_)
    intro c hmem
    simp [(h.cases c hmem).typeName]
  have hstems : IsUnbroken (tuple (s.cases.map (·.stem))) :=
    isUnbroken_tuple (List.forall_mem_map.mpr hstem)
  have harms : ∀ c ∈ s.cases,
      IsUnbroken (arm s c (.method (.name c.stem) "push" [s.binding])).text := by
    intro c hmem
    refine h.arm (h.cases c hmem) ?_
    simp [h.binding, hstem c hmem]
  exact {
    docs := isUnbroken_section (isUnbroken_literal (by decide)) (by decide)
    attributes := List.forall_mem_append.mpr
      ⟨isUnbroken_of_mem_optional (isUnbroken_of_mem_literal (by decide)), by simp⟩
    name := by simp [partitionFunction]
    typeParameters := by simp [partitionFunction]
    receiver := by rintro _ ⟨⟩
    parameters := by simp [partitionFunction]
    result := by
      rintro _ ⟨⟩
      exact hvectors
    bounds := by simp [partitionFunction]
    body := by
      rintro _ ⟨⟩
      refine List.forall_mem_append.mpr ⟨List.forall_mem_map.mpr ?_, ?_⟩
      · intro c hmem
        simp [hstem c hmem]
      · have hloop := And.intro harms hstems
        simpa using hloop }

theorem isUnbroken_partition (h : s.IsUnbroken) : ∀ item ∈ partition s, item.IsUnbroken :=
  List.forall_mem_singleton.mpr (isUnbroken_inherent h
    (List.forall_mem_singleton.mpr (isUnbroken_partitionFunction h)))

/-! ### Assertions -/

theorem lineFeed_mem_literal (text : String) :
    '\n' ∈ (literal text).toList ↔ '\n' ∈ text.toList := by
  unfold literal
  simp

/-- The function that demands a case, with documentation or with a body. -/
theorem isUnbroken_caseAssertion (hc : c.IsUnbroken) {docs attributes : List String}
    {body : Option (List Statement)} (hdocs : ∀ doc ∈ docs, IsUnbroken doc)
    (hattributes : ∀ x ∈ attributes, IsUnbroken x)
    (hbody : ∀ b ∈ body, ∀ st ∈ b, AreUnbroken st.lines) :
    ({ caseAssertion c with docs := docs, attributes := attributes, body := body }
      : Function).IsUnbroken where
  docs := hdocs
  attributes := hattributes
  name := by simp [caseAssertion, hc.stem]
  typeParameters := by rintro _ ⟨⟩
  receiver := by simp [caseAssertion]
  parameters := by rintro _ ⟨⟩
  result := by simp [caseAssertion, hc.typeName]
  bounds := by rintro _ ⟨⟩
  body := hbody

/-- The function that demands an equal value, with documentation or with a body. -/
theorem isUnbroken_valueAssertion (hc : c.IsUnbroken) {docs attributes : List String}
    {body : Option (List Statement)} (hdocs : ∀ doc ∈ docs, IsUnbroken doc)
    (hattributes : ∀ x ∈ attributes, IsUnbroken x)
    (hbody : ∀ b ∈ body, ∀ st ∈ b, AreUnbroken st.lines) :
    ({ valueAssertion s c with docs := docs, attributes := attributes, body := body }
      : Function).IsUnbroken where
  docs := hdocs
  attributes := hattributes
  name := by simp [valueAssertion, hc.stem]
  typeParameters := by rintro _ ⟨⟩
  receiver := by simp [valueAssertion]
  parameters := by simp [valueAssertion, hc.typeName]
  result := by simp [valueAssertion, hc.typeName]
  bounds := by
    unfold valueAssertion
    split <;> simp [hc.typeName]
  body := hbody

theorem isUnbroken_assertionDeclarations (hc : c.IsUnbroken) :
    ∀ f ∈ assertionDeclarations s c, f.IsUnbroken := by
  have hcase : IsUnbroken ("Asserts the union holds a `" ++ c.typeName ++ "` and returns it.") :=
    isUnbroken_within hc.typeName (by decide)
  have hvalue : IsUnbroken ("Asserts the union holds a `" ++ c.typeName ++
      "` equal to `expected` and returns it.") :=
    isUnbroken_within hc.typeName (by decide)
  unfold assertionDeclarations
  refine List.forall_mem_cons.mpr ⟨?_, ?_⟩
  · exact isUnbroken_caseAssertion hc (isUnbroken_section hcase (by decide)) (by rintro _ ⟨⟩)
      (by rintro _ ⟨⟩)
  · split
    · refine List.forall_mem_singleton.mpr ?_
      exact isUnbroken_valueAssertion hc (isUnbroken_section hvalue (by decide))
        (by rintro _ ⟨⟩) (by rintro _ ⟨⟩)
    · rintro _ ⟨⟩

theorem isUnbroken_raised (h : s.IsUnbroken) {kind : String} (hkind : IsUnbroken kind)
    {arguments : List String} (harguments : ∀ x ∈ arguments, IsUnbroken x) :
    IsUnbroken (raised s kind arguments).text := by
  simpa [raised, h.runtimePath, hkind] using harguments

theorem areUnbroken_caseAssertionBody (h : s.IsUnbroken) (hc : c.IsUnbroken) :
    ∀ st ∈ caseAssertionBody s c, AreUnbroken st.lines := by
  have hraised : IsUnbroken (raised s "case_mismatch"
      [literal s.name, literal c.variant, "other.case_name()"]).text :=
    isUnbroken_raised h (by simp) (by simp [lineFeed_mem_literal, h.name, hc.variant])
  refine List.forall_mem_singleton.mpr ?_
  simpa [arm, h.binding, hc.variant] using hraised

theorem areUnbroken_valueAssertionBody (h : s.IsUnbroken) (hc : c.IsUnbroken) :
    ∀ st ∈ valueAssertionBody s c, AreUnbroken st.lines := by
  have hraised : IsUnbroken (raised s "value_mismatch"
      [literal s.name, literal c.variant, "expected", s.binding]).text :=
    isUnbroken_raised h (by simp) (by simp [lineFeed_mem_literal, h.name, h.binding, hc.variant])
  simpa [valueAssertionBody, h.binding, hc.stem] using hraised

theorem isUnbroken_assertionDefinitions (h : s.IsUnbroken) (hc : c.IsUnbroken) :
    ∀ f ∈ assertionDefinitions s c, f.IsUnbroken := by
  unfold assertionDefinitions
  refine List.forall_mem_cons.mpr ⟨?_, ?_⟩
  · refine isUnbroken_caseAssertion hc (by rintro _ ⟨⟩) (by simp [trackCaller]) ?_
    rintro _ ⟨⟩
    exact areUnbroken_caseAssertionBody h hc
  · split
    · refine List.forall_mem_singleton.mpr ?_
      refine isUnbroken_valueAssertion hc (by rintro _ ⟨⟩) (by simp [trackCaller]) ?_
      rintro _ ⟨⟩
      exact areUnbroken_valueAssertionBody h hc
    · rintro _ ⟨⟩

theorem isUnbroken_assertions (h : s.IsUnbroken) : ∀ item ∈ assertions s, item.IsUnbroken := by
  have hname : IsUnbroken (assertionsTraitName s) := by simp [assertionsTraitName, h.name]
  refine List.forall_mem_cons.mpr ⟨?_, List.forall_mem_singleton.mpr ?_⟩
  · exact {
      docs := by simp [h.name]
      name := hname
      typeParameters := h.typeParameters
      supertraits := by rintro _ ⟨⟩
      functions := List.forall_mem_flatMap.mpr fun c hmem =>
        isUnbroken_assertionDeclarations (h.cases c hmem) }
  · exact {
      typeParameters := h.typeParameters
      trait := by simp [hname, h.generics]
      target := h.selfType
      bounds := by rintro _ ⟨⟩
      constants := by rintro _ ⟨⟩
      functions := List.forall_mem_flatMap.mpr fun c hmem =>
        isUnbroken_assertionDefinitions h (h.cases c hmem) }

/-! ### Families -/

/-- No item of a family has a text with a line feed where no text of the shape has one. -/
theorem Family.isUnbroken_items (f : Family) (h : s.IsUnbroken) :
    ∀ item ∈ f.items s, item.IsUnbroken := by
  cases f with
  | core => exact isUnbroken_core h
  | matching => exact isUnbroken_matchWith h
  | switching => exact isUnbroken_switch h
  | map => exact isUnbroken_transform h .map
  | bind => exact isUnbroken_transform h .bind
  | tap => exact isUnbroken_tap h
  | partition => exact isUnbroken_partition h
  | assertions => exact isUnbroken_assertions h

end TaggedUnion
