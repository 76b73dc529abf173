import Mathlib
import TaggedUnion.Proofs.Emit.Methods
import TaggedUnion.Proofs.Emit.NeatShape

/-! # Brackets in emitted code

    Emitted code is well bracketed where the texts of the shape are. This module follows the eight
    families:

    * **`isNeat_core`** to **`isNeat_assertions`**: every item of a family has neat texts, with one
      lemma for each function that is emitted.
    * **`Family.isNested_text`**: the text of a family is nested, its comment lines left out.
-/

namespace TaggedUnion

open Code Emit Schema Text

variable {s : Shape} {c : ShapeCase}

/-! ### Building a value -/

theorem isNeat_variantOf (hc : c.IsNeat) {e : Expr} (he : e.IsNeat) : (variantOf c e).IsNeat :=
  ⟨hc.variant.behind (by decide), he⟩

theorem isNeat_fromFunction (h : s.IsNeat) (hc : c.IsNeat) : (fromFunction s c).IsNeat where
  __ := Function.isNeat_bare
  docs := by
    refine oneLine_of_isNeat (List.forall_mem_singleton.mpr ?_)
    have hunion : IsNeat ("Creates a `" ++ s.name ++ "` holding the given `") :=
      h.name.within (by decide)
    exact (hunion.append hc.typeName).before (by decide)
  attributes := isNeat_of_mem_mustUse
  name := hc.stem.behind (by decide)
  parameters := List.forall_mem_singleton.mpr ⟨h.binding, hc.typeName⟩
  result := forall_mem_some (readsTo_literal (by decide))
  body := isNeat_body (isNeat_variantOf hc h.binding)

theorem isNeat_argumentName {p : CaseParameter} (hp : p.IsNeat) : IsNeat p.argumentName :=
  isNeat_identifier (isNeat_snake hp.name)

/-- What is said about a parameter stands on one line, and so does what stands for it. -/
theorem oneLine_displayText {p : CaseParameter} (hp : p.IsNeat) :
    '\n' ∉ p.displayText.toList := by
  unfold CaseParameter.displayText
  cases hdescription : p.description with
  | some d => exact hp.description d hdescription
  | none =>
    have htext : IsNeat (p.name ++ " (" ++ p.typeName ++ ")") :=
      hp.typeName.between (a := [')']) (hp.name.before (by decide)) (readsTo_literal (by decide))
    exact htext.oneLine

theorem isNeat_construction (hc : c.IsNeat) {k : ConstructorRef} (hk : IsNeat k.name) :
    (construction c k).IsNeat := by
  unfold construction
  split
  · refine ⟨hc.typeName, List.forall_mem_map.mpr ?_⟩
    intro p hp
    have hneat := hc.parameters p hp
    exact ⟨isNeat_identifier hneat.name, isNeat_argumentName hneat⟩
  · refine ⟨(hc.typeName.before (by decide)).append hk, List.forall_mem_map.mpr ?_⟩
    exact fun p hp => isNeat_argumentName (hc.parameters p hp)

/-- The documentation of a constructing function ends with an entry for each argument. -/
theorem oneLine_newDocs (h : s.IsNeat) (hc : c.IsNeat) :
    ∀ doc ∈ ["Creates a `" ++ s.name ++ "` holding a new `" ++ c.typeName ++ "`.", "",
        "# Arguments"] ++
          c.parameters.map fun p => "* `" ++ p.argumentName ++ "` - " ++ p.displayText,
      '\n' ∉ doc.toList := by
  have hunion : IsNeat ("Creates a `" ++ s.name ++ "` holding a new `") :=
    h.name.within (by decide)
  have hfirst : IsNeat ("Creates a `" ++ s.name ++ "` holding a new `" ++ c.typeName ++ "`.") :=
    (hunion.append hc.typeName).before (by decide)
  refine List.forall_mem_append.mpr ⟨oneLine_of_isNeat ?_, List.forall_mem_map.mpr ?_⟩
  · exact List.forall_mem_append.mpr
      ⟨isNeat_title hfirst, isNeat_of_mem_literal (by decide)⟩
  · intro p hp
    have hneat := hc.parameters p hp
    have hname : IsNeat ("* `" ++ p.argumentName ++ "` - ") :=
      (isNeat_argumentName hneat).within (by decide)
    -- What is said about a parameter may leave brackets open, so that the entry is not neat.
    rw [String.toList_append, List.mem_append]
    exact not_or.mpr ⟨hname.oneLine, oneLine_displayText hneat⟩

theorem isNeat_newFunction (h : s.IsNeat) (hc : c.IsNeat) :
    ∀ f ∈ newFunction s c, f.IsNeat := by
  intro f hf
  unfold newFunction at hf
  split at hf
  · cases hf
  · next k hk =>
    split at hf
    · cases hf
    · obtain rfl := Option.some.inj hf
      exact {
        Function.isNeat_bare with
        docs := oneLine_newDocs h hc
        attributes := List.forall_mem_append.mpr
          ⟨isNeat_of_mem_optional (isNeat_of_mem_literal (by decide)), isNeat_of_mem_mustUse⟩
        name := hc.stem.behind (by decide)
        parameters := List.forall_mem_map.mpr fun p hp =>
          ⟨isNeat_argumentName (hc.parameters p hp), (hc.parameters p hp).typeName⟩
        result := forall_mem_some (readsTo_literal (by decide))
        body := isNeat_body (isNeat_variantOf hc (isNeat_construction hc (hc.constructor k hk))) }

/-! ### Looking into a value -/

/-- The arm of a case whose value is not looked at. -/
theorem isNeat_blindArm (hc : c.IsNeat) {text : String} (htext : IsNeat text) :
    (⟨.held c.variant "_", .name text⟩ : Arm).IsNeat :=
  ⟨⟨hc.variant, (readsTo_literal (by decide) : IsNeat "_")⟩, htext⟩

theorem isNeat_tagFunction (h : s.IsNeat) : (tagFunction s).IsNeat where
  __ := Function.isNeat_method "&self" (readsTo_literal (by decide))
  docs := oneLine_of_isNeat (isNeat_of_mem_literal (by decide))
  attributes := isNeat_of_mem_mustUse
  name := (readsTo_literal (by decide) : IsNeat "tag")
  result := forall_mem_some (readsTo_literal (by decide))
  body := by
    refine isNeat_body (isNeat_dispatch (readsTo_literal (by decide)) fun c hmem => ?_)
    exact isNeat_blindArm (h.cases c hmem) (isNeat_toString c.ordinal)

theorem isNeat_caseNameFunction (h : s.IsNeat) : (caseNameFunction s).IsNeat where
  __ := Function.isNeat_method "&self" (readsTo_literal (by decide))
  docs := oneLine_of_isNeat (isNeat_of_mem_literal (by decide))
  attributes := isNeat_of_mem_mustUse
  name := (readsTo_literal (by decide) : IsNeat "case_name")
  result := forall_mem_some (readsTo_literal (by decide))
  body := by
    refine isNeat_body (isNeat_dispatch (readsTo_literal (by decide)) fun c hmem => ?_)
    have hc := h.cases c hmem
    exact isNeat_blindArm hc (hc.variant.within (by decide))

theorem isNeat_isFunction (hc : c.IsNeat) : (isFunction c).IsNeat where
  __ := Function.isNeat_method "&self" (readsTo_literal (by decide))
  docs := by
    refine oneLine_of_isNeat (List.forall_mem_singleton.mpr ?_)
    exact hc.typeName.within (by decide)
  attributes := isNeat_of_mem_mustUse
  name := hc.stem.behind (by decide)
  result := forall_mem_some (readsTo_literal (by decide))
  body := by
    have hpattern : IsNeat ("Self::" ++ c.variant ++ "(_)") :=
      hc.variant.within (by decide)
    refine isNeat_body ⟨(readsTo_literal (by decide) : IsNeat "matches!"), ?_⟩
    exact List.forall_mem_cons.mpr
      ⟨readsTo_literal (by decide), List.forall_mem_singleton.mpr hpattern⟩

/-- A dispatch with an arm for one case and an arm for whatever else is held. -/
theorem isNeat_matchSelf {first other : Arm} (hfirst : first.IsNeat) (hother : other.IsNeat) :
    (matchSelf [first, other]).IsNeat :=
  ⟨(readsTo_literal (by decide) : IsNeat "self"),
    List.forall_mem_cons.mpr ⟨hfirst, List.forall_mem_singleton.mpr hother⟩⟩

theorem isNeat_tryGetFunction (h : s.IsNeat) (hc : c.IsNeat) : (tryGetFunction s c).IsNeat where
  __ := Function.isNeat_method "&self" (readsTo_literal (by decide))
  docs := by
    refine oneLine_of_isNeat (List.forall_mem_singleton.mpr ?_)
    exact hc.typeName.within (by decide)
  attributes := isNeat_of_mem_mustUse
  name := hc.stem.behind (by decide)
  result := by
    rintro _ ⟨⟩
    exact hc.typeName.within (by decide)
  body := by
    have hvalue : (Expr.call "Some" [s.binding]).IsNeat :=
      ⟨readsTo_literal (by decide), List.forall_mem_singleton.mpr h.binding⟩
    have hnone : Arm.IsNeat ⟨.other "_", .name "None"⟩ :=
      ⟨(readsTo_literal (by decide) : IsNeat "_"), (readsTo_literal (by decide) : IsNeat "None")⟩
    exact isNeat_body (isNeat_matchSelf (h.arm hc hvalue) hnone)

theorem isNeat_tryIntoFunction (h : s.IsNeat) (hc : c.IsNeat) :
    (tryIntoFunction s c).IsNeat where
  __ := Function.isNeat_method "self" (readsTo_literal (by decide))
  docs := by
    have hfirst : IsNeat ("Converts into the held `" ++ c.typeName ++ "`.") :=
      hc.typeName.within (by decide)
    exact oneLine_of_isNeat (isNeat_section hfirst (by decide) (by decide))
  name := hc.stem.behind (by decide)
  result := by
    rintro _ ⟨⟩
    exact hc.typeName.within (by decide)
  body := by
    have hvalue : (Expr.call "Ok" [s.binding]).IsNeat :=
      ⟨readsTo_literal (by decide), List.forall_mem_singleton.mpr h.binding⟩
    have hother : Arm.IsNeat ⟨.other "other", .call "Err" ["other"]⟩ :=
      ⟨(readsTo_literal (by decide) : IsNeat "other"), readsTo_literal (by decide),
        isNeat_of_mem_literal (by decide)⟩
    exact isNeat_body (isNeat_matchSelf (h.arm hc hvalue) hother)

theorem isNeat_coreFunctions (h : s.IsNeat) : ∀ f ∈ coreFunctions s, f.IsNeat := by
  intro f hf
  rcases List.mem_append.mp hf with hf | hf
  · rcases List.mem_append.mp hf with hf | hf
    · obtain ⟨c, hmem, hf⟩ := List.mem_flatMap.mp hf
      rcases List.mem_cons.mp hf with rfl | hf
      · exact isNeat_fromFunction h (h.cases c hmem)
      · exact isNeat_newFunction h (h.cases c hmem) f (Option.mem_toList.mp hf)
    · simp only [List.mem_cons, List.not_mem_nil, or_false] at hf
      rcases hf with rfl | rfl
      · exact isNeat_tagFunction h
      · exact isNeat_caseNameFunction h
  · obtain ⟨c, hmem, hf⟩ := List.mem_flatMap.mp hf
    have hc := h.cases c hmem
    simp only [List.mem_cons, List.not_mem_nil, or_false] at hf
    rcases hf with rfl | rfl | rfl
    · exact isNeat_isFunction hc
    · exact isNeat_tryGetFunction h hc
    · exact isNeat_tryIntoFunction h hc

/-! ### The union type -/

/-- The loop that drops repetitions lists no element of its own; `kept` are those it has passed. -/
theorem mem_eraseRepsBy_loop {α : Type} {same : α → α → Bool} {x : α} {xs kept : List α} {a : α}
    (h : x ∈ List.eraseRepsBy.loop same a xs kept) : x ∈ kept ∨ x ∈ a :: xs := by
  induction xs generalizing a kept with
  | nil =>
    rw [List.eraseRepsBy.loop, List.mem_reverse] at h
    exact (List.mem_cons.mp h).elim (fun h => .inr (h ▸ List.mem_cons_self)) .inl
  | cons b xs ih =>
    rw [List.eraseRepsBy.loop] at h
    split at h
    · refine (ih h).imp_right fun h => ?_
      rcases List.mem_cons.mp h with rfl | h
      · exact List.mem_cons_self
      · exact List.mem_cons_of_mem a (List.mem_cons_of_mem b h)
    · rcases ih h with h | h
      · exact (List.mem_cons.mp h).elim (fun h => .inr (h ▸ List.mem_cons_self)) .inl
      · exact .inr (List.mem_cons_of_mem a h)

theorem mem_eraseReps {α : Type} [BEq α] {xs : List α} {x : α} (h : x ∈ xs.eraseReps) :
    x ∈ xs := by
  cases xs with
  | nil => exact h
  | cons a xs => exact (mem_eraseRepsBy_loop h).resolve_left List.not_mem_nil

theorem isNeat_importPaths (h : s.IsNeat) : ∀ path ∈ importPaths s, IsNeat path := by
  intro path hpath
  -- Paths are sorted and listed once, and none is made up.
  have hsorted := List.mem_mergeSort.mp (mem_eraseReps hpath)
  obtain ⟨c, hmem, hc⟩ := List.mem_filterMap.mp hsorted
  exact (h.cases c hmem).importPath path hc

theorem isNeat_describeCases (h : s.IsNeat) : IsNeat s.describeCases := by
  have hnames : ∀ name ∈ (s.cases.map fun c => "`" ++ c.typeName ++ "`").reverse,
      IsNeat name := by
    intro name hname
    obtain ⟨c, hmem, rfl⟩ := List.mem_map.mp (List.mem_reverse.mp hname)
    exact (h.cases c hmem).typeName.within (by decide)
  have hcomma : IsNeat ", " := readsTo_literal (by decide)
  simp only [Shape.describeCases]
  split
  · exact readsTo_literal (by decide)
  · next only heq =>
    rw [heq] at hnames
    exact hnames only List.mem_cons_self
  · next last others _ heq =>
    rw [heq] at hnames
    have hothers : IsNeat (", ".intercalate others.reverse) :=
      isNeat_intercalate hcomma fun x hx =>
        hnames x (List.mem_cons_of_mem _ (List.mem_reverse.mp hx))
    exact (hothers.before (by decide)).append (hnames last List.mem_cons_self)

theorem isNeat_enumOf (h : s.IsNeat) : (enumOf s).IsNeat where
  docs := by
    have hnumber := isNeat_toString s.arity
    have hcases := isNeat_describeCases h
    refine oneLine_of_isNeat ?_
    unfold enumOf
    split
    · have hfirst : IsNeat
          ("Union of " ++ toString s.arity ++ " cases: " ++ s.describeCases ++ ".") :=
        ((hnumber.within (by decide)).append hcases).before (by decide)
      exact List.forall_mem_append.mpr ⟨isNeat_title hfirst,
        isNeat_of_mem_literal (by decide)⟩
    · have hfirst : IsNeat ("Either " ++ s.describeCases ++ ".") :=
        hcases.within (by decide)
      have hsame : IsNeat ("Holds exactly one case at a time. Same shape as `Union" ++
          toString s.arity ++ "`.") :=
        hnumber.within (by decide)
      exact List.forall_mem_cons.mpr ⟨hfirst, List.forall_mem_cons.mpr
        ⟨readsTo_literal (by decide), List.forall_mem_singleton.mpr hsame⟩⟩
  attributes := by
    show ∀ x ∈ (if s.isGeneric then ["derive(Debug, Clone, Copy, PartialEq, Eq, Hash)"]
      else if s.allRecords then ["derive(Debug, Clone, PartialEq)"] else []), IsNeat x
    split
    · exact isNeat_of_mem_literal (by decide)
    · exact isNeat_of_mem_optional (isNeat_of_mem_literal (by decide))
  name := h.name
  typeParameters := h.typeParameters
  variants := by
    refine List.forall_mem_map.mpr ?_
    intro c hmem
    have hc := h.cases c hmem
    have hdoc : IsNeat ("Case " ++ toString c.ordinal ++ ": `" ++ c.typeName ++ "`.") :=
      (((isNeat_toString c.ordinal).within (by decide)).append hc.typeName).before (by decide)
    exact ⟨oneLine_of_isNeat (List.forall_mem_singleton.mpr hdoc), hc.variant, hc.typeName⟩

theorem isNeat_conversion (h : s.IsNeat) (hc : c.IsNeat) : (conversion s c).IsNeat where
  __ := Implementation.isNeat_bare
  trait := by
    rintro _ ⟨⟩
    exact hc.typeName.within (by decide)
  target := h.name
  functions := List.forall_mem_singleton.mpr
    { Function.isNeat_bare with
      name := (readsTo_literal (by decide) : IsNeat "from")
      parameters := List.forall_mem_singleton.mpr ⟨h.binding, hc.typeName⟩
      result := forall_mem_some (readsTo_literal (by decide))
      body := isNeat_body (isNeat_variantOf hc h.binding) }

theorem isNeat_traitFunction {name result : List Char} (hname : CharsReadTo name [] [])
    (hresult : CharsReadTo result [] []) :
    (traitFunction (String.ofList name) (String.ofList result)).IsNeat where
  __ := Function.isNeat_method "&self" (readsTo_literal (by decide))
  name := readsTo_literal hname
  result := forall_mem_some (readsTo_literal hresult)
  body := isNeat_body
    ⟨(readsTo_literal hname).behind (by decide), isNeat_of_mem_literal (by decide)⟩

theorem isNeat_unionImplementation (h : s.IsNeat) : (unionImplementation s).IsNeat where
  __ := Implementation.isNeat_bare
  typeParameters := h.typeParameters
  trait := by
    rintro _ ⟨⟩
    exact h.runtimePath.before (by decide)
  target := h.selfType
  constants := List.forall_mem_singleton.mpr ((isNeat_toString s.arity).behind (by decide))
  functions := List.forall_mem_cons.mpr ⟨isNeat_traitFunction (by decide) (by decide),
    List.forall_mem_singleton.mpr (isNeat_traitFunction (by decide) (by decide))⟩

theorem isNeat_core (h : s.IsNeat) : ∀ item ∈ core s, item.IsNeat := by
  have hfunctions : Implementation.IsNeat
      ⟨s.typeParameters, none, s.selfType, none, [], coreFunctions s, true⟩ :=
    { Implementation.isNeat_bare with
      typeParameters := h.typeParameters
      target := h.selfType
      functions := isNeat_coreFunctions h }
  intro item hitem
  rcases List.mem_append.mp hitem with hitem | hitem
  · rcases List.mem_append.mp hitem with hitem | hitem
    · simp only [List.mem_cons, List.not_mem_nil, or_false] at hitem
      rcases hitem with rfl | rfl | rfl
      · exact isNeat_importPaths h
      · exact isNeat_enumOf h
      · exact hfunctions
    · split at hitem
      · cases hitem
      · obtain ⟨c, hmem, rfl⟩ := List.mem_map.mp hitem
        exact isNeat_conversion h (h.cases c hmem)
  · rw [List.mem_singleton.mp hitem]
    exact isNeat_unionImplementation h

/-! ### Dispatches -/

/-- The names of the futures that the handlers return. -/
theorem isNeat_futures (s : Shape) : ∀ f ∈ s.freshNumbered "Fut", IsNeat f :=
  s.isNeat_freshNumbered (readsTo_literal (by decide))

theorem isNeat_dispatchFunction (h : s.IsNeat) (stem : String) (isAsync : Bool) {name : String}
    {result : Option String} {docs : List String} (hname : IsNeat name)
    (hdocs : ∀ doc ∈ docs, IsNeat doc) (hresult : ∀ r ∈ result, IsNeat r) :
    ({ dispatchFunction s stem result isAsync with name := name, docs := docs }
      : Function).IsNeat := by
  have hfutures := isNeat_futures s
  have hown : TypeParameters.AreNeat (result.toList.map ([·])) := by
    refine List.forall_mem_map.mpr ?_
    intro r hr
    exact List.forall_mem_singleton.mpr (hresult r (Option.mem_toList.mp hr))
  have houtputs : ∀ o ∈ List.replicate s.arity (result.getD "()"), IsNeat o := by
    intro o ho
    rw [(List.mem_replicate.mp ho).2]
    cases result with
    | none => exact (readsTo_literal (by decide) : IsNeat "()")
    | some r => exact hresult r rfl
  -- What the handlers return: a future each, or what the method itself returns.
  have hhandled : ∀ r ∈ (if isAsync then (s.freshNumbered "Fut").map some
      else List.replicate s.arity result), ∀ x ∈ r, IsNeat x := by
    cases isAsync with
    | true =>
      refine List.forall_mem_map.mpr ?_
      rintro f hf _ ⟨⟩
      exact hfutures f hf
    | false =>
      intro r hr
      rw [(List.mem_replicate.mp hr).2]
      exact hresult
  exact {
    docs := oneLine_of_isNeat hdocs
    attributes := Shape.IsNeat.handlerAttributes
    name := hname
    typeParameters := by
      cases isAsync with
      | true =>
        intro group hgroup
        rcases List.mem_append.mp hgroup with hgroup | hgroup
        · exact hown group hgroup
        · rw [List.mem_singleton.mp hgroup]
          exact hfutures
      | false => exact hown
    receiver := forall_mem_some (readsTo_literal (by decide))
    parameters := h.handlers hhandled
    result := hresult
    bounds := isNeat_futureBounds isAsync hfutures houtputs
    body := isNeat_body (isNeat_dispatch (readsTo_literal (by decide)) fun c hmem =>
      h.arm (h.cases c hmem) (isNeat_awaitedIf (h.handlerCall (h.cases c hmem)))) }

theorem isNeat_lead_of_isPendingDispatch {f : Function} (hf : IsPendingDispatch s f) :
    (∀ doc ∈ f.docs, '\n' ∉ doc.toList) ∧ ∀ x ∈ f.attributes, IsNeat x := by
  obtain ⟨name, method, result, rfl | rfl⟩ := hf
  · exact ⟨oneLine_of_isNeat (isNeat_of_mem_literal (by decide)), Shape.IsNeat.handlerAttributes⟩
  · exact ⟨oneLine_of_isNeat (isNeat_of_mem_literal (by decide)), Shape.IsNeat.handlerAttributes⟩

theorem isNeat_asyncDispatchDocs (h : s.IsNeat) : ∀ doc ∈ asyncDispatchDocs s, IsNeat doc :=
  List.forall_mem_append.mpr ⟨isNeat_title (readsTo_literal (by decide)), h.handlerDocs⟩

theorem isNeat_matchWith (h : s.IsNeat) : ∀ item ∈ matchWith s, item.IsNeat := by
  have hresult : ∀ r ∈ some (s.fresh "R"), IsNeat r := by
    rintro _ ⟨⟩
    exact s.isNeat_fresh (readsTo_literal (by decide))
  have hdocs : ∀ doc ∈ ["Calls the handler of the held case and returns its result.", "",
      "Exactly one handler runs.", ""] ++ handlerDocs s, IsNeat doc :=
    List.forall_mem_append.mpr
      ⟨isNeat_section (readsTo_literal (by decide)) (by decide) (by decide), h.handlerDocs⟩
  have hwith : IsNeat "match_with" := readsTo_literal (by decide)
  have hstem : IsNeat "match" := readsTo_literal (by decide)
  have hname : IsNeat ("match" ++ "_async") := hstem.before (by decide)
  have hplain := isNeat_dispatchFunction h "match" false hwith hdocs hresult
  have hasync := isNeat_dispatchFunction h "match" true hname (isNeat_asyncDispatchDocs h) hresult
  exact isNeat_withPending h (h.name.before (by decide)) (h.name.within (by decide))
    (mirrors_matchFunctions s)
    (List.forall_mem_cons.mpr ⟨hplain, List.forall_mem_singleton.mpr hasync⟩)
    fun f hf => isNeat_lead_of_isPendingDispatch (isPendingDispatch_of_mem_match s hf)

theorem isNeat_switch (h : s.IsNeat) : ∀ item ∈ switch s, item.IsNeat := by
  have hresult : ∀ r ∈ (none : Option String), IsNeat r := by rintro _ ⟨⟩
  have hdocs : ∀ doc ∈ ["Calls the handler of the held case.", ""] ++ handlerDocs s,
      IsNeat doc :=
    List.forall_mem_append.mpr ⟨isNeat_title (readsTo_literal (by decide)), h.handlerDocs⟩
  have hstem : IsNeat "switch" := readsTo_literal (by decide)
  have hname : IsNeat ("switch" ++ "_async") := hstem.before (by decide)
  have hplain := isNeat_dispatchFunction h "switch" false hstem hdocs hresult
  have hasync := isNeat_dispatchFunction h "switch" true hname (isNeat_asyncDispatchDocs h) hresult
  exact isNeat_withPending h (h.name.before (by decide)) (h.name.within (by decide))
    (mirrors_switchFunctions s)
    (List.forall_mem_cons.mpr ⟨hplain, List.forall_mem_singleton.mpr hasync⟩)
    fun f hf => isNeat_lead_of_isPendingDispatch (isPendingDispatch_of_mem_switch s hf)

/-! ### Transforms -/

theorem not_mem_dropReturn {x : Char} {cs : List Char} (h : x ∉ cs) :
    x ∉ Text.dropReturn cs := by
  unfold Text.dropReturn
  split
  · next shorter heq =>
    intro hmem
    have hreverse : x ∈ cs.reverse := by
      rw [heq]
      exact List.mem_cons_of_mem _ (List.mem_reverse.mp hmem)
    exact h (List.mem_reverse.mp hreverse)
  · exact h

/-- A summary of documentation on one line each stands on one line. -/
theorem oneLine_summary {docs : List String} (hdocs : ∀ doc ∈ docs, '\n' ∉ doc.toList) :
    '\n' ∉ (summary docs).toList := by
  have hlines : ∀ doc ∈ docs,
      Text.lines doc = [String.ofList (Text.dropReturn doc.toList)] := by
    intro doc hdoc
    rw [Text.lines, Text.parts_of_not_mem (hdocs doc hdoc)]
    rfl
  -- No documentation has a further line that could read as an attribute.
  have hnone : (docs.flatMap fun d => ((Text.lines d).drop 1).filter fun l =>
      ['#', '['].isPrefixOf (l.toList.dropWhile Text.isBlank)) = [] := by
    refine List.flatMap_eq_nil_iff.mpr ?_
    intro doc hdoc
    rw [hlines doc hdoc]
    rfl
  show '\n' ∉ ("\n".intercalate (docs.head?.toList.flatMap
    (fun d => (Text.lines d).take 1) ++ _)).toList
  rw [hnone, List.append_nil]
  cases docs with
  | nil => exact List.not_mem_nil
  | cons doc docs =>
    have hdoc := List.mem_cons_self (a := doc) (l := docs)
    simp only [List.head?_cons, Option.toList_some, List.flatMap_singleton, hlines doc hdoc,
      List.take_succ_cons, List.take_zero, String.intercalate_singleton, String.toList_ofList]
    exact not_mem_dropReturn (hdocs doc hdoc)

theorem isNeat_formName {isAsync : Bool} {name : String} (hname : IsNeat name) :
    IsNeat (Transform.formName isAsync name) := by
  cases isAsync with
  | true => exact hname.before (by decide)
  | false => exact hname

theorem areNeat_oneGroup {names : List String} (h : ∀ name ∈ names, IsNeat name) :
    TypeParameters.AreNeat (Transform.oneGroup names) := by
  unfold Transform.oneGroup
  split
  · rintro _ ⟨⟩
  · exact List.forall_mem_singleton.mpr h

theorem isNeat_stem (t : Transform) : IsNeat t.stem := by
  cases t <;> exact readsTo_literal (by decide)

theorem isNeat_rebuild (h : s.IsNeat) (hc : c.IsNeat) (t : Transform) {e : Expr}
    (he : e.IsNeat) : (t.rebuild s c e).IsNeat := by
  cases t with
  | map => exact ⟨(h.name.before (by decide)).append hc.variant, he⟩
  | bind => exact he

theorem isNeat_handlerResult (t : Transform) {value union : String} (hvalue : IsNeat value)
    (hunion : IsNeat union) : IsNeat (t.handlerResult value union) := by
  cases t with
  | map => exact hvalue
  | bind => exact hunion

theorem isNeat_targets (h : s.IsNeat) : ∀ name ∈ Transform.targets s, IsNeat name := by
  unfold Transform.targets
  split
  · exact s.isNeat_freshNumbered (readsTo_literal (by decide))
  · exact h.caseTypes

theorem isNeat_full (h : s.IsNeat) (t : Transform) (isAsync : Bool) :
    (t.full s isAsync).IsNeat := by
  have htargets := isNeat_targets h
  have hunion := h.retyped htargets
  have hfutures := isNeat_futures s
  have hresults : ∀ r ∈ (Transform.targets s).map fun value =>
      t.handlerResult value (s.retyped (Transform.targets s)), IsNeat r :=
    List.forall_mem_map.mpr fun value hvalue =>
      isNeat_handlerResult t (htargets value hvalue) hunion
  have htitle : IsNeat t.fullTitle := by
    cases t <;> exact readsTo_literal (by decide)
  exact {
    docs := oneLine_of_isNeat
      (List.forall_mem_append.mpr ⟨isNeat_title htitle, h.handlerDocs⟩)
    attributes := List.forall_mem_append.mpr
      ⟨Shape.IsNeat.handlerAttributes, isNeat_of_mem_mustUseUnless isAsync⟩
    name := isNeat_formName (isNeat_stem t)
    typeParameters := areNeat_oneGroup (List.forall_mem_append.mpr
      ⟨isNeat_of_mem_optional htargets, isNeat_of_mem_optional hfutures⟩)
    receiver := forall_mem_some (readsTo_literal (by decide))
    parameters := by
      refine h.handlers (List.forall_mem_map.mpr ?_)
      rintro r hr _ ⟨⟩
      cases isAsync with
      | true => exact hfutures r hr
      | false => exact hresults r hr
    result := by
      rintro _ ⟨⟩
      exact hunion
    bounds := isNeat_futureBounds isAsync hfutures hresults
    body := isNeat_body (isNeat_dispatch (readsTo_literal (by decide)) fun c hmem =>
      h.arm (h.cases c hmem) (isNeat_rebuild h (h.cases c hmem) t
        (isNeat_awaitedIf (h.handlerCall (h.cases c hmem))))) }

theorem isNeat_caseArm (h : s.IsNeat) (hc : c.IsNeat) (t : Transform) (isAsync : Bool)
    (target : ShapeCase) : (t.caseArm s isAsync target c).IsNeat := by
  refine h.arm hc ?_
  split
  · refine isNeat_rebuild h hc t (isNeat_awaitedIf ⟨(readsTo_literal (by decide) : IsNeat "f"), ?_⟩)
    exact List.forall_mem_singleton.mpr h.binding
  · exact ⟨(h.name.before (by decide)).append hc.variant, h.binding⟩

theorem isNeat_caseTitle (hc : c.IsNeat) (t : Transform) : IsNeat (t.caseTitle c) := by
  cases t with
  | map => exact hc.typeName.within (by decide)
  | bind => exact hc.typeName.within (by decide)

theorem isNeat_retypedCase (h : s.IsNeat) (position : Nat) {value : String}
    (hvalue : IsNeat value) : IsNeat (s.retypedCase position value) := by
  refine h.retyped ?_
  intro name hname
  rcases List.mem_or_eq_of_mem_set hname with hname | rfl
  · exact h.caseTypes name hname
  · exact hvalue

theorem isNeat_single (h : s.IsNeat) (hc : c.IsNeat) (t : Transform) (position : Nat)
    (isAsync : Bool) : (t.single s position c isAsync).IsNeat := by
  have hvalue : IsNeat (if s.isGeneric then s.fresh "U" else c.typeName) :=
    isNeat_ite (s.isNeat_fresh (readsTo_literal (by decide))) hc.typeName
  have hunion := isNeat_retypedCase h position hvalue
  have hresult := isNeat_handlerResult t hvalue hunion
  have hfuture : IsNeat (s.fresh "Fut") := s.isNeat_fresh (readsTo_literal (by decide))
  exact {
    docs := oneLine_of_isNeat (List.forall_mem_append.mpr
      ⟨isNeat_title (isNeat_caseTitle hc t), isNeat_of_mem_literal (by decide)⟩)
    attributes := isNeat_of_mem_mustUseUnless isAsync
    name := isNeat_formName (((isNeat_stem t).before (by decide)).append hc.stem)
    typeParameters := areNeat_oneGroup (List.forall_mem_append.mpr
      ⟨isNeat_of_mem_optional (List.forall_mem_singleton.mpr hvalue),
        isNeat_of_mem_optional (List.forall_mem_singleton.mpr hfuture)⟩)
    receiver := forall_mem_some (readsTo_literal (by decide))
    parameters := by
      -- The one handler returns a future or the result itself.
      refine List.forall_mem_singleton.mpr ⟨(readsTo_literal (by decide) : IsNeat "f"), ?_⟩
      exact isNeat_handlerType hc.typeName (forall_mem_some (isNeat_ite hfuture hresult))
    result := by
      rintro _ ⟨⟩
      exact hunion
    bounds := isNeat_futureBounds isAsync (List.forall_mem_singleton.mpr hfuture)
      (List.forall_mem_singleton.mpr hresult)
    body := isNeat_body (isNeat_dispatch (readsTo_literal (by decide)) fun d hmem =>
      isNeat_caseArm h (h.cases d hmem) t isAsync c) }

theorem isNeat_transform (h : s.IsNeat) (t : Transform) : ∀ item ∈ t.items s, item.IsNeat := by
  have hfunctions : ∀ f ∈ t.functions s, f.IsNeat := by
    intro f hf
    rcases (t.mem_functions_iff s).mp hf with ⟨isAsync, rfl⟩ | ⟨i, hi, isAsync, rfl⟩
    · exact isNeat_full h t isAsync
    · exact isNeat_single h (h.cases _ (List.getElem_mem hi)) t i isAsync
  have htrait : IsNeat (t.traitName s) := by
    cases t <;> exact h.name.before (by decide)
  have htitle : IsNeat (t.traitTitle s) := by
    cases t <;> exact h.name.within (by decide)
  refine isNeat_withPending h htrait htitle (t.mirrors_functions s) hfunctions
    (List.forall_mem_map.mpr ?_)
  intro m hm
  have hneat := hfunctions m.inherent (List.mem_map_of_mem hm)
  refine ⟨List.forall_mem_singleton.mpr (oneLine_summary hneat.docs), ?_⟩
  exact fun x hx => hneat.attributes x (List.mem_append_left _ hx)

/-! ### Taps and partition -/

theorem isNeat_tapFunction (h : s.IsNeat) (hc : c.IsNeat) : (tapFunction s c).IsNeat where
  __ := Function.isNeat_method "self" (readsTo_literal (by decide))
  docs := by
    refine oneLine_of_isNeat (List.forall_mem_singleton.mpr ?_)
    exact hc.typeName.within (by decide)
  attributes := isNeat_of_mem_mustUse
  name := hc.stem.behind (by decide)
  parameters := List.forall_mem_singleton.mpr
    ⟨(readsTo_literal (by decide) : IsNeat "f"), hc.typeName.within (by decide)⟩
  result := forall_mem_some (readsTo_literal (by decide))
  body := by
    have hwithin : Statement.IsNeat
        (.within (.ifHeld c.variant s.binding "self") (.run (.call "f" [s.binding]))) :=
      ⟨⟨hc.variant, h.binding, readsTo_literal (by decide)⟩,
        readsTo_literal (by decide), List.forall_mem_singleton.mpr h.binding⟩
    rintro _ ⟨⟩
    exact List.forall_mem_cons.mpr
      ⟨hwithin, List.forall_mem_singleton.mpr (readsTo_literal (by decide) : IsNeat "self")⟩

theorem isNeat_tap (h : s.IsNeat) : ∀ item ∈ tap s, item.IsNeat :=
  List.forall_mem_singleton.mpr
    { Implementation.isNeat_bare with
      typeParameters := h.typeParameters
      target := h.selfType
      functions := List.forall_mem_map.mpr fun c hmem => isNeat_tapFunction h (h.cases c hmem) }

theorem isNeat_tuple {xs : List String} (h : ∀ x ∈ xs, IsNeat x) : IsNeat (tuple xs) :=
  (isNeat_commaSeparated h).within (by decide)

theorem isNeat_partitionFunction (h : s.IsNeat) : (partitionFunction s).IsNeat := by
  have hitems : IsNeat (s.fresh "I") := s.isNeat_fresh (readsTo_literal (by decide))
  have hdocs : ∀ doc ∈ ["Splits unions by held case, keeping their order within each case.", "",
      "# Returns", "One vector per case, in declaration order."], IsNeat doc :=
    isNeat_section (readsTo_literal (by decide)) (by decide) (by decide)
  have hnew {c : ShapeCase} (hc : c.IsNeat) :
      Statement.IsNeat (.bind ("mut " ++ c.stem) (.call "Vec::new" [])) :=
    ⟨hc.stem.behind (by decide), readsTo_literal (by decide), by rintro _ ⟨⟩⟩
  have hpush {c : ShapeCase} (hc : c.IsNeat) :
      (arm s c (.method (.name c.stem) "push" [s.binding])).IsNeat :=
    h.arm hc ⟨hc.stem, readsTo_literal (by decide), List.forall_mem_singleton.mpr h.binding⟩
  exact {
    docs := oneLine_of_isNeat hdocs
    attributes := List.forall_mem_append.mpr
      ⟨isNeat_of_mem_optional (isNeat_of_mem_literal (by decide)), isNeat_of_mem_mustUse⟩
    name := (readsTo_literal (by decide) : IsNeat "partition")
    typeParameters := List.forall_mem_singleton.mpr (List.forall_mem_singleton.mpr hitems)
    receiver := by rintro _ ⟨⟩
    parameters := List.forall_mem_singleton.mpr
      ⟨(readsTo_literal (by decide) : IsNeat "items"), hitems⟩
    result := by
      rintro _ ⟨⟩
      refine isNeat_tuple (List.forall_mem_map.mpr fun c hmem => ?_)
      exact (h.cases c hmem).typeName.within (by decide)
    bounds := by
      rintro _ ⟨⟩
      exact List.forall_mem_singleton.mpr
        ⟨hitems, (readsTo_literal (by decide) : IsNeat "IntoIterator<Item = Self>")⟩
    body := by
      rintro _ ⟨⟩ st hst
      rcases List.mem_append.mp hst with hst | hst
      · obtain ⟨c, hmem, rfl⟩ := List.mem_map.mp hst
        exact hnew (h.cases c hmem)
      · simp only [List.mem_cons, List.not_mem_nil, or_false] at hst
        rcases hst with rfl | rfl
        · exact ⟨⟨readsTo_literal (by decide), readsTo_literal (by decide)⟩,
            isNeat_dispatch (readsTo_literal (by decide)) fun c hmem => hpush (h.cases c hmem)⟩
        · exact isNeat_tuple (List.forall_mem_map.mpr fun c hmem => (h.cases c hmem).stem) }

theorem isNeat_partition (h : s.IsNeat) : ∀ item ∈ partition s, item.IsNeat :=
  List.forall_mem_singleton.mpr
    { Implementation.isNeat_bare with
      typeParameters := h.typeParameters
      target := h.selfType
      functions := List.forall_mem_singleton.mpr (isNeat_partitionFunction h) }

/-! ### Assertions -/

theorem isNeat_literal {text : String} (h : IsNeat text) : IsNeat (literal text) :=
  h.within (by decide)

theorem isNeat_raised (h : s.IsNeat) {kind : String} (hkind : IsNeat kind)
    {arguments : List String} (harguments : ∀ x ∈ arguments, IsNeat x) :
    (raised s kind arguments).IsNeat :=
  ⟨⟨(h.runtimePath.before (by decide)).append hkind, harguments⟩, readsTo_literal (by decide),
    by rintro _ ⟨⟩⟩

/-- The function that demands a case, with documentation or with a body. -/
theorem isNeat_caseAssertion (hc : c.IsNeat) {docs attributes : List String}
    {body : Option (List Statement)} (hdocs : ∀ doc ∈ docs, IsNeat doc)
    (hattributes : ∀ x ∈ attributes, IsNeat x) (hbody : ∀ b ∈ body, ∀ st ∈ b, st.IsNeat) :
    ({ caseAssertion c with docs := docs, attributes := attributes, body := body }
      : Function).IsNeat where
  __ := Function.isNeat_method "&self" (readsTo_literal (by decide))
  docs := oneLine_of_isNeat hdocs
  attributes := hattributes
  name := hc.stem.behind (by decide)
  result := by
    rintro _ ⟨⟩
    exact hc.typeName.behind (by decide)
  body := hbody

/-- The function that demands an equal value, with documentation or with a body. -/
theorem isNeat_valueAssertion (hc : c.IsNeat) {docs attributes : List String}
    {body : Option (List Statement)} (hdocs : ∀ doc ∈ docs, IsNeat doc)
    (hattributes : ∀ x ∈ attributes, IsNeat x) (hbody : ∀ b ∈ body, ∀ st ∈ b, st.IsNeat) :
    ({ valueAssertion s c with docs := docs, attributes := attributes, body := body }
      : Function).IsNeat where
  __ := Function.isNeat_method "&self" (readsTo_literal (by decide))
  docs := oneLine_of_isNeat hdocs
  attributes := hattributes
  name := hc.stem.within (by decide)
  parameters := List.forall_mem_singleton.mpr
    ⟨(readsTo_literal (by decide) : IsNeat "expected"), hc.typeName.behind (by decide)⟩
  result := by
    rintro _ ⟨⟩
    exact hc.typeName.behind (by decide)
  bounds := by
    show ∀ bs ∈ (if s.isGeneric then
      some [Bound.mk c.typeName "PartialEq + ::core::fmt::Debug"] else none), ∀ b ∈ bs, b.IsNeat
    cases s.isGeneric with
    | true =>
      rintro _ ⟨⟩
      exact List.forall_mem_singleton.mpr
        ⟨hc.typeName, (readsTo_literal (by decide) : IsNeat "PartialEq + ::core::fmt::Debug")⟩
    | false => rintro _ ⟨⟩
  body := hbody

theorem isNeat_assertionDeclarations (hc : c.IsNeat) :
    ∀ f ∈ assertionDeclarations s c, f.IsNeat := by
  have hcase : IsNeat ("Asserts the union holds a `" ++ c.typeName ++ "` and returns it.") :=
    hc.typeName.within (by decide)
  have hvalue : IsNeat ("Asserts the union holds a `" ++ c.typeName ++
      "` equal to `expected` and returns it.") :=
    hc.typeName.within (by decide)
  refine List.forall_mem_cons.mpr ⟨?_, ?_⟩
  · exact isNeat_caseAssertion hc (isNeat_section hcase (by decide) (by decide))
      (by rintro _ ⟨⟩) (by rintro _ ⟨⟩)
  · split
    · refine List.forall_mem_singleton.mpr ?_
      exact isNeat_valueAssertion hc (isNeat_section hvalue (by decide) (by decide))
        (by rintro _ ⟨⟩) (by rintro _ ⟨⟩)
    · rintro _ ⟨⟩

theorem isNeat_caseAssertionBody (h : s.IsNeat) (hc : c.IsNeat) :
    ∀ st ∈ caseAssertionBody s c, st.IsNeat := by
  have hraised : Arm.IsNeat ⟨.other "other", raised s "case_mismatch"
      [literal s.name, literal c.variant, "other.case_name()"]⟩ := by
    refine ⟨(readsTo_literal (by decide) : IsNeat "other"), ?_⟩
    refine isNeat_raised h (readsTo_literal (by decide)) ?_
    exact List.forall_mem_cons.mpr ⟨isNeat_literal h.name, List.forall_mem_cons.mpr
      ⟨isNeat_literal hc.variant, isNeat_of_mem_literal (by decide)⟩⟩
  refine List.forall_mem_singleton.mpr ⟨readsTo_literal (by decide), ?_⟩
  exact List.forall_mem_cons.mpr ⟨h.arm hc h.binding, List.forall_mem_singleton.mpr hraised⟩

theorem isNeat_valueAssertionBody (h : s.IsNeat) (hc : c.IsNeat) :
    ∀ st ∈ valueAssertionBody s c, st.IsNeat := by
  have hbind : Statement.IsNeat
      (.bind s.binding (.method (.name "self") ("should_be_" ++ c.stem) [])) :=
    ⟨h.binding, (readsTo_literal (by decide) : IsNeat "self"), hc.stem.behind (by decide),
      by rintro _ ⟨⟩⟩
  have hraised : (raised s "value_mismatch"
      [literal s.name, literal c.variant, "expected", s.binding]).IsNeat := by
    refine isNeat_raised h (readsTo_literal (by decide)) ?_
    exact List.forall_mem_cons.mpr ⟨isNeat_literal h.name, List.forall_mem_cons.mpr
      ⟨isNeat_literal hc.variant, List.forall_mem_cons.mpr
        ⟨readsTo_literal (by decide), List.forall_mem_singleton.mpr h.binding⟩⟩⟩
  have hwithin : Statement.IsNeat (.within (.ifDifferent s.binding "expected")
      (.run (raised s "value_mismatch"
        [literal s.name, literal c.variant, "expected", s.binding]))) :=
    ⟨⟨h.binding, readsTo_literal (by decide)⟩, hraised⟩
  exact List.forall_mem_cons.mpr ⟨hbind, List.forall_mem_cons.mpr
    ⟨hwithin, List.forall_mem_singleton.mpr h.binding⟩⟩

theorem isNeat_assertionDefinitions (h : s.IsNeat) (hc : c.IsNeat) :
    ∀ f ∈ assertionDefinitions s c, f.IsNeat := by
  have hcaller : ∀ x ∈ [trackCaller], IsNeat x := isNeat_of_mem_literal (by decide)
  refine List.forall_mem_cons.mpr ⟨?_, ?_⟩
  · refine isNeat_caseAssertion hc (by rintro _ ⟨⟩) hcaller ?_
    rintro _ ⟨⟩
    exact isNeat_caseAssertionBody h hc
  · split
    · refine List.forall_mem_singleton.mpr ?_
      refine isNeat_valueAssertion hc (by rintro _ ⟨⟩) hcaller ?_
      rintro _ ⟨⟩
      exact isNeat_valueAssertionBody h hc
    · rintro _ ⟨⟩

theorem isNeat_assertions (h : s.IsNeat) : ∀ item ∈ assertions s, item.IsNeat := by
  have hname : IsNeat (assertionsTraitName s) := h.name.before (by decide)
  have hdoc : IsNeat ("Test assertions for `" ++ s.name ++ "`.") :=
    h.name.within (by decide)
  refine List.forall_mem_cons.mpr ⟨?_, List.forall_mem_singleton.mpr ?_⟩
  · exact {
      docs := oneLine_of_isNeat (List.forall_mem_singleton.mpr hdoc)
      name := hname
      typeParameters := h.typeParameters
      supertraits := by rintro _ ⟨⟩
      functions := List.forall_mem_flatMap.mpr fun c hmem =>
        isNeat_assertionDeclarations (h.cases c hmem) }
  · exact {
      Implementation.isNeat_bare with
      typeParameters := h.typeParameters
      trait := by
        rintro _ ⟨⟩
        exact hname.append h.generics
      target := h.selfType
      functions := List.forall_mem_flatMap.mpr fun c hmem =>
        isNeat_assertionDefinitions h (h.cases c hmem) }

/-! ### Families -/

namespace Family

/-- Every item of every family has neat texts where the shape has. -/
theorem isNeat_items (f : Family) (h : s.IsNeat) : ∀ item ∈ f.items s, item.IsNeat := by
  cases f with
  | core => exact isNeat_core h
  | matching => exact isNeat_matchWith h
  | switching => exact isNeat_switch h
  | map => exact isNeat_transform h .map
  | bind => exact isNeat_transform h .bind
  | tap => exact isNeat_tap h
  | partition => exact isNeat_partition h
  | assertions => exact isNeat_assertions h

/-- The text of every family is nested, its comment lines left out, where the texts of the shape
    are. Quotes and slashes in these texts do no harm: a line that begins with such a text is
    nested, and so it may be left out. -/
theorem isNested_text (f : Family) (h : s.IsNeat) : IsNested (withoutComments (f.text s)) :=
  isNested_render (f.isNeat_items h)

end Family

/-- A shape with brackets in its types, and one open in what is said about a parameter. -/
def bracketed : Shape where
  name := "Terrain"
  isGeneric := false
  cases := [
    { ordinal := 1
      variant := "Grid"
      typeName := "Grid<[u8; 4]>"
      stem := "grid"
      constructor := some ⟨"from_rows", false⟩
      parameters := [⟨"Vec<[u8; 4]>", "rows", some "the rows (from the top"⟩,
        ⟨"(u8, u8)", "origin", none⟩]
      importPath := some "crate::maps::\x7bGrid, Cell\x7d" },
    { ordinal := 2
      variant := "Flat"
      typeName := "Flat"
      stem := "flat" }]
  runtimePath := defaultRuntimePath
  binding := heldName

theorem isNested_text_bracketed :
    bracketed.IsNeat ∧ ∀ f : Family, IsNested (withoutComments (f.text bracketed)) := by
  have hneat : bracketed.IsNeat := by
    refine ⟨by decide, by decide, by decide, ?_⟩
    refine List.forall_mem_cons.mpr ⟨?_, List.forall_mem_singleton.mpr ?_⟩
    · refine ⟨by decide, by decide, by decide, by decide, ?_, by decide⟩
      refine List.forall_mem_cons.mpr ⟨?_, List.forall_mem_singleton.mpr ?_⟩
      · exact ⟨by decide, by decide, by decide⟩
      · exact ⟨by decide, by decide, by decide⟩
    · exact ⟨by decide, by decide, by decide, by decide, by rintro _ ⟨⟩, by decide⟩
  exact ⟨hneat, fun f => f.isNested_text hneat⟩

end TaggedUnion
