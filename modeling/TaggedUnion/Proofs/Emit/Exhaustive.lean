import TaggedUnion.Proofs.Emit.Mirrors

/-! # Exhaustive dispatch

    A method that takes a handler for each case looks at the case that is held and calls the
    handler of that case. This module says that none is missing and that none is called in
    another one's place:

    * **`Expr.calls`**: the functions that an expression calls, and **`Expr.exists_text`** where
      they stand in its text.
    * **`DispatchesAll`**: the parameters of a method are one handler for each case, and its arms
      are one for each case, both in the order of the cases; the arm of a case calls the handler
      of that case with the value that is held.
    * **`TellsCases`**: a method has one arm for each case, with a text of that case as its value.
    * **`Shape.dispatchesAll`**: all methods with a handler for each case dispatch so, and the
      ordinal and the name of the held case are told so.

    Parameters, results and arms are listed in separate passes over the cases. Each pass is
    compared with the cases on its own, so that all of them agree.
-/

namespace TaggedUnion

open Code Emit

/-! ### Calls -/

/-- The functions that are called with names in an expression, with these names. -/
def Code.Expr.calls : Expr → List (String × List String)
  | .name _ | .record _ _ => []
  | .call function arguments => [(function, arguments)]
  | .wrap _ e | .await e | .deferred e => e.calls
  | .method receiver _ _ => receiver.calls

/-- A call in an expression is written in its text. -/
theorem Code.Expr.exists_text {function : String} {arguments : List String} {e : Expr}
    (h : (function, arguments) ∈ e.calls) :
    ∃ before after, e.text =
      before ++ (function ++ "(" ++ commaSeparated arguments ++ ")") ++ after := by
  induction e with
  | name | record => cases h
  | call g ys =>
    obtain ⟨rfl, rfl⟩ := Prod.mk.inj (List.mem_singleton.mp h)
    exact ⟨"", "", by simp [text]⟩
  | wrap g e ih =>
    obtain ⟨before, after, heq⟩ := ih h
    exact ⟨g ++ "(" ++ before, after ++ ")", by simp only [text, heq, String.append_assoc]⟩
  | method e g ys ih =>
    obtain ⟨before, after, heq⟩ := ih h
    exact ⟨before, after ++ "." ++ g ++ "(" ++ commaSeparated ys ++ ")", by
      simp only [text, heq, String.append_assoc]⟩
  | await e ih =>
    obtain ⟨before, after, heq⟩ := ih h
    exact ⟨before, after ++ ".await", by simp only [text, heq, String.append_assoc]⟩
  | deferred e ih =>
    obtain ⟨before, after, heq⟩ := ih h
    exact ⟨"async move \x7b " ++ before, after ++ " \x7d", by
      simp only [text, heq, String.append_assoc]⟩

/-! ### Handlers and arms of the cases -/

/-- A parameter is the handler of a case: it is named after the case and takes its values. -/
structure HandlesCase (c : ShapeCase) (parameter : String × String) : Prop where
  name : parameter.1 = "on_" ++ c.stem
  type : ∃ result, parameter.2 = "impl FnOnce(" ++ c.typeName ++ ")" ++ result

/-- An arm is for a case and calls the handler of that case with the value that is held, and
    nothing else. -/
structure CallsHandler (s : Shape) (c : ShapeCase) (a : Arm) : Prop where
  pattern : a.pattern = .held c.variant s.binding
  calls : a.value.calls = [("on_" ++ c.stem, [s.binding])]
  text : ∃ before after, a.text =
    "Self::" ++ c.variant ++ "(" ++ s.binding ++ ") => " ++
      (before ++ ("on_" ++ c.stem ++ "(" ++ s.binding ++ ")") ++ after) ++ ","

/-- An arm is for a case and has a text as its value. -/
structure TellsCase (c : ShapeCase) (value : String) (a : Arm) : Prop where
  pattern : a.pattern = .held c.variant "_"
  value_eq : a.value = .name value
  text : a.text = "Self::" ++ c.variant ++ "(_) => " ++ value ++ ","

variable (s : Shape)

theorem callsHandler_of_calls {c : ShapeCase} {value : Expr}
    (h : value.calls = [("on_" ++ c.stem, [s.binding])]) :
    CallsHandler s c (arm s c value) where
  pattern := rfl
  calls := h
  text := by
    have hmem : ("on_" ++ c.stem, [s.binding]) ∈ value.calls := by
      rw [h]
      exact List.mem_cons_self
    obtain ⟨before, after, heq⟩ := Expr.exists_text hmem
    refine ⟨before, after, ?_⟩
    have hone : commaSeparated [s.binding] = s.binding := String.intercalate_singleton
    simp only [arm, Arm.text, Pattern.text, heq, hone, String.append_assoc]
    rfl

theorem calls_awaitedIf (isAsync : Bool) (e : Expr) : (awaitedIf isAsync e).calls = e.calls := by
  cases isAsync <;> rfl

theorem callsHandler_handlerArm (isAsync : Bool) (c : ShapeCase) :
    CallsHandler s c (handlerArm s isAsync c) := by
  refine callsHandler_of_calls s ?_
  rw [calls_awaitedIf]
  rfl

/-- A map puts the result of the handler back into the case, which is no call of a handler. -/
theorem callsHandler_fullArm (t : Transform) (isAsync : Bool) (c : ShapeCase) :
    CallsHandler s c (t.fullArm s isAsync c) := by
  refine callsHandler_of_calls s ?_
  have hrebuild (e : Expr) : (t.rebuild s c e).calls = e.calls := by
    cases t <;> rfl
  rw [hrebuild, calls_awaitedIf]
  rfl

/-! ### One handler for each case -/

/-- Handlers are listed for all cases if there is a result for each one. -/
theorem forall₂_handlers {results : List (Option String)} (h : results.length = s.cases.length) :
    List.Forall₂ HandlesCase s.cases (handlers s results) := by
  unfold handlers
  generalize s.cases = cases at h
  induction cases generalizing results with
  | nil => exact .nil
  | cons c cases ih =>
    cases results with
    | nil => cases h
    | cons r results =>
      rw [List.zip_cons_cons, List.map_cons]
      exact .cons ⟨rfl, _, rfl⟩ (ih (Nat.succ.inj h))

theorem forall₂_map {β : Type} {R : ShapeCase → β → Prop} {f : ShapeCase → β}
    (h : ∀ c, R c (f c)) (cases : List ShapeCase) : List.Forall₂ R cases (cases.map f) := by
  rw [List.forall₂_map_right_iff]
  exact List.forall₂_same.mpr fun c _ => h c

/-! ### Methods -/

/-- A method takes one handler for each case and dispatches on the union with one arm for each
    case, which calls the handler of that case; both are in the order of the cases. -/
structure DispatchesAll (m : Function) : Prop where
  handlers : List.Forall₂ HandlesCase s.cases m.parameters
  arms : ∃ arms, List.Forall₂ (CallsHandler s) s.cases arms ∧
    m.body = some [.dispatch "self" arms] ∧
    m.lines = leadLines m.docs m.attributes ++
      (line ("pub " ++ m.asyncMark ++ m.head) ::
        nest (line "self," :: m.parameters.map fun p => line (p.1 ++ ": " ++ p.2 ++ ",")) ++
        boundedBlock m.closing m.bounds
          (block "match self" (arms.map fun a => line a.text)))

/-- A method dispatches on the union with one arm for each case, in the order of the cases, which
    has a text of that case as its value. -/
structure TellsCases (value : ShapeCase → String) (m : Function) : Prop where
  parameters : m.parameters = []
  arms : ∃ arms, List.Forall₂ (fun c a => TellsCase c (value c) a) s.cases arms ∧
    m.body = some [.dispatch "self" arms] ∧
    m.lines = leadLines m.docs m.attributes ++
      boundedBlock (m.opening ++ "&self" ++ m.closing) none
        (block "match self" (arms.map fun a => line a.text))

variable {s}

theorem dispatchesAll_of_isConsuming {m : Function} {arm : ShapeCase → Arm}
    (hform : m.IsConsuming [.dispatch "self" (s.cases.map arm)])
    (hhandlers : List.Forall₂ HandlesCase s.cases m.parameters)
    (harms : ∀ c, CallsHandler s c (arm c)) : DispatchesAll s m where
  handlers := hhandlers
  arms := by
    refine ⟨_, forall₂_map harms s.cases, hform.body_eq, ?_⟩
    rw [hform.lines_eq, List.flatMap_singleton]
    rfl

/-- A method that matches or switches has a result for each handler, in both of its forms. -/
theorem dispatchesAll_of_isDispatch {isAsync : Bool} {m : Function}
    (h : IsDispatch s isAsync m) : DispatchesAll s m := by
  refine dispatchesAll_of_isConsuming h.isConsuming ?_ (callsHandler_handlerArm s isAsync)
  obtain ⟨stem, result, name, docs, rfl⟩ := h
  refine forall₂_handlers s ?_
  cases isAsync <;> simp [Shape.arity]

variable (s) in
/-- A transform has a result for each handler, in both of its forms. -/
theorem dispatchesAll_full (t : Transform) (isAsync : Bool) :
    DispatchesAll s (t.full s isAsync) := by
  refine dispatchesAll_of_isConsuming (t.isConsuming_full s isAsync) ?_
    (callsHandler_fullArm s t isAsync)
  refine forall₂_handlers s ?_
  cases isAsync <;> simp

theorem tellsCases_of_body {value : ShapeCase → String} {m : Function}
    (hreceiver : m.receiver = some "&self") (hparameters : m.parameters = [])
    (hspread : m.spread = false) (hbounds : m.bounds = none)
    (hbody : m.body = some [.dispatch "self" (s.cases.map fun c =>
      ⟨.held c.variant "_", .name (value c)⟩)]) :
    TellsCases s value m where
  parameters := hparameters
  arms := by
    have htell (c : ShapeCase) :
        TellsCase c (value c) ⟨.held c.variant "_", .name (value c)⟩ := by
      refine ⟨rfl, rfl, ?_⟩
      simp only [Arm.text, Pattern.text, Expr.text, String.append_assoc]
      rfl
    refine ⟨_, forall₂_map htell s.cases, hbody, ?_⟩
    have hself : commaSeparated m.parameterTexts = "&self" := by
      rw [Function.parameterTexts, hreceiver, hparameters]
      exact String.intercalate_singleton
    unfold Function.lines
    rw [hspread, hbody, hbounds, hself]
    simp only [Bool.false_eq_true, if_false, List.flatMap_singleton]
    rfl

/-! ### Families -/

/-- Of the functions that a family adds to the union, the first ones have the given names, are
    written, and dispatch on all cases; the other ones have the other names. -/
def Family.DispatchesFirst (f : Family) (s : Shape) (names others : List String) : Prop :=
  ∃ methods rest, f.ownFunctions s = methods ++ rest ∧
    methods.map (·.name) = names ∧ rest.map (·.name) = others ∧
    ∀ m ∈ methods, f.Emits s m ∧ DispatchesAll s m

/-- Of the functions that a family adds to the union, just one has a name; it is written, and tells
    the cases by their values. -/
def Family.TellsBy (f : Family) (s : Shape) (name : String) (value : ShapeCase → String) : Prop :=
  ∃ m, (f.ownFunctions s).filter (·.name = name) = [m] ∧ f.Emits s m ∧ TellsCases s value m

namespace Shape

theorem dispatchesFirst_of_ownFunctions_eq {f : Family} {methods rest : List Function}
    (hown : f.ownFunctions s = methods ++ rest) (h : ∀ m ∈ methods, DispatchesAll s m) :
    f.DispatchesFirst s (methods.map (·.name)) (rest.map (·.name)) := by
  refine ⟨methods, rest, hown, rfl, rfl, fun m hm => ⟨?_, h m hm⟩⟩
  refine Family.emits_of_mem_ownFunctions ?_
  rw [hown]
  exact List.mem_append_left _ hm

theorem dispatchesFirst_transform {f : Family} {t : Transform} (hitems : f.items s = t.items s) :
    f.DispatchesFirst s [t.stem, t.stem ++ "_async"] (s.singleNames t) := by
  have hown : f.ownFunctions s = [t.full s false, t.full s true] ++
      (s.cases.mapIdx fun i c => [t.single s i c false, t.single s i c true]).flatten := by
    rw [t.ownFunctions_eq s hitems, s.transformFunctions_eq]
  have hsingles : ((s.cases.mapIdx fun i c =>
      [t.single s i c false, t.single s i c true]).flatten).map (·.name) = s.singleNames t := by
    have hnames := s.map_name_functions t
    rw [s.transformFunctions_eq, List.map_append] at hnames
    exact List.append_cancel_left hnames
  rw [← hsingles]
  refine s.dispatchesFirst_of_ownFunctions_eq hown ?_
  intro m hm
  simp only [List.mem_cons, List.not_mem_nil, or_false] at hm
  rcases hm with rfl | rfl <;> exact dispatchesAll_full s t _

/-- The functions that build a value or look into one case are not called like those that tell the
    case. -/
theorem filter_name_coreFunctions {h : Head} (hh : h = .tag ∨ h = .caseName) :
    (coreFunctions s).filter (·.name = h.text) =
      [tagFunction s, caseNameFunction s].filter (·.name = h.text) := by
  -- A name that begins with another head is another name, whatever stands behind the head.
  have hne {f : Function} {k : Head} {stem : String}
      (hk : k ∈ [Head.from, .new, .is, .tryGet, .tryInto]) (hname : f.name = k.text ++ stem) :
      ¬ decide (f.name = h.text) = true := by
    have hall : ∀ k ∈ [Head.from, .new, .is, .tryGet, .tryInto],
        k ∈ Head.all ∧ k ≠ .tag ∧ k ≠ .caseName := by decide
    obtain ⟨hmem, htag, hcase⟩ := hall k hk
    have hapart : k.text ++ stem ≠ h.text ++ "" := by
      rcases hh with rfl | rfl
      · exact Head.text_append_ne hmem (by decide) htag stem ""
      · exact Head.text_append_ne hmem (by decide) hcase stem ""
    rw [String.append_empty] at hapart
    simpa [hname] using hapart
  have hbuild : (s.cases.flatMap fun c => fromFunction s c :: (newFunction s c).toList).filter
      (·.name = h.text) = [] := by
    refine List.filter_eq_nil_iff.mpr ?_
    intro f hf
    obtain ⟨c, -, hf⟩ := List.mem_flatMap.mp hf
    rcases List.mem_cons.mp hf with rfl | hf
    · exact hne (k := .from) (by decide) rfl
    · exact hne (k := .new) (by decide) (s.name_of_mem_newFunction (Option.mem_toList.mp hf))
  have hlook : (s.cases.flatMap fun c =>
      [isFunction c, tryGetFunction s c, tryIntoFunction s c]).filter (·.name = h.text) = [] := by
    refine List.filter_eq_nil_iff.mpr ?_
    intro f hf
    obtain ⟨c, -, hf⟩ := List.mem_flatMap.mp hf
    simp only [List.mem_cons, List.not_mem_nil, or_false] at hf
    rcases hf with rfl | rfl | rfl
    · exact hne (k := .is) (by decide) rfl
    · exact hne (k := .tryGet) (by decide) rfl
    · exact hne (k := .tryInto) (by decide) rfl
  rw [coreFunctions, List.filter_append, List.filter_append, hbuild, hlook, List.nil_append,
    List.append_nil]

theorem tellsBy_core {h : Head} (hh : h = .tag ∨ h = .caseName) {m : Function}
    (hm : [tagFunction s, caseNameFunction s].filter (·.name = h.text) = [m])
    {value : ShapeCase → String} (htells : TellsCases s value m) :
    Family.core.TellsBy s h.text value := by
  have hown : Family.core.ownFunctions s = coreFunctions s := s.ownFunctions_core
  have honly := s.filter_name_coreFunctions hh
  rw [hm, ← hown] at honly
  refine ⟨m, honly, Family.emits_of_mem_ownFunctions ?_, htells⟩
  have hmem : m ∈ (Family.core.ownFunctions s).filter (·.name = h.text) := by
    rw [honly]
    exact List.mem_singleton_self m
  exact List.mem_of_mem_filter hmem

/-- Every method with a handler for each case dispatches on all cases in order, and the functions
    that tell the ordinal and the name of the held case do so for all cases in order. -/
theorem dispatchesAll :
    Family.matching.DispatchesFirst s ["match_with", "match_async"] [] ∧
      Family.switching.DispatchesFirst s ["switch", "switch_async"] [] ∧
      Family.map.DispatchesFirst s ["map", "map_async"] (s.singleNames .map) ∧
      Family.bind.DispatchesFirst s ["bind", "bind_async"] (s.singleNames .bind) ∧
      Family.core.TellsBy s "tag" (fun c => toString c.ordinal) ∧
      Family.core.TellsBy s "case_name" (fun c => "\"" ++ c.variant ++ "\"") := by
  have hmatching : Family.matching.ownFunctions s = matchFunctions s ++ [] := by
    rw [List.append_nil]
    exact s.ownFunctions_withPending ..
  have hswitching : Family.switching.ownFunctions s = switchFunctions s ++ [] := by
    rw [List.append_nil]
    exact s.ownFunctions_withPending ..
  refine ⟨?_, ?_, s.dispatchesFirst_transform (t := .map) rfl,
    s.dispatchesFirst_transform (t := .bind) rfl, ?_, ?_⟩
  · refine s.dispatchesFirst_of_ownFunctions_eq hmatching ?_
    intro m hm
    obtain ⟨isAsync, hdispatch⟩ := isDispatch_of_mem_matchFunctions s hm
    exact dispatchesAll_of_isDispatch hdispatch
  · refine s.dispatchesFirst_of_ownFunctions_eq hswitching ?_
    intro m hm
    obtain ⟨isAsync, hdispatch⟩ := isDispatch_of_mem_switchFunctions s hm
    exact dispatchesAll_of_isDispatch hdispatch
  · exact s.tellsBy_core (h := .tag) (.inl rfl) rfl (tellsCases_of_body rfl rfl rfl rfl rfl)
  · exact s.tellsBy_core (h := .caseName) (.inr rfl) rfl (tellsCases_of_body rfl rfl rfl rfl rfl)

end Shape

end TaggedUnion
