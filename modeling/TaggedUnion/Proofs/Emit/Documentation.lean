import TaggedUnion.Proofs.Emit.ParameterEntries
import TaggedUnion.Proofs.Schema.UndocumentedUnions

/-! # Documentation in emitted code

    What the documentation of a constructor says ends up in the entries of its parameters and
    nowhere else:

    * **`Shape.undescribed`**: a shape without the descriptions of its parameters. All families
      but that of the type itself are the same for it.
    * **`Emit.remainingLines_core`**: the family of the type is the same but for the entries.
    * **`generate_of_undocumented_eq`**: documents that differ in documentation only have the
      same outcome, but for the lines with entries.
-/

namespace TaggedUnion

open Schema (CaseParameter Document UnionDeclaration)

/-! ### Shapes without descriptions

    Next to nothing that is read off a shape looks at the parameters of a case. Once a list of
    cases is rewritten to the one with descriptions, such a reader gives the same by definition. -/

/-- A case without the descriptions of its parameters. -/
def ShapeCase.undescribed (c : ShapeCase) : ShapeCase :=
  { c with parameters := c.parameters.map CaseParameter.undescribed }

namespace Shape

/-- A shape without the descriptions of its parameters. -/
def undescribed (s : Shape) : Shape := { s with cases := s.cases.map ShapeCase.undescribed }

variable (s : Shape)

/-- What is read off the cases without their descriptions can be read off all cases. -/
theorem map_cases_undescribed {α : Type} (f : ShapeCase → α) :
    s.undescribed.cases.map f = s.cases.map fun c => f c.undescribed := List.map_map

@[simp] theorem arity_undescribed : s.undescribed.arity = s.arity := List.length_map ..

@[simp] theorem caseTypes_undescribed : s.undescribed.caseTypes = s.caseTypes :=
  s.map_cases_undescribed _

@[simp] theorem typeParameters_undescribed :
    s.undescribed.typeParameters = s.typeParameters := by
  rw [typeParameters, caseTypes_undescribed]
  rfl

@[simp] theorem generics_undescribed : s.undescribed.generics = s.generics := by
  rw [generics, typeParameterList, typeParameters_undescribed]
  rfl

@[simp] theorem selfType_undescribed : s.undescribed.selfType = s.selfType := by
  rw [selfType, generics_undescribed]
  rfl

@[simp] theorem retypedCase_undescribed : s.undescribed.retypedCase = s.retypedCase := by
  funext position type
  rw [retypedCase, caseTypes_undescribed]
  rfl

@[simp] theorem describeCases_undescribed : s.undescribed.describeCases = s.describeCases := by
  rw [describeCases, map_cases_undescribed]
  rfl

@[simp] theorem allRecords_undescribed : s.undescribed.allRecords = s.allRecords := by
  rw [allRecords, undescribed, List.all_map]
  rfl

@[simp] theorem handlerAttributes_undescribed :
    s.undescribed.handlerAttributes = s.handlerAttributes := by
  rw [handlerAttributes, arity_undescribed]
  rfl

@[simp] theorem fresh_undescribed : s.undescribed.fresh = s.fresh := by
  have htaken : s.undescribed.takenNames = s.takenNames := by
    rw [takenNames, undescribed, List.flatMap_map]
    rfl
  funext base
  rw [fresh, htaken]
  rfl

@[simp] theorem freshNumbered_undescribed : s.undescribed.freshNumbered = s.freshNumbered := by
  funext base
  rw [freshNumbered, arity_undescribed, fresh_undescribed]
  rfl

/-- A union without documentation has the shape without descriptions. -/
theorem named_undocumented (u : Schema.Union) (path : String) :
    named u.undocumented path = (named u path).undescribed := by
  have hmodule (c : Schema.Case) : c.undocumented.modulePath = c.modulePath := by
    obtain ⟨ordinal, name, reference, symbol, constructor, parameters⟩ := c
    cases symbol <;> rfl
  have hrecord (c : Schema.Case) : c.undocumented.isRecord = c.isRecord := by
    obtain ⟨ordinal, name, reference, symbol, constructor, parameters⟩ := c
    cases symbol <;> rfl
  have himport (c : Schema.Case) : importOf u.scope c.undocumented = importOf u.scope c := by
    rw [importOf, hmodule]
    rfl
  rw [named, undescribed, named, Schema.Union.undocumented, List.map_map, List.map_map]
  simp only [Function.comp_def, himport, hrecord]
  rfl

/-- The shape of a union of a document without documentation. -/
theorem named_resolveIn_undocumented (declaration : UnionDeclaration) (d : Document)
    (path : String) :
    named (declaration.resolveIn d.undocumented).populate path =
      (named (declaration.resolveIn d).populate path).undescribed := by
  rw [declaration.resolveIn_undocumented, Schema.Union.populate_undocumented, named_undocumented]

/-- The entries of a shape stand on one line each. -/
def HasLineEntries : Prop := ∀ c ∈ s.cases, ∀ p ∈ c.parameters, '\n' ∉ p.entry.toList

end Shape

namespace Emit

open Code

variable (s : Shape)

/-! ### Handlers and pending unions -/

@[simp] theorem handlers_undescribed : handlers s.undescribed = handlers s := by
  funext results
  rw [handlers, Shape.undescribed, List.zip_map_left, List.map_map]
  rfl

@[simp] theorem handlerDocs_undescribed : handlerDocs s.undescribed = handlerDocs s := by
  rw [handlerDocs, Shape.map_cases_undescribed]
  rfl

@[simp] theorem handlerArguments_undescribed :
    handlerArguments s.undescribed = handlerArguments s := by
  rw [handlerArguments, Shape.map_cases_undescribed]
  rfl

/-- The trait of a pending union hangs on its functions, the name of the union and its types. -/
theorem withPending_undescribed (name title : String) (functions pending : List Function) :
    withPending s.undescribed name title functions pending =
      withPending s name title functions pending := by
  rw [withPending, pendingTrait, pendingImplementation]
  simp only [Shape.typeParameters_undescribed, Shape.selfType_undescribed,
    Shape.fresh_undescribed, Shape.generics_undescribed]
  rfl

/-! ### Dispatch -/

@[simp] theorem dispatchFunction_undescribed :
    dispatchFunction s.undescribed = dispatchFunction s := by
  funext name result isAsync
  rw [dispatchFunction, Shape.map_cases_undescribed]
  simp only [Shape.freshNumbered_undescribed, Shape.handlerAttributes_undescribed,
    handlers_undescribed, Shape.arity_undescribed]
  rfl

@[simp] theorem pendingDispatch_undescribed :
    pendingDispatch s.undescribed = pendingDispatch s := by
  funext name method result
  rw [pendingDispatch, Shape.map_cases_undescribed, handlers_undescribed,
    Shape.handlerAttributes_undescribed, handlerArguments_undescribed]
  rfl

@[simp] theorem pendingDispatchAsync_undescribed :
    pendingDispatchAsync s.undescribed = pendingDispatchAsync s := by
  funext name method result
  rw [pendingDispatchAsync, Shape.freshNumbered_undescribed, handlers_undescribed,
    Shape.handlerAttributes_undescribed, handlerArguments_undescribed]
  rfl

theorem matchWith_undescribed : matchWith s.undescribed = matchWith s := by
  have hfunctions : matchFunctions s.undescribed = matchFunctions s := by
    simp only [matchFunctions, Shape.fresh_undescribed, dispatchFunction_undescribed,
      handlerDocs_undescribed, asyncDispatchDocs]
  have hpending : pendingMatchFunctions s.undescribed = pendingMatchFunctions s := by
    simp only [pendingMatchFunctions, Shape.fresh_undescribed, pendingDispatch_undescribed,
      pendingDispatchAsync_undescribed]
  rw [matchWith, withPending_undescribed, hfunctions, hpending]
  rfl

theorem switch_undescribed : switch s.undescribed = switch s := by
  have hfunctions : switchFunctions s.undescribed = switchFunctions s := by
    simp only [switchFunctions, dispatchFunction_undescribed, handlerDocs_undescribed,
      asyncDispatchDocs]
  have hpending : pendingSwitchFunctions s.undescribed = pendingSwitchFunctions s := by
    simp only [pendingSwitchFunctions, pendingDispatch_undescribed,
      pendingDispatchAsync_undescribed]
  rw [switch, withPending_undescribed, hfunctions, hpending]
  rfl

/-! ### Transforms -/

namespace Transform

variable (t : Transform)

@[simp] theorem targets_undescribed : targets s.undescribed = targets s := by
  rw [targets, Shape.freshNumbered_undescribed, Shape.caseTypes_undescribed]
  rfl

theorem fullMethod_undescribed (isAsync : Bool) :
    t.fullMethod s.undescribed isAsync = t.fullMethod s isAsync := by
  rw [fullMethod, Shape.map_cases_undescribed]
  simp only [targets_undescribed, Shape.freshNumbered_undescribed, handlerDocs_undescribed,
    Shape.handlerAttributes_undescribed, handlers_undescribed, handlerArguments_undescribed]
  rfl

theorem singleMethod_undescribed (position : Nat) (target : ShapeCase) (isAsync : Bool) :
    t.singleMethod s.undescribed position target.undescribed isAsync =
      t.singleMethod s position target isAsync := by
  rw [singleMethod, Shape.map_cases_undescribed]
  simp only [Shape.fresh_undescribed, Shape.retypedCase_undescribed]
  rfl

theorem methods_undescribed : t.methods s.undescribed = t.methods s := by
  have hsingle : (s.undescribed.cases.mapIdx fun i c =>
      [t.singleMethod s.undescribed i c false, t.singleMethod s.undescribed i c true]) =
      s.cases.mapIdx fun i c => [t.singleMethod s i c false, t.singleMethod s i c true] := by
    refine List.ext_getElem? fun i => ?_
    rw [List.getElem?_mapIdx, List.getElem?_mapIdx, Shape.undescribed, List.getElem?_map,
      Option.map_map]
    refine congrArg (s.cases[i]?.map ·) (funext fun c => ?_)
    exact congrArg₂ (fun f g => [f, g]) (t.singleMethod_undescribed s i c false)
      (t.singleMethod_undescribed s i c true)
  rw [methods, fullMethod_undescribed, fullMethod_undescribed, hsingle]
  rfl

theorem items_undescribed : t.items s.undescribed = t.items s := by
  rw [items, withPending_undescribed, functions, pendingFunctions, methods_undescribed]
  rfl

end Transform

/-! ### Assertions -/

theorem assertions_undescribed : assertions s.undescribed = assertions s := by
  rw [assertions, Shape.typeParameters_undescribed, Shape.generics_undescribed,
    Shape.selfType_undescribed, Shape.undescribed, List.flatMap_map, List.flatMap_map]
  rfl

/-- Of the families of a named union, only that of the type itself looks at descriptions. -/
theorem items_undescribed {f : Family} (hf : f ∈ Family.ofNamed) (hcore : f ≠ .core) :
    f.items s.undescribed = f.items s := by
  have hothers : f ∈ [.matching, .switching, .map, .bind, .assertions] :=
    (List.mem_cons.mp hf).resolve_left hcore
  simp only [List.mem_cons, List.not_mem_nil, or_false] at hothers
  rcases hothers with rfl | rfl | rfl | rfl | rfl
  · exact matchWith_undescribed s
  · exact switch_undescribed s
  · exact Transform.items_undescribed s .map
  · exact Transform.items_undescribed s .bind
  · exact assertions_undescribed s

/-! ### The type itself -/

theorem isEntry_docLine_entry {p : CaseParameter} (h : '\n' ∉ p.entry.toList) :
    (docLine p.entry).nest.isEntry = true := by
  have hprefix : entryMark <+: "    /// ".toList ++ p.entry.toList := by
    rw [CaseParameter.entry, String.append_assoc, String.append_assoc, String.toList_append,
      ← List.append_assoc]
    exact List.IsPrefix.trans ⟨['`'], rfl⟩ (List.prefix_append _ _)
  rw [Line.isEntry, body_docLine_entry, List.isPrefixOf_iff_prefix.mpr hprefix]
  simpa using h

/-- A function that builds a case looks at descriptions for its entries only. -/
theorem newFunction_undescribed (c : ShapeCase) :
    newFunction s.undescribed c.undescribed =
      (newFunction s c).map fun f =>
        { f with docs := f.docs.take 3 ++ c.undescribed.parameters.map CaseParameter.entry } := by
  have hconstruction (k : Schema.ConstructorRef) :
      construction c.undescribed k = construction c k := by
    simp only [construction, ShapeCase.undescribed, List.map_map]
    rfl
  have hparameters : c.undescribed.parameters.map (fun p => (p.argumentName, p.typeName)) =
      c.parameters.map fun p => (p.argumentName, p.typeName) := List.map_map
  have hempty : c.undescribed.parameters.isEmpty = c.parameters.isEmpty := List.isEmpty_map
  have hlength : c.undescribed.parameters.length = c.parameters.length := List.length_map ..
  have hvariant : variantOf c.undescribed = variantOf c := rfl
  have hk : c.undescribed.constructor = c.constructor := rfl
  -- All but the entries is read off the names and types of the parameters.
  rw [newFunction, hk, newFunction]
  cases c.constructor with
  | none => rfl
  | some k =>
    simp only [hempty, hlength, hparameters, hconstruction, hvariant]
    by_cases hc : c.parameters.isEmpty
    · rw [if_pos hc, if_pos hc]
      rfl
    · rw [if_neg hc, if_neg hc]
      rfl

/-- Entries that stand on one line each are not among the other lines of a function. -/
theorem otherLines_newFunction_undescribed {c : ShapeCase}
    (h : ∀ p ∈ c.parameters, '\n' ∉ p.entry.toList)
    (h' : ∀ p ∈ c.undescribed.parameters, '\n' ∉ p.entry.toList) :
    (newFunction s.undescribed c.undescribed).map Function.otherLines =
      (newFunction s c).map Function.otherLines := by
  have hentries {ps : List CaseParameter} (hps : ∀ p ∈ ps, '\n' ∉ p.entry.toList) :
      ∀ entry ∈ ps.map CaseParameter.entry, (docLine entry).nest.isEntry :=
    List.forall_mem_map.mpr fun p hp => isEntry_docLine_entry (hps p hp)
  rw [newFunction_undescribed, Option.map_map]
  cases hf : newFunction s c with
  | none => rfl
  | some f =>
    have hdocs : f.docs = f.docs.take 3 ++ c.parameters.map CaseParameter.entry := by
      rw [docs_newFunction hf]
      rfl
    -- Without their entries the two functions are one.
    refine congrArg some ?_
    rw [Function.otherLines_eq hdocs (hentries h)]
    exact Function.otherLines_eq rfl (hentries h')

theorem tagFunction_undescribed : tagFunction s.undescribed = tagFunction s := by
  rw [tagFunction, Shape.map_cases_undescribed]
  rfl

theorem caseNameFunction_undescribed : caseNameFunction s.undescribed = caseNameFunction s := by
  rw [caseNameFunction, Shape.map_cases_undescribed]
  rfl

variable {s}

theorem map_otherLines_coreFunctions (h : s.HasLineEntries) (h' : s.undescribed.HasLineEntries) :
    (coreFunctions s.undescribed).map Function.otherLines =
      (coreFunctions s).map Function.otherLines := by
  have hbuilding : (s.undescribed.cases.flatMap fun c =>
      fromFunction s.undescribed c :: (newFunction s.undescribed c).toList).map
        Function.otherLines =
      (s.cases.flatMap fun c => fromFunction s c :: (newFunction s c).toList).map
        Function.otherLines := by
    rw [List.map_flatMap, List.map_flatMap, Shape.undescribed, List.flatMap_map, List.flatMap_def,
      List.flatMap_def]
    refine congrArg List.flatten (List.map_congr_left fun c hc => ?_)
    have hnew := otherLines_newFunction_undescribed s (h c hc) (h' _ (List.mem_map_of_mem hc))
    rw [List.map_cons, List.map_cons, ← Option.toList_map, ← Option.toList_map]
    exact congrArg (fun f => (fromFunction s c).otherLines :: f.toList) hnew
  have hlooking : (s.undescribed.cases.flatMap fun c =>
      [isFunction c, tryGetFunction s.undescribed c, tryIntoFunction s.undescribed c]) =
      s.cases.flatMap fun c => [isFunction c, tryGetFunction s c, tryIntoFunction s c] :=
    List.flatMap_map ..
  rw [coreFunctions, List.map_append, List.map_append, hbuilding, hlooking,
    tagFunction_undescribed, caseNameFunction_undescribed, coreFunctions, List.map_append,
    List.map_append]

/-- The items of the type itself but for its functions, without descriptions. -/
theorem core_undescribed :
    core s.undescribed =
      [.imports (importPaths s), .enum (enumOf s), .implementation (inherent s.undescribed)] ++
        (core s).drop 3 := by
  have himports : importPaths s.undescribed = importPaths s := by
    rw [importPaths, Shape.undescribed, List.filterMap_map]
    rfl
  have henum : enumOf s.undescribed = enumOf s := by
    rw [enumOf, Shape.map_cases_undescribed, Shape.arity_undescribed,
      Shape.describeCases_undescribed, Shape.allRecords_undescribed,
      Shape.typeParameters_undescribed]
    rfl
  have hconversions : (s.undescribed.cases.map fun c =>
      Item.implementation (conversion s.undescribed c)) =
      s.cases.map fun c => .implementation (conversion s c) := s.map_cases_undescribed _
  have hunion : unionImplementation s.undescribed = unionImplementation s := by
    rw [unionImplementation, Shape.typeParameters_undescribed, Shape.selfType_undescribed,
      Shape.arity_undescribed]
    rfl
  rw [core, himports, henum, hconversions, hunion]
  rfl

theorem filter_lines_inherent (h : s.HasLineEntries) (h' : s.undescribed.HasLineEntries) :
    (inherent s.undescribed).lines.filter (!·.isEntry) =
      (inherent s).lines.filter (!·.isEntry) := by
  have hfunctions := Implementation.filter_lines_congr (i := inherent s.undescribed) rfl
    (map_otherLines_coreFunctions h h')
  rw [hfunctions, inherent, Shape.typeParameters_undescribed, Shape.selfType_undescribed]
  rfl

/-- The family of the type itself looks at descriptions for entries only. -/
theorem remainingLines_core (h : s.HasLineEntries) (h' : s.undescribed.HasLineEntries) :
    remainingLines (Family.core.text s.undescribed) = remainingLines (Family.core.text s) := by
  have hcore : core s = [.imports (importPaths s), .enum (enumOf s),
      .implementation (inherent s)] ++ (core s).drop 3 := rfl
  have hlines : ((core s.undescribed).flatMap Item.lines).filter (!·.isEntry) =
      ((core s).flatMap Item.lines).filter (!·.isEntry) := by
    -- The functions of the type are the one item that may differ.
    rw [core_undescribed, hcore]
    simp only [List.flatMap_append, List.flatMap_cons, List.flatMap_nil, List.filter_append,
      Item.lines, filter_lines_inherent h h']
    rfl
  show remainingLines (renderLines ((core s.undescribed).flatMap Item.lines)) =
    remainingLines (renderLines ((core s).flatMap Item.lines))
  rw [remainingLines_renderLines, hlines, ← remainingLines_renderLines]

end Emit

/-! ### Outcomes without entries -/

/-- A file without the lines that document arguments, if it is that of the type; any other file
    stays as it is. -/
def Artifact.withoutEntries (a : Artifact) : Artifact :=
  if a.family = .core then { a with contents := Code.withoutEntries a.contents } else a

/-- What is emitted, without the lines that document arguments. -/
def Generated.withoutEntries (g : Generated) : Generated :=
  { g with artifacts := g.artifacts.map Artifact.withoutEntries }

theorem Artifact.withoutEntries_undescribed {s : Shape} (h : s.HasLineEntries)
    (h' : s.undescribed.HasLineEntries) {f : Family} (hf : f ∈ Family.ofNamed) :
    (ofShape s.undescribed f).withoutEntries = (ofShape s f).withoutEntries := by
  by_cases hcore : f = .core
  · -- The header comes before the lines of code and documents nothing.
    subst hcore
    have hcontents : Code.withoutEntries (ofShape s.undescribed .core).contents =
        Code.withoutEntries (ofShape s .core).contents := by
      rw [Code.withoutEntries, Code.withoutEntries, ofShape, ofShape, remainingLines_contents,
        remainingLines_contents, Emit.remainingLines_core h h']
    have hfamily (s : Shape) : (ofShape s .core).family = .core := rfl
    rw [withoutEntries, withoutEntries, if_pos (hfamily _), if_pos (hfamily _), hcontents]
    rfl
  · rw [ofShape, ofShape, Family.text, Family.text, Emit.items_undescribed s hf hcore]
    rfl

/-- The parameters of a document have names and types of one line. -/
def Schema.Document.HasLineParameters (d : Document) : Prop :=
  ∀ t ∈ d.types, ∀ k ∈ t.constructors, ∀ p ∈ k.parameters,
    '\n' ∉ p.name.toList ∧ '\n' ∉ p.typeName.toList

instance (d : Document) : Decidable d.HasLineParameters :=
  inferInstanceAs (Decidable (∀ t ∈ d.types, ∀ k ∈ t.constructors, ∀ p ∈ k.parameters,
    '\n' ∉ p.name.toList ∧ '\n' ∉ p.typeName.toList))

theorem Schema.Document.hasLineParameters_undocumented_iff (d : Document) :
    d.undocumented.HasLineParameters ↔ d.HasLineParameters := by
  simp [HasLineParameters, undocumented, Schema.TypeSymbol.undocumented,
    Schema.Constructor.undocumented]

/-- Where the names and types of parameters are of one line, so are the entries. -/
theorem Schema.Document.HasLineParameters.hasLineEntries {d : Document}
    (h : d.HasLineParameters) (declaration : UnionDeclaration) (path : String) :
    (Shape.named (declaration.resolveIn d).populate path).HasLineEntries := by
  intro c hc p hp
  obtain ⟨t, ht, k, hk, hp⟩ := UnionDeclaration.exists_of_mem_parameters hc hp
  have hbreak := p.mem_entry_iff (k.isCollapsed_caseParameters p hp) List.mem_cons_self
  obtain ⟨q, hq, rfl⟩ := List.mem_map.mp hp
  obtain ⟨hname, htype⟩ := h t ht k hk q hq
  rw [hbreak]
  rintro (hmem | ⟨-, hmem⟩)
  · exact hname hmem
  · exact htype hmem

/-- A union of a document without documentation has the same files, but for entries. -/
theorem Schema.Document.HasLineParameters.map_withoutEntries_artifacts {d : Document}
    (h : d.HasLineParameters) (declaration : UnionDeclaration) (path : String) :
    ((declaration.resolveIn d.undocumented).populate.artifacts path).map
        Artifact.withoutEntries =
      ((declaration.resolveIn d).populate.artifacts path).map Artifact.withoutEntries := by
  have hundocumented := (d.hasLineParameters_undocumented_iff.mpr h).hasLineEntries declaration path
  rw [Shape.named_resolveIn_undocumented] at hundocumented
  rw [Schema.Union.artifacts, Shape.named_resolveIn_undocumented, Schema.Union.artifacts,
    List.map_map, List.map_map]
  exact List.map_congr_left fun f hf =>
    Artifact.withoutEntries_undescribed (h.hasLineEntries declaration path) hundocumented hf

/-- The outcome of a gate, where the files agree but for entries. -/
theorem map_withoutEntries_gate {files files' : List Artifact}
    (h : files.map Artifact.withoutEntries = files'.map Artifact.withoutEntries) (isFatal : Bool)
    (e : GenerateError) (diagnostics : List Schema.Diagnostic) :
    (if isFatal then .error e else .ok ⟨files, diagnostics⟩ : Except GenerateError Generated).map
        Generated.withoutEntries =
      (if isFatal then .error e else .ok ⟨files', diagnostics⟩ :
        Except GenerateError Generated).map Generated.withoutEntries := by
  cases isFatal with
  | true => rfl
  | false => exact congrArg (fun files => Except.ok (Generated.mk files diagnostics)) h

/-- A document without documentation has the same outcome, but for entries. -/
theorem generate_undocumented {d : Document} (h : d.HasLineParameters) (name path : String) :
    (generate d.undocumented name path).map Generated.withoutEntries =
      (generate d name path).map Generated.withoutEntries := by
  cases hdeclared : d.union? name with
  | none =>
    rw [generate, generate, Schema.Union.ofDocument, Schema.Union.ofDocument,
      d.union?_undocumented, hdeclared]
  | some declaration =>
    -- The gate finds the same in both, so that both are refused or both have files.
    have hvalidate : (declaration.resolveIn d.undocumented).validate =
        (declaration.resolveIn d).validate := by
      rw [declaration.resolveIn_undocumented, Schema.Union.validate_undocumented]
    have hkey : (declaration.resolveIn d.undocumented).locationKey =
        (declaration.resolveIn d).locationKey := rfl
    rw [generate_of_union? hdeclared,
      generate_of_union? ((d.union?_undocumented name).trans hdeclared), hvalidate, hkey]
    exact map_withoutEntries_gate (h.map_withoutEntries_artifacts declaration path) _ _ _

/-- Documents that differ in the documentation of constructors only, and whose parameters have
    names and types of one line, have the same outcome for every union and every run-time path:
    the validation finds the same, and code is refused with the same error, or emitted with the
    same files but for the lines that document arguments. -/
theorem generate_of_undocumented_eq {d d' : Document} (h : d.undocumented = d'.undocumented)
    (hlines : d.HasLineParameters) (name path : String) :
    (Schema.Union.ofDocument d name).map Schema.Union.validate =
      (Schema.Union.ofDocument d' name).map Schema.Union.validate ∧
    (generate d name path).map Generated.withoutEntries =
      (generate d' name path).map Generated.withoutEntries := by
  -- Both documents have the outcome of the one without documentation.
  have hlines' : d'.HasLineParameters := by
    rwa [← d'.hasLineParameters_undocumented_iff, ← h, d.hasLineParameters_undocumented_iff]
  have hvalidate (d : Document) : (Schema.Union.ofDocument d.undocumented name).map
      Schema.Union.validate = (Schema.Union.ofDocument d name).map Schema.Union.validate := by
    rw [Schema.Union.ofDocument_undocumented]
    cases Schema.Union.ofDocument d name with
    | error e => rfl
    | ok u => exact congrArg Except.ok u.validate_undocumented
  constructor
  · rw [← hvalidate d, h, hvalidate d']
  · rw [← generate_undocumented hlines, h, generate_undocumented hlines']

/-- A document with a parameter of one line, and some documentation. -/
def job (documentation : Option String) : Document :=
  (Document.empty "demo").run
    [.addType {
        name := "Run"
        kind := .record
        constructors := [{ parameters := [⟨"type", "u8"⟩], documentation := documentation }] },
      .addType { name := "Stop" },
      .addUnion { scope := "demo", name := "Job", cases := ["Run", "Stop"] }]

/-- The one documentation describes the parameter by what looks like code, and the other one is
    not well-formed, so that it says nothing. -/
theorem generate_of_undocumented_eq_job :
    let described := "<param name=\"type\">How\n    to\nfn run();</param>"
    let malformed := "<param name=\"type\">How\n to run"
    Schema.Descriptions.read described = some [("type", "How to fn run();")] ∧
    Schema.Descriptions.read malformed = none ∧
    let d := job (some described)
    let d' := job (some malformed)
    d.undocumented = d'.undocumented ∧ d.HasLineParameters ∧
    (Schema.Union.ofDocument d "Job").map Schema.Union.validate =
      (Schema.Union.ofDocument d' "Job").map Schema.Union.validate ∧
    (generate d "Job" defaultRuntimePath).map Generated.withoutEntries =
      (generate d' "Job" defaultRuntimePath).map Generated.withoutEntries := by
  intro described malformed
  refine ⟨by cbv, by cbv, ?_⟩
  have hd : (job (some described)).undocumented = (job (some malformed)).undocumented := rfl
  have hlines : (job (some described)).HasLineParameters := by decide
  exact ⟨hd, hlines, generate_of_undocumented_eq hd hlines "Job" defaultRuntimePath⟩

end TaggedUnion
