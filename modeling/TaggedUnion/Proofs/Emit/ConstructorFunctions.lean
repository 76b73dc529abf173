import TaggedUnion.Proofs.Emit.Methods
import TaggedUnion.Proofs.Schema.Selection

/-! # Functions that build a case

    For a case whose type has a constructor with parameters, a function takes the parameters and
    builds a value of the type. This module says which cases have such functions and what these do
    with their arguments:

    * **`Constructs`**: an expression builds a value with a constructor, from arguments in order.
    * **`BuildsCase`**: the signature, the documentation and the body of such a function.
    * **`UnionDeclaration.forall₂_buildsCase`**: the functions of all declared unions, valid or not,
      compared with the types of their cases.
    * **`buildsCases`**: the same for the code that is emitted for a valid union.
-/

namespace TaggedUnion

open Code Emit

/-! ### What such a function is like -/

/-- A field set to an argument, as written; a field that is called like the argument is written
    once. -/
def Schema.Parameter.setting (p : Parameter) : String :=
  if p.fieldName = p.argumentName then p.fieldName else p.fieldName ++ ": " ++ p.argumentName

/-- The entry that documents the argument for a parameter by a text. -/
def Schema.Parameter.entry (p : Parameter) (text : String) : String :=
  "* `" ++ p.argumentName ++ "` - " ++ text

section specification

open Schema

/-- An expression with its text builds a value of a type with a constructor. -/
inductive Constructs (t : TypeSymbol) (k : Constructor) : Expr → String → Prop where
  /-- An explicit constructor is called with the arguments. -/
  | call (kind : k.implicit = false) :
      Constructs t k (.call (t.name ++ "::" ++ k.name) (k.parameters.map (·.argumentName)))
        (t.name ++ "::" ++ k.name ++ "(" ++ commaSeparated (k.parameters.map (·.argumentName)) ++
          ")")
  /-- An implicit one sets the field of each parameter to its argument. -/
  | record (kind : k.implicit = true) :
      Constructs t k (.record t.name (k.parameters.map fun p => (p.fieldName, p.argumentName)))
        (t.name ++ " \x7b " ++ commaSeparated (k.parameters.map (·.setting)) ++ " \x7d")

/-- A line of documentation is the entry for the argument of a parameter of a constructor. -/
def IsEntryOf (k : Constructor) (p : Parameter) (entry : String) : Prop :=
  ∃ text, k.Documents p text ∧ entry = p.entry text

/-- A function of a union builds the case of a type with a constructor. -/
structure BuildsCase (union : String) (t : TypeSymbol) (k : Constructor) (f : Function) : Prop where
  name : f.name = "new_" ++ t.stem
  receiver : f.receiver = none
  parameters : f.parameters = k.parameters.map fun p => (p.argumentName, p.typeName)
  result : f.result = some "Self"
  docs : ∃ entries, List.Forall₂ (IsEntryOf k) k.parameters entries ∧
    f.docs = ["Creates a `" ++ union ++ "` holding a new `" ++ t.name ++ "`.", "", "# Arguments"] ++
      entries
  body : ∃ value text, Constructs t k value text ∧
    f.body = some [.value (.wrap ("Self::" ++ t.name) value)] ∧
    f.lines = leadLines f.docs f.attributes ++
      block ("pub fn " ++ f.name ++ "(" ++
        commaSeparated (k.parameters.map fun p => p.argumentName ++ ": " ++ p.typeName) ++
        ") -> Self") [line ("Self::" ++ t.name ++ "(" ++ text ++ ")")]

theorem BuildsCase.drop_docs {union : String} {t : TypeSymbol} {k : Constructor} {f : Function}
    (h : BuildsCase union t k f) :
    f.docs.drop 3 = k.parameters.map fun p => p.entry (k.caseParameter p).displayText := by
  obtain ⟨entries, hentries, hdocs⟩ := h.docs
  -- A parameter has one text that documents it.
  have hlist : (k.parameters.map fun p => p.entry (k.caseParameter p).displayText) = entries := by
    rw [← List.forall₂_eq_eq_eq, List.forall₂_map_left_iff]
    refine hentries.imp ?_
    rintro p entry ⟨text, htext, rfl⟩
    rw [Constructor.documents_iff.mp htext]
  rw [hdocs, hlist]
  rfl

/-- A shape has the case of a type, with the constructor that the type chooses. -/
structure IsCaseOf (t : TypeSymbol) (c : ShapeCase) : Prop where
  variant : c.variant = t.name
  typeName : c.typeName = t.name
  stem : c.stem = t.stem
  constructor : c.constructor = t.selectConstructor.map Constructor.ref
  parameters : c.parameters = (t.selectConstructor.map Constructor.caseParameters).getD []

end specification

/-! ### The emitter -/

/-- The text of a public function that returns the value of one expression. -/
theorem Code.Function.lines_of_value {name result : String} {docs attributes : List String}
    {parameters : List (String × String)} {e : Expr} :
    ({ docs := docs, attributes := attributes, name := name, parameters := parameters,
       result := some result, body := some [.value e] } : Function).lines =
      leadLines docs attributes ++
        block ("pub fn " ++ name ++ "(" ++ commaSeparated (parameters.map fun p =>
          p.1 ++ ": " ++ p.2) ++ (") -> " ++ result)) [line e.text] := by
  have hopening : "pub " ++ "" ++ "" ++ "fn " ++ name ++ "" ++ "(" = "pub fn " ++ name ++ "(" := by
    rw [String.append_empty]
    rfl
  unfold Function.lines
  rw [← hopening]
  rfl

namespace Emit

open Schema

variable {s : Shape} {c : ShapeCase} {t : TypeSymbol} {k : Constructor}

theorem constructs_construction (hname : c.typeName = t.name)
    (hparameters : c.parameters = k.caseParameters) :
    Constructs t k (construction c k.ref) (construction c k.ref).text := by
  unfold construction
  rw [hparameters, k.map_caseParameters, k.map_caseParameters, hname]
  cases hkind : k.implicit with
  | false =>
    rw [Constructor.ref, hkind]
    exact .call hkind
  | true =>
    have hsettings : (k.parameters.map fun p => (p.fieldName, p.argumentName)).map fieldText =
        k.parameters.map (·.setting) := by
      rw [List.map_map]
      rfl
    have hrecord := Constructs.record (t := t) hkind
    rw [← hsettings] at hrecord
    rw [Constructor.ref, hkind]
    exact hrecord

/-- The parameters of a case as they are documented. -/
theorem forall₂_isEntryOf (k : Constructor) :
    List.Forall₂ (IsEntryOf k) k.parameters (k.caseParameters.map fun p =>
      "* `" ++ p.argumentName ++ "` - " ++ p.displayText) := by
  rw [k.map_caseParameters, List.forall₂_map_right_iff, List.forall₂_same]
  intro p _
  exact ⟨_, Constructor.documents_iff.mpr rfl, rfl⟩

/-- A type that chooses no constructor has no function that builds its case. -/
theorem newFunction_of_none (h : IsCaseOf t c) (hnone : t.selectConstructor = none) :
    newFunction s c = none := by
  have hconstructor : c.constructor = none := by rw [h.constructor, hnone, Option.map_none]
  rw [newFunction, hconstructor]

/-- A type that chooses one has a function that builds its case with it. -/
theorem buildsCase_newFunction (h : IsCaseOf t c) (hk : t.selectConstructor = some k) :
    ∃ f, newFunction s c = some f ∧ BuildsCase s.name t k f := by
  have hconstructor : c.constructor = some k.ref := by rw [h.constructor, hk, Option.map_some]
  have hparameters : c.parameters = k.caseParameters := by
    rw [h.parameters, hk, Option.map_some, Option.getD_some]
  -- Only constructors with parameters are chosen.
  have husable := (TypeSymbol.selectConstructor_eq_some_iff.mp hk).usable
  have hnonempty : c.parameters.isEmpty = false := by
    rw [hparameters, Constructor.caseParameters, List.isEmpty_map, List.isEmpty_eq_false_iff]
    exact husable.parameters
  have htexts : (c.parameters.map fun p => (p.argumentName, p.typeName)) =
      k.parameters.map fun p => (p.argumentName, p.typeName) := by
    rw [hparameters, k.map_caseParameters]
    rfl
  unfold newFunction
  rw [hconstructor]
  simp only [hnonempty, Bool.false_eq_true, if_false]
  refine ⟨_, rfl, ?_⟩
  exact {
    name := by rw [h.stem]
    receiver := rfl
    parameters := htexts
    result := rfl
    docs := ⟨_, forall₂_isEntryOf k, by rw [hparameters, h.typeName]⟩
    body := by
      refine ⟨_, _, constructs_construction h.typeName hparameters, ?_, ?_⟩
      · rw [variantOf, h.variant]
      · rw [Function.lines_of_value, htexts, List.map_map, variantOf, h.variant]
        rfl }

/-- A name begins with the head that it is made with, and with no other one. -/
theorem Head.isPrefix_text_append_iff {h k : Head} (hh : h ∈ Head.all) (hk : k ∈ Head.all)
    (rest : String) : h.text.toList <+: (k.text ++ rest).toList ↔ h = k := by
  rw [String.toList_append]
  constructor
  · intro hbegins
    rcases List.prefix_or_prefix_of_prefix hbegins (List.prefix_append _ _) with hpre | hpre
    · exact Head.eq_of_isPrefix h hh k hk hpre
    · exact (Head.eq_of_isPrefix k hk h hh hpre).symm
  · rintro rfl
    exact List.prefix_append _ _

end Emit

/-! ### All cases -/

/-- A function is called like those that build a case. -/
def Code.Function.isNew (f : Function) : Bool := "new_".toList.isPrefixOf f.name.toList

theorem Code.Function.isNew_eq {f : Function} {h : Head} (hh : h ∈ Head.all) (rest : String)
    (hname : f.name = h.text ++ rest) : f.isNew = decide (Head.new = h) := by
  have hiff := Head.isPrefix_text_append_iff (h := .new) (by decide) hh rest
  rw [← hname] at hiff
  rw [Bool.eq_iff_iff, isNew, List.isPrefixOf_iff_prefix, decide_eq_true_iff]
  exact hiff

section cases

variable (s : Shape)

/-- No function of a union is called like one that builds a case, unless it does. -/
theorem filter_isNew_core :
    (Family.core.ownFunctions s).filter Function.isNew = s.cases.filterMap (newFunction s) := by
  have hown : Family.core.ownFunctions s = coreFunctions s := s.ownFunctions_core
  -- Every function is told by its head, whatever the stem of its case is.
  have hbuild (c : ShapeCase) :
      (fromFunction s c :: (newFunction s c).toList).filter Function.isNew =
        (newFunction s c).toList := by
    have hfrom : (fromFunction s c).isNew = false :=
      Function.isNew_eq (h := .from) (by decide) c.stem rfl
    rw [List.filter_cons_of_neg (by simp [hfrom])]
    refine List.filter_eq_self.mpr ?_
    intro f hf
    have hname := s.name_of_mem_newFunction (Option.mem_toList.mp hf)
    exact Function.isNew_eq (h := .new) (by decide) c.stem hname
  have hlook (c : ShapeCase) :
      [isFunction c, tryGetFunction s c, tryIntoFunction s c].filter Function.isNew = [] := by
    refine List.filter_eq_nil_iff.mpr ?_
    intro f hf
    simp only [List.mem_cons, List.not_mem_nil, or_false] at hf
    rw [Bool.not_eq_true]
    rcases hf with rfl | rfl | rfl
    · exact Function.isNew_eq (h := .is) (by decide) c.stem rfl
    · exact Function.isNew_eq (h := .tryGet) (by decide) c.stem rfl
    · exact Function.isNew_eq (h := .tryInto) (by decide) c.stem rfl
  have htell : [tagFunction s, caseNameFunction s].filter Function.isNew = [] := by
    have htag : (tagFunction s).isNew = false :=
      Function.isNew_eq (h := .tag) (by decide) "" String.append_empty.symm
    have hcase : (caseNameFunction s).isNew = false :=
      Function.isNew_eq (h := .caseName) (by decide) "" String.append_empty.symm
    simp [htag, hcase]
  have hnone : (s.cases.flatMap fun _ => ([] : List Function)) = [] :=
    List.flatMap_eq_nil_iff.mpr fun _ _ => rfl
  rw [hown, coreFunctions, List.filter_append, List.filter_append, List.filter_flatMap,
    List.filter_flatMap, htell, List.filterMap_eq_flatMap_toList]
  simp only [hbuild, hlook, hnone, List.append_nil]

end cases

namespace Schema

/-- A reference leads to the type of a case, or else the case has no constructor. -/
inductive Document.LeadsTo (d : Document) (reference : String) (c : ShapeCase) : Prop where
  | resolved (t : TypeSymbol) (found : d.type? reference = some t) (isCase : IsCaseOf t c)
  | unresolved (missing : d.type? reference = none) (bare : c.constructor = none)

variable (declaration : UnionDeclaration) (d : Document) (path : String)

theorem Document.leadsTo_named :
    List.Forall₂ d.LeadsTo declaration.cases
      (Shape.named (declaration.resolveIn d).populate path).cases := by
  refine List.forall₂_iff_get.mpr ⟨?_, ?_⟩
  · simp [Shape.named, Union.populate, UnionDeclaration.resolveIn]
  · intro i hi hi'
    simp only [Shape.named, Union.populate, UnionDeclaration.resolveIn, List.get_eq_getElem,
      List.getElem_map, List.getElem_mapIdx]
    -- What a case is resolved and populated to depends on its reference, not on its position.
    cases hfound : d.type? declaration.cases[i] with
    | none =>
      refine .unresolved hfound ?_
      simp [Union.resolveCase, hfound, Case.populate]
    | some t =>
      refine .resolved t hfound ?_
      constructor <;> simp [Union.resolveCase, hfound, Case.populate, Case.stem, TypeSymbol.stem]

/-- The functions that build cases, whether the union is valid or not: there is one for the type of
    each case that has a public constructor with parameters, in the order of the cases. -/
theorem UnionDeclaration.forall₂_buildsCase :
    List.Forall₂ (fun t f => ∃ k, t.IsBuiltWith k ∧ BuildsCase declaration.name t k f)
      ((declaration.cases.filterMap d.type?).filter fun t => decide t.IsBuildable)
      ((Family.core.ownFunctions
        (Shape.named (declaration.resolveIn d).populate path)).filter Function.isNew) := by
  rw [filter_isNew_core, List.filter_filterMap]
  refine List.rel_filterMap ?_ (d.leadsTo_named declaration path)
  intro reference c hleads
  -- The reference is kept in the one list exactly if its case is kept in the other one.
  show Option.Rel _ ((d.type? reference).filter _) (newFunction _ c)
  cases hleads with
  | unresolved missing bare =>
    rw [missing, newFunction, bare]
    exact .none
  | resolved t found isCase =>
    rw [found]
    cases hk : t.selectConstructor with
    | none =>
      have hbuildable : ¬ t.IsBuildable := TypeSymbol.selectConstructor_eq_none_iff.mp hk
      rw [newFunction_of_none isCase hk, Option.filter_some, if_neg (by simpa using hbuildable)]
      exact .none
    | some k =>
      have hbuilt : t.IsBuiltWith k := TypeSymbol.selectConstructor_eq_some_iff.mp hk
      obtain ⟨f, hf, hbuilds⟩ := buildsCase_newFunction isCase hk
      rw [hf, Option.filter_some, if_pos (by simpa using hbuilt.isBuildable)]
      exact .some ⟨k, hbuilt, hbuilds⟩

end Schema

/-! ### Valid unions -/

open Schema in
/-- For each valid union of a document the code of the type is emitted. It has a function that
    builds a case exactly for the cases whose type has a public constructor with parameters, in the
    order of the cases; the function is written, and is as `BuildsCase` says of the constructor that
    values of the type are built with. -/
theorem buildsCases {d : Document} {name : String} {declaration : UnionDeclaration}
    (hdeclared : d.union? name = some declaration)
    (hvalid : (declaration.resolveIn d).validate.isFatal = false) (path : String) :
    let s := Shape.named (declaration.resolveIn d).populate path
    ∃ (g : Generated) (types : List TypeSymbol),
      generate d name path = .ok g ∧ Artifact.ofShape s .core ∈ g.artifacts ∧
      declaration.cases.map d.type? = types.map some ∧
      List.Forall₂ (fun t f => ∃ k, t.IsBuiltWith k ∧ BuildsCase name t k f)
        (types.filter fun t => decide t.IsBuildable)
        ((Family.core.ownFunctions s).filter Function.isNew) ∧
      ∀ f ∈ Family.core.ownFunctions s, Family.core.Emits s f := by
  intro s
  have hacceptable := UnionDeclaration.isAcceptableIn_of_not_isFatal hvalid
  -- No case is left out, for all references of a valid union lead to types.
  have hresolved : declaration.cases.map d.type? =
      (declaration.cases.filterMap d.type?).map some := by
    rw [List.map_filterMap_some_eq_filter_map_isSome, eq_comm, List.filter_eq_self,
      List.forall_mem_map]
    exact hacceptable.resolved
  have hbuilds := declaration.forall₂_buildsCase d path
  rw [Document.name_of_union? hdeclared] at hbuilds
  exact ⟨_, _, generate_of_not_isFatal hdeclared hvalid path, List.mem_map_of_mem (.head _),
    hresolved, hbuilds, fun f hf => Family.emits_of_mem_ownFunctions hf⟩

section constructible

open Schema

/-- An explicit constructor behind a private and an implicit one. -/
def runType : TypeSymbol where
  id := 1
  name := "Run"
  kind := .record
  constructors := [{ name := "hidden", visibility := .hidden, parameters := [⟨"pid", "u8"⟩] },
    { implicit := true, parameters := [⟨"pid", "u8"⟩] },
    { name := "with"
      parameters := [⟨"type", "u8"⟩, ⟨"userName", "String"⟩]
      documentation := some "<param name=\"type\">How\n to run</param>" }]

/-- No constructor with parameters. -/
def waitType : TypeSymbol := { id := 2, name := "Wait", kind := .record, constructors := [{}] }

/-- An implicit constructor whose documentation is not closed. -/
def stopType : TypeSymbol where
  id := 3
  name := "Stop"
  kind := .record
  constructors := [{
    implicit := true
    parameters := [⟨"exitCode", "i32"⟩]
    documentation := some "<param name=\"exitCode\">Why" }]

def constructible : Document :=
  (Document.empty "demo").run
    [.addType runType, .addType waitType, .addType stopType,
      .addUnion { scope := "demo", name := "Job", cases := ["Run", "Wait", "Stop"] }]

theorem buildsCases_constructible :
    ∃ declaration, constructible.union? "Job" = some declaration ∧
      (declaration.resolveIn constructible).validate.isFatal = false ∧
      ∃ run stop, (Family.core.ownFunctions (Shape.named
          (declaration.resolveIn constructible).populate defaultRuntimePath)).filter
          Function.isNew = [run, stop] ∧
        run.parameters = [("r#type", "u8"), ("user_name", "String")] ∧
        run.body = some [.value (.wrap "Self::Run" (.call "Run::with" ["r#type", "user_name"]))] ∧
        run.docs.drop 3 = ["* `r#type` - How to run", "* `user_name` - userName (String)"] ∧
        stop.parameters = [("exit_code", "i32")] ∧
        stop.body =
          some [.value (.wrap "Self::Stop" (.record "Stop" [("exitCode", "exit_code")]))] ∧
        stop.docs.drop 3 = ["* `exit_code` - exitCode (i32)"] := by
  have hjob : constructible.union? "Job" =
      some ⟨"demo", "Job", true, ["Run", "Wait", "Stop"]⟩ := rfl
  have hvalid : (UnionDeclaration.resolveIn
      ⟨"demo", "Job", true, ["Run", "Wait", "Stop"]⟩ constructible).validate.isFatal = false := by
    decide
  obtain ⟨-, types, -, -, htypes, hbuilds, -⟩ := buildsCases hjob hvalid defaultRuntimePath
  obtain rfl : [runType, waitType, stopType] = types :=
    List.map_injective_iff.mpr (Option.some_injective _) (Eq.trans rfl htypes)
  have hbuildable : [runType, waitType, stopType].filter (fun t => decide t.IsBuildable) =
      [runType, stopType] := rfl
  rw [hbuildable] at hbuilds
  obtain ⟨run, rest, ⟨k, hk, hrun⟩, hrest, hfunctions⟩ := List.forall₂_cons_left_iff.mp hbuilds
  obtain ⟨stop, none, ⟨l, hl, hstop⟩, hnone, rfl⟩ := List.forall₂_cons_left_iff.mp hrest
  obtain rfl := List.forall₂_nil_left_iff.mp hnone
  -- Each of the two types has only one constructor that it can be built with.
  have hwith : runType.selectConstructor = runType.constructors[2]? := rfl
  have himplicit : stopType.selectConstructor = stopType.constructors[0]? := rfl
  obtain rfl := Option.some.inj ((TypeSymbol.selectConstructor_eq_some_iff.mpr hk).symm.trans hwith)
  obtain rfl :=
    Option.some.inj ((TypeSymbol.selectConstructor_eq_some_iff.mpr hl).symm.trans himplicit)
  obtain ⟨value, text, hcall, hrunBody, -⟩ := hrun.body
  obtain ⟨value', text', hrecord, hstopBody, -⟩ := hstop.body
  cases hcall with
  | record kind => cases kind
  | call =>
    cases hrecord with
    | call kind => cases kind
    | record =>
      refine ⟨_, hjob, hvalid, run, stop, hfunctions, hrun.parameters, hrunBody, ?_,
        hstop.parameters, hstopBody, ?_⟩
      · rw [hrun.drop_docs]
        cbv
      · rw [hstop.drop_docs]
        cbv

end constructible

end TaggedUnion
