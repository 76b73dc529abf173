import Mathlib
import TaggedUnion.Proofs.Emit.Bracketing
import TaggedUnion.Proofs.Emit.Mirrors
import TaggedUnion.Proofs.Emit.ParameterEntries

/-! # Neat shapes

    The texts of emitted code are made from those of a shape. This module says which of them are
    neat because the texts of the shape are:

    * **`Name.filter_snakeFrom`**, **`Shape.isNeat_fresh`**: names that are made from names have
      their brackets.
    * **`Shape.IsNeat`**: the texts of a shape are neat; what is said about parameters stands on
      one line each.
    * **`isNeat_handlerType`**, **`isNeat_futureBounds`** and others: the parts that the emitters
      have in common.
    * **`isNeat_withPending`**: a family with a trait for pending unions is neat if its functions
      are.
-/

namespace TaggedUnion

open Code Emit Schema Text

/-! ### Names made from names -/

/-- A letter does not become a bracket in small form. -/
theorem toLower_mem_brackets_iff {c : Char} : c.toLower ∈ brackets ↔ c ∈ brackets := by
  constructor
  · intro h
    rwa [← (toLower_eq_iff (of_mem_brackets h).1).mp rfl] at h
  · intro h
    rwa [(of_mem_brackets h).2.2]

/-- Snake case keeps the brackets of a name. -/
theorem Name.filter_snakeFrom (afterSmall : Bool) (cs : List Char) :
    (snakeFrom afterSmall cs).filter (· ∈ brackets) = cs.filter (· ∈ brackets) := by
  induction cs generalizing afterSmall with
  | nil => rfl
  | cons c cs ih =>
    have hlower (rest : Bool) : (c.toLower :: snakeFrom rest cs).filter (· ∈ brackets) =
        (c :: cs).filter (· ∈ brackets) := by
      by_cases hc : c ∈ brackets
      · rw [(of_mem_brackets hc).2.2]
        simp [hc, ih rest]
      · simp [hc, toLower_mem_brackets_iff, ih rest]
    have hmark : '_' ∉ brackets := by decide
    rw [snakeFrom]
    split
    · split
      · rw [List.filter_cons_of_neg (by simpa using hmark), hlower]
      · exact hlower false
    · rw [List.filter_cons, List.filter_cons, ih]

theorem isNeat_snake {name : String} (h : IsNeat name) : IsNeat (Name.snake name) := by
  refine h.of_filter_eq ?_ ?_
  · rw [Name.snake, String.toList_ofList, Name.filter_snakeFrom]
  · rw [Name.snake, String.toList_ofList, Name.mem_snakeFrom_iff (by decide) (by decide)]
    exact h.oneLine

theorem isNeat_identifier {name : String} (h : IsNeat name) : IsNeat (Name.identifier name) := by
  rw [Name.identifier]
  split
  · exact h.before (by decide)
  · split
    · exact h.behind (by decide)
    · exact h

theorem Shape.isNeat_underscored {base : String} (h : IsNeat base) (count : Nat) :
    IsNeat (underscored base count) := by
  refine h.append (isNeat_of_not_mem ?_ ?_)
  · intro c hc
    rw [String.toList_ofList] at hc
    rw [(List.mem_replicate.mp hc).2]
    decide
  · rw [String.toList_ofList]
    intro hc
    cases (List.mem_replicate.mp hc).2

/-- A fresh name is its base with underscores behind it. -/
theorem Shape.isNeat_fresh (s : Shape) {base : String} (h : IsNeat base) :
    IsNeat (s.fresh base) := by
  have hfresh : s.fresh base = (((List.range (s.takenNames.length + 1)).map
      (underscored base)).find? (· ∉ s.takenNames)).getD base := rfl
  rw [hfresh]
  cases hfind : ((List.range (s.takenNames.length + 1)).map (underscored base)).find?
      (· ∉ s.takenNames) with
  | none => exact h
  | some name =>
    obtain ⟨count, -, rfl⟩ := List.mem_map.mp (List.mem_of_find?_eq_some hfind)
    exact isNeat_underscored h count

theorem Shape.isNeat_freshNumbered (s : Shape) {base : String} (h : IsNeat base) :
    ∀ name ∈ s.freshNumbered base, IsNeat name := by
  refine List.forall_mem_map.mpr ?_
  intro i _
  exact s.isNeat_fresh (h.append (isNeat_toString i))

/-! ### Neat shapes -/

/-- The texts of a parameter are neat, and what is said about it stands on one line. -/
structure Schema.CaseParameter.IsNeat (p : CaseParameter) : Prop where
  name : Text.IsNeat p.name
  typeName : Text.IsNeat p.typeName
  description : ∀ d ∈ p.description, '\n' ∉ d.toList

/-- The texts of a case are neat. -/
structure ShapeCase.IsNeat (c : ShapeCase) : Prop where
  variant : Text.IsNeat c.variant
  typeName : Text.IsNeat c.typeName
  stem : Text.IsNeat c.stem
  constructor : ∀ k ∈ c.constructor, Text.IsNeat k.name
  parameters : ∀ p ∈ c.parameters, p.IsNeat
  importPath : ∀ path ∈ c.importPath, Text.IsNeat path

/-- The texts of a shape are neat: their brackets are closed in them, and each stands on one
    line. -/
structure Shape.IsNeat (s : Shape) : Prop where
  name : Text.IsNeat s.name
  runtimePath : Text.IsNeat s.runtimePath
  binding : Text.IsNeat s.binding
  cases : ∀ c ∈ s.cases, c.IsNeat

namespace Shape.IsNeat

variable {s : Shape} (h : s.IsNeat)

include h

theorem caseTypes : ∀ name ∈ s.caseTypes, Text.IsNeat name :=
  List.forall_mem_map.mpr fun c hc => (h.cases c hc).typeName

theorem typeParameters : TypeParameters.AreNeat s.typeParameters := by
  intro group hgroup
  unfold Shape.typeParameters at hgroup
  split at hgroup
  · rw [List.mem_singleton.mp hgroup]
    exact h.caseTypes
  · cases hgroup

theorem retyped {types : List String} (htypes : ∀ t ∈ types, Text.IsNeat t) :
    Text.IsNeat (s.retyped types) := by
  unfold Shape.retyped
  split
  · exact ((h.name.before (by decide)).append (isNeat_commaSeparated htypes)).before (by decide)
  · exact h.name

theorem generics : Text.IsNeat s.generics := by
  have hlist : Text.IsNeat s.typeParameterList := by
    refine isNeat_commaSeparated ?_
    intro name hname
    obtain ⟨group, hgroup, hname⟩ := List.mem_flatten.mp hname
    exact h.typeParameters group hgroup name hname
  unfold Shape.generics
  split
  · exact hlist.within (by decide)
  · exact readsTo_literal (by decide)

theorem selfType : Text.IsNeat s.selfType := h.name.append h.generics

omit h in
theorem handlerAttributes : ∀ x ∈ s.handlerAttributes, Text.IsNeat x := by
  unfold Shape.handlerAttributes
  split
  · exact isNeat_of_mem_literal (by decide)
  · rintro _ ⟨⟩

end Shape.IsNeat

/-! ### Parts that the emitters have in common -/

theorem oneLine_of_isNeat {docs : List String} (h : ∀ doc ∈ docs, IsNeat doc) :
    ∀ doc ∈ docs, '\n' ∉ doc.toList :=
  fun doc hdoc => (h doc hdoc).oneLine

/-- A title with an empty line behind it. -/
theorem isNeat_title {title : String} (h : IsNeat title) : ∀ doc ∈ [title, ""], IsNeat doc :=
  List.forall_mem_cons.mpr ⟨h, isNeat_of_mem_literal (by decide)⟩

/-- A title with a section of one line behind an empty line. -/
theorem isNeat_section {title : String} {heading last : List Char} (htitle : IsNeat title)
    (hheading : CharsReadTo heading [] []) (hlast : CharsReadTo last [] []) :
    ∀ doc ∈ [title, "", String.ofList heading, String.ofList last], IsNeat doc :=
  List.forall_mem_append.mpr ⟨isNeat_title htitle, List.forall_mem_cons.mpr
    ⟨readsTo_literal hheading, isNeat_of_mem_literal hlast⟩⟩

theorem isNeat_of_mem_mustUse : ∀ x ∈ [mustUse], IsNeat x :=
  isNeat_of_mem_literal (by decide)

/-- A future is marked by its type, so that asynchronous methods have no mark of their own. -/
theorem isNeat_of_mem_mustUseUnless (isAsync : Bool) :
    ∀ x ∈ (if isAsync then [] else [mustUse]), IsNeat x := by
  cases isAsync with
  | true => rintro _ ⟨⟩
  | false => exact isNeat_of_mem_mustUse

/-- Texts that are only there in one form, or only for a generic union. -/
theorem isNeat_of_mem_optional {p : Prop} [Decidable p] {texts : List String}
    (h : ∀ x ∈ texts, IsNeat x) : ∀ x ∈ (if p then texts else []), IsNeat x := by
  split
  · exact h
  · rintro _ ⟨⟩

theorem isNeat_body {statement : Statement} (h : statement.IsNeat) :
    ∀ body ∈ some [statement], ∀ s ∈ body, s.IsNeat := by
  rintro _ ⟨⟩ s hs
  rw [List.mem_singleton.mp hs]
  exact h

theorem isNeat_dispatch {s : Shape} {scrutinee : String} (hscrutinee : IsNeat scrutinee)
    {arm : ShapeCase → Arm} (harms : ∀ c ∈ s.cases, (arm c).IsNeat) :
    (Statement.dispatch scrutinee (s.cases.map arm)).IsNeat :=
  ⟨hscrutinee, List.forall_mem_map.mpr harms⟩

theorem isNeat_awaitedIf {isAsync : Bool} {e : Expr} (h : e.IsNeat) :
    (awaitedIf isAsync e).IsNeat := by
  cases isAsync <;> exact h

theorem isNeat_futureOf {output : String} (h : IsNeat output) : IsNeat (futureOf output) :=
  h.within (by decide)

/-- An asynchronous method asks its futures for what the handlers result in. -/
theorem isNeat_futureBounds (isAsync : Bool) {futures outputs : List String}
    (hfutures : ∀ f ∈ futures, IsNeat f) (houtputs : ∀ o ∈ outputs, IsNeat o) :
    ∀ bs ∈ (if isAsync then some (futureBounds futures outputs) else none),
      ∀ bound ∈ bs, bound.IsNeat := by
  cases isAsync with
  | false => rintro _ ⟨⟩
  | true =>
    rintro _ ⟨⟩ bound hbound
    obtain ⟨⟨f, o⟩, hzip, rfl⟩ := List.mem_map.mp hbound
    obtain ⟨hf, ho⟩ := List.of_mem_zip hzip
    exact ⟨hfutures f hf, isNeat_futureOf (houtputs o ho)⟩

theorem isNeat_handlerType {argument : String} {result : Option String}
    (hargument : IsNeat argument) (hresult : ∀ r ∈ result, IsNeat r) :
    IsNeat (handlerType argument result) := by
  have htake : IsNeat ("impl FnOnce(" ++ argument ++ ")") :=
    hargument.within (by decide)
  unfold handlerType
  cases result with
  | none => exact htake.before (by decide)
  | some r => exact htake.append ((hresult r rfl).behind (by decide))

theorem ShapeCase.IsNeat.handlerName {c : ShapeCase} (hc : c.IsNeat) :
    Text.IsNeat (Emit.handlerName c) :=
  hc.stem.behind (by decide)

namespace Shape.IsNeat

variable {s : Shape} (h : s.IsNeat)

include h

theorem arm {c : ShapeCase} (hc : c.IsNeat) {value : Expr} (hvalue : value.IsNeat) :
    (Emit.arm s c value).IsNeat :=
  ⟨⟨hc.variant, h.binding⟩, hvalue⟩

/-- The call of a handler with the held value. -/
theorem handlerCall {c : ShapeCase} (hc : c.IsNeat) :
    (Expr.call (Emit.handlerName c) [s.binding]).IsNeat :=
  ⟨hc.handlerName, List.forall_mem_singleton.mpr h.binding⟩

theorem handlers {results : List (Option String)}
    (hresults : ∀ result ∈ results, ∀ r ∈ result, Text.IsNeat r) :
    ∀ p ∈ Emit.handlers s results, Text.IsNeat p.1 ∧ Text.IsNeat p.2 := by
  intro p hp
  obtain ⟨⟨c, r⟩, hzip, rfl⟩ := List.mem_map.mp hp
  obtain ⟨hmem, hr⟩ := List.of_mem_zip hzip
  have hc := h.cases c hmem
  exact ⟨hc.handlerName, isNeat_handlerType hc.typeName (hresults r hr)⟩

theorem handlerDocs : ∀ doc ∈ Emit.handlerDocs s, Text.IsNeat doc := by
  refine List.forall_mem_cons.mpr ⟨readsTo_literal (by decide), List.forall_mem_map.mpr ?_⟩
  intro c hmem
  have hc := h.cases c hmem
  have hentry : Text.IsNeat ("* `" ++ Emit.handlerName c ++ "` - Called with the `") :=
    (hc.handlerName).within (by decide)
  exact (hentry.append hc.typeName).before (by decide)

end Shape.IsNeat

/-! ### Pending unions -/

/-- The image of a method brings only its documentation and its attributes along. -/
theorem isNeat_of_forwards {own pending : Function} (h : Forwards own pending) (hown : own.IsNeat)
    (hdocs : ∀ doc ∈ pending.docs, '\n' ∉ doc.toList)
    (hattributes : ∀ x ∈ pending.attributes, IsNeat x) : pending.IsNeat where
  docs := hdocs
  attributes := hattributes
  name := h.name ▸ hown.name
  typeParameters := h.typeParameters ▸ hown.typeParameters
  receiver := by
    rw [h.receivers.2]
    exact forall_mem_some (readsTo_literal (by decide))
  parameters := h.parameters ▸ hown.parameters
  result := by
    have hresult : IsNeat own.resultType := by
      rw [Function.resultType]
      cases hr : own.result with
      | none => exact (readsTo_literal (by decide) : IsNeat "()")
      | some r => exact hown.result r hr
    rw [h.result]
    exact forall_mem_some ((isNeat_futureOf hresult).behind (by decide))
  bounds := h.bounds ▸ hown.bounds
  body := by
    have hself : (Expr.await (.name "self")).IsNeat := (readsTo_literal (by decide) : IsNeat "self")
    rw [h.body]
    refine isNeat_body (isNeat_awaitedIf ⟨hself, hown.name, List.forall_mem_map.mpr ?_⟩)
    exact fun p hp => (hown.parameters p hp).1

theorem isNeat_withPending {s : Shape} (h : s.IsNeat) {name title : String} (hname : IsNeat name)
    (htitle : IsNeat title) {functions pending : List Function}
    (hmirrors : List.Forall₂ Mirrors functions pending) (hfunctions : ∀ f ∈ functions, f.IsNeat)
    (hlead : ∀ f ∈ pending, (∀ doc ∈ f.docs, '\n' ∉ doc.toList) ∧ ∀ x ∈ f.attributes, IsNeat x) :
    ∀ item ∈ withPending s name title functions pending, item.IsNeat := by
  have hpending : IsNeat (s.fresh "Pending") := s.isNeat_fresh (readsTo_literal (by decide))
  have hfuture : IsNeat (futureOf s.selfType) := isNeat_futureOf h.selfType
  have hown : Implementation.IsNeat
      ⟨s.typeParameters, none, s.selfType, none, [], functions, false⟩ :=
    { Implementation.isNeat_bare with
      typeParameters := h.typeParameters
      target := h.selfType
      functions := hfunctions }
  have htrait : (pendingTrait s name title pending).IsNeat :=
    { docs := by
        refine oneLine_of_isNeat ?_
        have hresolving : IsNeat ("Implemented for every future resolving to `" ++ s.name ++
            "`; each method awaits the") :=
          h.name.within (by decide)
        simp only [pendingTrait, List.forall_mem_cons, List.not_mem_nil, false_implies,
          implies_true, and_true]
        exact ⟨htitle, readsTo_literal (by decide), hresolving, readsTo_literal (by decide)⟩
      name := hname
      typeParameters := h.typeParameters
      supertraits := by
        rintro _ ⟨⟩
        exact hfuture.before (by decide)
      functions := by
        intro f hf
        obtain ⟨own, hown, hf'⟩ := exists_of_mem_right hmirrors hf
        have hdocs := hlead f hf
        exact isNeat_of_forwards hf'.toForwards (hfunctions own hown) hdocs.1 hdocs.2 }
  have hall : (pendingImplementation s name).IsNeat :=
    { Implementation.isNeat_bare with
      typeParameters := List.forall_mem_cons.mpr
        ⟨List.forall_mem_singleton.mpr hpending, h.typeParameters⟩
      trait := by
        rintro _ ⟨⟩
        exact hname.append h.generics
      target := hpending
      bounds := by
        rintro _ ⟨⟩
        exact List.forall_mem_singleton.mpr ⟨hpending, hfuture⟩ }
  simp only [withPending, List.forall_mem_cons, List.not_mem_nil, false_implies, implies_true,
    and_true]
  exact ⟨hown, htrait, hall⟩

end TaggedUnion
