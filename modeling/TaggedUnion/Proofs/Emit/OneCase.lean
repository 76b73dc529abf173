import TaggedUnion.Proofs.Emit.Exhaustive
import TaggedUnion.Proofs.Emit.Ordinals
import TaggedUnion.Proofs.Emit.PendingForms
import TaggedUnion.Proofs.Emit.TypeParameters

/-! # Transforms of one case

    A transform of one case applies a handler to the values of that case, and other cases pass
    through. This module says that the signature and the body of such a method mean one case:

    * **`AppliesHandler`**, **`PassesThrough`**: the arm of the case, and that of another one.
    * **`HandlerYields`**: what the handler of a method takes, and what it results in.
    * **`ChangesCase`**: the method changes the case at a position and no other one.
    * **`Shape.Retypes`**: the type of a generic union with another type at a position.
    * **`changesEachCase`**: the maps and the binds of all unions of documents, valid or not, and
      of the generic unions of all arities.

    The new type of a union is made by the position of the case, and the arms are told apart by
    their ordinals. Both mean the same case because ordinals are positions (`Shape.IsNumbered`).
-/

namespace TaggedUnion

open Code Emit

/-! ### Ordinals -/

namespace Shape

/-- The ordinals of the cases are their positions, counted from one. -/
def IsNumbered (s : Shape) : Prop := s.cases.map (·.ordinal) = List.range' 1 s.cases.length

theorem IsNumbered.ordinal_eq {s : Shape} (h : s.IsNumbered) {i : Nat} {c : ShapeCase}
    (hi : s.cases[i]? = some c) : c.ordinal = i + 1 := by
  obtain ⟨hlt, -⟩ := List.getElem?_eq_some_iff.mp hi
  have hget := congrArg (·[i]?) h
  simp only [List.getElem?_map, hi, Option.map_some] at hget
  rw [List.getElem?_eq_getElem (by simpa using hlt), Option.some.injEq] at hget
  rw [hget, List.getElem_range']
  omega

theorem isNumbered_generic (n : Nat) (path : String) : (generic n path).IsNumbered := by
  simp [IsNumbered, generic, genericCase, Function.comp_def]

end Shape

theorem Schema.Union.exists_of_ofDocument {d : Schema.Document} {name : String} {u : Schema.Union}
    (h : ofDocument d name = .ok u) :
    ∃ declaration, d.union? name = some declaration ∧ u = declaration.resolveIn d := by
  cases hdeclared : d.union? name with
  | none =>
    rw [ofDocument, hdeclared] at h
    cases h
  | some declaration =>
    rw [ofDocument_of_union? hdeclared] at h
    exact ⟨declaration, rfl, (Except.ok.inj h).symm⟩

/-- The ordinals of a union of a document are positions, whether its cases are populated or not. -/
theorem Schema.UnionDeclaration.isNumbered_shape (declaration : UnionDeclaration) (d : Document)
    (path : String) : (Shape.named (declaration.resolveIn d) path).IsNumbered ∧
      (Shape.named (declaration.resolveIn d).populate path).IsNumbered := by
  have hpopulated := declaration.map_ordinal_shape d path
  refine ⟨?_, hpopulated⟩
  simpa [Shape.IsNumbered, Shape.named, Union.populate, Function.comp_def] using hpopulated

/-! ### Arms -/

/-- The call of the handler with the held value, as written; it is awaited in the asynchronous
    form. -/
def handlerCall (s : Shape) (isAsync : Bool) : String :=
  "f(" ++ s.binding ++ ")" ++ if isAsync then ".await" else ""

/-- What an arm for a case begins with. -/
def armHead (s : Shape) (c : ShapeCase) : String :=
  "Self::" ++ c.variant ++ "(" ++ s.binding ++ ") => "

/-- An arm is for a case and calls the handler with the value that is held, and nothing else. -/
structure AppliesHandler (t : Transform) (s : Shape) (isAsync : Bool) (c : ShapeCase) (a : Arm) :
    Prop where
  pattern : a.pattern = .held c.variant s.binding
  calls : a.value.calls = [("f", [s.binding])]
  /-- A map puts the result back into the variant of the case. -/
  map_text : t = .map → a.text =
    armHead s c ++ s.name ++ "::" ++ c.variant ++ "(" ++ handlerCall s isAsync ++ "),"
  /-- A bind returns the result. -/
  bind_text : t = .bind → a.text = armHead s c ++ handlerCall s isAsync ++ ","

/-- An arm is for a case, calls nothing, and builds the case again from the value that is held. -/
structure PassesThrough (s : Shape) (c : ShapeCase) (a : Arm) : Prop where
  pattern : a.pattern = .held c.variant s.binding
  calls : a.value.calls = []
  text : a.text = armHead s c ++ s.name ++ "::" ++ c.variant ++ "(" ++ s.binding ++ "),"

section arms

variable {s : Shape} {c target : ShapeCase}

theorem text_awaitedIf_call (isAsync : Bool) :
    (awaitedIf isAsync (.call "f" [s.binding])).text = handlerCall s isAsync := by
  have hone : commaSeparated [s.binding] = s.binding := String.intercalate_singleton
  cases isAsync <;>
    simp [awaitedIf, Expr.text, handlerCall, hone, String.append_assoc]

/-- In the arm of its own case the handler is applied. -/
theorem appliesHandler_caseArm (t : Transform) (isAsync : Bool) (h : c.ordinal = target.ordinal) :
    AppliesHandler t s isAsync c (t.caseArm s isAsync target c) := by
  rw [Transform.caseArm, if_pos h]
  refine ⟨rfl, ?_, ?_, ?_⟩
  · cases t <;> exact calls_awaitedIf isAsync _
  · rintro rfl
    simp only [arm, Arm.text, Pattern.text, Transform.rebuild, Expr.text, text_awaitedIf_call,
      armHead, String.append_assoc]
    rfl
  · rintro rfl
    simp only [arm, Arm.text, Pattern.text, Transform.rebuild, text_awaitedIf_call, armHead,
      String.append_assoc]
    rfl

/-- In the arm of another case it is not. -/
theorem passesThrough_caseArm (t : Transform) (isAsync : Bool) (h : c.ordinal ≠ target.ordinal) :
    PassesThrough s c (t.caseArm s isAsync target c) := by
  rw [Transform.caseArm, if_neg h]
  refine ⟨rfl, rfl, ?_⟩
  simp only [arm, Arm.text, Pattern.text, Expr.text, armHead, String.append_assoc]
  rfl

end arms

/-! ### Methods -/

/-- What the one handler of a method takes and results in, and what makes up the type parameters of
    the method: `own` are those that are not for the handler. -/
inductive HandlerYields (m : Function) (own : List String) (argument result : String) :
    Bool → Prop where
  /-- A plain handler results in a value. -/
  | plain (typeParameters : m.typeParameters.flatten = own)
      (parameters : m.parameters = [("f", "impl FnOnce(" ++ argument ++ ") -> " ++ result)])
      (bounds : m.bounds = none) : HandlerYields m own argument result false
  /-- An asynchronous one gives a future of a type that is bound to have the result for its
      output. -/
  | async (future : String) (typeParameters : m.typeParameters.flatten = own ++ [future])
      (parameters : m.parameters = [("f", "impl FnOnce(" ++ argument ++ ") -> " ++ future)])
      (bounds : m.bounds =
        some [⟨future, "::core::future::Future<Output = " ++ result ++ ">"⟩]) :
      HandlerYields m own argument result true

/-- A method changes the case at a position. There `value` is the new type of the case and `union`
    that of the union, and `own` are the type parameters that these need. -/
structure ChangesCase (t : Transform) (s : Shape) (position : Nat) (c : ShapeCase) (isAsync : Bool)
    (own : List String) (value union : String) (m : Function) : Prop where
  name : m.name = t.stem ++ "_" ++ c.stem ++ if isAsync then "_async" else ""
  isAsync_eq : m.isAsync = isAsync
  result : m.result = some union
  /-- The handler of a map results in the new value of the case. -/
  map_handler : t = .map → HandlerYields m own c.typeName value isAsync
  /-- The handler of a bind results in the whole new union. -/
  bind_handler : t = .bind → HandlerYields m own c.typeName union isAsync
  /-- The type parameters are told apart from one another and from all types of the union. -/
  distinct : m.typeParameters.flatten.Nodup ∧ ∀ name ∈ m.typeParameters.flatten, ¬ s.UsesName name
  /-- There is an arm for each case, in the order of the cases. The one at the position applies the
      handler, and the other ones let their cases pass. -/
  arms : ∃ arms, arms.length = s.cases.length ∧
    (∀ j d, s.cases[j]? = some d → ∃ a, arms[j]? = some a ∧
      (j = position → AppliesHandler t s isAsync d a) ∧
      (j ≠ position → PassesThrough s d a)) ∧
    m.body = some [.dispatch "self" arms] ∧
    m.lines = leadLines m.docs m.attributes ++
      (line ("pub " ++ m.asyncMark ++ m.head) ::
        nest (line "self," :: m.parameters.map fun p => line (p.1 ++ ": " ++ p.2 ++ ",")) ++
        boundedBlock (") -> " ++ union) m.bounds
          (block "match self" (arms.map fun a => line a.text)))

namespace Emit.Transform

variable (t : Transform) (s : Shape) (position : Nat) (target : ShapeCase) (isAsync : Bool)

/-- The type parameters that the new types of a method for one case need. -/
def ownParameters : List String := if s.isGeneric then [s.fresh "U"] else []

/-- The new type of the case in the method for it. -/
def newType : String := if s.isGeneric then s.fresh "U" else target.typeName

theorem flatten_typeParameters_single :
    (t.single s position target isAsync).typeParameters.flatten =
      ownParameters s ++ if isAsync then [s.fresh "Fut"] else [] := by
  have hown : (if s.isGeneric then [newType s target] else []) = ownParameters s := by
    rw [ownParameters, newType]
    split <;> rfl
  rw [← hown]
  exact flatten_oneGroup _

theorem handlerYields_single :
    HandlerYields (t.single s position target isAsync) (ownParameters s) target.typeName
      (t.handlerResult (newType s target) (s.retypedCase position (newType s target))) isAsync := by
  have htype (given : String) : handlerType target.typeName (some given) =
      "impl FnOnce(" ++ target.typeName ++ ") -> " ++ given := by
    show "impl FnOnce(" ++ target.typeName ++ ")" ++ (" -> " ++ given) = _
    rw [← String.append_assoc]
    exact congrArg (· ++ given) String.append_assoc
  cases isAsync with
  | false =>
    refine .plain ?_ (by rw [← htype]; rfl) rfl
    rw [flatten_typeParameters_single]
    exact List.append_nil _
  | true =>
    exact .async (s.fresh "Fut") (t.flatten_typeParameters_single s position target true)
      (by rw [← htype]; rfl) rfl

variable {s position target}

/-- Where ordinals are positions, the method for a case changes that case. -/
theorem changesCase_single (h : s.IsNumbered) (htarget : s.cases[position]? = some target) :
    ChangesCase t s position target isAsync (ownParameters s) (newType s target)
      (s.retypedCase position (newType s target)) (t.single s position target isAsync) where
  name := by cases isAsync <;> simp [single, singleMethod, Method.inherent, formName]
  isAsync_eq := rfl
  result := rfl
  map_handler := by
    rintro rfl
    exact handlerYields_single .map s position target isAsync
  bind_handler := by
    rintro rfl
    exact handlerYields_single .bind s position target isAsync
  distinct := by
    obtain ⟨hlt, rfl⟩ := List.getElem?_eq_some_iff.mp htarget
    have hnew := t.newNames_functions s
      ((t.mem_functions_iff s).mpr (.inr ⟨position, hlt, isAsync, rfl⟩))
    refine ⟨s.nodup_newNames.sublist hnew, ?_⟩
    intro name hname huse
    exact s.notMem_of_mem_newNames (hnew.subset hname) (s.mem_takenNames_iff.mpr huse)
  arms := by
    refine ⟨s.cases.map (t.caseArm s isAsync target), List.length_map _, ?_, rfl, ?_⟩
    · intro j d hd
      refine ⟨t.caseArm s isAsync target d, by simp [hd], ?_, ?_⟩
      · rintro rfl
        rw [htarget] at hd
        exact appliesHandler_caseArm t isAsync (congrArg _ (Option.some.inj hd).symm)
      · -- Another position has another ordinal.
        intro hne
        refine passesThrough_caseArm t isAsync ?_
        rw [h.ordinal_eq hd, h.ordinal_eq htarget]
        omega
    · rw [(t.isConsuming_single s position target isAsync).lines_eq, List.flatMap_singleton]
      rfl

end Emit.Transform

/-! ### Families -/

/-- Behind the two methods with a handler for each case, a family adds two methods for each case:
    they are written, have images in the trait for pending unions, and are as `Form` says of
    the case at a position. -/
def Family.AddsForEachCase (f : Family) (s : Shape) (t : Transform)
    (Form : Nat → ShapeCase → Bool → Function → Prop) : Prop :=
  ∃ (full : List Function) (single : Nat → ShapeCase → Bool → Function),
    f.ownFunctions s =
      full ++ (s.cases.mapIdx fun i c => [single i c false, single i c true]).flatten ∧
    full.map (·.name) = [t.stem, t.stem ++ "_async"] ∧
    ∀ i c, s.cases[i]? = some c → ∀ isAsync,
      f.Emits s (single i c isAsync) ∧
      (∃ pending ∈ f.pendingFunctions s, Mirrors (single i c isAsync) pending) ∧
      Form i c isAsync (single i c isAsync)

theorem addsForEachCase_transform {f : Family} {t : Transform} {s : Shape}
    (hitems : f.items s = t.items s) (htrait : f.traitName? s = some (t.traitName s))
    {Form : Nat → ShapeCase → Bool → Function → Prop}
    (hform : ∀ i c, s.cases[i]? = some c → ∀ isAsync,
      Form i c isAsync (t.single s i c isAsync)) :
    f.AddsForEachCase s t Form := by
  have hown := t.ownFunctions_eq s hitems
  refine ⟨[t.full s false, t.full s true], t.single s, hown.trans (s.transformFunctions_eq t), rfl,
    ?_⟩
  intro i c hi isAsync
  obtain ⟨hlt, rfl⟩ := List.getElem?_eq_some_iff.mp hi
  have hmem : t.single s i s.cases[i] isAsync ∈ f.ownFunctions s := by
    rw [hown]
    exact (t.mem_functions_iff s).mpr (.inr ⟨i, hlt, isAsync, rfl⟩)
  have hmirrors := (s.pendingForms_transform hitems htrait).mirrors
  exact ⟨Family.emits_of_mem_ownFunctions hmem, exists_of_mem_left hmirrors hmem,
    hform i _ hi isAsync⟩

/-! ### Named and generic unions -/

/-- In a named union the case keeps its type, and the union stays the same. -/
def ChangesHeldCase (t : Transform) (s : Shape) (i : Nat) (c : ShapeCase) (isAsync : Bool)
    (m : Function) : Prop :=
  ChangesCase t s i c isAsync [] c.typeName s.name m

/-- The type of a generic union with another type at a position, and all other types as they are. -/
def Shape.Retypes (s : Shape) (position : Nat) (value union : String) : Prop :=
  ∃ types : List String, union = s.name ++ "<" ++ ", ".intercalate types ++ ">" ∧
    types.length = s.cases.length ∧ types[position]? = some value ∧
    ∀ j, j ≠ position → types[j]? = s.caseTypes[j]?

/-- In a generic union the case gets a type that is a parameter of the method. -/
def ChangesCaseType (t : Transform) (s : Shape) (i : Nat) (c : ShapeCase) (isAsync : Bool)
    (m : Function) : Prop :=
  ∃ value union, s.Retypes i value union ∧ ChangesCase t s i c isAsync [value] value union m

/-- The maps and the binds of a shape each have methods of a form for each case. -/
def Shape.TransformsEachCase (s : Shape)
    (Form : Transform → Shape → Nat → ShapeCase → Bool → Function → Prop) : Prop :=
  Family.map.AddsForEachCase s .map (Form .map s) ∧
    Family.bind.AddsForEachCase s .bind (Form .bind s)

namespace Shape

variable {s : Shape}

theorem transformsEachCase_of_single
    {Form : Transform → Shape → Nat → ShapeCase → Bool → Function → Prop}
    (hform : ∀ t i c, s.cases[i]? = some c → ∀ isAsync,
      Form t s i c isAsync (t.single s i c isAsync)) :
    s.TransformsEachCase Form :=
  ⟨addsForEachCase_transform rfl rfl (hform .map), addsForEachCase_transform rfl rfl (hform .bind)⟩

theorem transformsEachCase_of_named (h : s.IsNumbered) (hnamed : s.isGeneric = false) :
    s.TransformsEachCase ChangesHeldCase := by
  refine transformsEachCase_of_single ?_
  intro t i c hi isAsync
  have hchanges := t.changesCase_single isAsync h hi
  simp only [Transform.ownParameters, Transform.newType, retypedCase, retyped, hnamed,
    Bool.false_eq_true, if_false] at hchanges
  exact hchanges

theorem retypes_retypedCase (hgeneric : s.isGeneric = true) {i : Nat} (hi : i < s.cases.length)
    (value : String) : s.Retypes i value (s.retypedCase i value) := by
  refine ⟨s.caseTypes.set i value, ?_, ?_, ?_, ?_⟩
  · rw [retypedCase, retyped, if_pos hgeneric]
  · rw [List.length_set, caseTypes, List.length_map]
  · exact List.getElem?_set_self (by simpa [caseTypes] using hi)
  · intro j hne
    exact List.getElem?_set_ne (Ne.symm hne)

theorem transformsEachCase_of_generic (h : s.IsNumbered) (hgeneric : s.isGeneric = true) :
    s.TransformsEachCase ChangesCaseType := by
  refine transformsEachCase_of_single ?_
  intro t i c hi isAsync
  have hchanges := t.changesCase_single isAsync h hi
  simp only [Transform.ownParameters, Transform.newType, hgeneric, if_true] at hchanges
  obtain ⟨hlt, -⟩ := List.getElem?_eq_some_iff.mp hi
  exact ⟨_, _, retypes_retypedCase hgeneric hlt _, hchanges⟩

end Shape

/-! ### All unions -/

/-- Each map and each bind of one case, in both of its forms, applies its handler in the arm of that
    case and in no other one, and passes the other cases through. The handler takes a value of the
    case, and results in its new value or in the new union. For a union of a document, whatever the
    validation finds in it, the types stay as they are; for the generic union of an arity the type
    of that case, and no other one, becomes a new type parameter. -/
theorem changesEachCase :
    (∀ (d : Schema.Document) (name : String) (u : Schema.Union),
      Schema.Union.ofDocument d name = .ok u → ∀ path : String,
        u.name = name ∧ (Shape.named u path).TransformsEachCase ChangesHeldCase ∧
        (Shape.named u.populate path).TransformsEachCase ChangesHeldCase) ∧
    ∀ (n : Nat) (path : String),
      (Shape.generic n path).name = "Union" ++ toString n ∧
      (Shape.generic n path).caseTypes = ((List.range' 1 n).map fun i => "T" ++ toString i) ∧
      (Shape.generic n path).TransformsEachCase ChangesCaseType := by
  refine ⟨?_, ?_⟩
  · intro d name u hu path
    obtain ⟨declaration, hdeclared, rfl⟩ := Schema.Union.exists_of_ofDocument hu
    obtain ⟨hnumbered, hpopulated⟩ := declaration.isNumbered_shape d path
    exact ⟨Schema.Document.name_of_union? hdeclared,
      Shape.transformsEachCase_of_named hnumbered rfl,
      Shape.transformsEachCase_of_named hpopulated rfl⟩
  · intro n path
    refine ⟨rfl, ?_, Shape.transformsEachCase_of_generic (Shape.isNumbered_generic n path) rfl⟩
    simp [Shape.caseTypes, Shape.generic, Shape.genericCase, Function.comp_def]

/-- A document with a union that names one type twice, and another one that is not there. -/
def repeating : Schema.Document :=
  (Schema.Document.empty "demo").run
    [.addType { name := "Done", kind := .record },
      .addUnion { scope := "demo", name := "Job", cases := ["Done", "Gone", "Done"] }]

/-- Of two cases of one type, the map of the second one leaves the first one alone. -/
theorem changesEachCase_repeating :
    ∃ u, Schema.Union.ofDocument repeating "Job" = .ok u ∧ u.validate.isFatal = true ∧
      ∃ m ∈ Family.map.ownFunctions (Shape.named u defaultRuntimePath),
        m.name = "map_done_async" ∧ m.result = some "Job" ∧
        ∃ arms, m.body = some [.dispatch "self" arms] ∧ arms.map (·.text) =
          ["Self::Done(value) => Job::Done(value),", "Self::Gone(value) => Job::Gone(value),",
            "Self::Done(value) => Job::Done(f(value).await),"] := by
  have hjob : repeating.union? "Job" = some ⟨"demo", "Job", true, ["Done", "Gone", "Done"]⟩ := rfl
  have hu := Schema.Union.ofDocument_of_union? hjob
  obtain ⟨-, ⟨⟨full, single, hown, -, hsingle⟩, -⟩, -⟩ :=
    changesEachCase.1 _ _ _ hu defaultRuntimePath
  obtain ⟨-, -, hchanges⟩ := hsingle 2 _ rfl true
  obtain ⟨arms, hlength, harms, hbody, -⟩ := hchanges.arms
  obtain ⟨a₀, h₀, -, hpass₀⟩ := harms 0 _ rfl
  obtain ⟨a₁, h₁, -, hpass₁⟩ := harms 1 _ rfl
  obtain ⟨a₂, h₂, happly, -⟩ := harms 2 _ rfl
  obtain ⟨x, y, z, rfl⟩ := List.length_eq_three.mp hlength
  obtain ⟨rfl⟩ : x = a₀ := Option.some.inj h₀
  obtain ⟨rfl⟩ : y = a₁ := Option.some.inj h₁
  obtain ⟨rfl⟩ : z = a₂ := Option.some.inj h₂
  refine ⟨_, hu, by decide, single 2 _ true, ?_, hchanges.name, hchanges.result, _, hbody, ?_⟩
  · rw [hown]
    exact List.mem_append_right _ (List.mem_flatten.mpr
      ⟨_, List.mem_mapIdx.mpr ⟨2, by decide, rfl⟩, .tail _ (.head _)⟩)
  · simp only [List.map_cons, List.map_nil, (hpass₀ (by decide)).text, (hpass₁ (by decide)).text,
      (happly rfl).map_text rfl]
    rfl

end TaggedUnion
