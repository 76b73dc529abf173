import TaggedUnion.Proofs.Emit.Apart

/-! # What accessors answer

    The functions of the union type itself have no handlers. They build a union or look into one,
    and give an answer at once:

    * **`Answer`**: a value, a truth, an optional value, or a value that may be refused.
    * **`Library`**: what the case types bring along to build their values with.
    * **`Scope.machine`**: the machine, which has no effects.
    * **`Shape.ask`**, **`Shape.askTrait`**: a function of the union, or of a trait that it
      implements, called by its name.
    * The answers to all calls, for shapes whose cases are apart: **`IsApart.ask_tag`**,
      **`IsApart.ask_is`**, **`IsApart.ask_from`**, …
-/

namespace TaggedUnion

open Code Emit

variable {ι : Type} {τ : ι → Type}

/-! ### Answers -/

namespace Code

/-- What a call without effects gives. A reference is the value that it refers to. -/
inductive Answer (τ : ι → Type) where
  | value (v : Value τ)
  /-- A value of the type `bool`. -/
  | truth (b : Bool)
  /-- A value of a type `Option<_>`. -/
  | option (o : Option (Value τ))
  /-- A value of a type `Result<_, _>`. -/
  | result (r : Except (Value τ) (Value τ))

/-- What values are built with that are no unions: functions by their paths, and types by the
    fields of a value. -/
structure Library (τ : ι → Type) where
  call : String → List (Value τ) → Option (Value τ)
  record : String → List (String × Value τ) → Option (Value τ)

/-- What a piece of code finds around it: the type of the union, functions by their paths, and
    types by the fields of a value. -/
structure Scope (τ : ι → Type) where
  enum : Enum
  call : String → List (Value τ) → Option (Answer τ)
  record : String → List (String × Value τ) → Option (Value τ)

/-- The variant that a pattern asks for, whatever it holds. -/
def Enum.matched? (e : Enum) (pattern : String) : Option String :=
  (e.variants.map (·.name)).find? fun v => pattern = (Pattern.held v "_").text

namespace Scope

variable (c : Scope τ)

/-- A call of a variant that is in scope everywhere, or of a function. -/
def apply (f : String) (vs : List (Value τ)) : Option (Answer τ) :=
  match f, vs with
  | "Some", [v] => some (.option (some v))
  | "Ok", [v] => some (.result (.ok v))
  | "Err", [v] => some (.result (.error v))
  | f, vs => c.call f vs

/-- The test whether a union is of a pattern. -/
def matching (names : Names (Value τ)) : List String → Option (Answer τ)
  | [x, pattern] =>
    match names.lookup x, c.enum.matched? pattern with
    | some (.union v _), some w => some (.truth (v == w))
    | _, _ => none
  | _ => none

end Scope

/-! ### The machine -/

/-- A value that is put into a variant of the union. -/
def Answer.into (variant : String) : Answer τ → Option (Answer τ)
  | .value (.plain a) => some (.value (.union variant a))
  | _ => none

/-- The machine that answers, where names stand for values. -/
def Scope.machine (c : Scope τ) : Machine Option τ (Value τ) (Answer τ) where
  stuck := none
  value? := some
  ofValue v := v
  name names x :=
    if isLiteral x then some (.value (.literal x))
    else if x = "None" then some (.option none)
    else (names.lookup x).map .value
  call names f xs :=
    if f = "matches!" then c.matching names xs
    else (xs.mapM fun x => names.lookup x).bind (c.apply f)
  wrap f answer := (c.enum.variant? f).bind fun variant => answer.into variant
  record names type fields :=
    ((fields.mapM fun p => (names.lookup p.2).map (Prod.mk p.1)).bind (c.record type)).map .value

theorem Scope.valueOf?_self (c : Scope τ) (v : Value τ) :
    c.machine.valueOf? [("self", v)] "self" = some v := rfl

/-! ### Arguments -/

/-- Fields that are set from names have the values that the names stand for. -/
theorem mapM_fields {α : Type} {names : Names (Value τ)} {xs : List α}
    {argument : α → String} {vs : List (Value τ)}
    (h : List.Forall₂ (fun x v => names.lookup x = some v) (xs.map argument) vs)
    (field : α → String) :
    ((xs.map fun x => (field x, argument x)).mapM fun p =>
      (names.lookup p.2).map (Prod.mk p.1)) = some ((xs.map field).zip vs) := by
  rw [List.forall₂_map_left_iff] at h
  induction h with
  | nil => rfl
  | cons hx _ ih => simp [List.mapM_cons, hx, ih]

/-- A call of a function with a path, which none of the names in scope everywhere has. -/
theorem Scope.run_call {f : String} (hf : ':' ∈ f.toList) (c : Scope τ)
    {names : Names (Value τ)} {xs : List String} {vs : List (Value τ)}
    (hxs : (xs.mapM fun x => names.lookup x) = some vs) :
    (Expr.call f xs).run c.machine names = c.call f vs := by
  have hmatches : f ≠ "matches!" := by
    rintro rfl
    exact absurd hf (by decide)
  have happly : c.apply f vs = c.call f vs := by
    rw [apply.eq_def]
    split
    · exact absurd hf (by decide)
    · exact absurd hf (by decide)
    · exact absurd hf (by decide)
    · rfl
  rw [Expr.run_call, machine]
  simp only [hmatches, if_false, hxs, Option.bind_some, happly]

end Code

/-! ### Calls by name -/

namespace Shape

variable (s : Shape) (lib : Library τ)

/-- What the functions of the union itself find around them. They do not call each other. -/
def ownScope : Scope τ where
  enum := enumOf s
  call f vs := (lib.call f vs).map .value
  record := lib.record

/-- The answer of a function of the union itself. -/
def ask (name : String) (vs : List (Value τ)) : Option (Answer τ) :=
  ((Family.core.ownFunctions s).find? (·.name = name)).bind (·.run (s.ownScope lib).machine vs)

/-- What the functions of a trait find around them: those of the union itself too. -/
def traitScope : Scope τ where
  enum := enumOf s
  call f vs :=
    match (Family.core.ownFunctions s).find? (fun own => f = "Self::" ++ own.name) with
    | some own => own.run (s.ownScope lib).machine vs
    | none => (lib.call f vs).map .value
  record := lib.record

/-- The answer of a function of a trait that the union implements. -/
def askTrait (trait name : String) (vs : List (Value τ)) : Option (Answer τ) :=
  (((core s).flatMap Item.implementations).find? (·.trait = some trait)).bind fun i =>
    (i.functions.find? (·.name = name)).bind (·.run (s.traitScope lib).machine vs)

/-- The trait that all unions implement. -/
def unionTrait : String := s.runtimePath ++ "::Union"

/-- The default of that trait for a question about a tag: the tag of the union is the one. -/
def holds (v : Value τ) (tag : Nat) : Option Bool :=
  match s.askTrait lib s.unionTrait "tag" [v] with
  | some (.value (.literal text)) => some (text == toString tag)
  | _ => none

/-- The trait of a conversion into the union. -/
def conversionTrait (type : String) : String := "From<" ++ type ++ ">"

/-- A value of a case type that its constructor builds from arguments. -/
def built (c : ShapeCase) (k : Schema.ConstructorRef) (vs : List (Value τ)) : Option (Value τ) :=
  if k.implicit then lib.record c.typeName ((c.parameters.map (·.fieldName)).zip vs)
  else lib.call (c.typeName ++ "::" ++ k.name) vs

/-! ### The functions of the union -/

theorem mem_ownFunctions_core {f : Function} :
    f ∈ Family.core.ownFunctions s ↔
      (∃ c ∈ s.cases, f = fromFunction s c ∨ f ∈ newFunction s c) ∨
        f = tagFunction s ∨ f = caseNameFunction s ∨
          ∃ c ∈ s.cases, f = isFunction c ∨ f = tryGetFunction s c ∨ f = tryIntoFunction s c := by
  rw [Family.ownFunctions, Family.items, s.ownFunctions_core]
  simp [coreFunctions]

theorem tagFunction_mem : tagFunction s ∈ Family.core.ownFunctions s :=
  s.mem_ownFunctions_core.mpr (.inr (.inl rfl))

theorem caseNameFunction_mem : caseNameFunction s ∈ Family.core.ownFunctions s :=
  s.mem_ownFunctions_core.mpr (.inr (.inr (.inl rfl)))

/-- The function that takes the parameters of a constructor. -/
theorem newFunction_of_constructor {c : ShapeCase} {r : Schema.ConstructorRef}
    (hr : c.constructor = some r) (hne : c.parameters ≠ []) :
    ∃ f, newFunction s c = some f ∧ f.name = "new_" ++ c.stem ∧ f.isAsync = false ∧
      f.argumentNames = c.parameters.map (·.argumentName) ∧
      f.body = some [.value (variantOf c (construction c r))] := by
  simp [newFunction, hr, hne, Function.argumentNames]

/-- Where no two arguments have one name, each one reaches its place. -/
theorem run_construction {c : ShapeCase} (r : Schema.ConstructorRef)
    (hnodup : (c.parameters.map (·.argumentName)).Nodup) {vs : List (Value τ)}
    (hvs : c.parameters.length = vs.length) :
    (construction c r).run (s.ownScope lib).machine
        ((c.parameters.map (·.argumentName)).zip vs) = (built lib c r vs).map .value := by
  have hpassed := forall₂_lookup_zip (by simpa using hvs) hnodup
  rw [construction, built]
  cases r.implicit with
  | true =>
    rw [if_pos rfl, if_pos rfl, Expr.run_record, Scope.machine]
    simp only [mapM_fields hpassed]
    rfl
  | false =>
    rw [if_neg (by decide), if_neg (by decide),
      Scope.run_call (by simp) _ (mapM_eq_some_of_forall₂ hpassed)]
    rfl

namespace IsApart

variable {s lib} {n : Nat} {ts : Fin n → ι} (h : s.IsApart n)
include h

/-- A function of the union answers what its body comes to. -/
theorem ask_eq {f : Function} (hf : f ∈ Family.core.ownFunctions s) {body : List Statement}
    (hbody : f.body = some body) (hasync : f.isAsync = false) {vs : List (Value τ)}
    (hvs : f.argumentNames.length = vs.length) :
    s.ask lib f.name vs = runBody (s.ownScope lib).machine (f.argumentNames.zip vs) body := by
  rw [ask, h.find?_ownFunctions hf]
  exact Function.run_plain _ hbody hvs hasync

/-- The function that tells the tag, or the name, of the held case. -/
theorem ask_told {f : Function} (hf : f ∈ Family.core.ownFunctions s) {text : ShapeCase → String}
    (hbody : f.body = some [matchSelf (s.cases.map fun c =>
      ⟨.held c.variant "_", .name (text c)⟩)])
    (hasync : f.isAsync = false) (hnames : f.argumentNames = ["self"])
    (u : OneOf fun k => τ (ts k)) (htext : isLiteral (text (s.caseAt u.index)) = true) :
    s.ask lib f.name [s.encode ts u] = some (.value (.literal (text (s.caseAt u.index)))) := by
  rw [h.ask_eq hf hbody hasync (by simp [hnames]), hnames]
  refine (h.dispatch_eq ((s.ownScope lib).valueOf?_self (s.encode ts u)) "_" _).trans ?_
  exact if_pos htext

theorem ask_tag (u : OneOf fun k => τ (ts k)) :
    s.ask lib "tag" [s.encode ts u] = some (.value (.literal (toString u.tag))) := by
  refine (h.ask_told s.tagFunction_mem rfl rfl rfl u (isLiteral_toString _)).trans ?_
  rw [h.ordinal]
  rfl

theorem ask_caseName (u : OneOf fun k => τ (ts k)) :
    s.ask lib "case_name" [s.encode ts u] =
      some (.value (.literal (literal (s.caseAt u.index).variant))) := by
  refine h.ask_told s.caseNameFunction_mem rfl rfl rfl u ?_
  simp [isLiteral]

/-! ### One case -/

theorem matched?_caseAt (k : Fin n) :
    (enumOf s).matched? ("Self::" ++ (s.caseAt k).variant ++ "(_)") =
      some (s.caseAt k).variant := by
  refine find?_eq_some_of_unique ?_ (by simp [Pattern.text, String.append_assoc]) ?_
  · simpa [enumOf] using ⟨_, h.caseAt_mem k, rfl⟩
  · intro v _ hv
    have htext : "Self::" ++ ((s.caseAt k).variant ++ "(_)") = "Self::" ++ (v ++ "(_)") := by
      simpa [Pattern.text, String.append_assoc] using hv
    have hbehind := (String.append_right_inj _).mp htext
    exact ((String.append_left_inj _).mp hbehind).symm

/-- Another variant than that of a case is held exactly if another case is. -/
theorem variant_beq (u : OneOf fun k => τ (ts k)) (k : Fin n) :
    ((s.caseAt u.index).variant == (s.caseAt k).variant) = u.isCase k := by
  rw [Bool.eq_iff_iff, beq_iff_eq, OneOf.isCase_iff]
  exact h.variant_injective.eq_iff

theorem ask_is (k : Fin n) (u : OneOf fun k => τ (ts k)) :
    s.ask lib ("is_" ++ (s.caseAt k).stem) [s.encode ts u] = some (.truth (u.isCase k)) := by
  have hf : isFunction (s.caseAt k) ∈ Family.core.ownFunctions s :=
    s.mem_ownFunctions_core.mpr (.inr (.inr (.inr ⟨_, h.caseAt_mem k, .inl rfl⟩)))
  refine (h.ask_eq hf rfl rfl rfl).trans ?_
  -- The pattern is a text in the arguments of the macro.
  show (s.ownScope lib).matching [("self", s.encode ts u)]
    ["self", "Self::" ++ (s.caseAt k).variant ++ "(_)"] = _
  rw [Scope.matching, List.lookup_cons_self, ownScope, h.matched?_caseAt k, ← h.variant_beq]
  rfl

/-- The function that takes the value of a case out of the union, if the case is held. -/
theorem ask_taken {f : Function} (hf : f ∈ Family.core.ownFunctions s) {k : Fin n}
    {found : Expr} {x : String} {other : Expr}
    (hbody : f.body = some [matchSelf [arm s (s.caseAt k) found, ⟨.other x, other⟩]])
    (hasync : f.isAsync = false) (hnames : f.argumentNames = ["self"])
    (u : OneOf fun k => τ (ts k)) :
    s.ask lib f.name [s.encode ts u] =
      (u.get? k).elim
        (other.run (s.ownScope lib).machine [(x, s.encode ts u), ("self", s.encode ts u)])
        fun a => found.run (s.ownScope lib).machine
          [(s.binding, .plain ⟨ts k, a⟩), ("self", s.encode ts u)] := by
  rw [h.ask_eq hf hbody hasync (by simp [hnames]), hnames]
  exact h.dispatch_taken ((s.ownScope lib).valueOf?_self (s.encode ts u)) k found other x

theorem ask_tryGet (k : Fin n) (u : OneOf fun k => τ (ts k)) :
    s.ask lib ("try_get_" ++ (s.caseAt k).stem) [s.encode ts u] =
      some (.option ((u.get? k).map fun a => .plain ⟨ts k, a⟩)) := by
  have hf : tryGetFunction s (s.caseAt k) ∈ Family.core.ownFunctions s :=
    s.mem_ownFunctions_core.mpr (.inr (.inr (.inr ⟨_, h.caseAt_mem k, .inr (.inl rfl)⟩)))
  refine (h.ask_taken hf rfl rfl rfl u).trans ?_
  cases u.get? k with
  | none => rfl
  | some a =>
    rw [h.binding]
    rfl

theorem ask_tryInto (k : Fin n) (u : OneOf fun k => τ (ts k)) :
    s.ask lib ("try_into_" ++ (s.caseAt k).stem) [s.encode ts u] =
      some (.result (((u.tryInto k).map fun a => .plain ⟨ts k, a⟩).mapError (s.encode ts))) := by
  have hf : tryIntoFunction s (s.caseAt k) ∈ Family.core.ownFunctions s :=
    s.mem_ownFunctions_core.mpr (.inr (.inr (.inr ⟨_, h.caseAt_mem k, .inr (.inr rfl)⟩)))
  refine (h.ask_taken hf rfl rfl rfl u).trans ?_
  rcases OneOf.held_or_other k u with ⟨a, rfl⟩ | hu
  · rw [OneOf.get?_ofCase, OneOf.tryInto_ofCase, h.binding]
    rfl
  · rw [OneOf.get?_other hu, OneOf.tryInto_other hu]
    rfl

/-! ### Building -/

/-- What is applied to a variant is put into it. -/
theorem run_variantOf (k : Fin n) (e : Expr) {c : Scope τ} (hc : c.enum = enumOf s)
    (names : Names (Value τ)) :
    (variantOf (s.caseAt k) e).run c.machine names =
      (e.run c.machine names).bind (Answer.into (s.caseAt k).variant) := by
  have hwrap : c.machine.wrap ("Self::" ++ (s.caseAt k).variant) =
      Answer.into (s.caseAt k).variant := by
    funext answer
    rw [Scope.machine, hc]
    simp only [h.variant?_self k, Option.bind_some]
  rw [variantOf, Expr.run_wrap, hwrap]
  rfl

theorem run_binding {c : Scope τ} (v : Value τ) :
    (Expr.name s.binding).run c.machine [(s.binding, v)] = some (.value v) := by
  rw [h.binding]
  rfl

/-- A value of the case type is put into the variant of the case. -/
theorem ask_from (k : Fin n) (v : Value τ) :
    s.ask lib ("from_" ++ (s.caseAt k).stem) [v] =
      Answer.into (s.caseAt k).variant (.value v) := by
  have hf : fromFunction s (s.caseAt k) ∈ Family.core.ownFunctions s :=
    s.mem_ownFunctions_core.mpr (.inl ⟨_, h.caseAt_mem k, .inl rfl⟩)
  refine (h.ask_eq hf rfl rfl rfl).trans ((h.run_variantOf k _ rfl _).trans ?_)
  show Option.bind ((Expr.name s.binding).run (s.ownScope lib).machine [(s.binding, v)]) _ = _
  rw [h.run_binding]
  rfl

/-- The arguments of the constructor build a value, and that value is put into the variant. -/
theorem ask_new (k : Fin n) {r : Schema.ConstructorRef}
    (hr : (s.caseAt k).constructor = some r) (hne : (s.caseAt k).parameters ≠ [])
    (hnodup : ((s.caseAt k).parameters.map (·.argumentName)).Nodup) {vs : List (Value τ)}
    (hvs : (s.caseAt k).parameters.length = vs.length) :
    s.ask lib ("new_" ++ (s.caseAt k).stem) vs =
      (built lib (s.caseAt k) r vs).bind fun v => s.ask lib ("from_" ++ (s.caseAt k).stem) [v] := by
  obtain ⟨f, hnew, hname, hasync, hnames, hbody⟩ := s.newFunction_of_constructor hr hne
  have hf : f ∈ Family.core.ownFunctions s :=
    s.mem_ownFunctions_core.mpr (.inl ⟨_, h.caseAt_mem k, .inr hnew⟩)
  rw [← hname, h.ask_eq hf hbody hasync (by simpa [hnames] using hvs), runBody,
    h.run_variantOf k _ rfl, hnames, s.run_construction lib r hnodup hvs]
  cases built lib (s.caseAt k) r vs with
  | none => rfl
  | some v => exact (h.ask_from k v).symm

end IsApart

/-! ### Traits -/

/-- A path from the type itself leads to the function of the union at its end. -/
theorem traitScope_call {f : Function} (hf : f ∈ Family.core.ownFunctions s)
    (vs : List (Value τ)) :
    (s.traitScope lib).call ("Self::" ++ f.name) vs = s.ask lib f.name vs := by
  have hpath (own : Function) :
      ("Self::" ++ f.name = "Self::" ++ own.name) = (own.name = f.name) :=
    propext ((String.append_right_inj _).trans eq_comm)
  simp only [traitScope, ask, hpath]
  cases hfind : (Family.core.ownFunctions s).find? (·.name = f.name) with
  | none => exact absurd (decide_eq_true rfl) (List.find?_eq_none.mp hfind f hf)
  | some own => rfl

theorem unionTrait_ne_conversionTrait (type : String) : s.unionTrait ≠ conversionTrait type :=
  ne_conversion (by decide) s.runtimePath type

/-- The functions of the run-time trait are those of the union. -/
theorem askTrait_union {f : Function} (hf : f ∈ Family.core.ownFunctions s) {result : String}
    (htrait : (unionImplementation s).functions.find? (·.name = f.name) =
      some (traitFunction f.name result)) (v : Value τ) :
    s.askTrait lib s.unionTrait f.name [v] = s.ask lib f.name [v] := by
  have hfind : ((core s).flatMap Item.implementations).find? (·.trait = some s.unionTrait) =
      some (unionImplementation s) := by
    rw [s.implementations_core]
    refine find?_eq_some_of_unique (by simp) (by simp [unionImplementation, unionTrait]) ?_
    intro i hi htrait
    have htrait := of_decide_eq_true htrait
    rcases List.mem_append.mp hi with hi | hi
    · rcases List.mem_append.mp hi with hi | hi
      · rw [List.mem_singleton.mp hi] at htrait
        cases htrait
      · split at hi
        · cases hi
        · obtain ⟨c, -, rfl⟩ := List.mem_map.mp hi
          exact absurd (Option.some.inj htrait).symm (s.unionTrait_ne_conversionTrait c.typeName)
    · exact List.mem_singleton.mp hi
  rw [askTrait, hfind, Option.bind_some, htrait, Option.bind_some, ← s.traitScope_call lib hf]
  refine (Function.run_plain (s.traitScope lib).machine (f := traitFunction f.name result)
    rfl rfl rfl).trans ?_
  exact Scope.run_call (by simp) _ rfl

namespace IsApart

variable {s lib} {n : Nat} {ts : Fin n → ι} (h : s.IsApart n)
include h

theorem askTrait_tag (u : OneOf fun k => τ (ts k)) :
    s.askTrait lib s.unionTrait "tag" [s.encode ts u] =
      some (.value (.literal (toString u.tag))) :=
  (s.askTrait_union lib s.tagFunction_mem rfl _).trans (h.ask_tag u)

theorem askTrait_caseName (u : OneOf fun k => τ (ts k)) :
    s.askTrait lib s.unionTrait "case_name" [s.encode ts u] =
      some (.value (.literal (literal (s.caseAt u.index).variant))) :=
  (s.askTrait_union lib s.caseNameFunction_mem rfl _).trans (h.ask_caseName u)

theorem holds_encode (u : OneOf fun k => τ (ts k)) (tag : Nat) :
    s.holds lib (s.encode ts u) tag = some (u.holds tag) := by
  have htext : (toString u.tag == toString tag) = (u.tag == tag) := by
    rw [Bool.eq_iff_iff, beq_iff_eq, beq_iff_eq]
    exact Text.toString_injective.eq_iff
  rw [holds, h.askTrait_tag]
  exact congrArg some htext

/-- Where no two cases have one type, the conversion from the type of a case puts a value into
    the variant of the case. -/
theorem askTrait_from (hnamed : s.isGeneric = false) (htypes : s.caseTypes.Nodup) (k : Fin n)
    (v : Value τ) : s.askTrait lib (conversionTrait (s.caseAt k).typeName) "from" [v] =
      s.ask lib ("from_" ++ (s.caseAt k).stem) [v] := by
  have hfind : ((core s).flatMap Item.implementations).find?
      (·.trait = some (conversionTrait (s.caseAt k).typeName)) =
        some (conversion s (s.caseAt k)) := by
    rw [s.implementations_core, hnamed]
    refine find?_eq_some_of_unique ?_ (by simp [conversion, conversionTrait]) ?_
    · simpa using .inr (.inl ⟨_, h.caseAt_mem k, rfl⟩)
    · intro i hi htrait
      have htrait := of_decide_eq_true htrait
      simp only [Bool.false_eq_true, if_false, List.mem_append, List.mem_singleton,
        List.mem_map] at hi
      obtain (rfl | ⟨c, hc, rfl⟩) | rfl := hi
      · cases htrait
      · have htype : c.typeName = (s.caseAt k).typeName := by
          simpa [conversion, conversionTrait] using htrait
        rw [List.inj_on_of_nodup_map htypes hc (h.caseAt_mem k) htype]
      · exact absurd (Option.some.inj htrait) (s.unionTrait_ne_conversionTrait _)
  rw [askTrait, hfind, h.ask_from k v]
  refine (h.run_variantOf k (.name s.binding) (c := s.traitScope lib) rfl _).trans ?_
  show Option.bind ((Expr.name s.binding).run (s.traitScope lib).machine [(s.binding, v)]) _ = _
  rw [h.run_binding]
  rfl

end IsApart

end Shape

end TaggedUnion
