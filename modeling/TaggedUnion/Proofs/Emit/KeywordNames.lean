import TaggedUnion.Proofs.Emit.ArgumentNames

/-! # Keywords among the names of a constructor

    A function that builds a case writes names of the schema in three places: its arguments, the
    fields that it sets, and the constructor that it calls. This module tells in which of them a
    keyword is set apart:

    * **`Name.IsWritten`**: how a name is written so that it is no keyword.
    * **`SpellsNames`**: the places and how the names of a constructor are written there. Arguments
      are folded to snake case before they are set apart, fields are not, and the name of the
      constructor is written as it is.
    * **`SpellsNames.notMem_keywords_iff`**: so a keyword is written exactly if it is the name of an
      explicit constructor.
    * **`spellsNames_populate`**: the same for the functions of every populated union, and
      **`not_forall_notMem_keywords`** for one that is called like a keyword.
-/

namespace TaggedUnion

open Code Emit

/-! ### Names that are set apart -/

namespace Name

/-- A name as it is written where no keyword may stand. -/
inductive IsWritten (name : String) : String → Prop where
  /-- A name that is no keyword stays. -/
  | plain (free : name ∉ keywords) : IsWritten name name
  /-- A keyword has its raw form. -/
  | raw (keyword : name ∈ keywords) (hasRaw : name ∉ rawlessKeywords) :
      IsWritten name ("r#" ++ name)
  /-- A keyword without a raw form has an underscore behind it. -/
  | marked (rawless : name ∈ rawlessKeywords) : IsWritten name (name ++ "_")

theorem isWritten_identifier (name : String) : IsWritten name (identifier name) := by
  by_cases hrawless : name ∈ rawlessKeywords
  · rw [identifier, if_pos hrawless]
    exact .marked hrawless
  · by_cases hkeyword : name ∈ keywords
    · rw [identifier, if_neg hrawless, if_pos hkeyword]
      exact .raw hkeyword hrawless
    · rw [identifier_of_notMem hkeyword]
      exact .plain hkeyword

theorem forall₂_isWritten_identifier {α : Type} (name : α → String) (xs : List α) :
    List.Forall₂ (fun x text => IsWritten (name x) text) xs
      (xs.map fun x => identifier (name x)) := by
  rw [List.forall₂_map_right_iff, List.forall₂_same]
  intro x _
  exact isWritten_identifier (name x)

/-- What is set apart is no keyword. -/
theorem IsWritten.notMem_keywords {name text : String} (h : IsWritten name text) :
    text ∉ keywords := by
  have hwritten : text = identifier name := by
    cases h with
    | plain free => rw [identifier_of_notMem free]
    | raw keyword hasRaw => rw [identifier, if_neg hasRaw, if_pos keyword]
    | marked rawless => rw [identifier, if_pos rawless]
  rw [hwritten]
  exact identifier_notMem_keywords name

theorem notMem_keywords_of_forall₂ {α : Type} {name : α → String} {xs : List α}
    {texts : List String} (h : List.Forall₂ (fun x text => IsWritten (name x) text) xs texts) :
    ∀ text ∈ texts, text ∉ keywords := by
  intro text htext
  induction h with
  | nil => cases htext
  | cons hwritten _ ih =>
    rcases List.mem_cons.mp htext with rfl | htext
    · exact hwritten.notMem_keywords
    · exact ih htext

end Name

/-! ### Where names are written -/

namespace Code

/-- The last part of a path. -/
def lastSegment (path : String) : String :=
  String.ofList (path.toList.reverse.takeWhile (· ≠ ':')).reverse

/-- A name without a colon is the last part of each path that ends with it. -/
theorem lastSegment_append {name : String} (h : ':' ∉ name.toList) (type : String) :
    lastSegment (type ++ "::" ++ name) = name := by
  have hname : ∀ c ∈ name.toList.reverse, decide (c ≠ ':') = true := by
    intro c hc
    refine decide_eq_true ?_
    rintro rfl
    exact h (List.mem_reverse.mp hc)
  have hpath : (type ++ "::" ++ name).toList.reverse =
      name.toList.reverse ++ ':' :: ':' :: type.toList.reverse := by
    simp [String.toList_append]
  -- From the end, the characters of the name are taken up to the colons.
  unfold lastSegment
  rw [hpath, List.takeWhile_append_of_pos hname, List.takeWhile_cons_of_neg (by simp),
    List.append_nil, List.reverse_reverse, String.ofList_toList]

/-- The names that an expression passes on when it builds a value. -/
def Expr.passedNames : Expr → List String
  | .call _ arguments => arguments
  | .record _ fields => fields.map (·.2)
  | .wrap _ e => e.passedNames
  | _ => []

/-- The names of the fields that an expression sets. -/
def Expr.fieldNames : Expr → List String
  | .record _ fields => fields.map (·.1)
  | .wrap _ e => e.fieldNames
  | _ => []

/-- The names of the functions that an expression calls, without the types they belong to. -/
def Expr.calledNames : Expr → List String
  | .call function _ => [lastSegment function]
  | .wrap _ e => e.calledNames
  | _ => []

/-- The value that a statement is. -/
def Statement.value? : Statement → Option Expr
  | .value e => some e
  | _ => none

namespace Function

/-- The names of the arguments that a function declares. -/
def declaredNames (f : Function) : List String := f.parameters.map (·.1)

/-- The values in the body of a function. -/
def values (f : Function) : List Expr := (f.body.getD []).filterMap Statement.value?

def passedNames (f : Function) : List String := f.values.flatMap (·.passedNames)

def fieldNames (f : Function) : List String := f.values.flatMap (·.fieldNames)

def calledNames (f : Function) : List String := f.values.flatMap (·.calledNames)

/-- All names that a function which builds a case writes for a constructor. -/
def constructorNames (f : Function) : List String :=
  f.declaredNames ++ f.passedNames ++ f.fieldNames ++ f.calledNames

end Function

end Code

/-- A function that builds a case writes the names of the constructor of the case: each parameter
    has an argument, which is set apart in snake case, and the arguments are passed on under the
    same names. -/
inductive SpellsNames (c : ShapeCase) (k : Schema.ConstructorRef) (f : Function) : Prop where
  /-- An explicit constructor is called by its name, which is not set apart. -/
  | explicit (kind : k.implicit = false)
      (declared : List.Forall₂ (fun p text => Name.IsWritten (Name.snake p.name) text) c.parameters
        f.declaredNames)
      (passed : f.passedNames = f.declaredNames) (fields : f.fieldNames = [])
      (called : f.calledNames = [k.name])
  /-- An implicit one sets a field for each parameter, which is set apart as it is. -/
  | implicit (kind : k.implicit = true)
      (declared : List.Forall₂ (fun p text => Name.IsWritten (Name.snake p.name) text) c.parameters
        f.declaredNames)
      (passed : f.passedNames = f.declaredNames)
      (fields : List.Forall₂ (fun p text => Name.IsWritten p.name text) c.parameters f.fieldNames)
      (called : f.calledNames = [])

namespace Emit

open Schema (ConstructorRef CaseParameter)

variable {s : Shape} {c : ShapeCase} {f : Function}

/-- The function that builds a case, by its parameters and its body. -/
theorem exists_of_newFunction (h : newFunction s c = some f) :
    ∃ k, c.constructor = some k ∧
      f.parameters = c.parameters.map (fun p => (p.argumentName, p.typeName)) ∧
      f.body = some [.value (variantOf c (construction c k))] := by
  unfold newFunction at h
  cases hk : c.constructor with
  | none =>
    rw [hk] at h
    cases h
  | some k =>
    rw [hk] at h
    simp only at h
    split at h
    · cases h
    · cases h
      exact ⟨k, rfl, rfl, rfl⟩

theorem spellsNames_of_newFunction {k : ConstructorRef} (hk : c.constructor = some k)
    (hname : ':' ∉ k.name.toList) (h : newFunction s c = some f) : SpellsNames c k f := by
  obtain ⟨k', hk', hparameters, hbody⟩ := exists_of_newFunction h
  obtain rfl : k = k' := Option.some.inj (hk.symm.trans hk')
  have hdeclared : f.declaredNames =
      c.parameters.map fun p => Name.identifier (Name.snake p.name) := by
    unfold Function.declaredNames
    rw [hparameters, List.map_map]
    rfl
  have hwritten := Name.forall₂_isWritten_identifier (fun p => Name.snake p.name) c.parameters
  rw [← hdeclared] at hwritten
  -- The value of the body is the only place where names are passed on, set or called.
  have hvalues : f.values = [variantOf c (construction c k)] := by
    unfold Function.values
    rw [hbody]
    rfl
  cases hkind : k.implicit with
  | false =>
    have hcall : construction c k =
        .call (c.typeName ++ "::" ++ k.name) (c.parameters.map (·.argumentName)) := by
      simp [construction, hkind]
    rw [hcall] at hvalues
    refine .explicit hkind hwritten ?_ ?_ ?_
    · rw [hdeclared, Function.passedNames, hvalues]
      exact List.flatMap_singleton ..
    · rw [Function.fieldNames, hvalues]
      rfl
    · rw [Function.calledNames, hvalues]
      show [lastSegment (c.typeName ++ "::" ++ k.name)] = [k.name]
      rw [lastSegment_append hname]
  | true =>
    have hrecord : construction c k =
        .record c.typeName (c.parameters.map fun p => (p.fieldName, p.argumentName)) := by
      simp [construction, hkind]
    rw [hrecord] at hvalues
    refine .implicit hkind hwritten ?_ ?_ ?_
    · rw [hdeclared, Function.passedNames, hvalues, List.flatMap_singleton]
      show (c.parameters.map _).map _ = _
      rw [List.map_map]
      rfl
    · rw [Function.fieldNames, hvalues, List.flatMap_singleton]
      show List.Forall₂ _ _ ((c.parameters.map _).map _)
      rw [List.map_map]
      exact Name.forall₂_isWritten_identifier (·.name) c.parameters
    · rw [Function.calledNames, hvalues]
      rfl

end Emit

/-- A keyword is written exactly if it is the name of an explicit constructor. -/
theorem SpellsNames.notMem_keywords_iff {c : ShapeCase} {k : Schema.ConstructorRef} {f : Function}
    (h : SpellsNames c k f) :
    (∀ name ∈ f.constructorNames, name ∉ Name.keywords) ↔
      (k.implicit = false → k.name ∉ Name.keywords) := by
  unfold Function.constructorNames
  cases h with
  | explicit kind declared passed fields called =>
    have hdeclared := Name.notMem_keywords_of_forall₂ declared
    rw [passed, fields, called, kind, List.append_nil]
    constructor
    · intro hall _
      exact hall k.name (by simp)
    · intro hname text htext
      simp only [List.mem_append, or_self, List.mem_singleton] at htext
      rcases htext with htext | rfl
      · exact hdeclared text htext
      · exact hname rfl
  | implicit kind declared passed fields called =>
    have hdeclared := Name.notMem_keywords_of_forall₂ declared
    have hfields := Name.notMem_keywords_of_forall₂ fields
    rw [passed, called, kind, List.append_nil]
    refine iff_of_true ?_ (by simp)
    intro text htext
    simp only [List.mem_append, or_self] at htext
    rcases htext with htext | htext
    · exact hdeclared text htext
    · exact hfields text htext

/-! ### The functions of a union -/

/-- For every populated union whose constructors have names without a colon, as identifiers and
    keywords have, each function that builds a case writes the names of the constructor of the case
    as `SpellsNames` says. So none of the names it writes is a bare keyword, exactly if the
    constructor is implicit or has a name that is no keyword. -/
theorem spellsNames_populate (u : Schema.Union) (path : String)
    (hnames : ∀ c ∈ u.populate.cases, ∀ k ∈ c.constructor, ':' ∉ k.name.toList) :
    ∀ c ∈ (Shape.named u.populate path).cases,
      ∀ f ∈ newFunction (Shape.named u.populate path) c, ∃ k ∈ c.constructor,
        SpellsNames c k f ∧
        ((∀ name ∈ f.constructorNames, name ∉ Name.keywords) ↔
          (k.implicit = false → k.name ∉ Name.keywords)) := by
  intro c hc f hf
  obtain ⟨case, hcase, rfl⟩ := List.mem_map.mp hc
  obtain ⟨k, hk, -, -⟩ := exists_of_newFunction hf
  have hspells := spellsNames_of_newFunction hk (hnames case hcase k hk) hf
  exact ⟨k, hk, hspells, hspells.notMem_keywords_iff⟩

section querying

open Schema

/-- An explicit constructor that is called like a keyword. -/
def queryType : TypeSymbol where
  id := 1
  name := "Query"
  kind := .record
  constructors := [{ name := "match", parameters := [⟨"text", "String"⟩] }]

/-- An implicit constructor with keywords for parameters. -/
def jumpType : TypeSymbol where
  id := 2
  name := "Jump"
  kind := .record
  constructors := [{ implicit := true, parameters := [⟨"type", "u8"⟩, ⟨"Self", "u8"⟩] }]

def querying : Document :=
  (Document.empty "demo").run
    [.addType queryType, .addType jumpType,
      .addUnion { scope := "demo", name := "Job", cases := ["Query", "Jump"] }]

theorem spellsNames_populate_querying :
    ∃ declaration, querying.union? "Job" = some declaration ∧
      let u := declaration.resolveIn querying
      let s := Shape.named u.populate defaultRuntimePath
      (∀ c ∈ u.populate.cases, ∀ k ∈ c.constructor, ':' ∉ k.name.toList) ∧
      ∃ c ∈ s.cases, ∃ f ∈ newFunction s c, SpellsNames c ⟨"new", true⟩ f ∧
        (∀ name ∈ f.constructorNames, name ∉ Name.keywords) ∧
        f.declaredNames = ["r#type", "self_"] ∧ f.fieldNames = ["r#type", "Self_"] := by
  have hjob : querying.union? "Job" = some ⟨"demo", "Job", true, ["Query", "Jump"]⟩ := rfl
  let u := (⟨"demo", "Job", true, ["Query", "Jump"]⟩ : UnionDeclaration).resolveIn querying
  let s := Shape.named u.populate defaultRuntimePath
  have hnames : ∀ c ∈ u.populate.cases, ∀ k ∈ c.constructor, ':' ∉ k.name.toList := by decide
  obtain ⟨c, hc, f, hf, hconstructor, hdeclared, hfields⟩ : ∃ c ∈ s.cases, ∃ f ∈ newFunction s c,
      c.constructor = some ⟨"new", true⟩ ∧ f.declaredNames = ["r#type", "self_"] ∧
        f.fieldNames = ["r#type", "Self_"] :=
    ⟨_, List.mem_cons_of_mem _ List.mem_cons_self, _, rfl, rfl, by decide, by decide⟩
  obtain ⟨k, hk, hspells, hkeywords⟩ := spellsNames_populate u defaultRuntimePath hnames c hc f hf
  obtain rfl : ⟨"new", true⟩ = k := Option.some.inj (hconstructor.symm.trans hk)
  exact ⟨_, hjob, hnames, c, hc, f, hf, hspells, hkeywords.mpr (by simp), hdeclared, hfields⟩

/-- Names that are identifiers or keywords do not keep keywords out of the code: the name of an
    explicit constructor is written as it is. -/
theorem not_forall_notMem_keywords :
    ¬ ∀ (d : Document) (name path : String) (declaration : UnionDeclaration),
      d.union? name = some declaration →
      (declaration.resolveIn d).validate.isFatal = false →
      let s := Shape.named (declaration.resolveIn d).populate path
      (∀ c ∈ s.cases, ∀ k ∈ c.constructor, Name.isPlain k.name ∨ k.name ∈ Name.keywords) →
      (∀ c ∈ s.cases, ∀ p ∈ c.parameters, Name.isPlain p.name ∨ p.name ∈ Name.keywords) →
      ∀ c ∈ s.cases, ∀ f ∈ newFunction s c, ∀ name ∈ f.constructorNames, name ∉ Name.keywords := by
  intro h
  have hjob : querying.union? "Job" = some ⟨"demo", "Job", true, ["Query", "Jump"]⟩ := rfl
  have hbare := h querying "Job" defaultRuntimePath _ hjob (by decide) (by decide) (by decide) _
    List.mem_cons_self _ rfl "match" (by decide)
  exact hbare (by decide)

end querying

end TaggedUnion
