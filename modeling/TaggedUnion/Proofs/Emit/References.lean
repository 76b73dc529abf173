import Mathlib.Data.List.Forall2
import TaggedUnion.Proofs.Schema.Checks
import TaggedUnion.Proofs.Schema.Gate
import TaggedUnion.Proofs.Schema.Store

/-! # References by another name

    A case refers to its type by the name of the type or by an alias. This module says that
    nothing behind the look-up sees which of them was written:

    * **`Union.anonymous`**: a union without the texts of its references. The checks, the choice
      of constructors and the shape are those of the anonymous union.
    * **`Document.SameType`**: references that lead to one type, or are one text.
    * **`Document.withCases`**: a document with other references in one of its unions.
    * **`generate_withCases`**: such a document has the same outcome, be it code or a refusal.
-/

namespace TaggedUnion.Schema

/-! ### Unions without the texts of their references -/

/-- The case without the text of its reference. -/
def Case.anonymous (c : Case) : Case := { c with reference := "" }

/-- Populating a case looks at its type only. -/
theorem Case.populate_anonymous (c : Case) : c.anonymous.populate = c.populate.anonymous := by
  obtain ⟨ordinal, name, reference, symbol, constructor, parameters⟩ := c
  cases symbol with
  | none => rfl
  | some t => rfl

namespace Union

/-- The union without the texts of its references. -/
def anonymous (u : Union) : Union := { u with cases := u.cases.map Case.anonymous }

variable (u : Union)

/-- The checks find the same in the anonymous union. -/
theorem validate_anonymous : u.anonymous.validate = u.validate := by
  have hchange : u.anonymous.IsChangeOf u fun t => t := by
    rw [IsChangeOf, anonymous, List.map_map]
    exact List.map_congr_left fun c _ => Option.map_id'.symm
  exact validate_congr rfl rfl rfl TypeSymbol.KeepsChecked.unchanged hchange

theorem populate_anonymous : u.anonymous.populate = u.populate.anonymous := by
  have hcases : (u.cases.map Case.anonymous).map Case.populate =
      (u.cases.map Case.populate).map Case.anonymous := by
    rw [List.map_map, List.map_map]
    exact List.map_congr_left fun c _ => c.populate_anonymous
  rw [populate, anonymous, hcases]
  rfl

/-- The shape does not hold the references. -/
theorem named_anonymous (path : String) : Shape.named u.anonymous path = Shape.named u path := by
  rw [Shape.named, anonymous, List.map_map]
  rfl

/-- The same files are emitted for the anonymous union. -/
theorem artifacts_anonymous (path : String) :
    u.anonymous.populate.artifacts path = u.populate.artifacts path := by
  rw [artifacts, populate_anonymous, named_anonymous]
  rfl

end Union

/-! ### References that lead to one type -/

/-- Two references that lead to types with one id, or are the same text. -/
def Document.SameType (d : Document) (a b : String) : Prop :=
  a = b ∨ ∃ s t, d.type? a = some s ∧ d.type? b = some t ∧ s.id = t.id

/-- References that lead to one type make the same case, but for their text. -/
theorem Union.anonymous_resolveCase {d : Document} (hd : d.Sound) {a b : String}
    (h : d.SameType a b) (position : Nat) :
    (resolveCase d position a).anonymous = (resolveCase d position b).anonymous := by
  rcases h with rfl | ⟨s, t, hs, ht, hid⟩
  · rfl
  · -- In a document that was filled by operations an id belongs to one type.
    have hst : s = t := (hd.id_eq_iff hs ht).2.mp hid
    rw [resolveCase, resolveCase, hs, ht, hst]
    rfl

/-- Lists that agree position by position, up to a relation that `g` does not see. -/
theorem map_mapIdx_eq_of_forall₂ {α β γ : Type} {r : α → α → Prop} {xs ys : List α}
    (h : List.Forall₂ r xs ys) {f : Nat → α → β} {g : β → γ}
    (hf : ∀ i a b, r a b → g (f i a) = g (f i b)) :
    (xs.mapIdx f).map g = (ys.mapIdx f).map g := by
  -- The positions move on along the list, so the induction is for every `f`.
  induction h generalizing f with
  | nil => rfl
  | cons hab _ ih =>
    rw [List.mapIdx_cons, List.mapIdx_cons, List.map_cons, List.map_cons, hf 0 _ _ hab,
      ih fun i => hf (i + 1)]

theorem UnionDeclaration.anonymous_resolveIn {d : Document} (hd : d.Sound)
    {declaration : UnionDeclaration} {cases : List String}
    (h : List.Forall₂ d.SameType declaration.cases cases) :
    ({ declaration with cases := cases }.resolveIn d).anonymous =
      (declaration.resolveIn d).anonymous := by
  have hcases := map_mapIdx_eq_of_forall₂ h fun i _ _ hab =>
    Union.anonymous_resolveCase hd hab i
  rw [resolveIn, resolveIn, Union.anonymous, Union.anonymous, hcases]

/-! ### Documents with other references -/

/-- The document with other references in the unions of a name. -/
def Document.withCases (d : Document) (name : String) (cases : List String) : Document :=
  { d with
    unions := d.unions.map fun u => if u.name = name then { u with cases := cases } else u }

/-- A reference means in the one document what it means in the other. -/
theorem UnionDeclaration.resolveIn_withCases (declaration : UnionDeclaration) (d : Document)
    (name : String) (cases : List String) :
    declaration.resolveIn (d.withCases name cases) = declaration.resolveIn d := rfl

theorem Document.union?_withCases {d : Document} {name : String}
    {declaration : UnionDeclaration} (h : d.union? name = some declaration)
    (cases : List String) :
    (d.withCases name cases).union? name = some { declaration with cases := cases } := by
  have hname : declaration.name = name := by simpa using List.find?_some h
  -- Other references do not change which union is found.
  have hsame : ((·.name == name) ∘ fun u : UnionDeclaration =>
      if u.name = name then { u with cases := cases } else u) = (·.name == name) := by
    funext u
    by_cases hu : u.name = name
    · simp [hu]
    · simp [hu]
  rw [union?, withCases, List.find?_map, hsame]
  show Option.map _ (d.union? name) = _
  rw [h, Option.map_some, if_pos hname]

end TaggedUnion.Schema

namespace TaggedUnion

open Schema

/-- In a document that was filled by operations, references of a declared union may be replaced
    by others that lead to the same types: the validation finds the same, and the outcome for
    every run-time path is the same refusal with the same findings, or the same warnings and
    files. -/
theorem generate_withCases (scope : String) (ops : List Document.Operation) {name : String}
    {declaration : UnionDeclaration} {cases : List String}
    (hdeclared : ((Document.empty scope).run ops).union? name = some declaration)
    (hcases : List.Forall₂ ((Document.empty scope).run ops).SameType declaration.cases cases) :
    let d := (Document.empty scope).run ops
    (Union.ofDocument (d.withCases name cases) name).map Union.validate =
      (Union.ofDocument d name).map Union.validate ∧
    ∀ path, generate (d.withCases name cases) name path = generate d name path := by
  intro d
  have hd : d.Sound := (Document.sound_empty scope).run ops
  let v := { declaration with cases := cases }.resolveIn d
  let u := declaration.resolveIn d
  have hanonymous : v.anonymous = u.anonymous := UnionDeclaration.anonymous_resolveIn hd hcases
  have hvalidate : v.validate = u.validate := by
    rw [← v.validate_anonymous, hanonymous, u.validate_anonymous]
  have hreplaced := Document.union?_withCases hdeclared cases
  constructor
  · rw [Union.ofDocument_of_union? hdeclared, Union.ofDocument_of_union? hreplaced]
    exact congrArg Except.ok hvalidate
  · intro path
    have hartifacts : v.populate.artifacts path = u.populate.artifacts path := by
      rw [← v.artifacts_anonymous, hanonymous, u.artifacts_anonymous]
    rw [generate_of_union? hdeclared, generate_of_union? hreplaced,
      UnionDeclaration.resolveIn_withCases, hvalidate, hartifacts]
    rfl

/-- Operations that give a type two further names, one of them by way of the other. -/
def aliased : List Document.Operation :=
  [.addType { name := "Active", kind := .record },
    .addType { name := "Retry" },
    .addAlias "Running" "Active",
    .addAlias "Busy" "Running",
    .addUnion { scope := "demo", name := "Status", cases := ["Running", "Retry", "Lost"] }]

theorem generate_withCases_aliased :
    let d := (Document.empty "demo").run aliased
    d.union? "Status" = some ⟨"demo", "Status", true, ["Running", "Retry", "Lost"]⟩ ∧
    List.Forall₂ d.SameType ["Running", "Retry", "Lost"] ["Busy", "Retry", "Lost"] ∧
    (Union.ofDocument (d.withCases "Status" ["Busy", "Retry", "Lost"]) "Status").map
      Union.validate = (Union.ofDocument d "Status").map Union.validate ∧
    ∀ path, generate (d.withCases "Status" ["Busy", "Retry", "Lost"]) "Status" path =
      generate d "Status" path := by
  intro d
  have hdeclared : d.union? "Status" =
      some ⟨"demo", "Status", true, ["Running", "Retry", "Lost"]⟩ := rfl
  have hcases : List.Forall₂ d.SameType ["Running", "Retry", "Lost"] ["Busy", "Retry", "Lost"] :=
    .cons (.inr ⟨_, _, rfl, rfl, rfl⟩) (.cons (.inl rfl) (.cons (.inl rfl) .nil))
  exact ⟨hdeclared, hcases, generate_withCases "demo" aliased hdeclared hcases⟩

end TaggedUnion
