import Mathlib
import TaggedUnion.Proofs.Emit.FunctionNames

/-! # Variants of an emitted union

    Repetitions among the cases of a union are looked for by the identity of types, and variants
    are named after types. This module says that the one serves for the other:

    * **`Sound.eq_of_name_eq`**, **`Sound.name_ne_top`**: in a document that was filled by
      operations, types with one name are one type, and only the top type is called `Any`.
    * **`Shape.emitted`**: all that is emitted for a named union, with the type definitions and
      the implementations in it.
    * **`filter_conversions`**: the conversions of a type into the union are as many as the union
      has cases of that type.
    * **`variants_distinct`**: where the validation finds no error, variants are distinct, they
      follow the declared references, and every case type has one conversion.
-/

namespace TaggedUnion

open Code Emit Schema

/-! ### Names of types -/

namespace Schema.Document.Sound

variable {d : Document}

/-- Types with one name are one type. -/
theorem eq_of_name_eq (h : d.Sound) {a b : String} {s t : TypeSymbol} (hs : d.type? a = some s)
    (ht : d.type? b = some t) (hname : s.name = t.name) : s = t := by
  have hs' : d.typeId? s.name = some s.id := h.own_name _ _ (h.getElem?_id_of_type? hs)
  have ht' : d.typeId? t.name = some t.id := h.own_name _ _ (h.getElem?_id_of_type? ht)
  -- One name is bound to one position.
  rw [hname, ht'] at hs'
  exact (h.id_eq_iff hs ht).2.mp (Option.some.inj hs').symm

/-- No type but the top type has its name. -/
theorem name_ne_top (h : d.Sound) {a : String} {t : TypeSymbol} (ht : d.type? a = some t)
    (hplain : t.isTop = false) : t.name ≠ topTypeName := by
  intro hname
  have hentry : d.types[t.id]? = some t := h.getElem?_id_of_type? ht
  have hid : d.typeId? t.name = some t.id := h.own_name _ _ hentry
  rw [hname, h.own_name 0 _ h.top] at hid
  rw [← Option.some.inj hid, h.top] at hentry
  cases hentry
  cases hplain

end Schema.Document.Sound

namespace Schema.UnionDeclaration

variable {declaration : UnionDeclaration} {d : Document}

/-- The types of an acceptable union have distinct names. -/
theorem IsAcceptableIn.names_nodup (h : declaration.IsAcceptableIn d) (hd : d.Sound) :
    ((declaration.cases.filterMap d.type?).map (·.name)).Nodup := by
  refine List.Nodup.map_on ?_ (List.Nodup.of_map _ h.ids_nodup)
  intro s hs t ht hname
  obtain ⟨a, -, ha⟩ := List.mem_filterMap.mp hs
  obtain ⟨b, -, hb⟩ := List.mem_filterMap.mp ht
  exact hd.eq_of_name_eq ha hb hname

theorem IsAcceptableIn.top_not_mem_names (h : declaration.IsAcceptableIn d) (hd : d.Sound) :
    topTypeName ∉ (declaration.cases.filterMap d.type?).map (·.name) := by
  intro hmem
  obtain ⟨t, ht, hname⟩ := List.mem_map.mp hmem
  obtain ⟨a, -, ha⟩ := List.mem_filterMap.mp ht
  exact hd.name_ne_top ha (h.plain t ht).not_top hname

/-! ### Cases of the shape -/

@[simp] theorem ordinal_populate (c : Case) : c.populate.ordinal = c.ordinal := by
  rw [Case.populate]
  split <;> rfl

/-- Variants and the types that they hold have the names of the types that the references mean. -/
theorem map_cases_shape (h : ∀ reference ∈ declaration.cases, (d.type? reference).isSome)
    (path : String) :
    (Shape.named (declaration.resolveIn d).populate path).cases.map
        (fun c => (c.variant, c.typeName)) =
      (declaration.cases.filterMap d.type?).map fun t => (t.name, t.name) := by
  have hnames := congrArg (List.map fun x : String × Bool => (x.1, x.1)) (map_cases_resolveIn h)
  simpa [Shape.named, Union.populate, Function.comp_def] using hnames

/-- The case at a position is named after the type that the reference there means. -/
theorem exists_case_shape {i : Nat} {reference : String} {t : TypeSymbol}
    (hi : declaration.cases[i]? = some reference) (ht : d.type? reference = some t)
    (path : String) :
    ∃ c, (Shape.named (declaration.resolveIn d).populate path).cases[i]? = some c ∧
      c.ordinal = i + 1 ∧ c.variant = t.name ∧ c.typeName = t.name := by
  have hcase : (declaration.resolveIn d).populate.cases[i]? =
      some (Union.resolveCase d i reference).populate := by
    simp [Union.populate, resolveIn, hi]
  simp only [Shape.named, List.getElem?_map, hcase, Option.map_some]
  refine ⟨_, rfl, ?_, ?_, ?_⟩
  · rw [ordinal_populate]
    rfl
  · rw [Case.name_populate, Union.resolveCase, ht]
    rfl
  · rw [Case.name_populate, Union.resolveCase, ht]
    rfl

end Schema.UnionDeclaration

/-! ### All that is emitted -/

/-- The type definitions in an item. -/
def Code.Item.enums : Item → List Enum
  | .enum e => [e]
  | _ => []

/-- The implementations in an item. -/
def Code.Item.implementations : Item → List Implementation
  | .implementation i => [i]
  | _ => []

namespace Shape

/-- The items of all families of a named union. -/
def emitted (s : Shape) : List Item := Family.ofNamed.flatMap (·.items s)

variable (s : Shape)

theorem emitted_eq : s.emitted = core s ++ (matchWith s ++ (switch s ++ (Transform.map.items s ++
    (Transform.bind.items s ++ (assertions s ++ []))))) := rfl

/-- One type is defined, that of the union. -/
theorem enums_emitted : s.emitted.flatMap Item.enums = [enumOf s] := by
  have hcore : (core s).flatMap Item.enums = [enumOf s] := by
    cases hgeneric : s.isGeneric <;>
      simp [core, Item.enums, hgeneric]
  have hpending (name title : String) (functions pending : List Function) :
      (withPending s name title functions pending).flatMap Item.enums = [] := rfl
  simp only [emitted_eq, List.flatMap_append, hcore, matchWith, switch, Transform.items, hpending]
  rfl

/-- What does not end as the trait of a conversion does is no such trait. -/
theorem ne_conversion {ending : String} (hending : ending.toList.getLast?.any (· ≠ '>'))
    (before type : String) : before ++ ending ≠ "From<" ++ type ++ ">" := by
  intro heq
  have hlast := congrArg (fun text : String => text.toList.getLast?) heq
  simp only [String.toList_append, List.getLast?_append] at hlast
  cases hl : ending.toList.getLast? with
  | none => simp [hl] at hending
  | some c => simp_all

/-- The core implements the type itself, its conversions, and the run-time trait. -/
theorem implementations_core : (core s).flatMap Item.implementations =
    [{ typeParameters := s.typeParameters, target := s.selfType,
       functions := coreFunctions s, openEnd := true }]
      ++ (if s.isGeneric then [] else s.cases.map (conversion s)) ++ [unionImplementation s] := by
  cases hgeneric : s.isGeneric <;>
    simp [core, hgeneric, Item.implementations, List.flatMap_map, ← List.map_eq_flatMap]

/-- The implementations in items that convert from a type. -/
def conversionsFrom (type : String) (items : List Item) : List Implementation :=
  (items.flatMap Item.implementations).filter (·.trait = some ("From<" ++ type ++ ">"))

theorem conversionsFrom_append (type : String) (xs ys : List Item) :
    conversionsFrom type (xs ++ ys) = conversionsFrom type xs ++ conversionsFrom type ys := by
  rw [conversionsFrom, List.flatMap_append, List.filter_append]
  rfl

/-- In the core the conversions from a type are those of the cases of that type. -/
theorem conversionsFrom_core (h : s.isGeneric = false) (type : String) :
    conversionsFrom type (core s) = (s.cases.filter (·.typeName = type)).map (conversion s) := by
  have hconversion (c : ShapeCase) :
      ((conversion s c).trait = some ("From<" ++ type ++ ">")) = (c.typeName = type) := by
    simp [conversion]
  -- The union implements one more trait, whose name ends in a word.
  have hunion : (some (s.runtimePath ++ "::Union") = some ("From<" ++ type ++ ">")) = False :=
    eq_false fun heq => ne_conversion (by decide) s.runtimePath type (Option.some.inj heq)
  rw [conversionsFrom, implementations_core, h]
  simp [List.filter_map, Function.comp_def, hconversion, unionImplementation, hunion]

/-- The trait for pending unions ends in a word too. -/
theorem conversionsFrom_withPending (h : s.isGeneric = false) (type : String)
    {ending : String} (hending : ending.toList.getLast?.any (· ≠ '>')) (before title : String)
    (functions pending : List Function) :
    conversionsFrom type (withPending s (before ++ ending) title functions pending) = [] := by
  have hgenerics : s.generics = "" := by simp [generics, h]
  simp [conversionsFrom, withPending, Item.implementations, pendingImplementation, hgenerics,
    ne_conversion hending before type]

theorem conversionsFrom_assertions (h : s.isGeneric = false) (type : String) :
    conversionsFrom type (assertions s) = [] := by
  have hgenerics : s.generics = "" := by simp [generics, h]
  have hname : (s.name ++ "Assertions" = "From<" ++ type ++ ">") = False :=
    eq_false (ne_conversion (by decide) s.name type)
  simp [conversionsFrom, assertions, Item.implementations, assertionsTraitName, hgenerics, hname]

/-- The conversions of a type into the union: one for each of its cases of that type. -/
theorem filter_conversions (h : s.isGeneric = false) (type : String) :
    (s.emitted.flatMap Item.implementations).filter
        (·.trait = some ("From<" ++ type ++ ">")) =
      (s.cases.filter (·.typeName = type)).map (conversion s) := by
  have hpending {items : List Item} {title ending : String}
      {functions pending : List Function}
      (hitems : items = withPending s (s.name ++ ending) title functions pending)
      (hending : ending.toList.getLast?.any (· ≠ '>')) : conversionsFrom type items = [] := by
    rw [hitems]
    exact s.conversionsFrom_withPending h type hending s.name title functions pending
  have hmatching : conversionsFrom type (matchWith s) = [] := hpending rfl (by decide)
  have hswitching : conversionsFrom type (switch s) = [] := hpending rfl (by decide)
  have htransform (t : Transform) : conversionsFrom type (t.items s) = [] := by
    cases t <;> exact hpending rfl (by decide)
  show conversionsFrom type s.emitted = _
  simp only [emitted_eq, conversionsFrom_append, s.conversionsFrom_core h, hmatching, hswitching,
    htransform, s.conversionsFrom_assertions h, List.nil_append]
  exact List.append_nil _

end Shape

/-! ### Distinct variants -/

/-- Where keys are distinct, one element has the key of a given one. -/
theorem filter_key_eq {α : Type} {key : α → String} {xs : List α} (h : (xs.map key).Nodup)
    {x : α} (hx : x ∈ xs) : xs.filter (key · = key x) = [x] := by
  induction xs with
  | nil => cases hx
  | cons y ys ih =>
    obtain ⟨hy, hys⟩ := List.nodup_cons.mp h
    rcases List.mem_cons.mp hx with rfl | hx
    · have hnone : ys.filter (key · = key x) = [] := by
        refine List.filter_eq_nil_iff.mpr ?_
        intro z hz hkey
        exact hy (of_decide_eq_true hkey ▸ List.mem_map_of_mem hz)
      rw [List.filter_cons_of_pos (by simp), hnone]
    · have hne : key y ≠ key x := fun hkey => hy (hkey ▸ List.mem_map_of_mem hx)
      rw [List.filter_cons_of_neg (by simpa using hne), ih hys hx]

/-- In a document that was filled by any operations, refused ones included, a declared union in
    which the validation finds no error has two cases at least. Its variants are distinct, none of
    them is called `Any`, and the case at a position has the ordinal of the position and is named
    after the type that the reference there means. So the one type definition that is emitted
    declares each variant once, and every case type has one conversion into the union, which no
    other type has. -/
theorem variants_distinct (scope : String) (ops : List Document.Operation)
    {name : String} {declaration : UnionDeclaration}
    (hdeclared : ((Document.empty scope).run ops).union? name = some declaration)
    (hvalid : (declaration.resolveIn ((Document.empty scope).run ops)).validate.isFatal = false)
    (path : String) :
    let d := (Document.empty scope).run ops
    let s := Shape.named (declaration.resolveIn d).populate path
    generate d name path =
        .ok ⟨Family.ofNamed.map (Artifact.ofShape s),
          (declaration.resolveIn d).validate.diagnostics⟩ ∧
    2 ≤ s.cases.length ∧ s.cases.length = declaration.cases.length ∧
    (s.cases.map (·.variant)).Nodup ∧ topTypeName ∉ s.cases.map (·.variant) ∧
    (∀ i reference, declaration.cases[i]? = some reference →
      ∃ t c, d.type? reference = some t ∧ s.cases[i]? = some c ∧
        c.ordinal = i + 1 ∧ c.variant = t.name ∧ c.typeName = t.name) ∧
    (∃ e, s.emitted.flatMap Item.enums = [e] ∧
      e.variants.map (fun v => (v.name, v.payload)) =
        s.cases.map (fun c => (c.variant, c.typeName)) ∧
      (e.variants.map (·.name)).Nodup) ∧
    (∀ c ∈ s.cases, ∃ i, i.target = s.name ∧
      (s.emitted.flatMap Item.implementations).filter
        (·.trait = some ("From<" ++ c.typeName ++ ">")) = [i]) ∧
    ∀ type, type ∉ s.caseTypes →
      (s.emitted.flatMap Item.implementations).filter
        (·.trait = some ("From<" ++ type ++ ">")) = [] := by
  intro d s
  have hsound : d.Sound := (Document.sound_empty scope).run ops
  have hacceptable : declaration.IsAcceptableIn d :=
    (declaration.isAcceptable_resolveIn_iff d).mp
      ((declaration.resolveIn d).isFatal_eq_false_iff.mp hvalid)
  have hcases := UnionDeclaration.map_cases_shape hacceptable.resolved path
  have hvariants : s.cases.map (·.variant) =
      (declaration.cases.filterMap d.type?).map (·.name) := by
    simpa [Function.comp_def] using congrArg (List.map Prod.fst) hcases
  have htypes : s.cases.map (·.typeName) =
      (declaration.cases.filterMap d.type?).map (·.name) := by
    simpa [Function.comp_def] using congrArg (List.map Prod.snd) hcases
  have hnodup := hacceptable.names_nodup hsound
  have hlength : s.cases.length = declaration.cases.length := by
    simp [s, Shape.named, Union.populate, UnionDeclaration.resolveIn]
  refine ⟨?_, hlength ▸ hacceptable.two_le_length, hlength, hvariants ▸ hnodup,
    hvariants ▸ hacceptable.top_not_mem_names hsound, ?_, ?_, ?_, ?_⟩
  · -- The shape is the one that is generated.
    rw [generate_of_union? hdeclared, hvalid]
    rfl
  · -- Cases follow the references.
    intro i reference hi
    have hmem : reference ∈ declaration.cases := List.mem_of_getElem? hi
    obtain ⟨t, ht⟩ := Option.isSome_iff_exists.mp (hacceptable.resolved reference hmem)
    obtain ⟨c, hc, hcase⟩ := UnionDeclaration.exists_case_shape hi ht path
    exact ⟨t, c, ht, hc, hcase⟩
  · -- The type definition has a variant for each case.
    refine ⟨_, s.enums_emitted, ?_, ?_⟩
    · simp [enumOf, Function.comp_def]
    · have hnames : (enumOf s).variants.map (·.name) = s.cases.map (·.variant) := by
        simp [enumOf, Function.comp_def]
      rw [hnames, hvariants]
      exact hnodup
  · -- No two cases have one type, and so each has a conversion of its own.
    intro c hc
    have hone : s.cases.filter (·.typeName = c.typeName) = [c] :=
      filter_key_eq (htypes ▸ hnodup) hc
    refine ⟨conversion s c, rfl, ?_⟩
    rw [s.filter_conversions rfl, hone]
    rfl
  · intro type htype
    have hnone : s.cases.filter (·.typeName = type) = [] := by
      refine List.filter_eq_nil_iff.mpr ?_
      intro c hc heq
      exact htype (of_decide_eq_true heq ▸ List.mem_map_of_mem hc)
    rw [s.filter_conversions rfl, hnone]
    rfl

/-- Operations that declare a union by an alias. The second type is refused, and so is the alias
    that would hide the top type. -/
def relabelled : List Document.Operation :=
  [.addType { name := "Done", kind := .record },
    .addType { name := "Done" },
    .addAlias "Any" "Done",
    .addType { name := "Handle" },
    .addAlias "Ok" "Done",
    .addUnion { scope := "demo", name := "Outcome", cases := ["Handle", "Ok"] }]

theorem variants_distinct_relabelled :
    ∃ declaration, ((Document.empty "demo").run relabelled).union? "Outcome" = some declaration ∧
      let u := declaration.resolveIn ((Document.empty "demo").run relabelled)
      u.validate.isFatal = false ∧
      let s := Shape.named u.populate defaultRuntimePath
      s.cases.map (fun c => (c.ordinal, c.variant)) = [(1, "Handle"), (2, "Done")] ∧
        (s.cases.map (·.variant)).Nodup ∧ topTypeName ∉ s.cases.map (·.variant) ∧
        ∀ c ∈ s.cases, ∃ i, i.target = "Outcome" ∧
          (s.emitted.flatMap Item.implementations).filter
            (·.trait = some ("From<" ++ c.typeName ++ ">")) = [i] := by
  have hdeclared : ((Document.empty "demo").run relabelled).union? "Outcome" =
      some ⟨"demo", "Outcome", true, ["Handle", "Ok"]⟩ := rfl
  have hvalid : ((⟨"demo", "Outcome", true, ["Handle", "Ok"]⟩ : UnionDeclaration).resolveIn
      ((Document.empty "demo").run relabelled)).validate.isFatal = false := by decide
  obtain ⟨-, -, -, hnodup, htop, -, -, hconversions, -⟩ :=
    variants_distinct "demo" relabelled hdeclared hvalid defaultRuntimePath
  exact ⟨_, hdeclared, hvalid, by decide, hnodup, htop, hconversions⟩

end TaggedUnion
