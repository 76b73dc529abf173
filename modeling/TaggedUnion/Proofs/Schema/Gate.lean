import TaggedUnion.Generate
import TaggedUnion.Proofs.Schema.FirstOccurrences

/-! # The gate before code

    Code is emitted for a union only if its validation finds no error. This module says which
    unions these are, without the tiers and the rules:

    * **`IsPlain`**, **`IsAcceptable`**: what is asked of a case type, and of a union.
    * **`isFatal_eq_false_iff`**: the validation finds no error exactly in acceptable unions.
    * **`IsAcceptableIn`**: the same demand on a declaration, in terms of its document.

    The flag of a validation tells whether an error was reported (`Validation.IsFlagged`). All
    findings of the first two tiers are errors, so that a union without errors has none of them
    (`isFatal_eq_false_iff_tiers`); each tier is then turned into its part of the demand.
-/

namespace TaggedUnion.Schema

/-! ### What is asked of a union -/

/-- What is asked of the type of a case. -/
structure TypeSymbol.IsPlain (t : TypeSymbol) : Prop where
  not_top : t.isTop = false
  not_abstract : t.isAbstract = false
  not_interface : t.isInterface = false
  not_generic : t.isGeneric = false
  not_nested : t.isNested = false

/-- What is asked of a union for code to be emitted. -/
structure Union.IsAcceptable (u : Union) : Prop where
  isPartial : u.isPartial = true
  two_le_length : 2 ≤ u.cases.length
  /-- Every reference leads to a type. -/
  resolved : ∀ c ∈ u.cases, c.symbol.isSome
  /-- No two references lead to one type. -/
  ids_nodup : (u.symbols.map (·.id)).Nodup
  plain : ∀ t ∈ u.symbols, t.IsPlain

/-! ### The flag -/

namespace Validation

/-- The flag is up exactly if there is an error among the findings. -/
def IsFlagged (v : Validation) : Prop := v.isFatal = v.diagnostics.any Diagnostic.isError

variable {v : Validation}

theorem IsFlagged.report (h : v.IsFlagged) (d : Diagnostic) : (v.report d).IsFlagged := by
  have hany : (v.diagnostics ++ [d]).any Diagnostic.isError =
      (v.diagnostics.any Diagnostic.isError || d.isError) := by
    simp
  rw [IsFlagged, Validation.report, hany, ← h]

theorem IsFlagged.foldl_report (h : v.IsFlagged) (findings : List Diagnostic) :
    (findings.foldl Validation.report v).IsFlagged := by
  induction findings generalizing v with
  | nil => exact h
  | cons d findings ih => exact ih (h.report d)

theorem isFlagged_ofFindings (findings : List Diagnostic) : (ofFindings findings).IsFlagged := by
  have hnone : ({} : Validation).IsFlagged := rfl
  exact hnone.foldl_report findings

theorem IsFlagged.extend (h : v.IsFlagged) (findings : List Diagnostic) :
    (v.extend findings).IsFlagged := by
  unfold Validation.extend
  split
  · exact h
  · exact h.foldl_report findings

/-- Reporting puts the findings behind those before them. -/
theorem diagnostics_foldl_report (v : Validation) (findings : List Diagnostic) :
    (findings.foldl Validation.report v).diagnostics = v.diagnostics ++ findings := by
  induction findings generalizing v with
  | nil => exact (List.append_nil _).symm
  | cons d findings ih =>
    rw [List.foldl_cons, ih, Validation.report, List.append_assoc]
    rfl

@[simp] theorem diagnostics_ofFindings (findings : List Diagnostic) :
    (ofFindings findings).diagnostics = findings :=
  diagnostics_foldl_report {} findings

theorem isFatal_ofFindings (findings : List Diagnostic) :
    (ofFindings findings).isFatal = findings.any Diagnostic.isError := by
  rw [isFlagged_ofFindings, diagnostics_ofFindings]

/-- Behind a tier without findings the next one is the first. -/
theorem extend_ofFindings_nil (findings : List Diagnostic) :
    (ofFindings []).extend findings = ofFindings findings := rfl

end Validation

namespace Union

/-- A union is flagged exactly if an error is found in it. -/
theorem isFlagged_validate (u : Union) : u.validate.IsFlagged :=
  ((Validation.isFlagged_ofFindings _).extend _).extend _

/-! ### The tiers -/

/-- Every rule but the one about records is an error. -/
theorem isError_eq_false_iff (d : Diagnostic) : d.isError = false ↔ d.rule = .recordCase := by
  have hrule : ∀ rule : Rule, (rule.severity == .error) = false ↔ rule = .recordCase := by
    intro rule
    cases rule <;> decide
  exact hrule d.rule

@[simp] theorem rule_finding (u : Union) (rule : Rule) (subject : String) :
    (u.finding rule subject).rule = rule := rfl

theorem rule_ne_of_mem_caseListFindings {u : Union} {d : Diagnostic}
    (h : d ∈ u.caseListFindings) : d.rule ≠ .recordCase := by
  rcases List.mem_append.mp h with h | h
  · rcases List.mem_append.mp h with h | h
    · split at h
      · simp [List.mem_singleton.mp h]
      · cases h
    · split at h
      · rcases List.mem_append.mp h with h | h
        · obtain ⟨t, -, rfl⟩ := List.mem_map.mp h
          simp
        · obtain ⟨subject, -, rfl⟩ := List.mem_map.mp h
          simp
      · cases h
  · split at h
    · cases h
    · simp [List.mem_singleton.mp h]

theorem rule_ne_of_mem_caseTypeFindings {u : Union} {d : Diagnostic}
    (h : d ∈ u.caseTypeFindings) : d.rule ≠ .recordCase := by
  obtain ⟨⟨rule, broken⟩, hrule, hd⟩ := List.mem_flatMap.mp h
  obtain ⟨t, -, rfl⟩ := List.mem_map.mp hd
  have hne : ∀ r ∈ typeRules, r.1 ≠ .recordCase := by decide
  exact hne _ hrule

theorem rule_eq_of_mem_styleFindings {u : Union} {d : Diagnostic}
    (h : d ∈ u.styleFindings) : d.rule = .recordCase := by
  obtain ⟨t, -, rfl⟩ := List.mem_map.mp h
  rfl

/-- Findings that are all errors are fatal unless there are none. -/
theorem isFatal_eq_false_iff_nil {findings : List Diagnostic}
    (h : ∀ d ∈ findings, d.rule ≠ .recordCase) :
    (Validation.ofFindings findings).isFatal = false ↔ findings = [] := by
  rw [Validation.isFatal_ofFindings]
  cases findings with
  | nil => simp
  | cons d ds =>
    have hd : d.isError = true := by
      rw [← Bool.not_eq_false, isError_eq_false_iff]
      exact h d List.mem_cons_self
    simp [hd]

/-- A union without findings in the first two tiers has the findings of the third. -/
theorem validate_eq_of_tiers {u : Union} (hlist : u.caseListFindings = [])
    (htypes : u.caseTypeFindings = []) : u.validate = .ofFindings u.styleFindings := by
  rw [validate, hlist, htypes, Validation.extend_ofFindings_nil, Validation.extend_ofFindings_nil]

/-- No error is found exactly if the first two tiers have no findings. -/
theorem isFatal_eq_false_iff_tiers (u : Union) :
    u.validate.isFatal = false ↔ u.caseListFindings = [] ∧ u.caseTypeFindings = [] := by
  constructor
  · intro h
    -- A fatal tier stays the outcome, so each tier can be taken to be without errors in turn.
    have hlist : (Validation.ofFindings u.caseListFindings).isFatal = false := by
      cases hl : (Validation.ofFindings u.caseListFindings).isFatal with
      | false => rfl
      | true => simp [validate, Validation.extend, hl] at h
    have hnil := (isFatal_eq_false_iff_nil fun _ => rule_ne_of_mem_caseListFindings).mp hlist
    have htypes : (Validation.ofFindings u.caseTypeFindings).isFatal = false := by
      cases ht : (Validation.ofFindings u.caseTypeFindings).isFatal with
      | false => rfl
      | true =>
        rw [validate, hnil, Validation.extend_ofFindings_nil] at h
        simp [Validation.extend, ht] at h
    exact ⟨hnil, (isFatal_eq_false_iff_nil fun _ => rule_ne_of_mem_caseTypeFindings).mp htypes⟩
  · rintro ⟨hlist, htypes⟩
    rw [validate_eq_of_tiers hlist htypes, Validation.isFatal_ofFindings]
    refine List.any_eq_false.mpr ?_
    intro d hd
    have := (isError_eq_false_iff d).mpr (rule_eq_of_mem_styleFindings hd)
    simp [this]

/-! ### The second tier: the types of the cases -/

theorem caseTypeFindings_eq_nil_iff (u : Union) :
    u.caseTypeFindings = [] ↔
      ∀ t ∈ u.symbols, t.isAbstract = false ∧ t.isInterface = false ∧ t.isGeneric = false ∧
        t.isNested = false := by
  constructor
  · intro h t ht
    have hrule : ∀ r ∈ typeRules, r.2 t = false := by
      intro r hr
      have hnone := List.flatMap_eq_nil_iff.mp h r hr
      rw [← Bool.not_eq_true]
      exact List.filter_eq_nil_iff.mp (List.map_eq_nil_iff.mp hnone) t ht
    simpa [typeRules, and_assoc] using hrule
  · intro h
    -- The findings are listed rule by rule, and no rule lists a type.
    refine List.flatMap_eq_nil_iff.mpr ?_
    intro r hr
    refine List.map_eq_nil_iff.mpr (List.filter_eq_nil_iff.mpr ?_)
    intro t ht
    obtain ⟨habstract, hinterface, hgeneric, hnested⟩ := h t ht
    have hrule : ∀ r ∈ typeRules, r.2 t = false := by
      simp [typeRules, habstract, hinterface, hgeneric, hnested]
    simp [hrule r hr]

/-! ### The first tier: the list of cases -/

/-- Every case leads to a type or nowhere. -/
theorem length_symbols (u : Union) :
    u.symbols.length + (u.cases.filter (·.symbol.isNone)).length = u.cases.length := by
  rw [symbols]
  induction u.cases with
  | nil => rfl
  | cons c cs ih =>
    cases hc : c.symbol with
    | none => simp [hc]; omega
    | some t => simp [hc]; omega

theorem distinctCount_le (u : Union) : u.distinctCount ≤ u.cases.length := by
  have hle : u.distinctSymbols.length ≤ u.symbols.length :=
    (eraseDupsBy_sublist _ _).length_le
  have := u.length_symbols
  rw [distinctCount]
  omega

theorem distinctCount_eq {u : Union} (h : (u.symbols.map (·.id)).Nodup) :
    u.distinctCount = u.cases.length := by
  have hall : u.distinctSymbols = u.symbols := eraseDupsBy_of_nodup TypeSymbol.id h
  rw [distinctCount, hall, u.length_symbols]

theorem repeatedSymbols_eq_nil_iff (u : Union) :
    u.repeatedSymbols = [] ↔ (u.symbols.map (·.id)).Nodup := by
  rw [nodup_iff_length_filter_le, repeatedSymbols, List.filter_eq_nil_iff]
  refine forall₂_congr fun t _ => ?_
  rw [decide_eq_true_iff, Nat.not_lt]

/-- No case is invalid exactly if all lead to types other than the top type. -/
theorem invalidSubjects_eq_nil_iff (u : Union) :
    u.cases.filterMap Case.invalidSubject = [] ↔
      (∀ c ∈ u.cases, c.symbol.isSome) ∧ ∀ t ∈ u.symbols, t.isTop = false := by
  have hcase (c : Case) :
      c.invalidSubject = none ↔ c.symbol.isSome ∧ ∀ t ∈ c.symbol, t.isTop = false := by
    cases hc : c.symbol <;> simp [Case.invalidSubject, hc]
  rw [List.filterMap_eq_nil_iff]
  constructor
  · intro h
    refine ⟨fun c hc => ((hcase c).mp (h c hc)).1, fun t ht => ?_⟩
    obtain ⟨c, hc, ht⟩ := List.mem_filterMap.mp ht
    exact ((hcase c).mp (h c hc)).2 t ht
  · rintro ⟨hsome, htop⟩ c hc
    exact (hcase c).mpr
      ⟨hsome c hc, fun t ht => htop t (List.mem_filterMap.mpr ⟨c, hc, ht⟩)⟩

theorem caseListFindings_eq_nil_iff (u : Union) :
    u.caseListFindings = [] ↔
      u.isPartial = true ∧ 2 ≤ u.cases.length ∧ (∀ c ∈ u.cases, c.symbol.isSome) ∧
      (u.symbols.map (·.id)).Nodup ∧ ∀ t ∈ u.symbols, t.isTop = false := by
  have hopen : (if u.isPartial then [] else [u.finding .openDeclaration u.name]) = [] ↔
      u.isPartial = true := by
    cases u.isPartial <;> simp
  have hsingle : (u.repeatedSymbols.map (fun t => u.finding .distinctCases t.name)
      ++ (u.cases.filterMap Case.invalidSubject).map (u.finding .validCaseType)) = [] ↔
      (u.symbols.map (·.id)).Nodup ∧ (∀ c ∈ u.cases, c.symbol.isSome) ∧
        ∀ t ∈ u.symbols, t.isTop = false := by
    rw [List.append_eq_nil_iff, List.map_eq_nil_iff, List.map_eq_nil_iff,
      repeatedSymbols_eq_nil_iff, invalidSubjects_eq_nil_iff]
  have hcount : (if u.distinctCount < 2 then [u.finding .enoughCases u.name] else []) = [] ↔
      2 ≤ u.distinctCount := by
    by_cases h : u.distinctCount < 2
    · simp [h]
    · simp [h, Nat.not_lt.mp h]
  rw [caseListFindings, List.append_eq_nil_iff, List.append_eq_nil_iff, hopen, hcount]
  constructor
  · rintro ⟨⟨htwo, hchecked⟩, hpartial⟩
    -- Two distinct cases are two cases, so that the single cases have been checked.
    have hlength : 2 ≤ u.cases.length := Nat.le_trans htwo u.distinctCount_le
    rw [if_pos hlength, hsingle] at hchecked
    obtain ⟨hnodup, hsome, htop⟩ := hchecked
    exact ⟨hpartial, hlength, hsome, hnodup, htop⟩
  · rintro ⟨hpartial, hlength, hsome, hnodup, htop⟩
    refine ⟨⟨?_, ?_⟩, hpartial⟩
    · -- Without repetitions the distinct cases are all cases.
      rw [distinctCount_eq hnodup]
      exact hlength
    · rw [if_pos hlength, hsingle]
      exact ⟨hnodup, hsome, htop⟩

/-! ### The gate -/

/-- The validation finds no error exactly in acceptable unions. -/
theorem isFatal_eq_false_iff (u : Union) : u.validate.isFatal = false ↔ u.IsAcceptable := by
  rw [isFatal_eq_false_iff_tiers, caseListFindings_eq_nil_iff, caseTypeFindings_eq_nil_iff]
  constructor
  · rintro ⟨⟨hpartial, hlength, hsome, hnodup, htop⟩, htypes⟩
    refine ⟨hpartial, hlength, hsome, hnodup, fun t ht => ?_⟩
    obtain ⟨habstract, hinterface, hgeneric, hnested⟩ := htypes t ht
    exact ⟨htop t ht, habstract, hinterface, hgeneric, hnested⟩
  · intro h
    exact ⟨⟨h.isPartial, h.two_le_length, h.resolved, h.ids_nodup,
      fun t ht => (h.plain t ht).not_top⟩,
      fun t ht => ⟨(h.plain t ht).not_abstract, (h.plain t ht).not_interface,
        (h.plain t ht).not_generic, (h.plain t ht).not_nested⟩⟩

/-- A union without errors has one warning for every case that is not a record, in order. -/
theorem diagnostics_of_not_isFatal {u : Union} (h : u.validate.isFatal = false) :
    u.validate.diagnostics.map some =
      (u.cases.filter (!·.isRecord)).map fun c =>
        c.symbol.map fun t => u.finding .recordCase t.name := by
  obtain ⟨hlist, htypes⟩ := u.isFatal_eq_false_iff_tiers.mp h
  have hresolved : ∀ c ∈ u.cases, c.symbol.isSome := (u.isFatal_eq_false_iff.mp h).resolved
  rw [validate_eq_of_tiers hlist htypes, Validation.diagnostics_ofFindings, styleFindings, symbols]
  -- Every case is resolved, so that the list of types follows the list of cases.
  generalize u.cases = cs at hresolved
  induction cs with
  | nil => rfl
  | cons c cs ih =>
    have hcs := ih fun c hc => hresolved c (List.mem_cons_of_mem _ hc)
    obtain ⟨t, ht⟩ := Option.isSome_iff_exists.mp (hresolved c List.mem_cons_self)
    cases hrecord : t.isRecord with
    | true => simpa [ht, Case.isRecord, hrecord] using hcs
    | false => simpa [ht, Case.isRecord, hrecord] using hcs

theorem warning_of_not_isFatal {u : Union} (h : u.validate.isFatal = false) :
    ∀ g ∈ u.validate.diagnostics, g.rule.code = "TU005" ∧ g.severity = .warning := by
  intro g hg
  obtain ⟨hlist, htypes⟩ := u.isFatal_eq_false_iff_tiers.mp h
  rw [validate_eq_of_tiers hlist htypes, Validation.diagnostics_ofFindings] at hg
  have hrule : g.rule = .recordCase := rule_eq_of_mem_styleFindings hg
  rw [Diagnostic.severity, hrule]
  exact ⟨rfl, rfl⟩

end Union

/-! ### The gate of a document -/

/-- What does not depend on positions can be listed without them. -/
theorem map_mapIdx_eq {α β γ : Type} {g : Nat → α → β} {f : β → γ} {k : α → γ}
    (h : ∀ i a, f (g i a) = k a) (xs : List α) : (xs.mapIdx g).map f = xs.map k := by
  refine List.ext_getElem? fun i => ?_
  rw [List.getElem?_map, List.getElem?_map, List.getElem?_mapIdx, Option.map_map]
  exact congrArg (xs[i]?.map ·) (funext (h i))

namespace UnionDeclaration

/-- The union with the types that its references mean in a document. -/
def resolveIn (declaration : UnionDeclaration) (d : Document) : Union where
  scope := declaration.scope
  name := declaration.name
  isPartial := declaration.isPartial
  cases := declaration.cases.mapIdx (Union.resolveCase d)

/-- What is asked of a declared union for code to be emitted. -/
structure IsAcceptableIn (declaration : UnionDeclaration) (d : Document) : Prop where
  isPartial : declaration.isPartial = true
  two_le_length : 2 ≤ declaration.cases.length
  /-- Every reference is the name or an alias of a type. -/
  resolved : ∀ reference ∈ declaration.cases, (d.type? reference).isSome
  /-- No two references mean one type. -/
  ids_nodup : ((declaration.cases.filterMap d.type?).map (·.id)).Nodup
  plain : ∀ t ∈ declaration.cases.filterMap d.type?, t.IsPlain

/-- Every case has the type that its reference means, and no case is left out. -/
theorem map_symbol_resolveIn (declaration : UnionDeclaration) (d : Document) :
    (declaration.resolveIn d).cases.map (·.symbol) = declaration.cases.map d.type? := by
  refine map_mapIdx_eq ?_ declaration.cases
  intro i reference
  rfl

theorem isAcceptable_resolveIn_iff (declaration : UnionDeclaration) (d : Document) :
    (declaration.resolveIn d).IsAcceptable ↔ declaration.IsAcceptableIn d := by
  have hmap := declaration.map_symbol_resolveIn d
  have hlength : (declaration.resolveIn d).cases.length = declaration.cases.length :=
    List.length_mapIdx ..
  -- The types of the resolved union are those of the references, also where some lead nowhere.
  have hsymbols : (declaration.resolveIn d).symbols = declaration.cases.filterMap d.type? := by
    have := congrArg (List.filterMap id) hmap
    rw [List.filterMap_map, List.filterMap_map] at this
    exact this
  have hresolved : (∀ c ∈ (declaration.resolveIn d).cases, c.symbol.isSome) ↔
      ∀ reference ∈ declaration.cases, (d.type? reference).isSome := by
    have hcases : (∀ t ∈ (declaration.resolveIn d).cases.map (·.symbol), t.isSome) ↔
        ∀ c ∈ (declaration.resolveIn d).cases, c.symbol.isSome := List.forall_mem_map
    rw [← hcases, hmap, List.forall_mem_map]
  constructor
  · intro h
    exact ⟨h.isPartial, hlength ▸ h.two_le_length, hresolved.mp h.resolved,
      hsymbols ▸ h.ids_nodup, hsymbols ▸ h.plain⟩
  · intro h
    exact ⟨h.isPartial, hlength.symm ▸ h.two_le_length, hresolved.mpr h.resolved,
      hsymbols.symm ▸ h.ids_nodup, hsymbols.symm ▸ h.plain⟩

/-- A declared union without errors is acceptable. -/
theorem isAcceptableIn_of_not_isFatal {declaration : UnionDeclaration} {d : Document}
    (h : (declaration.resolveIn d).validate.isFatal = false) : declaration.IsAcceptableIn d :=
  (declaration.isAcceptable_resolveIn_iff d).mp
    ((declaration.resolveIn d).isFatal_eq_false_iff.mp h)

end UnionDeclaration

theorem Document.name_of_union? {d : Document} {name : String} {declaration : UnionDeclaration}
    (h : d.union? name = some declaration) : declaration.name = name := by
  simpa using List.find?_some h

theorem Union.ofDocument_of_union? {d : Document} {name : String}
    {declaration : UnionDeclaration} (h : d.union? name = some declaration) :
    Union.ofDocument d name = .ok (declaration.resolveIn d) := by
  rw [ofDocument, h]
  rfl

end TaggedUnion.Schema

namespace TaggedUnion

open Schema

theorem generate_of_union? {d : Document} {name : String} {declaration : UnionDeclaration}
    (h : d.union? name = some declaration) (path : String) :
    let u := declaration.resolveIn d
    generate d name path =
      if u.validate.isFatal then .error (.invalid u.locationKey u.validate.diagnostics)
      else .ok ⟨u.populate.artifacts path, u.validate.diagnostics⟩ := by
  rw [generate, Union.ofDocument_of_union? h]

theorem generate_of_not_isFatal {d : Document} {name : String} {declaration : UnionDeclaration}
    (hdeclared : d.union? name = some declaration)
    (hvalid : (declaration.resolveIn d).validate.isFatal = false) (path : String) :
    generate d name path = .ok ⟨(declaration.resolveIn d).populate.artifacts path,
      (declaration.resolveIn d).validate.diagnostics⟩ :=
  (generate_of_union? hdeclared path).trans (if_neg (by simp [hvalid]))

/-- Code is emitted for declared and acceptable unions only. -/
theorem exists_of_generate_ok {d : Document} {name path : String} {g : Generated}
    (h : generate d name path = .ok g) :
    ∃ declaration, d.union? name = some declaration ∧ declaration.IsAcceptableIn d ∧
      let u := declaration.resolveIn d
      g = ⟨u.populate.artifacts path, u.validate.diagnostics⟩ := by
  cases hdeclared : d.union? name with
  | none =>
    rw [generate, Union.ofDocument, hdeclared] at h
    cases h
  | some declaration =>
    rw [generate_of_union? hdeclared] at h
    cases hfatal : (declaration.resolveIn d).validate.isFatal with
    | true =>
      rw [hfatal] at h
      cases h
    | false =>
      rw [hfatal] at h
      have hacceptable := (declaration.resolveIn d).isFatal_eq_false_iff.mp hfatal
      exact ⟨declaration, rfl, (declaration.isAcceptable_resolveIn_iff d).mp hacceptable,
        (Except.ok.inj h).symm⟩

/-- The validation finds no error exactly in acceptable unions, and there it finds one warning
    for every case that is not a record. So code is emitted exactly for the unions that a
    document declares and that are acceptable in it; all findings come along, and they also
    come along where the union is refused. -/
theorem generate_iff_acceptable :
    (∀ u : Union, u.validate.isFatal = false ↔ u.IsAcceptable) ∧
    (∀ u : Union, u.validate.isFatal = false →
      u.validate.diagnostics.map some =
        ((u.cases.filter (!·.isRecord)).map fun c =>
          c.symbol.map fun t => u.finding .recordCase t.name) ∧
      ∀ g ∈ u.validate.diagnostics, g.rule.code = "TU005" ∧ g.severity = .warning) ∧
    ∀ (d : Document) (name path : String),
      (d.union? name = none ∧ generate d name path = .error (.notFound ⟨name⟩)) ∨
      ∃ declaration, d.union? name = some declaration ∧
        let u := declaration.resolveIn d
        (declaration.IsAcceptableIn d ∧
          generate d name path = .ok ⟨u.populate.artifacts path, u.validate.diagnostics⟩) ∨
        (¬ declaration.IsAcceptableIn d ∧
          generate d name path = .error (.invalid u.locationKey u.validate.diagnostics)) := by
  refine ⟨Union.isFatal_eq_false_iff, ?_, ?_⟩
  · intro u h
    exact ⟨Union.diagnostics_of_not_isFatal h, Union.warning_of_not_isFatal h⟩
  · intro d name path
    cases hdeclared : d.union? name with
    | none => exact .inl ⟨rfl, by rw [generate, Union.ofDocument, hdeclared]⟩
    | some declaration =>
      refine .inr ⟨declaration, rfl, ?_⟩
      have hgate := (declaration.resolveIn d).isFatal_eq_false_iff.trans
        (declaration.isAcceptable_resolveIn_iff d)
      rw [generate_of_union? hdeclared]
      cases hfatal : (declaration.resolveIn d).validate.isFatal with
      | false => exact .inl ⟨hgate.mp hfatal, rfl⟩
      | true =>
        have hrefused : ¬ declaration.IsAcceptableIn d := by
          intro hacceptable
          rw [hgate.mpr hacceptable] at hfatal
          cases hfatal
        exact .inr ⟨hrefused, rfl⟩

end TaggedUnion
