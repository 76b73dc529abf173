import TaggedUnion.Proofs.Schema.Gate

/-! # Findings by rule

    The checks run tier by tier, and in a tier rule by rule. This module says what is reported for
    each rule, and counts the findings about the list of cases:

    * **`Union.subjects`**: what breaks a rule, whether or not the rule comes to be checked.
    * **`Union.diagnostics_eq`**: all findings are those of one tier, the first one that has any
      (**`Union.tier`**).
    * **`Union.filter_diagnostics`**: the rules about the list of cases are reported in full.
    * **`Union.NamesTypes`**: findings that name types in the order of their first occurrence.
    * **`Union.countsCases`**: how often the rules about the list of cases are reported, and about
      what.

    The checks compare types pairwise by their ids. The counts are about the ids themselves, so
    the types that are listed are compared with their ids first.
-/

namespace TaggedUnion.Schema

/-! ### Tiers -/

namespace Rule

/-- The rules about the list of cases. -/
def caseListRules : List Rule := [.enoughCases, .distinctCases, .validCaseType, .openDeclaration]

/-- The rules about case types that are errors. -/
def caseTypeRules : List Rule := [.concreteCase, .nonGenericCase, .unnestedCase]

/-- The rules of all tiers, in the order in which they are checked. -/
def tiers : List (List Rule) := [caseListRules, caseTypeRules, [.recordCase]]

theorem code_injective : Function.Injective code := by
  intro r r' h
  cases r <;> cases r' <;> first | rfl | exact absurd h (by decide)

end Rule

namespace Union

variable (u : Union)

/-- What breaks a rule, in the order in which it is reported. -/
def subjects : Rule → List String
  | .enoughCases => if u.distinctCount < 2 then [u.name] else []
  | .distinctCases => if 2 ≤ u.cases.length then u.repeatedSymbols.map (·.name) else []
  | .validCaseType => if 2 ≤ u.cases.length then u.cases.filterMap Case.invalidSubject else []
  | .openDeclaration => if u.isPartial then [] else [u.name]
  | .recordCase => (u.symbols.filter (!·.isRecord)).map (·.name)
  | .concreteCase => (u.symbols.filter fun t => t.isAbstract || t.isInterface).map (·.name)
  | .nonGenericCase => (u.symbols.filter TypeSymbol.isGeneric).map (·.name)
  | .unnestedCase => (u.symbols.filter TypeSymbol.isNested).map (·.name)

/-- The findings of a tier, if it is reached. -/
def findings (tier : List Rule) : List Diagnostic :=
  tier.flatMap fun rule => (u.subjects rule).map (u.finding rule)

theorem caseListFindings_eq : u.caseListFindings = u.findings Rule.caseListRules := by
  have hcases : (if 2 ≤ u.cases.length then
      u.repeatedSymbols.map (fun t => u.finding .distinctCases t.name)
        ++ (u.cases.filterMap Case.invalidSubject).map (u.finding .validCaseType) else []) =
      (u.subjects .distinctCases).map (u.finding .distinctCases) ++
        (u.subjects .validCaseType).map (u.finding .validCaseType) := by
    by_cases htwo : 2 ≤ u.cases.length
    · simp [subjects, htwo]
    · simp [subjects, htwo]
  have henough : (if u.distinctCount < 2 then [u.finding .enoughCases u.name] else []) =
      (u.subjects .enoughCases).map (u.finding .enoughCases) := by
    by_cases hfew : u.distinctCount < 2
    · simp [subjects, hfew]
    · simp [subjects, hfew]
  have hopen : (if u.isPartial then [] else [u.finding .openDeclaration u.name]) =
      (u.subjects .openDeclaration).map (u.finding .openDeclaration) := by
    cases hpartial : u.isPartial <;> simp [subjects, hpartial]
  rw [caseListFindings, hcases, henough, hopen]
  simp [findings, Rule.caseListRules]

theorem caseTypeFindings_eq : u.caseTypeFindings = u.findings Rule.caseTypeRules := by
  simp [caseTypeFindings, findings, typeRules, Rule.caseTypeRules, subjects, Function.comp_def]

theorem styleFindings_eq : u.styleFindings = u.findings [.recordCase] := by
  simp [styleFindings, findings, subjects]

/-- The tier that is reported: the first one in which something is found, or else the last one. -/
def tier : List Rule :=
  (Rule.tiers.find? fun tier => !(u.findings tier).isEmpty).getD [.recordCase]

theorem tier_cases :
    (u.findings Rule.caseListRules ≠ [] ∧ u.tier = Rule.caseListRules) ∨
    (u.findings Rule.caseListRules = [] ∧ u.findings Rule.caseTypeRules ≠ [] ∧
      u.tier = Rule.caseTypeRules) ∨
    (u.findings Rule.caseListRules = [] ∧ u.findings Rule.caseTypeRules = [] ∧
      u.tier = [.recordCase]) := by
  by_cases hlist : u.findings Rule.caseListRules = []
  · by_cases htypes : u.findings Rule.caseTypeRules = []
    · refine .inr (.inr ⟨hlist, htypes, ?_⟩)
      cases hstyle : u.findings [.recordCase] <;> simp [tier, Rule.tiers, hlist, htypes, hstyle]
    · exact .inr (.inl ⟨hlist, htypes, by simp [tier, Rule.tiers, hlist, htypes]⟩)
  · exact .inl ⟨hlist, by simp [tier, Rule.tiers, hlist]⟩

theorem tier_mem : u.tier ∈ Rule.tiers := by
  obtain ⟨-, h⟩ | ⟨-, -, h⟩ | ⟨-, -, h⟩ := u.tier_cases
  · simp [h, Rule.tiers]
  · simp [h, Rule.tiers]
  · simp [h, Rule.tiers]

theorem tier_nodup : u.tier.Nodup := by
  have hnodup : ∀ tier ∈ Rule.tiers, tier.Nodup := by decide
  exact hnodup _ u.tier_mem

/-- All findings are those of one tier. -/
theorem diagnostics_eq : u.validate.diagnostics = u.findings u.tier := by
  have hlist := isFatal_eq_false_iff_nil fun _ => u.rule_ne_of_mem_caseListFindings
  have htypes := isFatal_eq_false_iff_nil fun _ => u.rule_ne_of_mem_caseTypeFindings
  rw [caseListFindings_eq] at hlist
  rw [caseTypeFindings_eq] at htypes
  -- All findings of the first two tiers are errors, so that a tier is left behind if it has none.
  obtain ⟨hl, h⟩ | ⟨hl, ht, h⟩ | ⟨hl, ht, h⟩ := u.tier_cases
  · have hfatal : (Validation.ofFindings (u.findings Rule.caseListRules)).isFatal = true := by
      rw [← Bool.not_eq_false, hlist]
      exact hl
    simp [validate, Validation.extend, caseListFindings_eq, hfatal, h]
  · have hfatal : (Validation.ofFindings (u.findings Rule.caseTypeRules)).isFatal = true := by
      rw [← Bool.not_eq_false, htypes]
      exact ht
    rw [validate, caseListFindings_eq, caseTypeFindings_eq, hl, Validation.extend_ofFindings_nil]
    simp [Validation.extend, hfatal, h]
  · rw [validate_eq_of_tiers (u.caseListFindings_eq.trans hl) (u.caseTypeFindings_eq.trans ht), h,
      Validation.diagnostics_ofFindings, styleFindings_eq]

/-- The findings of a tier by their rule. -/
theorem filter_findings {tier : List Rule} (hnodup : tier.Nodup) (rule : Rule) :
    (u.findings tier).filter (·.rule = rule) =
      if rule ∈ tier then (u.subjects rule).map (u.finding rule) else [] := by
  induction tier with
  | nil => rfl
  | cons r tier ih =>
    obtain ⟨hr, htier⟩ := List.nodup_cons.mp hnodup
    have hsplit : u.findings (r :: tier) =
        (u.subjects r).map (u.finding r) ++ u.findings tier := rfl
    rw [hsplit, List.filter_append, ih htier]
    by_cases heq : r = rule
    · subst heq
      simp [hr]
    · have hne : rule ≠ r := fun h => heq h.symm
      simp [heq, hne]

/-- The findings of a rule are those of its tier, where that is the one that is reported. -/
theorem filter_diagnostics_eq (rule : Rule) :
    u.validate.diagnostics.filter (·.rule = rule) =
      if rule ∈ u.tier then (u.subjects rule).map (u.finding rule) else [] := by
  rw [diagnostics_eq]
  exact u.filter_findings u.tier_nodup rule

/-- A rule of the first tier is reported for everything that breaks it, whatever else is found. -/
theorem filter_diagnostics {rule : Rule} (hrule : rule ∈ Rule.caseListRules) :
    u.validate.diagnostics.filter (·.rule = rule) = (u.subjects rule).map (u.finding rule) := by
  rw [filter_diagnostics_eq]
  -- Where another tier is reported, nothing breaks a rule of the first one.
  have hunbroken (hnone : u.findings Rule.caseListRules = []) :
      (u.subjects rule).map (u.finding rule) = [] :=
    List.flatMap_eq_nil_iff.mp hnone rule hrule
  obtain ⟨-, h⟩ | ⟨hnone, -, -⟩ | ⟨hnone, -, -⟩ := u.tier_cases
  · rw [h, if_pos hrule]
  · rw [hunbroken hnone, ite_self]
  · rw [hunbroken hnone, ite_self]

/-! ### Counting -/

/-- The ids of the types that the cases lead to, in order, with repetitions. -/
def typeIds : List TypeId := u.symbols.map (·.id)

/-- What is reported about a union under a code. -/
def reported (code : String) : List Diagnostic :=
  u.validate.diagnostics.filter (·.rule.code = code)

theorem reported_code (rule : Rule) :
    u.reported rule.code = u.validate.diagnostics.filter (·.rule = rule) := by
  simp only [reported, Rule.code_injective.eq_iff]

theorem map_id_distinctSymbols : u.distinctSymbols.map (·.id) = u.typeIds.eraseDups :=
  map_eraseDupsBy_sameKey TypeSymbol.id u.symbols

/-- Types count by their ids, and references that lead nowhere count one by one. -/
theorem distinctCount_eq_card :
    u.distinctCount = u.typeIds.toFinset.card + u.cases.countP (·.symbol.isNone) := by
  have hdistinct : u.distinctSymbols.length = u.typeIds.toFinset.card := by
    rw [← length_eraseDups, ← map_id_distinctSymbols, List.length_map]
  rw [distinctCount, hdistinct, List.countP_eq_length_filter]

/-- The types that occur more than once are those whose ids do. -/
theorem map_id_repeatedSymbols :
    u.repeatedSymbols.map (·.id) =
      u.typeIds.eraseDups.filter (fun id => decide (2 ≤ u.typeIds.count id)) := by
  have hcount (t : TypeSymbol) : decide (1 < (u.symbols.filter (·.id == t.id)).length) =
      decide (2 ≤ u.typeIds.count t.id) := by
    rw [typeIds, count_map_key]
    rfl
  simp only [repeatedSymbols, hcount, ← map_id_distinctSymbols, List.filter_map]
  rfl

/-- Findings that name one type each, the first one of its id, in the order in which the ids first
    occur among the cases. -/
structure NamesTypes (ids : List TypeId) (findings : List Diagnostic) : Prop where
  order : ids.Pairwise fun a b => u.typeIds.idxOf a < u.typeIds.idxOf b
  names : List.Forall₂ (fun id d =>
    ∃ t, u.symbols.find? (·.id == id) = some t ∧ d = u.finding .distinctCases t.name) ids findings

theorem namesTypes_repeatedSymbols :
    u.NamesTypes (u.repeatedSymbols.map (·.id))
      (u.repeatedSymbols.map fun t => u.finding .distinctCases t.name) where
  order := by
    rw [map_id_repeatedSymbols]
    exact (pairwise_idxOf_eraseDups u.typeIds).sublist List.filter_sublist
  names := by
    rw [List.forall₂_map_left_iff, List.forall₂_map_right_iff, List.forall₂_same]
    intro t ht
    have hfirst : t ∈ u.distinctSymbols := List.mem_of_mem_filter ht
    exact ⟨t, find?_of_mem_eraseDupsBy TypeSymbol.id hfirst, rfl⟩

theorem mem_map_id_repeatedSymbols (id : TypeId) :
    id ∈ u.repeatedSymbols.map (·.id) ↔ 2 ≤ u.typeIds.count id := by
  rw [map_id_repeatedSymbols, List.mem_filter, List.mem_eraseDups, decide_eq_true_iff]
  refine and_iff_right_of_imp ?_
  intro htwo
  have hpos : 0 < u.typeIds.count id := by omega
  exact List.count_pos_iff.mp hpos

end Union

/-- What a case is called in findings about it. -/
def Case.subject (c : Case) : String := (c.symbol.map (·.name)).getD unresolvedSubject

/-- A case that cannot be one leads nowhere, or to the top type. -/
theorem filterMap_invalidSubject (cases : List Case) :
    cases.filterMap Case.invalidSubject =
      (cases.filter (·.symbol.all TypeSymbol.isTop)).map Case.subject := by
  induction cases with
  | nil => rfl
  | cons c cases ih =>
    cases hc : c.symbol with
    | none => simp [Case.invalidSubject, Case.subject, hc, ih]
    | some t =>
      cases htop : t.isTop with
      | true => simp [Case.invalidSubject, Case.subject, hc, htop, ih]
      | false => simp [Case.invalidSubject, hc, htop, ih]

/-- What is reported about the list of cases of a union, counted. -/
structure Union.CountsCases (u : Union) : Prop where
  /-- Too few cases are reported once. The ids of types count once each, and a reference that leads
      nowhere counts for itself. -/
  enough : u.reported "TU001" =
    if u.typeIds.toFinset.card + u.cases.countP (·.symbol.isNone) < 2
    then [u.finding .enoughCases u.name] else []
  /-- Each type whose id occurs twice at least is reported once, by its name. -/
  distinct : 2 ≤ u.cases.length →
    ∃ ids, (∀ id, id ∈ ids ↔ 2 ≤ u.typeIds.count id) ∧ u.NamesTypes ids (u.reported "TU002")
  /-- Each reference that leads nowhere or to the top type is reported, in order. -/
  valid : 2 ≤ u.cases.length →
    u.reported "TU003" =
      (u.cases.filter (·.symbol.all TypeSymbol.isTop)).map fun c =>
        u.finding .validCaseType ((c.symbol.map (·.name)).getD "null")
  /-- With fewer cases no case is reported. -/
  short : u.cases.length < 2 → u.reported "TU002" = [] ∧ u.reported "TU003" = []
  /-- A declaration that is not open is reported once. -/
  openness : u.reported "TU004" =
    if u.isPartial then [] else [u.finding .openDeclaration u.name]

/-- The rules about the list of cases are reported as often as they are broken, whatever else is
    reported and whatever the cases are called. -/
theorem Union.countsCases (u : Union) : u.CountsCases := by
  have hreported (rule : Rule) (hrule : rule ∈ Rule.caseListRules) :
      u.reported rule.code = (u.subjects rule).map (u.finding rule) :=
    (u.reported_code rule).trans (u.filter_diagnostics hrule)
  have henough : u.reported "TU001" = _ := hreported .enoughCases (by decide)
  have hdistinct : u.reported "TU002" = _ := hreported .distinctCases (by decide)
  have hvalid : u.reported "TU003" = _ := hreported .validCaseType (by decide)
  have hopen : u.reported "TU004" = _ := hreported .openDeclaration (by decide)
  refine ⟨?_, ?_, ?_, ?_, ?_⟩
  · rw [henough, subjects, distinctCount_eq_card]
    split <;> rfl
  · intro htwo
    refine ⟨_, u.mem_map_id_repeatedSymbols, ?_⟩
    rw [hdistinct, subjects, if_pos htwo, List.map_map]
    exact u.namesTypes_repeatedSymbols
  · intro htwo
    rw [hvalid, subjects, if_pos htwo, filterMap_invalidSubject, List.map_map]
    rfl
  · intro hfew
    have hnot : ¬ 2 ≤ u.cases.length := by omega
    rw [hdistinct, hvalid, subjects, subjects, if_neg hnot, if_neg hnot]
    exact ⟨rfl, rfl⟩
  · rw [hopen, subjects]
    split <;> rfl

end TaggedUnion.Schema
