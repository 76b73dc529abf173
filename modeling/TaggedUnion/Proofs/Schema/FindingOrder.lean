import TaggedUnion.Proofs.Schema.Checks
import TaggedUnion.Proofs.Schema.Findings
import TaggedUnion.Proofs.Schema.Store

/-! # The order of findings

    Findings come in the order of their codes, and those of one code in the order of the cases.
    What is found does not depend on that order:

    * **`Union.FollowsCases`**: findings that go along the list of cases.
    * **`Union.NamesById`**: the names of types hang on their ids. They do in every document
      (**`UnionDeclaration.namesById_resolveIn`**).
    * **`Union.subjects_perm`**: after a permutation of the cases the same subjects break a rule.
    * **`Union.ordersFindings`**: the order of the findings of a union, and of its permutations.

    A type that occurs more than once is named by its first occurrence, and a permutation may
    bring another one to the front. So it is its id that stays, and its name only by way of the id.
-/

namespace TaggedUnion.Schema

namespace Union

variable (u : Union)

/-! ### The order of the codes -/

/-- Findings of one tier come in the order of its rules. -/
theorem pairwise_code_findings {tier : List Rule}
    (h : tier.Pairwise fun r r' => r.code ≤ r'.code) :
    ((u.findings tier).map (·.rule.code)).Pairwise (· ≤ ·) := by
  rw [List.pairwise_map, findings, List.pairwise_flatMap]
  constructor
  · intro rule _
    rw [List.pairwise_map]
    exact List.pairwise_of_forall fun _ _ => String.le_refl _
  · refine h.imp ?_
    intro rule rule' hle d hd d' hd'
    obtain ⟨_, _, rfl⟩ := List.mem_map.mp hd
    obtain ⟨_, _, rfl⟩ := List.mem_map.mp hd'
    exact hle

theorem rule_mem_of_mem_findings {tier : List Rule} {d : Diagnostic} (h : d ∈ u.findings tier) :
    d.rule ∈ tier := by
  obtain ⟨rule, hrule, hd⟩ := List.mem_flatMap.mp h
  obtain ⟨_, _, rfl⟩ := List.mem_map.mp hd
  exact hrule

/-- What is reported for a rule is found in its tier, or is nothing. -/
theorem reported_cases (rule : Rule) :
    u.reported rule.code = (u.subjects rule).map (u.finding rule) ∨ u.reported rule.code = [] := by
  rw [reported_code, filter_diagnostics_eq]
  by_cases h : rule ∈ u.tier
  · exact .inl (if_pos h)
  · exact .inr (if_neg h)

/-! ### The order of the cases -/

/-- Findings of a rule about single cases, in the order of the cases. -/
def FollowsCases (rule : Rule) (findings : List Diagnostic) : Prop :=
  ∃ cases : List Case, cases.Sublist u.cases ∧
    findings = cases.map fun c => u.finding rule ((c.symbol.map (·.name)).getD "null")

theorem followsCases_nil (rule : Rule) : u.FollowsCases rule [] :=
  ⟨[], List.nil_sublist _, rfl⟩

theorem followsCases_filter (rule : Rule) (p : Case → Bool) :
    u.FollowsCases rule (((u.cases.filter p).map Case.subject).map (u.finding rule)) := by
  refine ⟨u.cases.filter p, List.filter_sublist, ?_⟩
  rw [List.map_map]
  rfl

/-- Types are called what their cases are called. -/
theorem map_name_filter_symbols (p : TypeSymbol → Bool) :
    (u.symbols.filter p).map (·.name) = (u.cases.filter (·.symbol.any p)).map Case.subject := by
  rw [symbols]
  induction u.cases with
  | nil => rfl
  | cons c cases ih =>
    cases hc : c.symbol with
    | none => simp [hc, ih]
    | some t =>
      cases ht : p t with
      | true => simp [hc, ht, ih, Case.subject]
      | false => simp [hc, ht, ih]

/-- The rules that are about single cases. -/
def caseRules : List Rule := .validCaseType :: .recordCase :: Rule.caseTypeRules

theorem followsCases_subjects {rule : Rule} (h : rule ∈ caseRules) :
    u.FollowsCases rule ((u.subjects rule).map (u.finding rule)) := by
  have htype (p : TypeSymbol → Bool) :
      u.FollowsCases rule (((u.symbols.filter p).map (·.name)).map (u.finding rule)) := by
    rw [map_name_filter_symbols]
    exact u.followsCases_filter rule _
  simp only [caseRules, Rule.caseTypeRules, List.mem_cons, List.not_mem_nil, or_false] at h
  rcases h with rfl | rfl | rfl | rfl | rfl
  · rw [subjects, filterMap_invalidSubject]
    split
    · exact u.followsCases_filter _ _
    · exact u.followsCases_nil _
  · exact htype _
  · exact htype _
  · exact htype _
  · exact htype _

theorem followsCases_reported {rule : Rule} (h : rule ∈ caseRules) :
    u.FollowsCases rule (u.reported rule.code) := by
  rcases u.reported_cases rule with hall | hnone
  · rw [hall]
    exact u.followsCases_subjects h
  · rw [hnone]
    exact u.followsCases_nil rule

/-- Types that occur more than once are named in the order in which they first occur. -/
theorem namesTypes_reported : ∃ ids, u.NamesTypes ids (u.reported "TU002") := by
  have hempty : u.NamesTypes [] [] := ⟨List.Pairwise.nil, .nil⟩
  have h : u.reported "TU002" = _ ∨ u.reported "TU002" = [] := u.reported_cases .distinctCases
  rcases h with hall | hnone
  · rw [hall, subjects]
    split
    · rw [List.map_map]
      exact ⟨_, u.namesTypes_repeatedSymbols⟩
    · exact ⟨[], hempty⟩
  · rw [hnone]
    exact ⟨[], hempty⟩

/-- The rules about the union itself are reported once at most. -/
theorem reported_sublist {rule : Rule} (h : rule = .enoughCases ∨ rule = .openDeclaration) :
    (u.reported rule.code).Sublist [u.finding rule u.name] := by
  have hsubjects : (u.subjects rule).Sublist [u.name] := by
    rcases h with rfl | rfl
    · rw [subjects]
      split
      · exact List.Sublist.refl _
      · exact List.nil_sublist _
    · rw [subjects]
      split
      · exact List.nil_sublist _
      · exact List.Sublist.refl _
  rcases u.reported_cases rule with hall | hnone
  · rw [hall]
    exact hsubjects.map _
  · rw [hnone]
    exact List.nil_sublist _

/-! ### Permutations of the cases -/

/-- Types with one id have one name. -/
def NamesById : Prop := ∀ s ∈ u.symbols, ∀ t ∈ u.symbols, s.id = t.id → s.name = t.name

/-- The same union with other cases. -/
def withCases (cases : List Case) : Union := { u with cases := cases }

variable {u}

/-- Names that hang on ids are a function of these. -/
theorem NamesById.exists_name (h : u.NamesById) :
    ∃ name : TypeId → String, ∀ t ∈ u.symbols, t.name = name t.id := by
  refine ⟨fun id => ((u.symbols.find? (·.id == id)).map (·.name)).getD "", ?_⟩
  intro t ht
  cases hfind : u.symbols.find? (·.id == t.id) with
  | none => exact absurd (List.find?_eq_none.mp hfind t ht) (by simp)
  | some s =>
    have hid : s.id = t.id := by simpa using List.find?_some hfind
    simpa [hfind] using (h s (List.mem_of_find?_eq_some hfind) t ht hid).symm

section permutation

variable {cases : List Case}
  (hperm : (cases.map (·.symbol)).Perm (u.cases.map (·.symbol)))
include hperm

theorem symbols_perm : (u.withCases cases).symbols.Perm u.symbols := by
  have h := hperm.filterMap id
  rw [List.filterMap_map, List.filterMap_map] at h
  exact h

theorem typeIds_perm : (u.withCases cases).typeIds.Perm u.typeIds := (symbols_perm hperm).map _

theorem distinctCount_perm : (u.withCases cases).distinctCount = u.distinctCount := by
  have hunresolved := hperm.countP_eq Option.isNone
  rw [List.countP_map, List.countP_map] at hunresolved
  rw [distinctCount_eq_card, distinctCount_eq_card,
    List.toFinset_eq_of_perm _ _ (typeIds_perm hperm)]
  exact congrArg _ hunresolved

theorem invalidSubjects_perm :
    (cases.filterMap Case.invalidSubject).Perm (u.cases.filterMap Case.invalidSubject) := by
  have h := hperm.filterMap invalidSubjectOf
  rw [List.filterMap_map, List.filterMap_map] at h
  exact h

/-- The same ids occur more than once. -/
theorem map_id_repeatedSymbols_perm :
    ((u.withCases cases).repeatedSymbols.map (·.id)).Perm (u.repeatedSymbols.map (·.id)) := by
  have hnodup (v : Union) : (v.repeatedSymbols.map (·.id)).Nodup := by
    rw [map_id_repeatedSymbols]
    exact (nodup_eraseDups _).filter _
  refine (List.perm_ext_iff_of_nodup (hnodup _) (hnodup _)).mpr ?_
  intro id
  rw [mem_map_id_repeatedSymbols, mem_map_id_repeatedSymbols, (typeIds_perm hperm).count_eq]

theorem map_name_repeatedSymbols_perm (h : u.NamesById) :
    ((u.withCases cases).repeatedSymbols.map (·.name)).Perm
      (u.repeatedSymbols.map (·.name)) := by
  obtain ⟨name, hname⟩ := h.exists_name
  -- The first occurrences may be others, but those of one id are called the same.
  have hmem (v : Union) {t : TypeSymbol} (ht : t ∈ v.repeatedSymbols) : t ∈ v.symbols :=
    (eraseDupsBy_sublist _ _).subset (List.mem_of_mem_filter ht)
  have hleft : (u.withCases cases).repeatedSymbols.map (·.name) =
      ((u.withCases cases).repeatedSymbols.map (·.id)).map name := by
    rw [List.map_map]
    exact List.map_congr_left fun t ht =>
      hname t ((symbols_perm hperm).mem_iff.mp (hmem _ ht))
  have hright : u.repeatedSymbols.map (·.name) = (u.repeatedSymbols.map (·.id)).map name := by
    rw [List.map_map]
    exact List.map_congr_left fun t ht => hname t (hmem u ht)
  rw [hleft, hright]
  exact (map_id_repeatedSymbols_perm hperm).map name

/-- The same subjects break a rule. -/
theorem subjects_perm (h : u.NamesById) (rule : Rule) :
    ((u.withCases cases).subjects rule).Perm (u.subjects rule) := by
  have hlength : (u.withCases cases).cases.length = u.cases.length := by
    simpa [withCases] using hperm.length_eq
  have htypes (p : TypeSymbol → Bool) :
      (((u.withCases cases).symbols.filter p).map (·.name)).Perm
        ((u.symbols.filter p).map (·.name)) := ((symbols_perm hperm).filter p).map _
  cases rule with
  | enoughCases =>
    rw [subjects, distinctCount_perm hperm]
    exact List.Perm.refl _
  | distinctCases =>
    rw [subjects, subjects, hlength]
    split
    · exact map_name_repeatedSymbols_perm hperm h
    · exact List.Perm.refl _
  | validCaseType =>
    rw [subjects, subjects, hlength]
    split
    · exact invalidSubjects_perm hperm
    · exact List.Perm.refl _
  | openDeclaration => exact List.Perm.refl _
  | recordCase => exact htypes _
  | concreteCase => exact htypes _
  | nonGenericCase => exact htypes _
  | unnestedCase => exact htypes _

theorem findings_perm (h : u.NamesById) (tier : List Rule) :
    ((u.withCases cases).findings tier).Perm (u.findings tier) :=
  List.Perm.flatMap_left tier fun rule _ => (subjects_perm hperm h rule).map _

/-- The codes stay in order, since those of one rule are all the same. -/
theorem map_code_findings_perm (h : u.NamesById) (tier : List Rule) :
    ((u.withCases cases).findings tier).map (·.rule.code) =
      (u.findings tier).map (·.rule.code) := by
  rw [findings, findings, List.map_flatMap, List.map_flatMap]
  refine List.flatMap_congr ?_
  intro rule _
  have hcodes (v : Union) : ((v.subjects rule).map (v.finding rule)).map (·.rule.code) =
      List.replicate (v.subjects rule).length rule.code := by
    rw [List.map_map, ← List.map_const']
    rfl
  rw [hcodes, hcodes, (subjects_perm hperm h rule).length_eq]

/-- The same tier is reported. -/
theorem tier_perm (h : u.NamesById) : (u.withCases cases).tier = u.tier := by
  have hempty (tier : List Rule) :
      ((u.withCases cases).findings tier).isEmpty = (u.findings tier).isEmpty :=
    (findings_perm hperm h tier).isEmpty_eq
  simp only [tier, hempty]

end permutation

/-! ### Findings in order -/

/-- The order of what is reported about a union, and what of it hangs on the order of the cases. -/
structure OrdersFindings (u : Union) : Prop where
  ascending : (u.validate.diagnostics.map (·.rule.code)).Pairwise (· ≤ ·)
  oneTier : ∃ codes ∈ [["TU001", "TU002", "TU003", "TU004"], ["TU006", "TU007", "TU008"],
    ["TU005"]], ∀ d ∈ u.validate.diagnostics, d.rule.code ∈ codes
  /-- Types that occur more than once come in the order in which they first occur. -/
  types : ∃ ids, u.NamesTypes ids (u.reported "TU002")
  /-- Single cases come in the order in which they are declared. -/
  cases : ∀ rule : Rule, rule.code ∈ ["TU003", "TU005", "TU006", "TU007", "TU008"] →
    u.FollowsCases rule (u.reported rule.code)
  /-- The union itself comes once at most. -/
  union : ∀ rule : Rule, rule.code ∈ ["TU001", "TU004"] →
    (u.reported rule.code).Sublist [u.finding rule u.name]
  fatal : u.validate.isFatal = true ↔ ∃ d ∈ u.validate.diagnostics, d.severity = .error
  /-- In another order of the cases, numbered anew or not, the same is found under the same
      codes. -/
  permuted : ∀ cases : List Case, (cases.map (·.symbol)).Perm (u.cases.map (·.symbol)) →
    (u.withCases cases).validate.diagnostics.map (·.rule.code) =
        u.validate.diagnostics.map (·.rule.code) ∧
      (u.withCases cases).validate.diagnostics.Perm u.validate.diagnostics

/-- The findings of a union stand in the order of their codes and of the cases, and are the same
    for every order of the cases. -/
theorem ordersFindings (h : u.NamesById) : u.OrdersFindings where
  ascending := by
    have hascending : ∀ tier ∈ Rule.tiers, tier.Pairwise fun r r' => r.code ≤ r'.code := by decide
    rw [diagnostics_eq]
    exact u.pairwise_code_findings (hascending _ u.tier_mem)
  oneTier := by
    rw [diagnostics_eq]
    refine ⟨u.tier.map Rule.code, ?_, ?_⟩
    · exact List.mem_map_of_mem (f := fun tier => tier.map Rule.code) u.tier_mem
    · intro d hd
      exact List.mem_map_of_mem (u.rule_mem_of_mem_findings hd)
  types := u.namesTypes_reported
  cases := by
    have hrules : ∀ rule : Rule, rule.code ∈ ["TU003", "TU005", "TU006", "TU007", "TU008"] →
        rule ∈ caseRules := by
      intro rule
      cases rule <;> decide
    intro rule hrule
    exact u.followsCases_reported (hrules rule hrule)
  union := by
    have hrules : ∀ rule : Rule, rule.code ∈ ["TU001", "TU004"] →
        rule = .enoughCases ∨ rule = .openDeclaration := by
      intro rule
      cases rule <;> decide
    intro rule hrule
    exact u.reported_sublist (hrules rule hrule)
  fatal := by
    rw [u.isFlagged_validate]
    simp [Diagnostic.isError]
  permuted := by
    intro cases hperm
    rw [diagnostics_eq, diagnostics_eq, tier_perm hperm h]
    exact ⟨map_code_findings_perm hperm h _, findings_perm hperm h _⟩

end Union

namespace UnionDeclaration

/-- In a document the name of a type hangs on its id. -/
theorem namesById_resolveIn {d : Document} (h : d.Sound) (declaration : UnionDeclaration) :
    (declaration.resolveIn d).NamesById := by
  have hmeant : ∀ t ∈ (declaration.resolveIn d).symbols, ∃ name, d.type? name = some t := by
    intro t ht
    obtain ⟨c, hc, hsymbol⟩ := List.mem_filterMap.mp ht
    have hc : c.symbol ∈ (declaration.resolveIn d).cases.map (·.symbol) := List.mem_map_of_mem hc
    rw [map_symbol_resolveIn] at hc
    obtain ⟨name, -, hname⟩ := List.mem_map.mp hc
    exact ⟨name, hname.trans hsymbol⟩
  intro s hs t ht hid
  obtain ⟨a, ha⟩ := hmeant s hs
  obtain ⟨b, hb⟩ := hmeant t ht
  rw [(h.id_eq_iff ha hb).2.mp hid]

end UnionDeclaration

/-- A closed union whose cases repeat a type under an alias, lead nowhere, and name the top
    type. -/
theorem Union.ordersFindings_of_aliases :
    let d := (Document.empty "demo").run
      [.addType { name := "Ok" }, .addType { name := "Fail" }, .addAlias "Yes" "Ok"]
    let u := UnionDeclaration.resolveIn
      ⟨"demo", "Result", false, ["Fail", "Missing", "Yes", "Any", "Ok", "Fail"]⟩ d
    u.NamesById ∧ u.OrdersFindings ∧
      u.validate.diagnostics.map (fun d => (d.rule.code, d.subject)) =
        [("TU002", "Fail"), ("TU002", "Ok"), ("TU003", "null"), ("TU003", "Any"),
          ("TU004", "Result")] := by
  intro d u
  have hsound : d.Sound := (Document.sound_empty "demo").run _
  have hnames : u.NamesById := UnionDeclaration.namesById_resolveIn hsound _
  exact ⟨hnames, Union.ordersFindings hnames, by decide⟩

end TaggedUnion.Schema
