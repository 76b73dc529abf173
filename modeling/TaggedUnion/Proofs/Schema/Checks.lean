import TaggedUnion.Proofs.Schema.FirstOccurrences
import TaggedUnion.Schema.Validation

/-! # What the checks look at

    The checks look at the name and the namespace of a union, at whether it is open, and at a few
    things in the types that its cases lead to. Two unions that agree in these have the same
    findings, whatever else they differ in:

    * **`TypeSymbol.KeepsChecked`**: a change of types that leaves all of this as it is.
    * **`Union.validate_congr`**: unions have the same findings if the types of one are those of
      the other after such a change.
-/

namespace TaggedUnion.Schema

/-- A change of types that leaves what the checks look at as it is. -/
structure TypeSymbol.KeepsChecked (change : TypeSymbol → TypeSymbol) : Prop where
  id_eq : ∀ t, (change t).id = t.id
  name_eq : ∀ t, (change t).name = t.name
  kind_eq : ∀ t, (change t).kind = t.kind
  isAbstract_eq : ∀ t, (change t).isAbstract = t.isAbstract
  typeParameters_eq : ∀ t, (change t).typeParameters = t.typeParameters
  containingType_eq : ∀ t, (change t).containingType = t.containingType

namespace TypeSymbol.KeepsChecked

theorem unchanged : KeepsChecked fun t => t :=
  ⟨fun _ => rfl, fun _ => rfl, fun _ => rfl, fun _ => rfl, fun _ => rfl, fun _ => rfl⟩

variable {change : TypeSymbol → TypeSymbol}

/-- A type breaks the same rules. -/
theorem broken_eq (h : KeepsChecked change) {r : Rule × (TypeSymbol → Bool)}
    (hr : r ∈ Union.typeRules) (t : TypeSymbol) : r.2 (change t) = r.2 t := by
  simp only [Union.typeRules, List.mem_cons, List.not_mem_nil, or_false] at hr
  rcases hr with rfl | rfl | rfl
  · simp only [isInterface, h.isAbstract_eq, h.kind_eq]
  · simp only [isGeneric, h.typeParameters_eq]
  · simp only [isNested, h.containingType_eq]

end TypeSymbol.KeepsChecked

namespace Union

variable {u v : Union} {change : TypeSymbol → TypeSymbol}

/-- The types of one union are those of the other one after a change. -/
def IsChangeOf (v u : Union) (change : TypeSymbol → TypeSymbol) : Prop :=
  v.cases.map (·.symbol) = u.cases.map (·.symbol.map change)

/-- The subject of a case that cannot be one, by what its reference leads to. -/
def invalidSubjectOf : Option TypeSymbol → Option String
  | none => some unresolvedSubject
  | some t => if t.isTop then some t.name else none

namespace IsChangeOf

theorem length_cases (h : v.IsChangeOf u change) : v.cases.length = u.cases.length := by
  simpa using congrArg List.length h

theorem symbols (h : v.IsChangeOf u change) : v.symbols = u.symbols.map change := by
  have hsymbols := congrArg (List.filterMap id) h
  rw [List.filterMap_map, List.filterMap_map] at hsymbols
  rw [Union.symbols, Union.symbols, List.map_filterMap]
  exact hsymbols

theorem length_unresolved (h : v.IsChangeOf u change) :
    (v.cases.filter (·.symbol.isNone)).length = (u.cases.filter (·.symbol.isNone)).length := by
  have hunresolved := congrArg (fun symbols => (symbols.filter Option.isNone).length) h
  simpa [List.filter_map, Function.comp_def] using hunresolved

section checks

variable (hchange : TypeSymbol.KeepsChecked change)
include hchange

theorem distinctSymbols (h : v.IsChangeOf u change) :
    v.distinctSymbols = u.distinctSymbols.map change := by
  rw [Union.distinctSymbols, h.symbols, eraseDupsBy_map]
  simp only [hchange.id_eq]
  rfl

theorem distinctCount (h : v.IsChangeOf u change) : v.distinctCount = u.distinctCount := by
  rw [Union.distinctCount, h.distinctSymbols hchange, h.length_unresolved, List.length_map]
  rfl

theorem repeatedSymbols (h : v.IsChangeOf u change) :
    v.repeatedSymbols = u.repeatedSymbols.map change := by
  have hcount (t : TypeSymbol) : (v.symbols.filter (·.id == (change t).id)).length =
      (u.symbols.filter (·.id == t.id)).length := by
    rw [h.symbols, List.filter_map, List.length_map]
    simp only [Function.comp_def, hchange.id_eq]
  rw [Union.repeatedSymbols, h.distinctSymbols hchange, List.filter_map, Union.repeatedSymbols]
  simp only [Function.comp_def, hcount]

theorem invalidSubjects (h : v.IsChangeOf u change) :
    v.cases.filterMap Case.invalidSubject = u.cases.filterMap Case.invalidSubject := by
  have hsubject (symbol : Option TypeSymbol) :
      invalidSubjectOf (symbol.map change) = invalidSubjectOf symbol := by
    cases symbol with
    | none => rfl
    | some t =>
      show (if (change t).isTop then some (change t).name else none) = _
      rw [TypeSymbol.isTop, hchange.kind_eq, hchange.name_eq]
      rfl
  have hsubjects := congrArg (List.filterMap invalidSubjectOf) h
  rw [List.filterMap_map, List.filterMap_map] at hsubjects
  simp only [Function.comp_def, hsubject] at hsubjects
  exact hsubjects

end checks

end IsChangeOf

/-- The findings of a union hang on its name and namespace, on whether it is open, and on what is
    checked in the types of its cases. -/
theorem validate_congr (hscope : v.scope = u.scope) (hname : v.name = u.name)
    (hpartial : v.isPartial = u.isPartial) (hchange : TypeSymbol.KeepsChecked change)
    (h : v.IsChangeOf u change) : v.validate = u.validate := by
  have hfinding : v.finding = u.finding := by
    funext rule subject
    rw [finding, locationKey, hscope, hname]
    rfl
  have hlist : v.caseListFindings = u.caseListFindings := by
    rw [caseListFindings, h.distinctCount hchange, h.repeatedSymbols hchange, hfinding,
      h.length_cases, h.invalidSubjects hchange, hname, hpartial, List.map_map]
    simp only [Function.comp_def, hchange.name_eq]
    rfl
  have htypes : v.caseTypeFindings = u.caseTypeFindings := by
    rw [caseTypeFindings, h.symbols, hfinding, caseTypeFindings, List.flatMap_def,
      List.flatMap_def]
    refine congrArg List.flatten (List.map_congr_left ?_)
    rintro ⟨rule, broken⟩ hrule
    have hbroken : broken ∘ change = broken := funext fun t => hchange.broken_eq hrule t
    simp only [List.filter_map, hbroken, List.map_map, Function.comp_def, hchange.name_eq]
  have hstyle : v.styleFindings = u.styleFindings := by
    rw [styleFindings, h.symbols, hfinding, List.filter_map, List.map_map]
    simp only [Function.comp_def, TypeSymbol.isRecord, hchange.kind_eq, hchange.name_eq]
    rfl
  rw [validate, hlist, htypes, hstyle]
  rfl

end Union

end TaggedUnion.Schema
