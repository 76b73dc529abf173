import TaggedUnion.Schema.Diagnostic
import TaggedUnion.Schema.Union

/-! # Checking a union

    The rules are checked in three tiers, and a tier is reached only if the ones before it
    found no error:

    * **Case list**: number, distinctness and validity of the cases, openness.
    * **Case types**: concrete, not generic, not nested; by rule, then by case.
    * **Style**: records.

    Within a tier every rule is reported in full. The findings are reported one by one, and a flag
    is raised with the first error among them.
-/

namespace TaggedUnion.Schema

/-- What is reported for a reference that leads nowhere. -/
def unresolvedSubject : String := "null"

/-- The types that the cases lead to, in order, with repetitions. -/
def Union.symbols (u : Union) : List TypeSymbol := u.cases.filterMap (·.symbol)

/-- The first occurrence of every type. -/
def Union.distinctSymbols (u : Union) : List TypeSymbol :=
  u.symbols.eraseDupsBy fun a b => a.id == b.id

/-- The number of distinct cases: types count by identity, and every reference that leads
    nowhere counts for itself. -/
def Union.distinctCount (u : Union) : Nat :=
  u.distinctSymbols.length + (u.cases.filter (·.symbol.isNone)).length

/-- The types that occur more than once, each once, in order of first occurrence. -/
def Union.repeatedSymbols (u : Union) : List TypeSymbol :=
  u.distinctSymbols.filter fun t => 1 < (u.symbols.filter (·.id == t.id)).length

/-- The subject of a case that cannot be one: it leads nowhere, or to the top type. -/
def Case.invalidSubject (c : Case) : Option String :=
  match c.symbol with
  | none => some unresolvedSubject
  | some t => if t.isTop then some t.name else none

namespace Union

/-- The finding that a subject breaks a rule. -/
def finding (u : Union) (rule : Rule) (subject : String) : Diagnostic :=
  ⟨rule, subject, u.locationKey⟩

/-- The findings of the first tier. Single cases are checked only where there are two. -/
def caseListFindings (u : Union) : List Diagnostic :=
  (if u.distinctCount < 2 then [u.finding .enoughCases u.name] else [])
  ++ (if 2 ≤ u.cases.length then
        u.repeatedSymbols.map (fun t => u.finding .distinctCases t.name)
        ++ (u.cases.filterMap Case.invalidSubject).map (u.finding .validCaseType)
      else [])
  ++ (if u.isPartial then [] else [u.finding .openDeclaration u.name])

/-- The rules of the second tier with what breaks them. -/
def typeRules : List (Rule × (TypeSymbol → Bool)) :=
  [(.concreteCase, fun t => t.isAbstract || t.isInterface),
   (.nonGenericCase, TypeSymbol.isGeneric),
   (.unnestedCase, TypeSymbol.isNested)]

/-- The findings of the second tier. -/
def caseTypeFindings (u : Union) : List Diagnostic :=
  typeRules.flatMap fun (rule, broken) =>
    (u.symbols.filter broken).map fun t => u.finding rule t.name

/-- The findings of the third tier. -/
def styleFindings (u : Union) : List Diagnostic :=
  (u.symbols.filter (!·.isRecord)).map fun t => u.finding .recordCase t.name

end Union

/-- The outcome of checking a union. -/
structure Validation where
  /-- The findings, in the order in which they were reported. -/
  diagnostics : List Diagnostic := []
  /-- An error was reported, which stops code from being emitted. -/
  isFatal : Bool := false
deriving Repr, DecidableEq

namespace Validation

/-- The rules that were found broken, one for each finding. -/
def rules (v : Validation) : List Rule := v.diagnostics.map (·.rule)

/-- Reports a finding; an error raises the flag. -/
def report (v : Validation) (d : Diagnostic) : Validation where
  diagnostics := v.diagnostics ++ [d]
  isFatal := v.isFatal || d.isError

/-- The outcome of a first tier. -/
def ofFindings (findings : List Diagnostic) : Validation := findings.foldl report {}

/-- Reports the findings of a further tier, unless an error was reported before it. -/
def extend (v : Validation) (findings : List Diagnostic) : Validation :=
  if v.isFatal then v else findings.foldl report v

end Validation

/-- Checks a union, tier by tier. -/
def Union.validate (u : Union) : Validation :=
  ((Validation.ofFindings u.caseListFindings).extend u.caseTypeFindings).extend u.styleFindings

end TaggedUnion.Schema
