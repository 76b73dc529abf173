import TaggedUnion.Proofs.Schema.Checks
import TaggedUnion.Proofs.Schema.Selection

/-! # What populating changes

    Cases are populated one by one, each from the type that its reference leads to. What a case had
    before in the two places that are filled is not looked at:

    * **`Case.IsPopulatedAs`**: the three ways in which a case is populated, as a relation between
      the case before and behind.
    * **`Case.IsPopulatedAs.frame`**: in each of them all other parts of the case are kept.
    * **`Union.validate_populate`**: no check looks at the places that are filled.
    * **`Union.populates`**: the same for unions, and that a second time changes nothing.
-/

namespace TaggedUnion.Schema

/-! ### One case -/

/-- What becomes of a case that is populated. -/
inductive Case.IsPopulatedAs (c : Case) : Case → Prop where
  /-- A case that leads nowhere stays as it is. -/
  | unresolved (missing : c.symbol = none) : IsPopulatedAs c c
  /-- A case whose type is built with a constructor has it, with its parameters. -/
  | built (t : TypeSymbol) (k : Constructor) (found : c.symbol = some t)
      (chosen : t.IsBuiltWith k) :
      IsPopulatedAs c
        { c with constructor := some k.ref, parameters := k.parameters.map k.caseParameter }
  /-- A case whose type has no constructor with parameters has none. -/
  | bare (t : TypeSymbol) (found : c.symbol = some t) (unbuildable : ¬ t.IsBuildable) :
      IsPopulatedAs c { c with constructor := none, parameters := [] }

namespace Case

variable {c c' : Case}

theorem populate_of_resolved {t : TypeSymbol} (h : c.symbol = some t) :
    c.populate =
      { c with
        constructor := t.selectConstructor.map Constructor.ref
        parameters := (t.selectConstructor.map Constructor.caseParameters).getD [] } := by
  simp only [populate, h]

theorem isPopulatedAs_populate (c : Case) : c.IsPopulatedAs c.populate := by
  cases hsymbol : c.symbol with
  | none =>
    have hsame : c.populate = c := by simp only [populate, hsymbol]
    rw [hsame]
    exact .unresolved hsymbol
  | some t =>
    rw [populate_of_resolved hsymbol]
    cases hchosen : t.selectConstructor with
    | none => exact .bare t hsymbol (TypeSymbol.selectConstructor_eq_none_iff.mp hchosen)
    | some k => exact .built t k hsymbol (TypeSymbol.selectConstructor_eq_some_iff.mp hchosen)

/-- Only the places that are filled are changed. -/
theorem IsPopulatedAs.frame (h : c.IsPopulatedAs c') :
    c'.ordinal = c.ordinal ∧ c'.name = c.name ∧ c'.reference = c.reference ∧
      c'.symbol = c.symbol ∧ (c.symbol = none → c' = c) := by
  cases h with
  | unresolved missing => exact ⟨rfl, rfl, rfl, rfl, fun _ => rfl⟩
  | built t k found chosen =>
    refine ⟨rfl, rfl, rfl, rfl, ?_⟩
    intro hnone
    rw [found] at hnone
    cases hnone
  | bare t found unbuildable =>
    refine ⟨rfl, rfl, rfl, rfl, ?_⟩
    intro hnone
    rw [found] at hnone
    cases hnone

/-- What a case is populated to hangs on its type, not on what stood in the places before. -/
theorem populate_populate (c : Case) : c.populate.populate = c.populate := by
  obtain ⟨-, -, -, hsymbol, hunresolved⟩ := c.isPopulatedAs_populate.frame
  cases ht : c.symbol with
  | none => rw [hunresolved ht, hunresolved ht]
  | some t =>
    -- Both times the places are filled from the same type.
    rw [populate_of_resolved (hsymbol.trans ht), populate_of_resolved ht]

end Case

/-! ### Unions -/

namespace Union

variable (u : Union)

theorem forall₂_isPopulatedAs :
    List.Forall₂ Case.IsPopulatedAs u.cases u.populate.cases := by
  rw [populate, List.forall₂_map_right_iff, List.forall₂_same]
  intro c _
  exact c.isPopulatedAs_populate

theorem populate_populate : u.populate.populate = u.populate := by
  have hcases : (u.cases.map Case.populate).map Case.populate = u.cases.map Case.populate := by
    rw [List.map_map]
    exact List.map_congr_left fun c _ => c.populate_populate
  unfold populate
  rw [hcases]

/-- The cases of a populated union lead to the same types. -/
theorem isChangeOf_populate : u.populate.IsChangeOf u fun t => t := by
  unfold IsChangeOf populate
  rw [List.map_map]
  refine List.map_congr_left ?_
  intro c _
  obtain ⟨-, -, -, hsymbol, -⟩ := c.isPopulatedAs_populate.frame
  show c.populate.symbol = _
  rw [hsymbol, Option.map_id']

theorem validate_populate : u.populate.validate = u.validate :=
  validate_congr rfl rfl rfl TypeSymbol.KeepsChecked.unchanged u.isChangeOf_populate

/-- Populating a union keeps its namespace, its name, whether it is open, and the number of its
    cases. Of each case it keeps the position, the name, the reference and the type; a case that
    leads nowhere stays as it is, and any other one has the constructor that values of its type are
    built with, and the parameters of this constructor. A second time changes nothing, and the
    findings are those of the union before. -/
theorem populates :
    u.populate.scope = u.scope ∧ u.populate.name = u.name ∧
    u.populate.isPartial = u.isPartial ∧ u.populate.cases.length = u.cases.length ∧
    List.Forall₂
      (fun c c' => c'.ordinal = c.ordinal ∧ c'.name = c.name ∧ c'.reference = c.reference ∧
        c'.symbol = c.symbol ∧ (c.symbol = none → c' = c) ∧ c.IsPopulatedAs c')
      u.cases u.populate.cases ∧
    u.populate.populate = u.populate ∧ u.populate.validate = u.validate := by
  have hcases := u.forall₂_isPopulatedAs
  refine ⟨rfl, rfl, rfl, hcases.length_eq.symm, ?_, u.populate_populate, u.validate_populate⟩
  refine hcases.imp ?_
  intro c c' h
  obtain ⟨hordinal, hname, hreference, hsymbol, hunresolved⟩ := h.frame
  exact ⟨hordinal, hname, hreference, hsymbol, hunresolved, h⟩

end Union

end TaggedUnion.Schema
