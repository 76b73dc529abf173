import TaggedUnion.OneOf.Assertion
import TaggedUnion.Proofs.OneOf.Looking

/-! # Demands on a union

    A test demands a case, or a case with a value, and a demand that is not met says why:

    * **`catchFailure_eq_error_iff`**: where failures are caught, everything else that is raised
      passes as it is.
    * **`OneOf.Demands`**: when the demands on a union are met, and what is caught where they are
      not.
    * **`demands`**: this is so for all unions, whatever names they go by. Values are compared and
      shown by functions of their types, of which nothing is assumed.
-/

namespace TaggedUnion

/-! ### Catching -/

section catching

variable {π γ : Type} {test : Except (Raised π) γ}

/-- Only what is no failure gets past, unchanged. -/
theorem catchFailure_eq_error_iff {r : Raised π} :
    catchFailure test = .error r ↔ test = .error r ∧ ∃ payload, r = .other payload := by
  cases test with
  | ok a => simp [catchFailure]
  | error raised =>
    cases raised with
    | failure f =>
      simp only [catchFailure, Except.error.injEq, reduceCtorEq, false_iff, not_and]
      rintro rfl ⟨payload, hpayload⟩
      cases hpayload
    | other payload =>
      simp only [catchFailure, Except.error.injEq, iff_self_and]
      rintro rfl
      exact ⟨payload, rfl⟩

/-- A failure is caught exactly if it was raised. -/
theorem catchFailure_eq_failure_iff {f : AssertionFailure} :
    catchFailure test = .ok (.error f) ↔ test = .error (.failure f) := by
  cases test with
  | ok a => simp [catchFailure]
  | error raised => cases raised <;> simp [catchFailure]

/-- A value is returned exactly if the test returned it. -/
theorem catchFailure_eq_value_iff {a : γ} :
    catchFailure test = .ok (.ok a) ↔ test = .ok a := by
  cases test with
  | ok b => simp [catchFailure]
  | error raised => cases raised <;> simp [catchFailure]

end catching

/-! ### Demands -/

namespace OneOf

variable {n : Nat} {α : Fin n → Type} {π : Type} {labels : Labels n} {k : Fin n} {u : OneOf α}

/-- The failure of a demand for a case where another one is held. -/
def otherCase (labels : Labels n) (k : Fin n) (u : OneOf α) : AssertionFailure :=
  .caseMismatch labels.union (labels.caseName k) (u.caseName labels)

/-- The failure of a demand for a value where the case holds another one. -/
def otherValue [∀ k, Shown (α k)] (labels : Labels n) (k : Fin n) (expected actual : α k) :
    AssertionFailure :=
  .valueMismatch labels.union (labels.caseName k) (Shown.shown expected) (Shown.shown actual)

@[simp] theorem shouldBe_ofCase (labels : Labels n) (k : Fin n) (a : α k) :
    (ofCase k a).shouldBe labels k = (.ok a : Except (Raised π) (α k)) := by
  rw [shouldBe, get?_ofCase]

theorem shouldBe_other (labels : Labels n) (hu : u.index ≠ k) :
    u.shouldBe labels k = (.error (.failure (otherCase labels k u)) : Except (Raised π) (α k)) := by
  rw [shouldBe, get?_other hu]
  rfl

theorem shouldBe_eq_ok_iff {a : α k} :
    u.shouldBe labels k = (.ok a : Except (Raised π) (α k)) ↔ u = .ofCase k a := by
  rcases held_or_other k u with ⟨b, rfl⟩ | hu
  · rw [shouldBe_ofCase, Except.ok.injEq, ofCase_inj]
  · rw [shouldBe_other labels hu]
    simpa using fun heq => hu (index_eq_iff.mpr ⟨a, heq⟩)

/-- A case that the union is no value of is not the held one. -/
theorem index_ne_of_forall (h : ∀ a, u ≠ .ofCase k a) : u.index ≠ k := by
  intro hu
  obtain ⟨a, ha⟩ := index_eq_iff.mp hu
  exact h a ha

section values

variable [∀ k, Shown (α k)] [∀ k, BEq (α k)]

theorem shouldEqual_ofCase (labels : Labels n) (k : Fin n) (a expected : α k) :
    (ofCase k a).shouldEqual labels k expected =
      (if a == expected then .ok a else .error (.failure (otherValue labels k expected a)) :
        Except (Raised π) (α k)) := by
  rw [shouldEqual, shouldBe_ofCase]
  rfl

theorem shouldEqual_other (labels : Labels n) (hu : u.index ≠ k) (expected : α k) :
    u.shouldEqual labels k expected =
      (.error (.failure (otherCase labels k u)) : Except (Raised π) (α k)) := by
  rw [shouldEqual, shouldBe_other labels hu]
  rfl

theorem shouldEqual_eq_ok_iff {expected a : α k} :
    u.shouldEqual labels k expected = (.ok a : Except (Raised π) (α k)) ↔
      u = .ofCase k a ∧ (a == expected) = true := by
  rcases held_or_other k u with ⟨b, rfl⟩ | hu
  · rw [shouldEqual_ofCase, ofCase_inj]
    by_cases hb : (b == expected) = true
    · rw [if_pos hb, Except.ok.injEq]
      exact ⟨fun h => ⟨h, h ▸ hb⟩, And.left⟩
    · rw [if_neg hb]
      constructor
      · intro h
        cases h
      · rintro ⟨rfl, hequal⟩
        exact absurd hequal hb
  · rw [shouldEqual_other labels hu]
    constructor
    · intro h
      cases h
    · rintro ⟨rfl, -⟩
      exact absurd rfl hu

/-- What the demands on unions give where failures are caught; `π` has what else can be raised. -/
structure Demands (labels : Labels n) (α : Fin n → Type) [∀ k, Shown (α k)] [∀ k, BEq (α k)]
    (π : Type) : Prop where
  /-- The value is returned exactly if its case is held. -/
  caseMet (u : OneOf α) (k : Fin n) (a : α k) :
    catchFailure (u.shouldBe labels k : Except (Raised π) (α k)) = .ok (.ok a) ↔ u = .ofCase k a
  /-- Otherwise the failure has the names of the union, of the case, and of the held one. -/
  caseMissed (u : OneOf α) (k : Fin n) (h : ∀ a, u ≠ .ofCase k a) :
    catchFailure (u.shouldBe labels k : Except (Raised π) (α k)) =
      .ok (.error (.caseMismatch labels.union (labels.caseName k) (u.caseName labels)))
  /-- The value is returned exactly if its case is held and it is equal to the expected one. -/
  valueMet (u : OneOf α) (k : Fin n) (expected a : α k) :
    catchFailure (u.shouldEqual labels k expected : Except (Raised π) (α k)) = .ok (.ok a) ↔
      u = .ofCase k a ∧ (a == expected) = true
  /-- Where another case is held, the failure is the one of the demand for the case. -/
  valueOfOther (u : OneOf α) (k : Fin n) (expected : α k) (h : ∀ a, u ≠ .ofCase k a) :
    catchFailure (u.shouldEqual labels k expected : Except (Raised π) (α k)) =
      .ok (.error (.caseMismatch labels.union (labels.caseName k) (u.caseName labels)))
  /-- Where another value is held, the failure shows the expected value and then the held one. -/
  valueMissed (k : Fin n) (expected a : α k) (h : (a == expected) = false) :
    catchFailure ((ofCase k a).shouldEqual labels k expected : Except (Raised π) (α k)) =
      .ok (.error (.valueMismatch labels.union (labels.caseName k) (Shown.shown expected)
        (Shown.shown a)))

theorem demands (labels : Labels n) (α : Fin n → Type) [∀ k, Shown (α k)] [∀ k, BEq (α k)]
    (π : Type) : Demands labels α π where
  caseMet u k a := catchFailure_eq_value_iff.trans shouldBe_eq_ok_iff
  caseMissed u k h :=
    catchFailure_eq_failure_iff.mpr (shouldBe_other labels (index_ne_of_forall h))
  valueMet u k expected a := catchFailure_eq_value_iff.trans shouldEqual_eq_ok_iff
  valueOfOther u k expected h :=
    catchFailure_eq_failure_iff.mpr (shouldEqual_other labels (index_ne_of_forall h) expected)
  valueMissed k expected a h := by
    rw [catchFailure_eq_failure_iff, shouldEqual_ofCase, if_neg (by simp [h])]
    rfl

end values

end OneOf

end TaggedUnion
