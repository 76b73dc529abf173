import TaggedUnion.OneOf.Basic
import TaggedUnion.Text.Quoted

/-! # Assertions on a union

    A test demands a case, or a case with a value, and gets the held value back:

    * **`AssertionFailure`** says which demand was not met, with the texts of the values.
    * **`shouldBe`** and **`shouldEqual`** raise it; **`catchFailure`** returns it, and lets
      everything else that is raised pass.
-/

namespace TaggedUnion

/-- The types whose values can be shown in a message. -/
class Shown (γ : Type) where
  /-- The text of a value. -/
  shown : γ → String

instance : Shown String := ⟨Text.quote⟩

/-- A demand of a test that was not met. -/
inductive AssertionFailure where
  /-- The union holds another case. -/
  | caseMismatch (union expected actual : String)
  /-- The union holds the case with another value. -/
  | valueMismatch (union variant expected actual : String)
deriving Repr, DecidableEq

namespace AssertionFailure

/-- The wording of a failure. -/
def message : AssertionFailure → String
  | .caseMismatch u e a => s!"expected {u} to hold {e}, but it holds {a}"
  | .valueMismatch u c e a => s!"expected {u}::{c} to equal {e}, but it was {a}"

/-- The union that the demand was about. -/
def union : AssertionFailure → String
  | .caseMismatch u _ _ => u
  | .valueMismatch u _ _ _ => u

/-- The failure of two values to be equal. -/
def ofValues {γ δ : Type} [Shown γ] [Shown δ] (union variant : String) (expected : γ)
    (actual : δ) : AssertionFailure :=
  .valueMismatch union variant (Shown.shown expected) (Shown.shown actual)

end AssertionFailure

/-- What can be raised in a test, where `π` has what is raised besides failures. -/
inductive Raised (π : Type := String) where
  /-- A demand was not met. -/
  | failure (f : AssertionFailure)
  /-- Anything else. -/
  | other (payload : π)
deriving Repr, DecidableEq

/-- Runs a test and returns the failure that it raised; anything else that it raised is
    raised again. -/
def catchFailure {π γ : Type} (test : Except (Raised π) γ) :
    Except (Raised π) (Except AssertionFailure γ) :=
  match test with
  | .ok a => .ok (.ok a)
  | .error (.failure f) => .ok (.error f)
  | .error (.other payload) => .error (.other payload)

namespace OneOf

variable {n : Nat} {α : Fin n → Type} {π : Type}

/-- The held case with its value. -/
def describe [∀ k, Shown (α k)] (labels : Labels n) (u : OneOf α) : String :=
  u.caseName labels ++ "(" ++ Shown.shown u.value ++ ")"

/-- Demands a case and returns its value. -/
def shouldBe (labels : Labels n) (k : Fin n) (u : OneOf α) : Except (Raised π) (α k) :=
  match u.get? k with
  | some a => .ok a
  | none =>
    .error (.failure (.caseMismatch labels.union (labels.caseName k) (u.caseName labels)))

/-- Demands a case with an equal value and returns the value. -/
def shouldEqual [∀ k, Shown (α k)] (labels : Labels n) (k : Fin n) [BEq (α k)]
    (u : OneOf α) (expected : α k) : Except (Raised π) (α k) := do
  let a ← u.shouldBe labels k
  if a == expected then return a
  else throw (.failure (.ofValues labels.union (labels.caseName k) expected a))

end OneOf

end TaggedUnion
