/-! # A value of one of several types

    `OneOf α` holds exactly one value, of one of the types `α 0`, …, `α (n - 1)`. This is
    what an emitted union is at run time:

    * **`ofCase`** builds a value of a case, **`tag`** is its position counted from one.
    * **`isCase`**, **`get?`** and **`tryInto`** look for the value of one case.
    * **`partition`** splits a list by case.
-/

namespace TaggedUnion

/-- One value of one of `n` types. -/
structure OneOf {n : Nat} (α : Fin n → Type) where
  /-- The case that is held, counted from zero. -/
  index : Fin n
  /-- The value, of the type of its case. -/
  value : α index

/-- The names that a union goes by in messages. -/
structure Labels (n : Nat) where
  /-- The name of the union. -/
  union : String
  /-- The names of its cases. -/
  caseName : Fin n → String

/-- The names of the generic union with `n` cases. -/
def Labels.generic (n : Nat) : Labels n where
  union := "Union" ++ toString n
  caseName k := "Case" ++ toString (k.val + 1)

namespace OneOf

variable {n : Nat} {α : Fin n → Type}

/-- Two values are equal if they are of one case and equal there. -/
instance [∀ i, DecidableEq (α i)] : DecidableEq (OneOf α)
  | ⟨i, a⟩, ⟨j, b⟩ =>
    if h : i = j then
      if hv : h ▸ a = b then isTrue (by subst h; subst hv; rfl)
      else isFalse (by subst h; simpa using hv)
    else isFalse (by simp [h])

/-! ### Building and telling apart -/

/-- The value of a case. -/
def ofCase (k : Fin n) (a : α k) : OneOf α := ⟨k, a⟩

/-- The position of the held case, counted from one. -/
def tag (u : OneOf α) : Nat := u.index.val + 1

/-- The name of the held case. -/
def caseName (labels : Labels n) (u : OneOf α) : String := labels.caseName u.index

/-- A position is the one of the held case. -/
def holds (u : OneOf α) (tag : Nat) : Bool := u.tag == tag

/-- A case is the one that is held. -/
def isCase (k : Fin n) (u : OneOf α) : Bool := u.index == k

/-! ### Looking for one case -/

/-- The value of a case, if the case is held. -/
def get? (k : Fin n) (u : OneOf α) : Option (α k) :=
  if h : u.index = k then some (h ▸ u.value) else none

/-- The value of a case, or the union unchanged if another case is held. -/
def tryInto (k : Fin n) (u : OneOf α) : Except (OneOf α) (α k) :=
  if h : u.index = k then .ok (h ▸ u.value) else .error u

/-! ### Splitting by case -/

/-- Puts a value in front of the list of its case. -/
def consInto (u : OneOf α) (parts : ∀ k, List (α k)) (k : Fin n) : List (α k) :=
  if h : u.index = k then (h ▸ u.value) :: parts k else parts k

/-- The values of a list by case, in the order of the list. -/
def partition (us : List (OneOf α)) : ∀ k, List (α k) :=
  us.foldr consInto fun _ => []

end OneOf

end TaggedUnion
