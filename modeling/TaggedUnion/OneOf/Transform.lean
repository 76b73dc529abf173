import TaggedUnion.OneOf.Basic

/-! # Dispatch and transforms

    Handlers are computations with effects in a monad, one per case or one for a single
    case; of the handlers for all cases the one of the held case runs, once:

    * **`matchWith`** returns what the handler returns.
    * **`map`** puts the result back into the case, **`bind`** takes it as the new union.
    * **`mapCase`** and **`bindCase`** have a handler for one case and pass the others
      through; only the type of that case may change.
    * **`tapCase`** shows the value of one case to a handler.
-/

namespace TaggedUnion.OneOf

variable {n : Nat} {α β : Fin n → Type} {m : Type → Type}

/-- Runs the handler of the held case. -/
def matchWith {γ : Type} (u : OneOf α) (handlers : ∀ k, α k → m γ) : m γ :=
  handlers u.index u.value

variable [Monad m]

/-- Replaces the held value by the result of its handler. -/
def map (u : OneOf α) (handlers : ∀ k, α k → m (β k)) : m (OneOf β) := do
  let b ← handlers u.index u.value
  return ⟨u.index, b⟩

/-- Replaces the union by the result of the handler of the held case. -/
def bind (u : OneOf α) (handlers : ∀ k, α k → m (OneOf β)) : m (OneOf β) :=
  handlers u.index u.value

/-- Two lists of case types differ in no case but one. -/
def AgreeExcept (k : Fin n) (α β : Fin n → Type) : Prop := ∀ i, i ≠ k → α i = β i

/-- The union with the value of a case that is not `k`, in which nothing changes. -/
def passThrough {k : Fin n} (h : AgreeExcept k α β) (u : OneOf α) (hu : u.index ≠ k) : OneOf β :=
  ⟨u.index, cast (h u.index hu) u.value⟩

/-- Replaces the value of the case `k`, if it is held, by the result of the handler. -/
def mapCase (k : Fin n) (h : AgreeExcept k α β) (u : OneOf α) (f : α k → m (β k)) :
    m (OneOf β) :=
  if hu : u.index = k then do
    let b ← f (hu ▸ u.value)
    return ⟨k, b⟩
  else pure (u.passThrough h hu)

/-- Replaces a union that holds the case `k` by the result of the handler. -/
def bindCase (k : Fin n) (h : AgreeExcept k α β) (u : OneOf α) (f : α k → m (OneOf β)) :
    m (OneOf β) :=
  if hu : u.index = k then f (hu ▸ u.value) else pure (u.passThrough h hu)

/-- Shows the value of the case `k`, if it is held, to the handler. -/
def tapCase (k : Fin n) (u : OneOf α) (f : α k → m Unit) : m (OneOf α) := do
  if hu : u.index = k then f (hu ▸ u.value)
  return u

/-- Nothing differs from itself. -/
theorem AgreeExcept.refl (k : Fin n) (α : Fin n → Type) : AgreeExcept k α α := fun _ _ => rfl

end TaggedUnion.OneOf
