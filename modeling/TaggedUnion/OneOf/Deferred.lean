import TaggedUnion.OneOf.Transform

/-! # Pending unions

    A deferred computation is awaited to its end. It has effects, and it may be pending a
    number of times before its value is ready:

    * **`Deferred`** is a monad that adds up how often its parts are pending.
    * The asynchronous form of a dispatch or a transform is the plain one with deferred
      handlers.
    * On a **pending union**, one that is itself deferred, every function awaits the union
      and then does what it does on a union. In the plain form its handlers are not
      deferred.
-/

namespace TaggedUnion

/-- A computation with effects in `m` whose result comes with the number of times that it
    was pending. -/
def Deferred (m : Type → Type) (γ : Type) : Type := m (Nat × γ)

namespace Deferred

variable {m : Type → Type} [Monad m] {γ δ : Type}

/-- A computation that is never pending. -/
def ready (x : m γ) : Deferred m γ := (do let a ← x; return (0, a) : m (Nat × γ))

/-- A computation that is pending a number of times, and then runs. -/
def delayed (polls : Nat) (x : m γ) : Deferred m γ :=
  (do let a ← x; return (polls, a) : m (Nat × γ))

/-- Runs a computation to its end. -/
def await (x : Deferred m γ) : m (Nat × γ) := x

/-- A computation after another one is pending as often as both are. -/
instance : Monad (Deferred m) where
  pure a := (pure (0, a) : m (Nat × _))
  bind x f := (do
    let (p, a) ← x.await
    let (q, b) ← (f a).await
    return (p + q, b) : m (Nat × _))

/-! ### Functions of a pending union -/

variable {n : Nat} {α β : Fin n → Type}

/-- Awaits the union and runs the handler of the held case. -/
def matchWith (p : Deferred m (OneOf α)) (handlers : ∀ k, α k → m γ) : Deferred m γ := do
  let u ← p
  ready (u.matchWith handlers)

/-- Awaits the union, then the handler of the held case. -/
def matchAsync (p : Deferred m (OneOf α)) (handlers : ∀ k, α k → Deferred m γ) :
    Deferred m γ := do
  let u ← p
  u.matchWith handlers

/-- Awaits the union and replaces the held value. -/
def map (p : Deferred m (OneOf α)) (handlers : ∀ k, α k → m (β k)) :
    Deferred m (OneOf β) := do
  let u ← p
  ready (u.map handlers)

/-- Awaits the union and replaces the held value by an awaited one. -/
def mapAsync (p : Deferred m (OneOf α)) (handlers : ∀ k, α k → Deferred m (β k)) :
    Deferred m (OneOf β) := do
  let u ← p
  u.map handlers

/-- Awaits the union and replaces it. -/
def bindTo (p : Deferred m (OneOf α)) (handlers : ∀ k, α k → m (OneOf β)) :
    Deferred m (OneOf β) := do
  let u ← p
  ready (u.bind handlers)

/-- Awaits the union and replaces it by an awaited one. -/
def bindAsync (p : Deferred m (OneOf α)) (handlers : ∀ k, α k → Deferred m (OneOf β)) :
    Deferred m (OneOf β) := do
  let u ← p
  u.bind handlers

/-- Awaits the union and replaces the value of one case. -/
def mapCase (k : Fin n) (h : OneOf.AgreeExcept k α β) (p : Deferred m (OneOf α))
    (f : α k → m (β k)) : Deferred m (OneOf β) := do
  let u ← p
  ready (u.mapCase k h f)

/-- Awaits the union and replaces the value of one case by an awaited one. -/
def mapCaseAsync (k : Fin n) (h : OneOf.AgreeExcept k α β) (p : Deferred m (OneOf α))
    (f : α k → Deferred m (β k)) : Deferred m (OneOf β) := do
  let u ← p
  u.mapCase k h f

/-- Awaits the union and replaces it if it holds one case. -/
def bindCase (k : Fin n) (h : OneOf.AgreeExcept k α β) (p : Deferred m (OneOf α))
    (f : α k → m (OneOf β)) : Deferred m (OneOf β) := do
  let u ← p
  ready (u.bindCase k h f)

/-- Awaits the union and replaces it by an awaited one if it holds one case. -/
def bindCaseAsync (k : Fin n) (h : OneOf.AgreeExcept k α β) (p : Deferred m (OneOf α))
    (f : α k → Deferred m (OneOf β)) : Deferred m (OneOf β) := do
  let u ← p
  u.bindCase k h f

end Deferred

end TaggedUnion
