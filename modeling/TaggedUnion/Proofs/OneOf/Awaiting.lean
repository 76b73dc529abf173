import TaggedUnion.OneOf.Deferred

/-! # Awaiting to the end

    How often a computation is pending adds up, and has no other bearing on what it does:

    * `Deferred m` is a lawful monad where `m` is one.
    * **`Deferred.result`** is what a deferred computation does apart from being pending. It
      takes sequences to sequences (`result_bind`), so that it goes through every function that
      is built from them.
    * **`FormsAgree`**: the four forms of a dispatch or a transform have one result.
-/

namespace TaggedUnion

variable {m : Type → Type} [Monad m]

namespace Deferred

variable {γ δ : Type}

/-- What a computation does and results in, without the number of times it was pending. -/
def result (x : Deferred m γ) : m γ := Prod.snd <$> x.await

theorem await_pure (a : γ) : (pure a : Deferred m γ).await = pure (0, a) := rfl

theorem await_bind (x : Deferred m γ) (f : γ → Deferred m δ) :
    (x >>= f).await =
      x.await >>= fun p => (f p.2).await >>= fun q => pure (p.1 + q.1, q.2) := rfl

theorem await_ready (x : m γ) : (ready x).await = x >>= fun a => pure (0, a) := rfl

theorem await_delayed (polls : Nat) (x : m γ) :
    (delayed polls x).await = x >>= fun a => pure (polls, a) := rfl

variable [LawfulMonad m]

instance : LawfulMonad (Deferred m) :=
  LawfulMonad.mk' _
    (fun x => by
      show (x >>= fun a => pure a).await = x.await
      simp [await_bind, await_pure])
    (fun a f => by
      show (pure a >>= f).await = (f a).await
      simp [await_bind, await_pure])
    (fun x f g => by
      show (x >>= f >>= g).await = (x >>= fun a => f a >>= g).await
      simp [await_bind, Nat.add_assoc])

theorem ready_pure (a : γ) : ready (pure a : m γ) = pure a := by
  show (ready (pure a)).await = (pure a : Deferred m γ).await
  simp [await_ready, await_pure]

theorem ready_bind (x : m γ) (f : γ → m δ) :
    ready (x >>= f) = ready x >>= fun a => ready (f a) := by
  show (ready (x >>= f)).await = (ready x >>= fun a => ready (f a)).await
  simp [await_bind, await_ready]

theorem ready_map (g : γ → δ) (x : m γ) : ready (g <$> x) = g <$> ready x := by
  rw [← bind_pure_comp, ready_bind, ← bind_pure_comp]
  simp only [ready_pure]

@[simp] theorem result_pure (a : γ) : (pure a : Deferred m γ).result = pure a := by
  simp [result, await_pure]

@[simp] theorem result_bind (x : Deferred m γ) (f : γ → Deferred m δ) :
    (x >>= f).result = x.result >>= fun a => (f a).result := by
  simp [result, await_bind]

@[simp] theorem result_map (g : γ → δ) (x : Deferred m γ) :
    (g <$> x).result = g <$> x.result := by
  rw [← bind_pure_comp, result_bind]
  simp

@[simp] theorem result_ready (x : m γ) : (ready x).result = x := by
  simp [result, await_ready]

@[simp] theorem result_delayed (polls : Nat) (x : m γ) : (delayed polls x).result = x := by
  simp [result, await_delayed]

end Deferred

/-! ### One result in all forms -/

namespace OneOf

variable {n : Nat} {α β : Fin n → Type} {γ : Type}

/-- The other forms of a function do what the plain form does, those of a pending union when it
    is awaited. -/
structure FormsAgree (plain : OneOf α → m γ) (async : OneOf α → Deferred m γ)
    (pending pendingAsync : Deferred m (OneOf α) → Deferred m γ) : Prop where
  async (u : OneOf α) : (async u).result = plain u
  pending (p : Deferred m (OneOf α)) : (pending p).result = p.result >>= plain
  pendingAsync (p : Deferred m (OneOf α)) : (pendingAsync p).result = p.result >>= plain

theorem formsAgree [LawfulMonad m] {plain : OneOf α → m γ} {async : OneOf α → Deferred m γ}
    (h : ∀ u, (async u).result = plain u) :
    FormsAgree plain async (fun p => p >>= fun u => .ready (plain u)) (fun p => p >>= async) where
  async := h
  pending p := by simp
  pendingAsync p := by simp [h]

theorem result_matchWith (u : OneOf α) (handlers : ∀ k, α k → Deferred m γ) :
    (u.matchWith handlers).result = u.matchWith fun k a => (handlers k a).result := rfl

theorem result_bind (u : OneOf α) (handlers : ∀ k, α k → Deferred m (OneOf β)) :
    (u.bind handlers).result = u.bind fun k a => (handlers k a).result := rfl

variable [LawfulMonad m]

theorem result_map (u : OneOf α) (handlers : ∀ k, α k → Deferred m (β k)) :
    (u.map handlers).result = u.map fun k a => (handlers k a).result := by
  simp [map]

variable {k : Fin n} (h : AgreeExcept k α β)

theorem result_mapCase (u : OneOf α) (f : α k → Deferred m (β k)) :
    (u.mapCase k h f).result = u.mapCase k h fun a => (f a).result := by
  unfold mapCase
  split <;> simp

theorem result_bindCase (u : OneOf α) (f : α k → Deferred m (OneOf β)) :
    (u.bindCase k h f).result = u.bindCase k h fun a => (f a).result := by
  unfold bindCase
  split <;> simp

end OneOf

end TaggedUnion
