import TaggedUnion.Proofs.OneOf.Records

/-! # The laws of the transforms

    The functions that replace a union, with handlers that have effects in any monad:

    * **`map`** keeps what identities keep, and maps one after the other as handlers run one after
      the other.
    * **`bind`** and **`ofCase`** are the sequence and the return of a monad; a map is a bind.
    * **`onlyAt`** and **`rebuildExcept`** are the handlers for all cases that a transform for one
      case stands for.
    * **`TransformLaws`**: all these laws, and that a tap returns its union.
-/

namespace TaggedUnion.OneOf

variable {n : Nat} {α β : Fin n → Type} {m : Type → Type} [Monad m]

/-! ### Handlers for one case -/

section handlers

variable {k : Fin n} (h : AgreeExcept k α β)

/-- A handler for one case, with identities for the others. -/
def onlyAt (f : α k → m (β k)) (j : Fin n) (a : α j) : m (β j) :=
  if hj : j = k then hj ▸ f (hj ▸ a) else pure (cast (h j hj) a)

/-- A handler for one case, with constructors for the others. -/
def rebuildExcept (f : α k → m (OneOf β)) (j : Fin n) (a : α j) : m (OneOf β) :=
  if hj : j = k then f (hj ▸ a) else pure (.ofCase j (cast (h j hj) a))

theorem mapCase_eq_map [LawfulMonad m] (u : OneOf α) (f : α k → m (β k)) :
    u.mapCase k h f = u.map (onlyAt h f) := by
  rcases held_or_other k u with ⟨a, rfl⟩ | hu
  · rw [mapCase_held]
    simp [map, ofCase, onlyAt]
  · rw [mapCase_other h hu]
    simp [map, onlyAt, hu, passThrough]

theorem bindCase_eq_bind (u : OneOf α) (f : α k → m (OneOf β)) :
    u.bindCase k h f = u.bind (rebuildExcept h f) := by
  rcases held_or_other k u with ⟨a, rfl⟩ | hu
  · rw [bindCase_held]
    simp [bind, ofCase, rebuildExcept]
  · rw [bindCase_other h hu]
    simp [bind, rebuildExcept, hu, passThrough, ofCase]

end handlers

/-! ### All laws -/

/-- The laws of the transforms of unions with `n` cases. -/
structure TransformLaws (m : Type → Type) [Monad m] (n : Nat) : Prop where
  map_identities {α : Fin n → Type} (u : OneOf α) : (u.map fun _ a => (pure a : m _)) = pure u
  map_map {α β γ : Fin n → Type} (u : OneOf α) (f : ∀ k, α k → m (β k)) (g : ∀ k, β k → m (γ k)) :
    (do let v ← u.map f; v.map g) = u.map fun k a => do let b ← f k a; g k b
  ofCase_bind {α β : Fin n → Type} (k : Fin n) (x : α k) (f : ∀ k, α k → m (OneOf β)) :
    (ofCase k x).bind f = f k x
  bind_ofCase {α : Fin n → Type} (u : OneOf α) :
    (u.bind fun k a => (pure (ofCase k a) : m _)) = pure u
  bind_bind {α β γ : Fin n → Type} (u : OneOf α) (f : ∀ k, α k → m (OneOf β))
      (g : ∀ k, β k → m (OneOf γ)) :
    (do let v ← u.bind f; v.bind g) = u.bind fun k a => do let v ← f k a; v.bind g
  map_eq_bind {α β : Fin n → Type} (u : OneOf α) (f : ∀ k, α k → m (β k)) :
    u.map f = u.bind fun k a => do return ofCase k (← f k a)
  mapCase_eq {α β : Fin n → Type} (u : OneOf α) (k : Fin n) (h : AgreeExcept k α β)
      (f : α k → m (β k)) :
    u.mapCase k h f = u.map (onlyAt h f)
  bindCase_eq {α β : Fin n → Type} (u : OneOf α) (k : Fin n) (h : AgreeExcept k α β)
      (f : α k → m (OneOf β)) :
    u.bindCase k h f = u.bind (rebuildExcept h f)
  tapCase_eq {α : Fin n → Type} (u : OneOf α) (k : Fin n) (f : α k → m Unit) :
    u.tapCase k f = do
      (u.get? k).elim (pure ()) f
      return u
  tapCase_calls {α : Fin n → Type} (u : OneOf α) (k : Fin n) (f : α k → m Unit) :
    Records (u.tapCase k (recorded k f)) (callsAt k u) (u.tapCase k f)

theorem transformLaws_oneOf [LawfulMonad m] (n : Nat) : TransformLaws m n where
  map_identities u := by simp [map]
  map_map u f g := by simp [map]
  ofCase_bind _ _ _ := rfl
  bind_ofCase _ := rfl
  bind_bind _ _ _ := rfl
  map_eq_bind _ _ := rfl
  mapCase_eq u _ h f := mapCase_eq_map h u f
  bindCase_eq u _ h f := bindCase_eq_bind h u f
  tapCase_eq u k f := by
    rcases held_or_other k u with ⟨a, rfl⟩ | hu
    · rw [tapCase_held]
      simp [get?, ofCase]
    · rw [tapCase_other hu]
      simp [get?, hu]
  tapCase_calls u k f := records_tapCase u k f

end TaggedUnion.OneOf
