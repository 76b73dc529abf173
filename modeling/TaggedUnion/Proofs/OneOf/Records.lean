import TaggedUnion.OneOf.Transform

/-! # Records of calls

    Which handlers a function of a union runs, in which order and with which values:

    * **`recorded`** adds each call of a handler to a record: the case of the handler, with the
      value that it is called with. A call is thus itself a union.
    * **`Records`**: what a computation adds to the record, and what it does apart from that.
    * A function with a handler for each case adds the union that it is called on; a function with
      one handler adds it if the case is held, and nothing otherwise.
-/

namespace TaggedUnion.OneOf

variable {n : Nat} {α β : Fin n → Type} {γ : Type} {m : Type → Type} [Monad m]

/-! ### One case -/

/-- A union holds a given case, with a value, or another one. -/
theorem held_or_other (k : Fin n) (u : OneOf α) : (∃ a, u = .ofCase k a) ∨ u.index ≠ k := by
  by_cases hu : u.index = k
  · obtain ⟨i, a⟩ := u
    obtain rfl : i = k := hu
    exact .inl ⟨a, rfl⟩
  · exact .inr hu

section oneCase

variable {k : Fin n} (h : AgreeExcept k α β) {u : OneOf α} (hu : u.index ≠ k)

theorem mapCase_held (a : α k) (f : α k → m (β k)) :
    mapCase k h (.ofCase k a) f = (do return .ofCase k (← f a)) :=
  dif_pos rfl

include hu in
theorem mapCase_other (f : α k → m (β k)) : u.mapCase k h f = pure (u.passThrough h hu) :=
  dif_neg hu

theorem bindCase_held (a : α k) (f : α k → m (OneOf β)) : bindCase k h (.ofCase k a) f = f a :=
  dif_pos rfl

include hu in
theorem bindCase_other (f : α k → m (OneOf β)) : u.bindCase k h f = pure (u.passThrough h hu) :=
  dif_neg hu

theorem tapCase_held (a : α k) (f : α k → m Unit) :
    tapCase k (.ofCase k a) f = (do f a; return .ofCase k a) := by
  simp [tapCase, ofCase]

include hu in
theorem tapCase_other [LawfulMonad m] (f : α k → m Unit) : u.tapCase k f = pure u := by
  simp [tapCase, hu]

end oneCase

/-! ### Recording -/

/-- A handler for one case that first adds the call to the record. -/
def recorded (k : Fin n) (handler : α k → m γ) (a : α k) : StateT (List (OneOf α)) m γ := do
  modify (· ++ [.ofCase k a])
  handler a

/-- A computation adds calls to the record, and does apart from that what another one does. -/
def Records (x : StateT (List (OneOf α)) m γ) (calls : List (OneOf α)) (y : m γ) : Prop :=
  ∀ before, x.run before = do return (← y, before ++ calls)

/-- The calls of a handler for one case: with the value, if the case is held. -/
def callsAt (k : Fin n) (u : OneOf α) : List (OneOf α) := if u.isCase k then [u] else []

theorem callsAt_held {k : Fin n} (a : α k) : callsAt k (.ofCase k a) = [.ofCase k a] := by
  simp [callsAt, isCase, ofCase]

theorem callsAt_other {k : Fin n} {u : OneOf α} (hu : u.index ≠ k) : callsAt k u = [] := by
  simp [callsAt, isCase, hu]

variable [LawfulMonad m]

theorem records_pure (c : γ) : Records (pure c : StateT (List (OneOf α)) m γ) [] (pure c) := by
  intro before
  simp

theorem records_recorded (k : Fin n) (handler : α k → m γ) (a : α k) :
    Records (recorded k handler a) [.ofCase k a] (handler a) := by
  intro before
  simp [recorded]

theorem Records.bind_pure {δ : Type} {x : StateT (List (OneOf α)) m γ} {calls : List (OneOf α)}
    {y : m γ} (hx : Records x calls y) (g : γ → δ) :
    Records (do return g (← x)) calls (do return g (← y)) := by
  intro before
  simp [hx before]

/-! ### The functions of a union -/

variable (u : OneOf α)

theorem records_matchWith (handlers : ∀ k, α k → m γ) :
    Records (u.matchWith fun k => recorded k (handlers k)) [u] (u.matchWith handlers) :=
  records_recorded u.index (handlers u.index) u.value

theorem records_bind (handlers : ∀ k, α k → m (OneOf β)) :
    Records (u.bind fun k => recorded k (handlers k)) [u] (u.bind handlers) :=
  records_recorded u.index (handlers u.index) u.value

theorem records_map (handlers : ∀ k, α k → m (β k)) :
    Records (u.map fun k => recorded k (handlers k)) [u] (u.map handlers) :=
  (records_recorded u.index (handlers u.index) u.value).bind_pure (OneOf.mk u.index)

variable (k : Fin n) (h : AgreeExcept k α β)

theorem records_mapCase (handler : α k → m (β k)) :
    Records (u.mapCase k h (recorded k handler)) (callsAt k u) (u.mapCase k h handler) := by
  rcases held_or_other k u with ⟨a, rfl⟩ | hu
  · rw [mapCase_held, mapCase_held, callsAt_held]
    exact (records_recorded k handler a).bind_pure (ofCase k)
  · rw [mapCase_other h hu, mapCase_other h hu, callsAt_other hu]
    exact records_pure _

theorem records_bindCase (handler : α k → m (OneOf β)) :
    Records (u.bindCase k h (recorded k handler)) (callsAt k u) (u.bindCase k h handler) := by
  rcases held_or_other k u with ⟨a, rfl⟩ | hu
  · rw [bindCase_held, bindCase_held, callsAt_held]
    exact records_recorded k handler a
  · rw [bindCase_other h hu, bindCase_other h hu, callsAt_other hu]
    exact records_pure _

theorem records_tapCase (handler : α k → m Unit) :
    Records (u.tapCase k (recorded k handler)) (callsAt k u) (u.tapCase k handler) := by
  rcases held_or_other k u with ⟨a, rfl⟩ | hu
  · rw [tapCase_held, tapCase_held, callsAt_held]
    exact (records_recorded k handler a).bind_pure fun _ => ofCase k a
  · rw [tapCase_other hu, tapCase_other hu, callsAt_other hu]
    exact records_pure _

end TaggedUnion.OneOf
