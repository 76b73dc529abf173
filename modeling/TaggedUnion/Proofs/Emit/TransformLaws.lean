import TaggedUnion.Proofs.Emit.OneHandler
import TaggedUnion.Proofs.OneOf.Laws

/-! # The laws of emitted transforms

    The laws of the transforms of unions at run time are laws of the emitted functions, since a
    plain call of one comes to what the function of the union does:

    * **`Shape.runFrom`**, **`runMap`**, **`runBind`**, **`runMapCase`**, **`runBindCase`**,
      **`runTap`**: plain calls of emitted functions.
    * **`IsApart.runMap_encode`** and the like: what these calls come to.
    * **`Shape.TransformLaws`**: the laws, over calls that follow each other.
-/

namespace TaggedUnion

open Code Emit

variable {ι : Type} [DecidableEq ι] {τ : ι → Type} {m : Type → Type} [Monad m] {n : Nat}

namespace Shape

variable (s : Shape) (ts us : Fin n → ι)

/-! ### Plain calls -/

/-- A plain call of a function of the union, with the value that it returns. -/
def plainCall (f : Family) (name : String) (self : Option (Value τ)) (args : List (Entity m τ)) :
    OptionT m (Value τ) :=
  OptionT.mk (settled false (f.callOwn s name self args))

/-- The emitted constructor of a case. -/
def runFrom (k : Fin n) (x : τ (ts k)) : OptionT m (Value τ) :=
  s.plainCall .core ("from_" ++ (s.caseAt k).stem) none [.outcome (.value (.plain ⟨ts k, x⟩))]

/-- The emitted map. -/
def runMap (f : ∀ k, τ (ts k) → m (τ (us k))) (v : Value τ) : OptionT m (Value τ) :=
  s.plainCall .map "map" (some v)
    (handlersOf false ts fun k a => (fun b => .plain ⟨us k, b⟩) <$> .ready (f k a))

/-- The emitted bind. -/
def runBind (f : ∀ k, τ (ts k) → m (OneOf fun k => τ (us k))) (v : Value τ) :
    OptionT m (Value τ) :=
  s.plainCall .bind "bind" (some v) (handlersOf false ts fun k a => s.encode us <$> .ready (f k a))

/-- The emitted map of one case. -/
def runMapCase (k : Fin n) (f : τ (ts k) → m (τ (us k))) (v : Value τ) : OptionT m (Value τ) :=
  s.plainCall .map ("map_" ++ (s.caseAt k).stem) (some v)
    [.handlerOf false (ts k) fun a => (fun b => .plain ⟨us k, b⟩) <$> .ready (f a)]

/-- The emitted bind of one case. -/
def runBindCase (k : Fin n) (f : τ (ts k) → m (OneOf fun k => τ (us k))) (v : Value τ) :
    OptionT m (Value τ) :=
  s.plainCall .bind ("bind_" ++ (s.caseAt k).stem) (some v)
    [.handlerOf false (ts k) fun a => s.encode us <$> .ready (f a)]

/-- The emitted tap of one case. -/
def runTap (k : Fin n) (f : τ (ts k) → m Unit) (v : Value τ) : OptionT m (Value τ) :=
  s.plainCall .tap ("tap_" ++ (s.caseAt k).stem) (some v)
    [.handlerOf false (ts k) fun a => (fun _ => .unit) <$> .ready (f a)]

end Shape

omit [DecidableEq ι] in
/-- A plain call comes to what the method does in its plain form. -/
theorem Shape.plainCall_of_run [LawfulMonad m] {f : Family} {s : Shape} {name : String}
    {ts : Fin n → ι} {u : OneOf fun k => τ (ts k)} {args : List (Entity m τ)} {x : m (Value τ)}
    (h : (⟨false, false⟩ : Form).run f s name (s.encode ts <$> pure u) args = some <$> x) :
    s.plainCall f name (some (s.encode ts u)) args = OptionT.lift x := by
  apply OptionT.ext
  simpa [Form.run, plainCall] using h

namespace Shape.IsApart

variable {s : Shape} {ts us : Fin n → ι} [LawfulMonad m] (h : s.IsApart n)
  (u : OneOf fun k => τ (ts k))
include h

theorem runMap_encode (f : ∀ k, τ (ts k) → m (τ (us k))) :
    s.runMap ts us f (s.encode ts u) = OptionT.lift (s.encode us <$> u.map f) := by
  refine plainCall_of_run ((h.oneHandler.map _ _ fun k a => .ready (f k a)).trans ?_)
  simp

theorem runBind_encode (f : ∀ k, τ (ts k) → m (OneOf fun k => τ (us k))) :
    s.runBind ts us f (s.encode ts u) = OptionT.lift (s.encode us <$> u.bind f) := by
  refine plainCall_of_run ((h.oneHandler.bind _ _ fun k a => .ready (f k a)).trans ?_)
  simp

theorem runMapCase_encode {k : Fin n} (hk : ∀ i, i ≠ k → ts i = us i)
    (f : τ (ts k) → m (τ (us k))) :
    s.runMapCase ts us k f (s.encode ts u) =
      OptionT.lift (s.encode us <$> u.mapCase k (agreeExcept hk) f) := by
  refine plainCall_of_run ((h.oneHandler.mapCase _ _ k hk fun a => .ready (f a)).trans ?_)
  simp

theorem runBindCase_encode {k : Fin n} (hk : ∀ i, i ≠ k → ts i = us i)
    (f : τ (ts k) → m (OneOf fun k => τ (us k))) :
    s.runBindCase ts us k f (s.encode ts u) =
      OptionT.lift (s.encode us <$> u.bindCase k (agreeExcept hk) f) := by
  refine plainCall_of_run ((h.oneHandler.bindCase _ _ k hk fun a => .ready (f a)).trans ?_)
  simp

omit [DecidableEq ι] in
theorem runFrom_eq (k : Fin n) (x : τ (ts k)) :
    s.runFrom ts k x = OptionT.lift (pure (s.encode ts (.ofCase k x)) : m _) := by
  have hfn : fromFunction s (s.caseAt k) ∈ Family.core.ownFunctions s := by
    rw [Family.ownFunctions, Family.items, s.ownFunctions_core, coreFunctions]
    refine List.mem_append_left _ (List.mem_append_left _ ?_)
    exact List.mem_flatMap.mpr ⟨_, h.caseAt_mem k, List.mem_cons_self⟩
  let names : Names (Entity m τ) := [(s.binding, .outcome (.value (.plain ⟨ts k, x⟩)))]
  have hname : (Expr.name s.binding).run (Family.aloneIn s).machine names =
      pure (.value (.plain ⟨ts k, x⟩)) := by
    refine Expr.run_outcome _ ?_ List.lookup_cons_self
    rw [h.binding]
    decide
  have hbody : runBody (Family.aloneIn s).machine names
      [.value (variantOf (s.caseAt k) (.name s.binding))] =
        pure (.value (s.encode ts (.ofCase k x))) := by
    rw [runBody, variantOf, Expr.run_wrap, hname]
    simp [Surroundings.machine, Family.aloneIn, h.variant?_self, Outcome.ready, encode,
      OneOf.ofCase]
  have hcall : Family.core.callOwn s ("from_" ++ (s.caseAt k).stem) none
      [.outcome (.value (.plain ⟨ts k, x⟩))] =
        (pure (.value (s.encode ts (.ofCase k x))) : Exec m (Outcome m τ)) :=
    (h.callOwn_eq hfn none _).trans hbody
  apply OptionT.ext
  simp [runFrom, plainCall, hcall, settled, Outcome.ready]

/-- A tap shows the value of its case, if it is held, and comes to the union. -/
theorem runBody_tap (c : Surroundings m τ) (k : Fin n) (f : τ (ts k) → m Unit) :
    runBody c.machine
      [("self", .outcome (.value (s.encode ts u))),
        ("f", .handlerOf false (ts k) fun a => (fun _ => .unit) <$> .ready (f a))]
      [.within (.ifHeld (s.caseAt k).variant s.binding "self") (.run (.call "f" [s.binding])),
        .value (.name "self")] =
      Outcome.value <$> OptionT.lift (.ready (s.encode ts <$> u.tapCase k f)) := by
  let names : Names (Entity m τ) := [("self", .outcome (.value (s.encode ts u))),
    ("f", .handlerOf false (ts k) fun a => (fun _ => .unit) <$> .ready (f a))]
  have hself : c.machine.valueOf? names "self" = some (s.encode ts u) := rfl
  have hrest : runBody c.machine names [.value (.name "self")] = pure (.value (s.encode ts u)) :=
    Expr.run_outcome c (by decide) rfl
  have hcall (a : τ (ts k)) : (Statement.run (.call "f" [s.binding])).perform c.machine
      ((s.binding, .outcome (.value (.plain ⟨ts k, a⟩))) :: names) =
        OptionT.lift (.ready (f a)) := by
    have hhandler : (awaitedIf false (.call "f" [s.binding])).ComesTo c
        ((s.binding, .outcome (.value (.plain ⟨ts k, a⟩))) :: names)
        (inForm false ((fun _ => .unit) <$> .ready (f a))) := by
      refine comesTo_awaitedIf_call c (i := ts k)
        (h := fun a => (fun _ => .unit) <$> .ready (f a)) ?_ List.lookup_cons_self
      rw [h.binding, List.lookup_cons, beq_false_of_ne (by decide)]
      rfl
    rw [Statement.perform]
    refine (congrArg (· >>= c.machine.discard) hhandler).trans ?_
    simp [inForm, Surroundings.machine, Outcome.ready, Deferred.ready_map]
  rw [runBody_within, h.run_ifHeld hself, hrest]
  rcases OneOf.held_or_other k u with ⟨a, rfl⟩ | hu
  · rw [OneOf.get?_ofCase, OneOf.tapCase_held]
    refine (congrArg (· >>= fun _ => pure (Outcome.value _)) (hcall a)).trans ?_
    simp [Deferred.ready_map]
  · rw [OneOf.get?_other hu, OneOf.tapCase_other hu]
    simp [Deferred.ready_pure]

theorem runTap_encode (k : Fin n) (f : τ (ts k) → m Unit) :
    s.runTap ts k f (s.encode ts u) = OptionT.lift (s.encode ts <$> u.tapCase k f) := by
  have hfn : tapFunction s (s.caseAt k) ∈ Family.tap.ownFunctions s := by
    simpa [Family.ownFunctions, Family.items, tap, Item.ownFunctions] using
      ⟨_, h.caseAt_mem k, rfl⟩
  have hcall : Family.tap.callOwn s ("tap_" ++ (s.caseAt k).stem) (some (s.encode ts u))
      [.handlerOf false (ts k) fun a => (fun _ => .unit) <$> .ready (f a)] =
        Outcome.value <$> OptionT.lift (.ready (s.encode ts <$> u.tapCase k f)) := by
    refine (h.callOwn_eq hfn _ _).trans ((Function.invoke_plain rfl rfl rfl rfl _).trans ?_)
    exact h.runBody_tap u _ k f
  apply OptionT.ext
  simp [runTap, plainCall, hcall, settled, Outcome.ready]

end Shape.IsApart

/-! ### The laws -/

/-- The laws of the transforms that are emitted for a shape, for unions of the types `ts` that
    become unions of the types `us` and then of the types `vs`. -/
structure Shape.TransformLaws (s : Shape) (m : Type → Type) [Monad m] (τ : ι → Type)
    (ts us vs : Fin n → ι) : Prop where
  from_eq (k : Fin n) (x : τ (ts k)) :
    s.runFrom ts k x = OptionT.lift (pure (s.encode ts (.ofCase k x)) : m _)
  map_identities (u : OneOf fun k => τ (ts k)) :
    s.runMap ts ts (fun _ a => pure a) (s.encode ts u) =
      OptionT.lift (pure (s.encode ts u) : m _)
  map_map (u : OneOf fun k => τ (ts k)) (f : ∀ k, τ (ts k) → m (τ (us k)))
      (g : ∀ k, τ (us k) → m (τ (vs k))) :
    (do s.runMap us vs g (← s.runMap ts us f (s.encode ts u))) =
      s.runMap ts vs (fun k a => do g k (← f k a)) (s.encode ts u)
  from_bind (k : Fin n) (x : τ (ts k)) (f : ∀ k, τ (ts k) → m (OneOf fun k => τ (us k))) :
    (do s.runBind ts us f (← s.runFrom ts k x)) = OptionT.lift (s.encode us <$> f k x)
  bind_from (u : OneOf fun k => τ (ts k)) :
    s.runBind ts ts (fun k a => pure (.ofCase k a)) (s.encode ts u) =
      OptionT.lift (pure (s.encode ts u) : m _)
  bind_bind (u : OneOf fun k => τ (ts k)) (f : ∀ k, τ (ts k) → m (OneOf fun k => τ (us k)))
      (g : ∀ k, τ (us k) → m (OneOf fun k => τ (vs k))) :
    (do s.runBind us vs g (← s.runBind ts us f (s.encode ts u))) =
      s.runBind ts vs (fun k a => do (← f k a).bind g) (s.encode ts u)
  map_eq_bind (u : OneOf fun k => τ (ts k)) (f : ∀ k, τ (ts k) → m (τ (us k))) :
    s.runMap ts us f (s.encode ts u) =
      s.runBind ts us (fun k a => do return .ofCase k (← f k a)) (s.encode ts u)
  mapCase_eq (u : OneOf fun k => τ (ts k)) (k : Fin n) (hk : ∀ i, i ≠ k → ts i = us i)
      (f : τ (ts k) → m (τ (us k))) :
    s.runMapCase ts us k f (s.encode ts u) =
      s.runMap ts us (OneOf.onlyAt (agreeExcept hk) f) (s.encode ts u)
  bindCase_eq (u : OneOf fun k => τ (ts k)) (k : Fin n) (hk : ∀ i, i ≠ k → ts i = us i)
      (f : τ (ts k) → m (OneOf fun k => τ (us k))) :
    s.runBindCase ts us k f (s.encode ts u) =
      s.runBind ts us (OneOf.rebuildExcept (agreeExcept hk) f) (s.encode ts u)
  tap_eq (u : OneOf fun k => τ (ts k)) (k : Fin n) (f : τ (ts k) → m Unit) :
    s.runTap ts k f (s.encode ts u) = OptionT.lift do
      (u.get? k).elim (pure ()) f
      return s.encode ts u

theorem Shape.IsApart.transformLaws [LawfulMonad m] {s : Shape} (h : s.IsApart n)
    (ts us vs : Fin n → ι) : s.TransformLaws m τ ts us vs where
  from_eq := h.runFrom_eq
  map_identities u := by
    rw [h.runMap_encode, (OneOf.transformLaws_oneOf n).map_identities]
    simp
  map_map u f g := by
    rw [h.runMap_encode, h.runMap_encode, ← (OneOf.transformLaws_oneOf n).map_map]
    simp [h.runMap_encode]
  from_bind k x f := by
    rw [h.runFrom_eq, lift_pure, pure_bind, h.runBind_encode,
      (OneOf.transformLaws_oneOf n).ofCase_bind]
  bind_from u := by
    rw [h.runBind_encode, (OneOf.transformLaws_oneOf n).bind_ofCase]
    simp
  bind_bind u f g := by
    rw [h.runBind_encode, h.runBind_encode, ← (OneOf.transformLaws_oneOf n).bind_bind]
    simp [h.runBind_encode]
  map_eq_bind u f := by
    rw [h.runMap_encode, h.runBind_encode, (OneOf.transformLaws_oneOf n).map_eq_bind]
  mapCase_eq u k hk f := by
    rw [h.runMapCase_encode u hk, h.runMap_encode, OneOf.mapCase_eq_map]
  bindCase_eq u k hk f := by
    rw [h.runBindCase_encode u hk, h.runBind_encode, OneOf.bindCase_eq_bind]
  tap_eq u k f := by
    rw [h.runTap_encode, (OneOf.transformLaws_oneOf n).tapCase_eq]
    simp

/-- The transforms of unions obey their laws, for every number of cases and handlers with effects in
    any monad: those of unions at run time, and those that are emitted for the generic unions. -/
theorem transforms_lawful (m : Type → Type) [Monad m] [LawfulMonad m] :
    (∀ n, OneOf.TransformLaws m n) ∧
    ∀ {ι : Type} [DecidableEq ι] (τ : ι → Type) (n : Nat) (path : String) (ts us vs : Fin n → ι),
      (Shape.generic n path).TransformLaws m τ ts us vs := by
  refine ⟨fun n => OneOf.transformLaws_oneOf n, ?_⟩
  intro ι _ τ n path ts us vs
  exact (Shape.isApart_generic n path).transformLaws ts us vs

/-- Taps of both cases of a union that holds the second one: one of them calls its handler. -/
theorem transforms_lawful_taps :
    let τ (i : Bool) : Type := if i then String else Nat
    let ts (k : Fin 2) : Bool := k == 1
    let s := Shape.generic 2 defaultRuntimePath
    let u : OneOf fun k => τ (ts k) := .ofCase 1 "held"
    let log (text : String) : StateM (List String) Unit := modify (· ++ [text])
    ((do s.runTap ts 1 log (← s.runTap ts 0 (fun _ => log "other") (s.encode ts u))).run).run [] =
      (some (s.encode ts u), ["held"]) := by
  intro τ ts s u log
  have hlaws := (transforms_lawful (StateM (List String))).2 τ 2 defaultRuntimePath ts ts ts
  have hother : s.runTap ts 0 (fun _ => log "other") (s.encode ts u) = pure (s.encode ts u) :=
    hlaws.tap_eq u 0 fun _ => log "other"
  rw [hother, pure_bind, hlaws.tap_eq u 1 log]
  rfl

end TaggedUnion
