import TaggedUnion.Proofs.Emit.Exhaustive
import TaggedUnion.Proofs.Emit.Forms

/-! # Running dispatches and transforms

    What the arms of emitted methods come to, and so what the methods do in all forms:

    * **`handlersOf`**: the arguments of a method with a handler for each case.
    * **`Turns`**: what an arm makes of its handler. A map puts the result back into the case; the
      other methods return it as it is.
    * **`IsApart.run_handlers`**: a method with a handler for each case runs that of the held case.
    * **`IsApart.run_single`**: a transform for one case runs its handler if this case is held, and
      builds the union again otherwise.
-/

namespace TaggedUnion

open Code Emit

variable {ι : Type} {τ : ι → Type} {m : Type → Type} [Monad m] {n : Nat}

/-! ### Cases that pass through -/

section codes

variable {ts us : Fin n → ι} {k : Fin n} (hk : ∀ i, i ≠ k → ts i = us i)
include hk

theorem agreeExcept : OneOf.AgreeExcept k (fun i => τ (ts i)) (fun i => τ (us i)) :=
  fun i hi => congrArg τ (hk i hi)

theorem Shape.encode_passThrough (s : Shape) (u : OneOf fun k => τ (ts k)) (hu : u.index ≠ k) :
    s.encode us (u.passThrough (agreeExcept hk) hu) = s.encode ts u := by
  have hcast {i j : ι} (heq : i = j) (a : τ i) :
      (⟨j, cast (congrArg τ heq) a⟩ : (i : ι) × τ i) = ⟨i, a⟩ := by
    subst heq
    rfl
  simp only [encode, OneOf.passThrough, hcast (hk u.index hu)]

end codes

/-! ### Parameters -/

theorem handlerName_ne {c : ShapeCase} {p : String} (hp : ¬ "on_".toList <+: p.toList)
    (hp' : ¬ p.toList <+: "on_".toList) : handlerName c ≠ p := by
  have := append_ne_append hp hp' c.stem ""
  rwa [String.append_empty] at this

namespace Emit

variable {s : Shape} {isAsync : Bool}

theorem IsDispatch.isAsync_eq {fn : Function} (h : IsDispatch s isAsync fn) :
    fn.isAsync = isAsync := by
  obtain ⟨stem, result, name, docs, rfl⟩ := h
  rfl

end Emit

/-! ### Handlers -/

/-- The handlers for all cases, as the arguments of a method in a form. -/
def handlersOf [DecidableEq ι] (isAsync : Bool) (ts : Fin n → ι)
    (d : ∀ k, τ (ts k) → Deferred m (Value τ)) : List (Entity m τ) :=
  List.ofFn fun k => .handlerOf isAsync (ts k) (d k)

/-- Whatever code comes to `y` in a form, the code around it comes to `x`. -/
def Turns (s : Shape) (isAsync : Bool) (around : Expr → Expr) (y x : Deferred m (Value τ)) : Prop :=
  ∀ (c : Surroundings m τ) (names : Names (Entity m τ)) (e : Expr), c.enum = enumOf s →
    e.ComesTo c names (inForm isAsync y) → (around e).ComesTo c names (inForm isAsync x)

namespace Shape.IsApart

variable {s : Shape} {ts us : Fin n → ι} (h : s.IsApart n)
include h

theorem nodup_handlerNames : ("self" :: handlerArguments s).Nodup := by
  have hmap : handlerArguments s = s.stems.map ("on_" ++ ·) := by
    rw [handlerArguments, stems, List.map_map]
    rfl
  refine List.nodup_cons.mpr ⟨?_, ?_⟩
  · intro hmem
    obtain ⟨c, -, hc⟩ := List.mem_map.mp hmem
    exact handlerName_ne (by decide) (by decide) hc
  · rw [hmap]
    exact (nodup_map_append_iff _).mpr h.stems_nodup

theorem lookup_handlersOf [DecidableEq ι] (isAsync : Bool)
    (d : ∀ k, τ (ts k) → Deferred m (Value τ)) (k : Fin n) :
    ((handlerArguments s).zip (handlersOf isAsync ts d)).lookup
      (handlerName (s.caseAt k)) = some (.handlerOf isAsync (ts k) (d k)) := by
  have hlength : (handlerArguments s).length = (handlersOf isAsync ts d).length := by
    simp [handlerArguments, handlersOf, h.length]
  have hall := forall₂_lookup_zip hlength (List.nodup_cons.mp h.nodup_handlerNames).2
  have hk := (List.forall₂_iff_get.mp hall).2 k.val (by simp [handlerArguments, h.length])
    (by simp [handlersOf])
  simpa [handlerArguments, h.caseAt_eq, handlersOf] using hk

variable [LawfulMonad m]

/-- A value that is wrapped into a variant named with the union. -/
theorem turns_wrap (k : Fin n) (isAsync : Bool) {i : ι} (x : Deferred m (τ i)) :
    Turns s isAsync (.wrap (s.name ++ "::" ++ (s.caseAt k).variant))
      ((fun b => .plain ⟨i, b⟩) <$> x) ((fun b => .union (s.caseAt k).variant ⟨i, b⟩) <$> x) := by
  intro c names e hc he
  rw [Expr.ComesTo, Expr.run_wrap, he]
  simp [Surroundings.machine, hc, h.variant?_named, inForm_map, Outcome.ready]

/-- Another case than that of the handler is built again. -/
theorem comesTo_pass {c : Surroundings m τ} (hc : c.enum = enumOf s)
    (u : OneOf fun k => τ (ts k)) (parameters : Names (Entity m τ)) :
    (Expr.wrap (s.name ++ "::" ++ (s.caseAt u.index).variant) (.name s.binding)).ComesTo c
      (armNames (s.encode ts u) ⟨ts u.index, u.value⟩ parameters) (pure (s.encode ts u)) := by
  have hname : (armNames (s.encode ts u) ⟨ts u.index, u.value⟩ parameters :
      Names (Entity m τ)).lookup s.binding =
        some (.outcome (.value (.plain ⟨ts u.index, u.value⟩))) := by
    rw [h.binding]
    rfl
  have hbinding : isLiteral s.binding = false := by
    rw [h.binding]
    decide
  rw [Expr.ComesTo, Expr.run_wrap, Expr.run_outcome c hbinding hname]
  simp [Surroundings.machine, hc, h.variant?_named, Outcome.ready, encode]

variable [DecidableEq ι]

/-- In the arm of the held case its handler is called with the held value. -/
theorem comesTo_handler (c : Surroundings m τ) (isAsync : Bool)
    (d : ∀ k, τ (ts k) → Deferred m (Value τ)) (u : OneOf fun k => τ (ts k)) :
    (awaitedIf isAsync (.call (handlerName (s.caseAt u.index)) [s.binding])).ComesTo c
      (armNames (s.encode ts u) ⟨ts u.index, u.value⟩
        ((handlerArguments s).zip (handlersOf isAsync ts d)))
      (inForm isAsync (d u.index u.value)) := by
  refine comesTo_awaitedIf_call c (i := ts u.index) (h := d u.index) ?_ ?_
  · rw [lookup_armNames (handlerName_ne (by decide) (by decide))
      (handlerName_ne (by decide) (by decide))]
    exact h.lookup_handlersOf isAsync d u.index
  · rw [h.binding]
    rfl

/-! ### A handler for each case -/

/-- All forms of a method with a handler for each case do what the arm of the held case makes of
    its handler. -/
theorem run_handlers {f : Family}
    (hf : List.Forall₂ Mirrors (f.ownFunctions s) (f.pendingFunctions s)) {fn : Function}
    (hfn : fn ∈ f.ownFunctions s) {g : ShapeCase → Expr → Expr}
    (hbody : fn.IsConsuming [.dispatch "self" (s.cases.map fun c => arm s c
      (g c (awaitedIf fn.isAsync (.call (handlerName c) [s.binding]))))])
    (hparameters : fn.parameters.map (·.1) = handlerArguments s)
    {d : ∀ k, τ (ts k) → Deferred m (Value τ)}
    {x : OneOf (fun k => τ (ts k)) → Deferred m (Value τ)}
    (harm : ∀ u : OneOf fun k => τ (ts k),
      Turns s fn.isAsync (g (s.caseAt u.index)) (d u.index u.value) (x u))
    {form : Form} (hform : fn.isAsync = form.isAsync) (p : Deferred m (OneOf fun k => τ (ts k))) :
    form.run f s fn.name (s.encode ts <$> p) (handlersOf form.isAsync ts d) = (do
      let u ← p.result
      some <$> (x u).result) := by
  have hlength : fn.parameters.length = s.cases.length := by
    simpa [handlerArguments] using congrArg List.length hparameters
  refine h.run_eq hf hfn hbody (hparameters ▸ h.nodup_handlerNames)
    (by simp [handlersOf, hlength, h.length]) (fun u => ?_) hform p
  rw [hparameters, ← hform]
  exact harm u _ _ _ rfl (h.comesTo_handler _ fn.isAsync d u)

/-- A family of two methods that match or switch: all their forms run the handler of the held
    case. -/
theorem run_dispatch {f : Family}
    (hf : List.Forall₂ Mirrors (f.ownFunctions s) (f.pendingFunctions s)) {plain async : Function}
    (hown : f.ownFunctions s = [plain, async]) (hplain : IsDispatch s false plain)
    (hasync : IsDispatch s true async) (form : Form) (p : Deferred m (OneOf fun k => τ (ts k)))
    (d : ∀ k, τ (ts k) → Deferred m (Value τ)) :
    form.run f s (if form.isAsync then async.name else plain.name) (s.encode ts <$> p)
        (handlersOf form.isAsync ts d) = (do
      let u ← p.result
      some <$> u.matchWith fun k a => (d k a).result) := by
  obtain ⟨fn, hfn, hname, hdispatch⟩ : ∃ fn ∈ f.ownFunctions s,
      fn.name = (if form.isAsync then async.name else plain.name) ∧
        IsDispatch s form.isAsync fn := by
    rw [hown]
    cases form.isAsync with
    | false => exact ⟨plain, List.mem_cons_self, rfl, hplain⟩
    | true => exact ⟨async, List.mem_cons_of_mem _ List.mem_cons_self, rfl, hasync⟩
  have hform : fn.isAsync = form.isAsync := hdispatch.isAsync_eq
  rw [← hname]
  refine h.run_handlers hf hfn (g := fun _ e => e) (hform ▸ hdispatch).isConsuming
    hdispatch.map_fst_parameters ?_ hform p
  intro u c names e _ he
  exact he

/-- All forms of a transform with a handler for each case do what it makes of the handler of the
    held case. -/
theorem run_full {f : Family} {t : Transform} (hitems : f.items s = t.items s) (form : Form)
    {d : ∀ k, τ (ts k) → Deferred m (Value τ)}
    {x : OneOf (fun k => τ (ts k)) → Deferred m (Value τ)}
    (hheld : ∀ u : OneOf fun k => τ (ts k),
      Turns s form.isAsync (t.rebuild s (s.caseAt u.index)) (d u.index u.value) (x u))
    (p : Deferred m (OneOf fun k => τ (ts k))) :
    form.run f s (Transform.formName form.isAsync t.stem) (s.encode ts <$> p)
        (handlersOf form.isAsync ts d) = (do
      let u ← p.result
      some <$> (x u).result) := by
  have hfn : t.full s form.isAsync ∈ f.ownFunctions s := by
    rw [t.ownFunctions_eq s hitems]
    exact (t.mem_functions_iff s).mpr (.inl ⟨_, rfl⟩)
  exact h.run_handlers (Family.mirrors_of_items_eq hitems (t.mirrors_functions s)) hfn
    (t.isConsuming_full s _) t.map_fst_parameters_full hheld rfl p

/-! ### A handler for one case -/

/-- All forms of a transform for one case do what it makes of its handler if the case is held, and
    nothing else. -/
theorem run_single {f : Family} {t : Transform} (hitems : f.items s = t.items s) (k : Fin n)
    (form : Form) {d : τ (ts k) → Deferred m (Value τ)}
    {x : OneOf (fun k => τ (ts k)) → Deferred m (Value τ)}
    (hheld : ∀ a, Turns s form.isAsync (t.rebuild s (s.caseAt k)) (d a) (x (.ofCase k a)))
    (hother : ∀ u, u.index ≠ k → x u = pure (s.encode ts u))
    (p : Deferred m (OneOf fun k => τ (ts k))) :
    form.run f s (Transform.formName form.isAsync (t.stem ++ "_" ++ (s.caseAt k).stem))
        (s.encode ts <$> p) [.handlerOf form.isAsync (ts k) d] = (do
      let u ← p.result
      some <$> (x u).result) := by
  have hk : k.val < s.cases.length := h.length ▸ k.isLt
  have hfn : t.single s k (s.caseAt k) form.isAsync ∈ f.ownFunctions s := by
    rw [t.ownFunctions_eq s hitems]
    exact (t.mem_functions_iff s).mpr (.inr ⟨k, hk, form.isAsync, by simp [caseAt, hk]⟩)
  have hf := Family.mirrors_of_items_eq hitems (t.mirrors_functions s)
  refine h.run_eq hf hfn (t.isConsuming_single s k _ form.isAsync)
    (by decide : ["self", "f"].Nodup) rfl (fun u => ?_) rfl p
  -- The arms differ by ordinal alone, so the ordinals have to tell what the positions do.
  by_cases hu : u.index = k
  · obtain ⟨i, a⟩ := u
    obtain rfl : i = k := hu
    rw [if_pos rfl]
    refine hheld a _ _ _ rfl (comesTo_awaitedIf_call _ (i := ts i) ?_ ?_)
    · rw [lookup_armNames (by decide) (by decide)]
      exact List.lookup_cons_self
    · rw [h.binding]
      rfl
  · have hne : (s.caseAt u.index).ordinal ≠ (s.caseAt k).ordinal := by
      rw [h.ordinal, h.ordinal]
      exact fun heq => hu (Fin.ext (Nat.succ.inj heq))
    have hpure (isAsync : Bool) : inForm isAsync (pure (s.encode ts u) : Deferred m _) =
        pure (s.encode ts u) := by
      cases isAsync <;> simp [inForm, Deferred.ready_pure]
    rw [if_neg hne, hother u hu, hpure]
    exact h.comesTo_pass rfl u _

end Shape.IsApart

end TaggedUnion
