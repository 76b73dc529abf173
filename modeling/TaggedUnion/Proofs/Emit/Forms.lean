import TaggedUnion.Proofs.Emit.Apart
import TaggedUnion.Proofs.Emit.Calls
import TaggedUnion.Proofs.Emit.Mirrors

/-! # Forms of a method

    A method waits for its handlers or not, and it is called on a union or on a future of one.
    This module says what its four forms have in common, whatever the arms of its dispatch do:

    * **`Outcome.given`**: what a call gives in a form, and **`settled`** what it comes to when
      everything is awaited.
    * **`IsApart.callOwn_dispatch`**: a call on a union gives what the arm of the held case does.
    * **`IsApart.callPending_eq`**: a call on a future gives the same, once the future is awaited.
    * **`Form.run`**, **`IsApart.run_eq`**: all forms come to what that arm does.
-/

namespace TaggedUnion

open Code Emit

/-! ### What cannot be stuck -/

section lift

variable {M : Type → Type} [Monad M] [LawfulMonad M] {γ δ : Type}

@[simp] theorem Code.lift_pure (a : γ) : (OptionT.lift (pure a : M γ)) = pure a := by
  apply OptionT.ext
  simp

@[simp] theorem Code.lift_bind (x : M γ) (f : γ → M δ) :
    OptionT.lift (x >>= f) = OptionT.lift x >>= fun a => OptionT.lift (f a) := by
  apply OptionT.ext
  simp [OptionT.run_bind]

@[simp] theorem Code.lift_map (g : γ → δ) (x : M γ) :
    OptionT.lift (g <$> x) = g <$> OptionT.lift x := by
  rw [← bind_pure_comp, lift_bind, ← bind_pure_comp]
  simp

end lift

/-! ### What calls give -/

variable {ι : Type} {τ : ι → Type} {m : Type → Type} [Monad m]

namespace Code

/-- What a call gives in the form of its function: a value, where the call does everything at
    once, or a future. -/
def Outcome.given (isAsync : Bool) (x : Deferred m (Value τ)) : Exec m (Outcome m τ) :=
  if isAsync then pure (.future (OptionT.lift x))
  else Outcome.value <$> OptionT.lift (Deferred.ready x.result)

/-- What a call in a form does and results in, with the future that it gives awaited to the end.
    Without a result the call is stuck, or of another form. -/
def settled (isAsync : Bool) (x : Exec m (Outcome m τ)) : m (Option (Value τ)) :=
  (if isAsync then x >>= Outcome.awaited else x >>= Outcome.ready : Exec m (Value τ)).run.result

/-- A handler for the values of one type, in a form. -/
def Entity.handlerOf [DecidableEq ι] (isAsync : Bool) (i : ι) (h : τ i → Deferred m (Value τ)) :
    Entity m τ :=
  .handler fun a => if hi : a.1 = i then Outcome.given isAsync (h (hi ▸ a.2)) else failure

/-- A computation as a form of a function does it: a plain one is not pending. -/
def inForm (isAsync : Bool) {γ : Type} (x : Deferred m γ) : Deferred m γ :=
  if isAsync then x else Deferred.ready x.result

/-- An expression comes to the result of a computation, after all that it does. -/
def Expr.ComesTo (c : Surroundings m τ) (names : Names (Entity m τ)) (e : Expr)
    (x : Deferred m (Value τ)) : Prop :=
  e.run c.machine names = Outcome.value <$> OptionT.lift x

variable [LawfulMonad m]

@[simp] theorem result_inForm (isAsync : Bool) {γ : Type} (x : Deferred m γ) :
    (inForm isAsync x).result = x.result := by
  cases isAsync <;> simp [inForm]

theorem inForm_map (isAsync : Bool) {γ δ : Type} (g : γ → δ) (x : Deferred m γ) :
    inForm isAsync (g <$> x) = g <$> inForm isAsync x := by
  cases isAsync with
  | true => rfl
  | false => simp [inForm, Deferred.ready_map]

@[simp] theorem settled_given (isAsync : Bool) (x : Deferred m (Value τ)) :
    settled isAsync (Outcome.given isAsync x) = some <$> x.result := by
  cases isAsync <;> simp [settled, Outcome.given, Outcome.ready, Outcome.awaited]

/-- A handler that is called, and awaited if it gives a future. -/
theorem comesTo_awaitedIf_call [DecidableEq ι] (c : Surroundings m τ) {names : Names (Entity m τ)}
    {isAsync : Bool} {i : ι} {h : τ i → Deferred m (Value τ)} {f x : String} {a : τ i}
    (hf : names.lookup f = some (.handlerOf isAsync i h))
    (hx : names.lookup x = some (.outcome (.value (.plain ⟨i, a⟩)))) :
    (awaitedIf isAsync (.call f [x])).ComesTo c names (inForm isAsync (h a)) := by
  have hcall : (Expr.call f [x]).run c.machine names = Outcome.given isAsync (h a) := by
    simp [Expr.run, Surroundings.machine, hf, hx, Entity.handlerOf, Entity.handler?, Entity.plain?]
  cases isAsync with
  | false =>
    rw [awaitedIf, if_neg (by decide), Expr.ComesTo, hcall]
    rfl
  | true =>
    rw [awaitedIf, if_pos rfl, Expr.ComesTo, Expr.run_await, hcall]
    simp [Outcome.given, Surroundings.machine, Outcome.awaited, inForm]

end Code

/-- The names in the arm for a held value, in a method of the union. -/
def armNames (self : Value τ) (a : (i : ι) × τ i) (parameters : Names (Entity m τ)) :
    Names (Entity m τ) :=
  (Schema.heldName, .outcome (.value (.plain a))) :: ("self", .outcome (.value self)) :: parameters

omit [Monad m] in
theorem lookup_armNames {self : Value τ} {a : (i : ι) × τ i} {parameters : Names (Entity m τ)}
    {x : String} (hheld : x ≠ Schema.heldName) (hself : x ≠ "self") :
    (armNames self a parameters).lookup x = parameters.lookup x := by
  rw [armNames, List.lookup_cons, beq_false_of_ne hheld, List.lookup_cons, beq_false_of_ne hself]

/-! ### Calls on a union -/

namespace Shape.IsApart

variable {s : Shape} {n : Nat} (h : s.IsApart n)
include h

theorem callOwn_eq {f : Family} {fn : Function} (hfn : fn ∈ f.ownFunctions s)
    (self : Option (Value τ)) (args : List (Entity m τ)) :
    f.callOwn s fn.name self args = fn.invoke (Family.aloneIn s) (self.map .value) args := by
  simp [Family.callOwn, h.find?_ownFunctions hfn]

variable [LawfulMonad m] {ts : Fin n → ι}

/-- A method that dispatches on the union gives what the arm of the held case does. -/
theorem callOwn_dispatch {f : Family} {fn : Function} (hfn : fn ∈ f.ownFunctions s)
    {a : ShapeCase → Expr}
    (hform : fn.IsConsuming [.dispatch "self" (s.cases.map fun k => arm s k (a k))])
    {args : List (Entity m τ)} (hargs : args.length = fn.parameters.length)
    (u : OneOf fun k => τ (ts k)) {x : Deferred m (Value τ)}
    (harm : (a (s.caseAt u.index)).ComesTo (Family.aloneIn s)
      (armNames (s.encode ts u) ⟨ts u.index, u.value⟩ ((fn.parameters.map (·.1)).zip args))
      (inForm fn.isAsync x)) :
    f.callOwn s fn.name (some (s.encode ts u)) args = Outcome.given fn.isAsync x := by
  let names : Names (Entity m τ) :=
    ("self", .outcome (.value (s.encode ts u))) :: (fn.parameters.map (·.1)).zip args
  have hbody : runBody (Family.aloneIn s).machine names
      [.dispatch "self" (s.cases.map fun k => arm s k (a k))] =
        Outcome.value <$> OptionT.lift (inForm fn.isAsync x) := by
    have hself : (Family.aloneIn s).machine.valueOf? names "self" = some (s.encode ts u) := rfl
    rw [← harm, armNames, ← h.binding]
    exact h.dispatch_eq hself s.binding a
  rw [h.callOwn_eq hfn, Option.map_some, Function.invoke_method hform.receiver hform.body_eq hargs,
    hbody]
  cases hasync : fn.isAsync <;>
    simp [Outcome.given, Surroundings.machine, Outcome.ready, inForm]

end Shape.IsApart

/-! ### Pending unions -/

section pending

variable [LawfulMonad m] {γ : Type}

/-- The image of a method awaits the union, calls the method with the parameters, and awaits the
    future that an asynchronous one gives. -/
theorem run_forwarded {c : Surroundings m τ} {names : Names (Entity m τ)} {p : Deferred m γ}
    {g : γ → Value τ}
    (hself : names.lookup "self" = some (.outcome (.future (OptionT.lift (g <$> p)))))
    {fn : Function} {args : List (Entity m τ)}
    (hpassed : (fn.parameters.map (·.1)).mapM (fun x => names.lookup x) = some args)
    {x : γ → Deferred m (Value τ)}
    (hcall : ∀ u, c.call fn.name (g u) args = Outcome.given fn.isAsync (x u)) :
    fn.forwarded.run c.machine names =
      Outcome.given true (p >>= fun u => inForm fn.isAsync (x u)) := by
  have hunion : (Expr.name "self").run c.machine names =
      pure (.future (OptionT.lift (g <$> p))) := Expr.run_outcome c (by decide) hself
  have hmethod : (Expr.method (.await (.name "self")) fn.name (fn.parameters.map (·.1))).run
      c.machine names = OptionT.lift p >>= fun u => Outcome.given fn.isAsync (x u) := by
    rw [Expr.run_method, Expr.run_await, hunion]
    simp [Surroundings.machine, Outcome.awaited, Outcome.ready, hpassed, hcall]
  rw [Function.forwarded]
  -- The future of an asynchronous method is awaited inside the one that is returned.
  cases hasync : fn.isAsync with
  | false =>
    rw [if_neg (by decide), Expr.run_deferred, hmethod]
    simp [hasync, Surroundings.machine, Outcome.given, Outcome.ready, inForm]
  | true =>
    rw [if_pos rfl, Expr.run_deferred, Expr.run_await, hmethod]
    simp [hasync, Surroundings.machine, Outcome.given, Outcome.awaited, Outcome.ready, inForm]

/-- A call on a future of the union awaits the union and does what the method does. -/
theorem Shape.IsApart.callPending_eq {s : Shape} {n : Nat} {ts : Fin n → ι} (h : s.IsApart n)
    {f : Family} (hf : List.Forall₂ Mirrors (f.ownFunctions s) (f.pendingFunctions s))
    {fn : Function} (hfn : fn ∈ f.ownFunctions s)
    (hparameters : ("self" :: fn.parameters.map (·.1)).Nodup)
    {args : List (Entity m τ)} (hargs : args.length = fn.parameters.length)
    (p : Deferred m (OneOf fun k => τ (ts k)))
    {x : OneOf (fun k => τ (ts k)) → Deferred m (Value τ)}
    (hown : ∀ u, f.callOwn s fn.name (some (s.encode ts u)) args =
      Outcome.given fn.isAsync (x u)) :
    f.callPending s fn.name (OptionT.lift (s.encode ts <$> p)) args =
      Outcome.given true (p >>= fun u => inForm fn.isAsync (x u)) := by
  obtain ⟨pending, hmem, hmirrors⟩ := exists_of_mem_left hf hfn
  -- The trait has no two functions of one name, since the union has none.
  have hfind : (f.pendingFunctions s).find? (·.name = fn.name) = some pending := by
    refine find?_eq_some_of_unique hmem (by simp [hmirrors.name]) ?_
    intro g hg hname
    have hnodup : ((f.pendingFunctions s).map (·.name)).Nodup := by
      rw [map_name_of_mirrors hf]
      exact h.nodup_ownFunctions f
    exact List.inj_on_of_nodup_map hnodup hg hmem (by simpa [hmirrors.name] using hname)
  -- The arguments are passed on by the names of the parameters, and none of these is `self`.
  let self : Entity m τ := .outcome (.future (OptionT.lift (s.encode ts <$> p)))
  have hlength : ("self" :: fn.parameters.map (·.1)).length = (self :: args).length := by
    simp [hargs]
  have hpassed := mapM_eq_some_of_forall₂
    (List.forall₂_cons.mp (forall₂_lookup_zip hlength hparameters)).2
  rw [Family.callPending, hfind]
  refine (Function.invoke_method hmirrors.receivers.2 hmirrors.body
    (by rw [hargs, hmirrors.parameters]) _).trans ?_
  rw [if_neg (by simp [hmirrors.notAsync]), hmirrors.parameters]
  exact run_forwarded rfl hpassed hown

end pending

/-! ### All forms -/

/-- A form of a method: the method waits for its handlers or not, and it is a method of the union
    or of a future of it. -/
structure Form where
  isAsync : Bool
  isPending : Bool

/-- A method in a form, with what it does and results in when everything is awaited. The union is
    awaited before the call, or by the method. -/
def Form.run (form : Form) (f : Family) (s : Shape) (name : String) (p : Deferred m (Value τ))
    (args : List (Entity m τ)) : m (Option (Value τ)) :=
  if form.isPending then settled true (f.callPending s name (OptionT.lift p) args)
  else do
    let v ← p.result
    settled form.isAsync (f.callOwn s name (some v) args)

namespace Shape.IsApart

variable {s : Shape} {n : Nat} {ts : Fin n → ι} [LawfulMonad m] (h : s.IsApart n)
include h

/-- All forms of a method that dispatches on the union do what the arm of the held case does. -/
theorem run_eq {f : Family} (hf : List.Forall₂ Mirrors (f.ownFunctions s) (f.pendingFunctions s))
    {fn : Function} (hfn : fn ∈ f.ownFunctions s) {a : ShapeCase → Expr}
    (hbody : fn.IsConsuming [.dispatch "self" (s.cases.map fun k => arm s k (a k))])
    (hparameters : ("self" :: fn.parameters.map (·.1)).Nodup) {args : List (Entity m τ)}
    (hargs : args.length = fn.parameters.length)
    {x : OneOf (fun k => τ (ts k)) → Deferred m (Value τ)}
    (harm : ∀ u, (a (s.caseAt u.index)).ComesTo (Family.aloneIn s)
      (armNames (s.encode ts u) ⟨ts u.index, u.value⟩ ((fn.parameters.map (·.1)).zip args))
      (inForm fn.isAsync (x u)))
    {form : Form} (hform : fn.isAsync = form.isAsync) (p : Deferred m (OneOf fun k => τ (ts k))) :
    form.run f s fn.name (s.encode ts <$> p) args = (do
      let u ← p.result
      some <$> (x u).result) := by
  have hown (u : OneOf fun k => τ (ts k)) : f.callOwn s fn.name (some (s.encode ts u)) args =
      Outcome.given fn.isAsync (x u) := h.callOwn_dispatch hfn hbody hargs u (harm u)
  have hpending := h.callPending_eq hf hfn hparameters hargs p hown
  cases hmode : form.isPending with
  | false =>
    simp [Form.run, hmode, hown, ← hform]
  | true =>
    rw [Form.run, if_pos hmode, hpending, settled_given]
    simp

end Shape.IsApart

end TaggedUnion
