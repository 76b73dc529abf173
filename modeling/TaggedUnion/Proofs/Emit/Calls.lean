import TaggedUnion.Proofs.Emit.Methods
import TaggedUnion.Proofs.Emit.Running
import TaggedUnion.Proofs.OneOf.Awaiting

/-! # Calls with effects

    The machine for dispatches, transforms and taps. Handlers have effects and may be pending:

    * **`Outcome`**, **`Entity`**: what expressions come to and names stand for. A handler takes
      values of its own type only.
    * **`Exec`**: a run has effects in a monad, and what it waits for may be pending.
    * **`Surroundings.machine`**: the machine. A future has to be awaited before its value is used.
    * **`Family.callOwn`**, **`Family.callPending`**: a function that is called by its name on a
      union, or on a future of one.
-/

namespace TaggedUnion

namespace Code

variable {ι : Type}

/-! ### Outcomes -/

/-- A run with effects in `m`. It may be stuck. -/
abbrev Exec (m : Type → Type) := OptionT (Deferred m)

/-- What an expression comes to. -/
inductive Outcome (m : Type → Type) (τ : ι → Type) where
  | value (v : Value τ)
  /-- A future, which does nothing until it is awaited. -/
  | future (x : Exec m (Value τ))

/-- What a name can stand for. -/
inductive Entity (m : Type → Type) (τ : ι → Type) where
  | outcome (o : Outcome m τ)
  | handler (h : ((i : ι) × τ i) → Exec m (Outcome m τ))

variable {m : Type → Type} [Monad m] {τ : ι → Type}

/-- The value of an outcome that is no future. -/
def Outcome.ready : Outcome m τ → Exec m (Value τ)
  | .value v => pure v
  | .future _ => failure

/-- The value that a future resolves to; nothing else can be awaited. -/
def Outcome.awaited : Outcome m τ → Exec m (Value τ)
  | .value _ => failure
  | .future x => x

namespace Entity

/-- The outcome that an entity is. -/
def outcome? : Entity m τ → Option (Outcome m τ)
  | .outcome o => some o
  | .handler _ => none

/-- The handler that an entity is. -/
def handler? : Entity m τ → Option (((i : ι) × τ i) → Exec m (Outcome m τ))
  | .outcome _ => none
  | .handler h => some h

/-- The value that an entity is. -/
def value? : Entity m τ → Option (Value τ)
  | .outcome (.value v) => some v
  | _ => none

/-- The plain value that an entity is. -/
def plain? : Entity m τ → Option ((i : ι) × τ i)
  | .outcome (.value (.plain a)) => some a
  | _ => none

end Entity

/-! ### The machine -/

/-- What surrounds a piece of code: the type of the union, and the methods of its values. -/
structure Surroundings (m : Type → Type) (τ : ι → Type) where
  enum : Enum
  call : String → Value τ → List (Entity m τ) → Exec m (Outcome m τ)

/-- The machine that runs handlers and awaits futures. -/
def Surroundings.machine (c : Surroundings m τ) :
    Machine (Exec m) τ (Entity m τ) (Outcome m τ) where
  stuck := failure
  value? := Entity.value?
  ofValue v := .outcome (.value v)
  name names x :=
    if isLiteral x then pure (.value (.literal x))
    else ((names.lookup x).bind Entity.outcome?).elim failure pure
  call names f xs :=
    -- A handler takes one value of a case type.
    match (names.lookup f).bind Entity.handler?,
      xs.map fun x => (names.lookup x).bind Entity.plain? with
    | some h, [some a] => h a
    | _, _ => failure
  wrap f o := do
    match c.enum.variant? f, ← o.ready with
    | some w, .plain a => pure (.value (.union w a))
    | _, _ => failure
  method names o f xs := do
    let v ← o.ready
    (xs.mapM fun x => names.lookup x).elim failure (c.call f v)
  await o := do
    let v ← o.awaited
    return .value v
  -- Nothing is done before the future is awaited.
  deferred x := pure (.future (do (← x).ready))
  discard o := do
    let _ ← o.ready
    return ()

theorem Expr.run_literal (c : Surroundings m τ) {names : Names (Entity m τ)} {x : String}
    (hx : isLiteral x = true) :
    (Expr.name x).run c.machine names = pure (.value (.literal x)) := if_pos hx

theorem Expr.run_outcome (c : Surroundings m τ) {names : Names (Entity m τ)} {x : String}
    {o : Outcome m τ} (hx : isLiteral x = false) (ho : names.lookup x = some (.outcome o)) :
    (Expr.name x).run c.machine names = pure o := by
  simp [run, Surroundings.machine, hx, ho, Entity.outcome?]

/-- The call of a function. A method has a value that it is called on. -/
def Function.invoke (c : Surroundings m τ) (f : Function) (self : Option (Outcome m τ))
    (arguments : List (Entity m τ)) : Exec m (Outcome m τ) :=
  if self.isSome ≠ f.receiver.isSome then failure
  else f.run c.machine (self.toList.map .outcome ++ arguments)

namespace Function

variable {c : Surroundings m τ} {fn : Function} {body : List Statement} {x : String}
  (hreceiver : fn.receiver = some x) (hbody : fn.body = some body) {args : List (Entity m τ)}
  (hargs : args.length = fn.parameters.length)
include hreceiver hbody hargs

/-- A method that is called works on its parameters and on the value that it is called on. -/
theorem invoke_method (o : Outcome m τ) :
    fn.invoke c (some o) args =
      if fn.isAsync then
        c.machine.deferred (runBody c.machine
          (("self", .outcome o) :: (fn.parameters.map (·.1)).zip args) body)
      else runBody c.machine (("self", .outcome o) :: (fn.parameters.map (·.1)).zip args) body := by
  have hnames : fn.argumentNames = "self" :: fn.parameters.map (·.1) := by
    rw [argumentNames, hreceiver]
    rfl
  have hlength : fn.argumentNames.length = (.outcome o :: args).length := by simp [hnames, hargs]
  have hinvoke : fn.invoke c (some o) args = fn.run c.machine (.outcome o :: args) := by
    simp [invoke, hreceiver]
  rw [hinvoke]
  cases hasync : fn.isAsync with
  | false =>
    rw [run_plain _ hbody hlength hasync, hnames, if_neg (by decide)]
    rfl
  | true =>
    rw [run_async _ hbody hlength hasync, hnames, if_pos rfl]
    rfl

theorem invoke_plain (hasync : fn.isAsync = false) (o : Outcome m τ) :
    fn.invoke c (some o) args =
      runBody c.machine (("self", .outcome o) :: (fn.parameters.map (·.1)).zip args) body := by
  rw [invoke_method hreceiver hbody hargs, if_neg (by simp [hasync])]

end Function

end Code

/-! ### Functions of a union -/

open Code Emit

namespace Family

variable {ι : Type} {τ : ι → Type} {m : Type → Type} [Monad m]

/-- What the functions of the union itself find around them. They call no others. -/
def aloneIn (s : Shape) : Surroundings m τ := ⟨enumOf s, fun _ _ _ => failure⟩

/-- A function of the union itself, called by its name. -/
def callOwn (f : Family) (s : Shape) (name : String) (self : Option (Value τ))
    (arguments : List (Entity m τ)) : Exec m (Outcome m τ) :=
  match (f.ownFunctions s).find? (·.name = name) with
  | some own => own.invoke (aloneIn s) (self.map .value) arguments
  | none => failure

/-- A function of a future of the union, called by its name. -/
def callPending (f : Family) (s : Shape) (name : String) (self : Exec m (Value τ))
    (arguments : List (Entity m τ)) : Exec m (Outcome m τ) :=
  match (f.pendingFunctions s).find? (·.name = name) with
  | some pending =>
    pending.invoke ⟨enumOf s, fun name v => f.callOwn s name (some v)⟩ (some (.future self))
      arguments
  | none => failure

end Family

end TaggedUnion
