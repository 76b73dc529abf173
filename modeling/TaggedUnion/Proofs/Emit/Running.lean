import TaggedUnion.Code.Syntax
import TaggedUnion.Proofs.Text.Numerals

/-! # Running emitted code

    What emitted functions do when they are called. There is one run for all of them. What a run
    works with, and what it can do besides, is told by a machine:

    * **`Value`**: what code works on. Values of case types are known by their types.
    * **`Machine`**: what names stand for and what each form of an expression does. A machine may
      have effects, raise failures or keep vectors.
    * **`Expr.run`**, **`Statement.perform`**, **`runBody`**, **`Function.run`**: the runs of
      expressions, statements, bodies and functions on a machine.

    A run is stuck where code makes no sense: at a name that stands for nothing, at a value of
    another type, at a form that the machine does not know.
-/

namespace TaggedUnion.Code

variable {ι : Type}

/-! ### Values -/

/-- A value in a run, where `τ` has the types of the program. -/
inductive Value (τ : ι → Type) where
  /-- A value of a type that the code knows nothing about. -/
  | plain (a : (i : ι) × τ i)
  /-- A union that holds a value in a variant. -/
  | union (variant : String) (a : (i : ι) × τ i)
  /-- The value of what returns nothing. -/
  | unit
  /-- A number or a text that is written in the code. -/
  | literal (text : String)

/-- What the names in a place stand for; the first entry for a name counts. -/
abbrev Names (N : Type) := List (String × N)

/-! ### Texts in code -/

/-- The variant that a path leads to, from the type itself or by its name. -/
def Enum.variant? (e : Enum) (path : String) : Option String :=
  (e.variants.map (·.name)).find? fun v => path = "Self::" ++ v ∨ path = e.name ++ "::" ++ v

/-- A number or a text in quotes. -/
def isLiteral (text : String) : Bool :=
  text.toList.head?.any fun c => c.isDigit || c == '"'

theorem isLiteral_toString (n : Nat) : isLiteral (toString n) = true := by
  have hne : (toString n).toList ≠ [] := by
    have hrepr : (toString n).toList = Nat.toDigits 10 n := String.toList_ofList
    rw [hrepr]
    exact Nat.toDigits_ne_nil
  obtain ⟨c, cs, hcs⟩ := List.exists_cons_of_ne_nil hne
  have hdigit : c.isDigit = true := Text.isDigit_of_mem_toString (n := n) (hcs ▸ List.mem_cons_self)
  rw [isLiteral, hcs]
  simp [hdigit]

/-! ### Machines -/

/-- What code runs on: a run is a computation in `M`, names stand for things in `N`, and
    expressions come to things in `R`. Without a word from the machine a form of code is stuck. -/
structure Machine (M : Type → Type) (τ : ι → Type) (N R : Type) where
  /-- A run that does not go on. -/
  stuck : {α : Type} → M α
  /-- The value that a name stands for, if it is one. -/
  value? : N → Option (Value τ)
  /-- What stands for a value. -/
  ofValue : Value τ → N
  /-- The members of a list that can be gone through. -/
  members? : N → Option (List (Value τ)) := fun _ => none
  /-- Whether two values differ, if they can be compared. -/
  differ? : Value τ → Value τ → Option Bool := fun _ _ => none
  name : Names N → String → M R
  call : Names N → String → List String → M R
  wrap : String → R → M R := fun _ _ => stuck
  record : Names N → String → List (String × String) → M R := fun _ _ _ => stuck
  method : Names N → R → String → List String → M R := fun _ _ _ _ => stuck
  await : R → M R := fun _ => stuck
  deferred : M R → M R := fun _ => stuck
  /-- The names behind a binding. -/
  bind : Names N → String → R → M (Names N) := fun _ _ _ => stuck
  /-- What becomes of a result that is not used. -/
  discard : R → M Unit := fun _ => stuck

section running

variable {M : Type → Type} [Monad M] {τ : ι → Type} {N R : Type} (c : Machine M τ N R)

/-- The value that a name stands for. -/
def Machine.valueOf? (names : Names N) (x : String) : Option (Value τ) :=
  (names.lookup x).bind c.value?

/-! ### Expressions -/

/-- The run of an expression. -/
def Expr.run (names : Names N) : Expr → M R
  | .name x => c.name names x
  | .call f xs => c.call names f xs
  | .wrap f e => do c.wrap f (← e.run names)
  | .record type fields => c.record names type fields
  | .method e f xs => do c.method names (← e.run names) f xs
  | .await e => do c.await (← e.run names)
  | .deferred e => c.deferred (e.run names)

section expressions

variable (names : Names N) (e : Expr) (f : String) (xs : List String)

theorem Expr.run_call : (Expr.call f xs).run c names = c.call names f xs := rfl

theorem Expr.run_wrap : (Expr.wrap f e).run c names = e.run c names >>= c.wrap f := rfl

theorem Expr.run_record (fields : List (String × String)) :
    (Expr.record f fields).run c names = c.record names f fields := rfl

theorem Expr.run_method :
    (Expr.method e f xs).run c names = e.run c names >>= fun r => c.method names r f xs := rfl

theorem Expr.run_await : (Expr.await e).run c names = e.run c names >>= c.await := rfl

theorem Expr.run_deferred : (Expr.deferred e).run c names = c.deferred (e.run c names) := rfl

end expressions

/-! ### Statements -/

/-- The pattern applies to a variant. -/
def Pattern.applies (variant : String) : Pattern → Bool
  | .held v _ => v == variant
  | .other _ => true

/-- The names in an arm that is chosen for a union. -/
def Pattern.bindIn (names : Names N) (variant : String) (a : (i : ι) × τ i) : Pattern → Names N
  | .held _ x => (x, c.ofValue (.plain a)) :: names
  | .other x => (x, c.ofValue (.union variant a)) :: names

/-- The run of a dispatch on a name: of the first arm that applies to the union. -/
def dispatch (names : Names N) (x : String) (arms : List Arm) : M R :=
  match c.valueOf? names x with
  | some (.union v a) =>
    match arms.find? (·.pattern.applies v) with
    | some arm => arm.value.run c (arm.pattern.bindIn c names v a)
    | none => c.stuck
  | _ => c.stuck

/-- The run of a block with a head. -/
def BlockHead.run (names : Names N) (block : Names N → M Unit) : BlockHead → M Unit
  | .ifHeld variant x union =>
    match c.valueOf? names union with
    | some (.union v a) =>
      if v = variant then block ((x, c.ofValue (.plain a)) :: names) else pure ()
    | _ => c.stuck
  | .ifDifferent x y =>
    match c.valueOf? names x, c.valueOf? names y with
    | some v, some w =>
      match c.differ? v w with
      | some true => block names
      | some false => pure ()
      | none => c.stuck
    | _, _ => c.stuck
  | .forEach x list =>
    match (names.lookup list).bind c.members? with
    | some vs => forM vs fun v => block ((x, c.ofValue v) :: names)
    | none => c.stuck

/-- The run of a statement for what it does. A name that is bound in a block is not there behind
    it. -/
def Statement.perform (names : Names N) : Statement → M Unit
  | .value e | .run e => do c.discard (← e.run c names)
  | .bind x e => do
    let _ ← c.bind names x (← e.run c names)
  | .dispatch x arms => do c.discard (← Code.dispatch c names x arms)
  | .within head body => head.run c names fun names => body.perform names

/-- The run of a body: of its statements one after the other. The last one gives the value. -/
def runBody (names : Names N) : List Statement → M R
  | [] => c.stuck
  | [.value e] => e.run c names
  | [.dispatch x arms] => dispatch c names x arms
  | .bind x e :: rest => do runBody (← c.bind names x (← e.run c names)) rest
  | statement :: rest => do
    statement.perform c names
    runBody names rest

theorem runBody_bind (names : Names N) (x : String) (e : Expr) (rest : List Statement) :
    runBody c names (.bind x e :: rest) = (do
      let r ← e.run c names
      let names ← c.bind names x r
      runBody c names rest) := rfl

theorem runBody_within (names : Names N) (head : BlockHead) (body : Statement)
    (rest : List Statement) :
    runBody c names (.within head body :: rest) = (do
      head.run c names fun names => body.perform c names
      runBody c names rest) := rfl

/-! ### Functions -/

namespace Function

/-- What the arguments of a function are called in its body. A method has the value that it is
    called on in front. -/
def argumentNames (f : Function) : List String :=
  f.receiver.toList.map (fun _ => "self") ++ f.parameters.map (·.1)

/-- The run of a function for arguments. Of an asynchronous function it is put off. -/
def run (f : Function) (arguments : List N) : M R :=
  match f.body with
  | none => c.stuck
  | some body =>
    if f.argumentNames.length ≠ arguments.length then c.stuck
    else if f.isAsync then c.deferred (runBody c (f.argumentNames.zip arguments) body)
    else runBody c (f.argumentNames.zip arguments) body

variable {f : Function} {body : List Statement} (hbody : f.body = some body) {arguments : List N}
  (harguments : f.argumentNames.length = arguments.length)
include hbody harguments

theorem run_plain (hasync : f.isAsync = false) :
    f.run c arguments = runBody c (f.argumentNames.zip arguments) body := by
  simp [run, hbody, harguments, hasync]

theorem run_async (hasync : f.isAsync = true) :
    f.run c arguments = c.deferred (runBody c (f.argumentNames.zip arguments) body) := by
  simp [run, hbody, harguments, hasync]

end Function

end running

end TaggedUnion.Code
