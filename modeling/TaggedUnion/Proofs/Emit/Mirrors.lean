import Mathlib.Data.List.Forall2
import TaggedUnion.Proofs.Emit.Methods

/-! # Methods and their images for pending unions

    A union that is still awaited is dispatched on and transformed through a trait. The functions
    of the trait are written from the cases once more. This module compares them with the methods
    of the union itself:

    * **`Forwards`**: a function of the trait takes what a method of the union takes, calls it on
      the awaited union, and results in the future of its result.
    * **`Mirrors`**: it also reads like the method, up to its first line and its body.
    * **`mirrors_matchFunctions`**, **`mirrors_switchFunctions`**,
      **`Transform.mirrors_functions`**: the emitters write such functions, one for each method.

    A dispatch and its image are two templates. Their handlers and bounds are put together in
    different ways, and the image lists the handlers where the dispatch declares them. That the
    lists have one length is what makes them agree.
-/

namespace TaggedUnion

open Code Emit

/-! ### A method and its image -/

/-- The type of what a function returns. -/
def Code.Function.resultType (f : Function) : String := f.result.getD "()"

/-- The call of a method on the awaited union, with the parameters handed on in their order. The
    call is awaited if the method is asynchronous. -/
def Code.Function.forwarded (f : Function) : Expr :=
  let call : Expr := .method (.await (.name "self")) f.name (f.parameters.map (·.1))
  .deferred (if f.isAsync then .await call else call)

/-- That call as written. -/
def Code.Function.forwardedText (f : Function) : String :=
  "async move \x7b self.await." ++ f.name ++ "(" ++ commaSeparated (f.parameters.map (·.1)) ++ ")"
    ++ (if f.isAsync then ".await" else "") ++ " \x7d"

theorem Code.Function.text_forwarded (f : Function) : f.forwarded.text = f.forwardedText := by
  have hself : "async move \x7b self.await." = "async move \x7b " ++ "self.await." := by decide
  unfold forwarded forwardedText
  cases f.isAsync <;>
    · simp only [Bool.false_eq_true, if_true, if_false, Expr.text, String.append_assoc,
        String.append_empty]
      rw [hself, String.append_assoc]
      rfl

/-- A function of the trait of pending unions does for these what a method does for the union
    itself. -/
structure Forwards (own pending : Function) : Prop where
  name : pending.name = own.name
  typeParameters : pending.typeParameters = own.typeParameters
  receivers : own.receiver = some "self" ∧ pending.receiver = some "self"
  parameters : pending.parameters = own.parameters
  bounds : pending.bounds = own.bounds
  /-- The result is the future of the result of the method. -/
  result : pending.result = some ("impl " ++ futureOf own.resultType)
  notAsync : pending.isAsync = false
  body : pending.body = some [.value own.forwarded]
  /-- It has one parameter a line, and no marks. -/
  layout : pending.spread = true ∧ pending.isPublic = false ∧ pending.isConst = false

/-- It does so, and is written like the method. -/
structure Mirrors (own pending : Function) : Prop extends Forwards own pending where
  /-- The method as written. -/
  ownLines : ∃ body, own.lines =
    leadLines own.docs own.attributes ++
      (line ("pub " ++ own.asyncMark ++ own.head) :: own.parameterLines ++
        boundedBlock own.closing own.bounds body)
  /-- The function of the trait as written: the same head, parameters and bounds. -/
  pendingLines : pending.lines =
    leadLines pending.docs pending.attributes ++
      (line own.head :: own.parameterLines ++
        boundedBlock (") -> impl " ++ futureOf own.resultType) own.bounds
          [line own.forwardedText])

/-- The text follows from the data. -/
theorem Forwards.mirrors {own pending : Function} (h : Forwards own pending)
    {body : List Statement} (hown : own.IsConsuming body) : Mirrors own pending where
  toForwards := h
  ownLines := ⟨_, hown.lines_eq⟩
  pendingLines := by
    obtain ⟨hspread, hpublic, hconst⟩ := h.layout
    have hopening : pending.opening = own.head := by
      simp [Function.opening, Function.head, hpublic, hconst, h.notAsync, h.name,
        h.typeParameters, String.append_assoc]
    have hclosing : pending.closing = ") -> impl " ++ futureOf own.resultType := by
      rw [Function.closing, h.result]
      show ") -> " ++ ("impl " ++ futureOf own.resultType) = _
      rw [← String.append_assoc]
      rfl
    have hparameters : pending.parameterLines = own.parameterLines := by
      rw [Function.parameterLines, h.parameters, Function.parameterLines]
    -- The body is one expression on one line.
    rw [Function.lines_of_spread hspread h.receivers.2 h.body, hopening, hclosing, hparameters,
      h.bounds, List.flatMap_singleton, Statement.lines, own.text_forwarded]

/-- What stands in the second of two lists that are compared entry by entry has a partner in the
    first. -/
theorem exists_of_mem_right {α β : Type} {R : α → β → Prop} {xs : List α} {ys : List β}
    (h : List.Forall₂ R xs ys) {y : β} (hy : y ∈ ys) : ∃ x ∈ xs, R x y := by
  induction h with
  | nil => cases hy
  | cons hR _ ih =>
    rcases List.mem_cons.mp hy with rfl | hy
    · exact ⟨_, List.mem_cons_self, hR⟩
    · obtain ⟨x, hx, hxy⟩ := ih hy
      exact ⟨x, List.mem_cons_of_mem _ hx, hxy⟩

theorem exists_of_mem_left {α β : Type} {R : α → β → Prop} {xs : List α} {ys : List β}
    (h : List.Forall₂ R xs ys) {x : α} (hx : x ∈ xs) : ∃ y ∈ ys, R x y :=
  exists_of_mem_right h.flip hx

/-- Images have the names of the methods. -/
theorem map_name_of_mirrors {functions pending : List Function}
    (h : List.Forall₂ Mirrors functions pending) :
    pending.map (·.name) = functions.map (·.name) := by
  induction h with
  | nil => rfl
  | cons hmirrors _ ih => rw [List.map_cons, List.map_cons, hmirrors.name, ih]

/-! ### Handlers -/

section lengths

variable (s : Shape)

@[simp] theorem Shape.length_freshNumbered (base : String) :
    (s.freshNumbered base).length = s.cases.length := by
  simp [freshNumbered, arity]

@[simp] theorem Emit.Transform.length_targets : (targets s).length = s.cases.length := by
  unfold targets
  split
  · exact s.length_freshNumbered "U"
  · exact List.length_map _

end lengths

namespace Emit

variable {s : Shape} {isAsync : Bool}

/-- Where each case has a result, the handlers are declared in the order in which they are handed
    on. -/
theorem map_fst_handlers {results : List (Option String)}
    (h : results.length = s.cases.length) :
    (handlers s results).map (·.1) = handlerArguments s := by
  have hnames : (handlers s results).map (·.1) =
      ((s.cases.zip results).map (·.1)).map handlerName := by
    simp [handlers, Function.comp_def]
  rw [hnames, List.map_fst_zip (Nat.le_of_eq h.symm), handlerArguments]

theorem IsDispatch.map_fst_parameters {fn : Function} (h : IsDispatch s isAsync fn) :
    fn.parameters.map (·.1) = handlerArguments s := by
  obtain ⟨stem, result, name, docs, rfl⟩ := h
  refine map_fst_handlers ?_
  cases isAsync <;> simp [Shape.arity]

theorem Transform.map_fst_parameters_full (t : Transform) :
    (t.full s isAsync).parameters.map (·.1) = handlerArguments s := by
  refine map_fst_handlers ?_
  cases isAsync <;> simp

/-! ### Dispatches -/

variable (s)

/-- The image of a plain dispatch. -/
theorem mirrors_pendingDispatch (stem name : String) (docs : List String)
    (result : Option String) :
    Mirrors { dispatchFunction s stem result false with name := name, docs := docs }
      (pendingDispatch s name name result) := by
  have hown : IsDispatch s false
      { dispatchFunction s stem result false with name := name, docs := docs } :=
    ⟨stem, result, name, docs, rfl⟩
  refine Forwards.mirrors ?_ hown.isConsuming
  exact {
    name := rfl
    typeParameters := rfl
    receivers := ⟨rfl, rfl⟩
    parameters := by
      -- Every case has the same result, be it told case by case or by their number.
      have hresults : (s.cases.map fun _ => result) = List.replicate s.arity result :=
        List.map_const'
      rw [pendingDispatch, hresults]
      rfl
    bounds := rfl
    result := rfl
    notAsync := rfl
    body := by
      rw [Function.forwarded, hown.map_fst_parameters]
      rfl
    layout := ⟨rfl, rfl, rfl⟩ }

/-- The image of an asynchronous dispatch. -/
theorem mirrors_pendingDispatchAsync (stem name : String) (docs : List String)
    (result : Option String) :
    Mirrors { dispatchFunction s stem result true with name := name, docs := docs }
      (pendingDispatchAsync s name name result) := by
  have hown : IsDispatch s true
      { dispatchFunction s stem result true with name := name, docs := docs } :=
    ⟨stem, result, name, docs, rfl⟩
  refine Forwards.mirrors ?_ hown.isConsuming
  exact {
    name := rfl
    typeParameters := rfl
    receivers := ⟨rfl, rfl⟩
    parameters := rfl
    bounds := by
      -- There are as many futures as cases.
      have hlength : (s.freshNumbered "Fut").length = s.arity := s.length_freshNumbered "Fut"
      rw [pendingDispatchAsync, hlength]
      rfl
    result := rfl
    notAsync := rfl
    body := by
      rw [Function.forwarded, hown.map_fst_parameters]
      rfl
    layout := ⟨rfl, rfl, rfl⟩ }

theorem mirrors_matchFunctions :
    List.Forall₂ Mirrors (matchFunctions s) (pendingMatchFunctions s) :=
  .cons (mirrors_pendingDispatch s "match" "match_with" _ _)
    (.cons (mirrors_pendingDispatchAsync s "match" "match_async" _ _) .nil)

theorem mirrors_switchFunctions :
    List.Forall₂ Mirrors (switchFunctions s) (pendingSwitchFunctions s) :=
  .cons (mirrors_pendingDispatch s "switch" "switch" _ _)
    (.cons (mirrors_pendingDispatchAsync s "switch" "switch_async" _ _) .nil)

/-- A function for pending unions that calls a dispatch. -/
def IsPendingDispatch (f : Function) : Prop :=
  ∃ name method result,
    f = pendingDispatch s name method result ∨ f = pendingDispatchAsync s name method result

theorem isPendingDispatch_of_mem_match {f : Function} (h : f ∈ pendingMatchFunctions s) :
    IsPendingDispatch s f := by
  simp only [pendingMatchFunctions, List.mem_cons, List.not_mem_nil, or_false] at h
  rcases h with rfl | rfl
  · exact ⟨_, _, _, .inl rfl⟩
  · exact ⟨_, _, _, .inr rfl⟩

theorem isPendingDispatch_of_mem_switch {f : Function} (h : f ∈ pendingSwitchFunctions s) :
    IsPendingDispatch s f := by
  simp only [pendingSwitchFunctions, List.mem_cons, List.not_mem_nil, or_false] at h
  rcases h with rfl | rfl
  · exact ⟨_, _, _, .inl rfl⟩
  · exact ⟨_, _, _, .inr rfl⟩

/-! ### Transforms -/

namespace Transform

/-- The two functions that a method is written as, if it forwards to itself with all of its
    parameters. -/
theorem Method.mirrors {m : Method} (h : m.forward = (m.name, m.parameters.map (·.1))) :
    Mirrors m.inherent m.pending := by
  have hown : m.inherent.IsConsuming [.dispatch "self" m.arms] := ⟨rfl, rfl, rfl, rfl, rfl⟩
  refine Forwards.mirrors ?_ hown
  exact {
    name := rfl
    typeParameters := rfl
    receivers := ⟨rfl, rfl⟩
    parameters := rfl
    bounds := rfl
    result := rfl
    notAsync := rfl
    body := by
      rw [Method.pending, h]
      rfl
    layout := ⟨rfl, rfl, rfl⟩ }

/-- A method calls itself on an awaited union. -/
theorem forward_of_mem_methods (t : Transform) {m : Method} (hm : m ∈ t.methods s) :
    m.forward = (m.name, m.parameters.map (·.1)) := by
  rcases (t.mem_methods_iff s).mp hm with ⟨isAsync, rfl⟩ | ⟨i, hi, isAsync, rfl⟩
  · have hparameters : (t.fullMethod s isAsync).parameters.map (·.1) = handlerArguments s :=
      t.map_fst_parameters_full
    rw [hparameters]
    rfl
  · rfl

theorem mirrors_functions (t : Transform) :
    List.Forall₂ Mirrors (t.functions s) (t.pendingFunctions s) := by
  -- Both lists are the methods, each written in one of the two ways.
  rw [functions, pendingFunctions, List.forall₂_map_left_iff, List.forall₂_map_right_iff]
  exact List.forall₂_same.mpr fun m hm => Method.mirrors (t.forward_of_mem_methods s hm)

end Transform

end Emit

/-! ### Families -/

/-- A family that is made together with its trait has an image of each of its methods. -/
theorem Family.mirrors_of_items_eq {f : Family} {s : Shape} {name title : String}
    {functions pending : List Function}
    (hitems : f.items s = withPending s name title functions pending)
    (h : List.Forall₂ Mirrors functions pending) :
    List.Forall₂ Mirrors (f.ownFunctions s) (f.pendingFunctions s) := by
  have hpending : f.pendingFunctions s = pending := by
    rw [pendingFunctions, hitems, traits_withPending, List.flatMap_singleton]
    rfl
  rw [ownFunctions, hitems, s.ownFunctions_withPending, hpending]
  exact h

end TaggedUnion
