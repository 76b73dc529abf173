import TaggedUnion.Proofs.Emit.Dispatching
import TaggedUnion.Proofs.OneOf.Records
import TaggedUnion.Status

/-! # One handler runs

    A dispatch or a transform runs the handler of the held case, once and with the held value, in
    all four of its forms:

    * **`Shape.OneHandler`**: the methods that are emitted for a shape do so. Each equation has
      one form of a method on the left, and on the right the handler of the held case, with no
      mention of the form.
    * **`OneOf.OneHandler`**: the functions that a union has at run time do so, which a record of
      the calls of handlers shows.
    * **`runsOneHandler`**: this holds for the generic unions and for the status of a job, with
      handlers that have effects in any monad.
-/

namespace TaggedUnion

open Code Emit

variable {ι : Type} [DecidableEq ι] {τ : ι → Type} {m : Type → Type} [Monad m] {n : Nat}

/-! ### The methods of a shape -/

/-- Every form of a method of the union runs the handler of the held case, and that handler
    only. -/
structure Shape.OneHandler (s : Shape) (m : Type → Type) [Monad m] (τ : ι → Type)
    (ts us : Fin n → ι) : Prop where
  matching (form : Form) (p : Deferred m (OneOf fun k => τ (ts k)))
      (d : ∀ k, τ (ts k) → Deferred m (Value τ)) :
    form.run .matching s (if form.isAsync then "match_async" else "match_with") (s.encode ts <$> p)
        (handlersOf form.isAsync ts d) = do
      let u ← p.result
      some <$> u.matchWith fun k a => (d k a).result
  switching (form : Form) (p : Deferred m (OneOf fun k => τ (ts k)))
      (d : ∀ k, τ (ts k) → Deferred m Unit) :
    form.run .switching s (if form.isAsync then "switch_async" else "switch") (s.encode ts <$> p)
        (handlersOf form.isAsync ts fun k a => (fun _ => .unit) <$> d k a) = do
      let u ← p.result
      (fun _ => some .unit) <$> u.matchWith fun k a => (d k a).result
  map (form : Form) (p : Deferred m (OneOf fun k => τ (ts k)))
      (d : ∀ k, τ (ts k) → Deferred m (τ (us k))) :
    form.run .map s (if form.isAsync then "map_async" else "map") (s.encode ts <$> p)
        (handlersOf form.isAsync ts fun k a => (fun b => .plain ⟨us k, b⟩) <$> d k a) = do
      let u ← p.result
      (fun v => some (s.encode us v)) <$> u.map fun k a => (d k a).result
  bind (form : Form) (p : Deferred m (OneOf fun k => τ (ts k)))
      (d : ∀ k, τ (ts k) → Deferred m (OneOf fun k => τ (us k))) :
    form.run .bind s (if form.isAsync then "bind_async" else "bind") (s.encode ts <$> p)
        (handlersOf form.isAsync ts fun k a => s.encode us <$> d k a) = do
      let u ← p.result
      (fun v => some (s.encode us v)) <$> u.bind fun k a => (d k a).result
  mapCase (form : Form) (p : Deferred m (OneOf fun k => τ (ts k))) (k : Fin n)
      (hk : ∀ i, i ≠ k → ts i = us i) (d : τ (ts k) → Deferred m (τ (us k))) :
    form.run .map s (Transform.formName form.isAsync ("map_" ++ (s.caseAt k).stem))
        (s.encode ts <$> p)
        [.handlerOf form.isAsync (ts k) fun a => (fun b => .plain ⟨us k, b⟩) <$> d a] = do
      let u ← p.result
      (fun v => some (s.encode us v)) <$> u.mapCase k (agreeExcept hk) fun a => (d a).result
  bindCase (form : Form) (p : Deferred m (OneOf fun k => τ (ts k))) (k : Fin n)
      (hk : ∀ i, i ≠ k → ts i = us i) (d : τ (ts k) → Deferred m (OneOf fun k => τ (us k))) :
    form.run .bind s (Transform.formName form.isAsync ("bind_" ++ (s.caseAt k).stem))
        (s.encode ts <$> p)
        [.handlerOf form.isAsync (ts k) fun a => s.encode us <$> d a] = do
      let u ← p.result
      (fun v => some (s.encode us v)) <$> u.bindCase k (agreeExcept hk) fun a => (d a).result
  /-- The position of the handler that runs is the tag of the union. -/
  tag (u : OneOf fun k => τ (ts k)) :
    settled false (Family.core.callOwn s "tag" (some (s.encode ts u)) [] : Exec m (Outcome m τ)) =
      pure (some (.literal (toString u.tag)))

namespace Shape.IsApart

variable {s : Shape} {ts us : Fin n → ι} [LawfulMonad m] (h : s.IsApart n)
include h

theorem oneHandler : s.OneHandler m τ ts us where
  matching form p d := by
    have hitems : Family.matching.items s =
        withPending s (matchTraitName s) _ (matchFunctions s) (pendingMatchFunctions s) := rfl
    exact h.run_dispatch (Family.mirrors_of_items_eq hitems (mirrors_matchFunctions s))
      (s.ownFunctions_withPending ..) ⟨_, _, _, _, rfl⟩ ⟨_, _, _, _, rfl⟩ form p d
  switching form p d := by
    have hitems : Family.switching.items s =
        withPending s (switchTraitName s) _ (switchFunctions s) (pendingSwitchFunctions s) := rfl
    refine (h.run_dispatch (Family.mirrors_of_items_eq hitems (mirrors_switchFunctions s))
      (s.ownFunctions_withPending ..) ⟨_, _, _, _, rfl⟩ ⟨_, _, _, _, rfl⟩ form p _).trans ?_
    simp [OneOf.matchWith]
  map form p d := by
    refine (h.run_full (t := .map) rfl form (x := fun u => s.encode us <$> u.map d) ?_ p).trans ?_
    · intro u
      -- The result goes back into the variant that the value came out of.
      have hencode : s.encode us <$> u.map d = (fun b =>
          .union (s.caseAt u.index).variant ⟨us u.index, b⟩) <$> d u.index u.value := by
        simp [OneOf.map, encode]
      rw [hencode]
      exact h.turns_wrap u.index form.isAsync (d u.index u.value)
    · simp [OneOf.result_map]
  bind form p d := by
    refine (h.run_full (t := .bind) rfl form (x := fun u => s.encode us <$> u.bind d) ?_ p).trans ?_
    · intro u c names e _ he
      exact he
    · simp [OneOf.result_bind]
  mapCase form p k hk d := by
    refine (h.run_single (t := .map) rfl k form
      (x := fun u => s.encode us <$> u.mapCase k (agreeExcept hk) d) ?_ ?_ p).trans ?_
    · intro a
      have hencode : s.encode us <$> OneOf.mapCase k (agreeExcept hk) (.ofCase k a) d = (fun b =>
          .union (s.caseAt k).variant ⟨us k, b⟩) <$> d a := by
        rw [OneOf.mapCase_held]
        simp [OneOf.ofCase, encode]
      rw [hencode]
      exact h.turns_wrap k form.isAsync (d a)
    · intro u hu
      simp [OneOf.mapCase_other (agreeExcept hk) hu, s.encode_passThrough hk u hu]
    · simp [OneOf.result_mapCase]
  bindCase form p k hk d := by
    refine (h.run_single (t := .bind) rfl k form
      (x := fun u => s.encode us <$> u.bindCase k (agreeExcept hk) d) ?_ ?_ p).trans ?_
    · intro a c names e _ he
      rw [OneOf.bindCase_held]
      exact he
    · intro u hu
      simp [OneOf.bindCase_other (agreeExcept hk) hu, s.encode_passThrough hk u hu]
    · simp [OneOf.result_bindCase]
  tag u := by
    have hfn : tagFunction s ∈ Family.core.ownFunctions s := by
      rw [Family.ownFunctions, Family.items, s.ownFunctions_core]
      simp [coreFunctions]
    have hcall : Family.core.callOwn s "tag" (some (s.encode ts u)) [] =
        (pure (.value (.literal (toString u.tag))) : Exec m (Outcome m τ)) := by
      have hself : (Family.aloneIn s : Surroundings m τ).machine.valueOf?
          [("self", .outcome (.value (s.encode ts u)))] "self" = some (s.encode ts u) := rfl
      refine (h.callOwn_eq hfn _ _).trans ((Function.invoke_plain rfl rfl rfl rfl _).trans ?_)
      refine (h.dispatch_eq hself "_" _).trans ?_
      rw [h.ordinal, Expr.run_literal _ (isLiteral_toString _)]
      rfl
    rw [hcall]
    simp [settled, Outcome.ready]

end Shape.IsApart

/-! ### The functions at run time -/

/-- Every function of a union with a handler for each case calls that of the held case, once and
    with the held value; one with a handler for one case calls it so if that case is held. The
    other forms of the function do what the plain form does. -/
structure OneOf.OneHandler (m : Type → Type) [Monad m] (α β : Fin n → Type) (γ : Type) : Prop where
  matchWith (u : OneOf α) (d : ∀ k, α k → m γ) :
    Records (u.matchWith fun k => recorded k (d k)) [u] (u.matchWith d)
  map (u : OneOf α) (d : ∀ k, α k → m (β k)) :
    Records (u.map fun k => recorded k (d k)) [u] (u.map d)
  bind (u : OneOf α) (d : ∀ k, α k → m (OneOf β)) :
    Records (u.bind fun k => recorded k (d k)) [u] (u.bind d)
  mapCase (u : OneOf α) (k : Fin n) (h : AgreeExcept k α β) (d : α k → m (β k)) :
    Records (u.mapCase k h (recorded k d)) (callsAt k u) (u.mapCase k h d)
  bindCase (u : OneOf α) (k : Fin n) (h : AgreeExcept k α β) (d : α k → m (OneOf β)) :
    Records (u.bindCase k h (recorded k d)) (callsAt k u) (u.bindCase k h d)
  matchForms (d : ∀ k, α k → Deferred m γ) :
    FormsAgree (fun u => u.matchWith fun k a => (d k a).result) (fun u => u.matchWith d)
      (fun p => p.matchWith fun k a => (d k a).result) (fun p => p.matchAsync d)
  mapForms (d : ∀ k, α k → Deferred m (β k)) :
    FormsAgree (fun u => u.map fun k a => (d k a).result) (fun u => u.map d)
      (fun p => p.map fun k a => (d k a).result) (fun p => p.mapAsync d)
  bindForms (d : ∀ k, α k → Deferred m (OneOf β)) :
    FormsAgree (fun u => u.bind fun k a => (d k a).result) (fun u => u.bind d)
      (fun p => p.bindTo fun k a => (d k a).result) (fun p => p.bindAsync d)
  mapCaseForms (k : Fin n) (h : AgreeExcept k α β) (d : α k → Deferred m (β k)) :
    FormsAgree (fun u => u.mapCase k h fun a => (d a).result) (fun u => u.mapCase k h d)
      (fun p => p.mapCase k h fun a => (d a).result) (fun p => p.mapCaseAsync k h d)
  bindCaseForms (k : Fin n) (h : AgreeExcept k α β) (d : α k → Deferred m (OneOf β)) :
    FormsAgree (fun u => u.bindCase k h fun a => (d a).result) (fun u => u.bindCase k h d)
      (fun p => p.bindCase k h fun a => (d a).result) (fun p => p.bindCaseAsync k h d)

theorem OneOf.oneHandler [LawfulMonad m] (α β : Fin n → Type) (γ : Type) :
    OneHandler m α β γ where
  matchWith := records_matchWith
  map := records_map
  bind := records_bind
  mapCase := records_mapCase
  bindCase := records_bindCase
  matchForms d := formsAgree fun u => u.result_matchWith d
  mapForms d := formsAgree fun u => u.result_map d
  bindForms d := formsAgree fun u => u.result_bind d
  mapCaseForms _ h d := formsAgree fun u => result_mapCase h u d
  bindCaseForms _ h d := formsAgree fun u => result_bindCase h u d

/-! ### The status of a job -/

open Schema

/-- The document that declares the union. -/
def Status.document : Document :=
  (Document.empty "crate::status").run
    [.addType {
        name := "Active"
        kind := .record
        modulePath := some "crate::cases"
        constructors := [{
          parameters := [⟨"description", "String"⟩]
          documentation := some
            ("<summary>Creates an active status.</summary>\n                " ++
              "<param name=\"description\">What the job is currently doing</param>") }] },
      .addType {
        name := "Retry"
        kind := .record
        modulePath := some "crate::cases"
        constructors := [{ implicit := true, parameters := [⟨"attempt", "u32"⟩] }] },
      .addType {
        name := "Aborted"
        kind := .record
        modulePath := some "crate::cases"
        constructors := [{
          implicit := true
          parameters := [⟨"cancellation_time", "std::time::SystemTime"⟩] }] },
      .addUnion {
        scope := "crate::status", name := "Status", cases := ["Active", "Retry", "Aborted"] }]

/-- The union of that document. -/
def Status.union : Schema.Union :=
  UnionDeclaration.resolveIn ⟨"crate::status", "Status", true, ["Active", "Retry", "Aborted"]⟩
    Status.document

theorem Status.ofDocument_document : Union.ofDocument document "Status" = .ok union :=
  Union.ofDocument_of_union? (rfl : document.union? "Status" = some _)

/-- Stems that are apart whatever values can be compared. -/
theorem Shape.namesDistinct_of_stems {s : Shape} {stems : List String} (h : s.stems = stems)
    (hnodup : stems.Nodup) (hasync : ∀ a ∈ stems, a ≠ "async")
    (hsuffix : ∀ a ∈ stems, ∀ b ∈ stems, a ≠ b ++ "_async" ∧ a ≠ b ++ "_eq") :
    s.NamesDistinct := by
  subst h
  simp only [stems, List.forall_mem_map] at hasync hsuffix
  refine s.namesDistinct_iff.mpr ⟨hnodup, hasync, ?_, ?_⟩
  · exact fun x hx y hy => (hsuffix x hx y hy).1
  · exact fun x hx y hy _ => (hsuffix x hx y hy).2

theorem Shape.isApart_status (path : String) :
    (Shape.named Status.union.populate path).IsApart 3 := by
  have hcases : Status.union.cases.map (fun c => (c.ordinal, c.name, c.stem)) =
      [(1, "Active", "active"), (2, "Retry", "retry"), (3, "Aborted", "aborted")] := by decide
  have hordinals := congrArg (List.map (·.1)) hcases
  have hnames := congrArg (List.map (·.2.1)) hcases
  have hstems := congrArg (List.map (·.2.2)) hcases
  have hshape : (named Status.union.populate path).stems = ["active", "retry", "aborted"] := by
    simpa [stems, named, Union.populate, Function.comp_def, Case.stem] using hstems
  have hvariants : (named Status.union.populate path).cases.map (·.variant) =
      ["Active", "Retry", "Aborted"] := by
    simpa [named, Union.populate, Function.comp_def] using hnames
  refine ⟨rfl, rfl, ?_, ?_, ?_, ?_⟩
  · have hrange : List.range' 1 3 = [1, 2, 3] := rfl
    rw [hrange]
    simpa [named, Union.populate, Function.comp_def] using hordinals
  · rw [hvariants]
    decide
  · exact namesDistinct_of_stems hshape (by decide) (by decide) (by decide)
  · intro v w
    exact append_ne_append (p := "Status::") (by decide) (by decide) v w

/-! ### All unions -/

/-- Every function of a union with a handler for each case runs the handler of the held case, once
    and with the held value, and no other one; a function with a handler for one case runs it if
    this case is held. All forms of a function have one result and one record of calls. So do the
    functions that are emitted for a generic union, those for the status of a job, and those that
    a union has at run time. -/
theorem runsOneHandler (m : Type → Type) [Monad m] [LawfulMonad m] :
    (∀ {ι : Type} [DecidableEq ι] (τ : ι → Type) (n : Nat) (path : String) (ts us : Fin n → ι),
      (Shape.generic n path).OneHandler m τ ts us) ∧
    (Union.ofDocument Status.document "Status" = .ok Status.union ∧
      ∀ {ι : Type} [DecidableEq ι] (τ : ι → Type) (path : String) (ts us : Fin 3 → ι),
        (Shape.named Status.union.populate path).OneHandler m τ ts us) ∧
    ∀ {n : Nat} (α β : Fin n → Type) (γ : Type), OneOf.OneHandler m α β γ := by
  refine ⟨?_, ⟨Status.ofDocument_document, ?_⟩, ?_⟩
  · intro ι _ τ n path ts us
    exact (Shape.isApart_generic n path).oneHandler
  · intro ι _ τ path ts us
    exact (Shape.isApart_status path).oneHandler
  · intro n α β γ
    exact OneOf.oneHandler α β γ

/-- A future of a status that is pending, with handlers that are pending and add to a log. -/
theorem runsOneHandler_retry :
    let log (k : Fin 3) (_ : statusCases k) : Deferred (StateM (List String)) (Value statusCases) :=
      .delayed 2 (do
        modify (· ++ [Status.labels.caseName k])
        return .literal "done")
    let s := Shape.named Status.union.populate defaultRuntimePath
    let p : Deferred (StateM (List String)) Status := .delayed 5 (pure (Status.newRetry 3))
    ((⟨true, true⟩ : Form).run .matching s "match_async" (s.encode id <$> p)
      (handlersOf true id log)).run ["begin"] = (some (.literal "done"), ["begin", "Retry"]) := by
  intro log s p
  have hstatus := (runsOneHandler (StateM (List String))).2.1.2 statusCases defaultRuntimePath id id
  have hrun := hstatus.matching ⟨true, true⟩ p log
  exact (congrArg (fun x => x.run ["begin"]) hrun).trans rfl

end TaggedUnion
