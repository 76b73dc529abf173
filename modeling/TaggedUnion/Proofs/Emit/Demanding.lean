import TaggedUnion.Proofs.Emit.OneStory
import TaggedUnion.Proofs.OneOf.Demanding

/-! # What assertions demand

    The functions of the assertions trait return the held value or raise a failure. The one that
    demands a value calls the one that demands its case, and compares the value behind it:

    * **`Test`**: a run of an assertion, which may raise something.
    * **`Bench.machine`**: the machine, which makes failures and raises them.
    * **`Shape.demand`**: an assertion of a union called by its name, and **`Shape.caught`** the
      same where failures are caught.
    * **`Shape.Demands`**: when the emitted assertions are met, and what is caught where they are
      not. **`IsApart.demand_case`** and **`IsApart.demand_value`** tell what a call gives.
    * **`demandsSayWhy`**: this holds for the generic unions of all numbers of cases and for the
      status of a job, both as emitted code and at run time.
-/

namespace TaggedUnion

open Code Emit

variable {ι : Type} {τ : ι → Type} {π : Type}

/-! ### Running -/

namespace Code

/-- A run that may raise something, where `π` has what is raised besides failures. Where code
    makes no sense the run is stuck, and raises nothing. -/
abbrev Test (π : Type) := ExceptT (Raised π) Option

/-- What is there, or a run that is stuck. -/
def Test.of? {γ : Type} (o : Option γ) : Test π γ := ExceptT.lift o

/-- The text of a literal in which no character is escaped. -/
def quoted? (text : String) : Option String :=
  match text.toList with
  | '"' :: rest =>
    if rest.getLast? = some '"' ∧ '"' ∉ rest.dropLast ∧ '\\' ∉ rest.dropLast then
      some (String.ofList rest.dropLast)
    else none
  | _ => none

/-- A text that is written in quotes as it is. -/
def IsQuotable (text : String) : Prop := '"' ∉ text.toList ∧ '\\' ∉ text.toList

instance (text : String) : Decidable (IsQuotable text) := inferInstanceAs (Decidable (_ ∧ _))

theorem quoted?_literal {text : String} (h : IsQuotable text) :
    quoted? (literal text) = some text := by
  obtain ⟨hquote, hslash⟩ := h
  have hlist : (literal text).toList = '"' :: (text.toList ++ ['"']) := by simp [literal]
  rw [quoted?, hlist]
  simp [hquote, hslash]

/-- The text that a value is, if it is one. -/
def Value.text? : Value τ → Option String
  | .literal text => quoted? text
  | _ => none

/-- The text that a value of a case type is shown by. -/
def Value.shown? [∀ i, Shown (τ i)] : Value τ → Option String
  | .plain a => some (Shown.shown a.2)
  | _ => none

/-- Whether two values of one case type differ. -/
def Value.differ? [DecidableEq ι] [∀ i, BEq (τ i)] : Value τ → Value τ → Option Bool
  | .plain ⟨i, a⟩, .plain ⟨j, b⟩ => if h : i = j then some (h ▸ a != b) else none
  | _, _ => none

/-- The functions of the run time that make a failure, by their paths. -/
def failureOf [∀ i, Shown (τ i)] (path function : String) (vs : List (Value τ)) :
    Option AssertionFailure :=
  if function = path ++ "::AssertionFailed::" ++ "case_mismatch" then
    match vs with
    | [union, expected, actual] =>
      return .caseMismatch (← union.text?) (← expected.text?) (← actual.text?)
    | _ => none
  else if function = path ++ "::AssertionFailed::" ++ "value_mismatch" then
    match vs with
    | [union, variant, expected, actual] =>
      return .valueMismatch (← union.text?) (← variant.text?) (← expected.shown?)
        (← actual.shown?)
    | _ => none
  else none

/-- What an assertion finds around it: the methods that tell something about the union, its other
    assertions, and the functions that make a failure. -/
structure Bench (π : Type) (τ : ι → Type) where
  tell : String → Value τ → Option (Value τ)
  demand : String → Value τ → Test π (Value τ)
  failure : String → List (Value τ) → Option AssertionFailure

/-- The name and the method in a text such as `x.f()`. -/
def called? (text : String) : Option (String × String) :=
  match Text.parts '.' text.toList with
  | [x, f] =>
    if ['(', ')'].isSuffixOf f then some (String.ofList x, String.ofList f.dropLast.dropLast)
    else none
  | _ => none

/-- The value that an argument stands for: a literal, what a method tells, or a name. -/
def argument (c : Bench π τ) (names : Names (Value τ)) (text : String) : Option (Value τ) :=
  if isLiteral text then some (.literal text)
  else
    match called? text with
    | some (x, f) => (names.lookup x).bind (c.tell f)
    | none => names.lookup text

/-- What an expression in an assertion comes to. -/
inductive Verdict (τ : ι → Type) where
  | value (v : Value τ)
  /-- A failure that is not raised yet. -/
  | failure (f : AssertionFailure)

section machine

variable [DecidableEq ι] [∀ i, BEq (τ i)]

/-- The machine of assertions, where names stand for values. -/
def Bench.machine (c : Bench π τ) : Machine (Test π) τ (Value τ) (Verdict τ) where
  stuck := .of? none
  value? := some
  ofValue v := v
  differ? := Value.differ?
  name names x := .value <$> Test.of? (names.lookup x)
  call names f xs := .failure <$> Test.of? ((xs.mapM (argument c names)).bind (c.failure f))
  method _ verdict f xs :=
    match verdict, f, xs with
    | .failure failure, "raise", [] => throw (.failure failure)
    | .value v, f, [] => .value <$> c.demand f v
    | _, _, _ => .of? none
  bind names x verdict :=
    match verdict with
    | .value v => pure ((x, v) :: names)
    | .failure _ => .of? none

/-- The run of an assertion, which returns a value. -/
def Function.test (f : Function) (c : Bench π τ) (vs : List (Value τ)) : Test π (Value τ) := do
  match ← f.run c.machine vs with
  | .value v => pure v
  | .failure _ => .of? none

theorem Function.test_of_run {f : Function} {c : Bench π τ} {vs : List (Value τ)}
    {x : Test π (Value τ)} (h : f.run c.machine vs = Verdict.value <$> x) : f.test c vs = x := by
  simp [test, h]

theorem Bench.run_name (c : Bench π τ) (names : Names (Value τ)) (x : String) (v : Value τ) :
    (Expr.name x).run c.machine ((x, v) :: names) = Verdict.value <$> (pure v : Test π _) := by
  show Verdict.value <$> Test.of? (List.lookup x ((x, v) :: names)) = _
  rw [List.lookup_cons_self]
  rfl

end machine

end Code

/-! ### Calls by name -/

namespace Shape

variable (s : Shape)

/-- The functions of the assertions trait, as the union implements them. -/
def assertionFunctions : List Function :=
  (((assertions s).flatMap Item.implementations).filter
    (·.trait = some (assertionsTraitName s ++ s.generics))).flatMap (·.functions)

/-- The assertion with a name. A function of the union itself would be called in its place. -/
def assertion? (name : String) : Option Function :=
  if name ∈ s.allOwnNames then none else s.assertionFunctions.find? (·.name = name)

section calls

variable [DecidableEq ι] [∀ i, BEq (τ i)] [∀ i, Shown (τ i)] (lib : Library τ)

/-- What the assertions of a union find around them. -/
def bench (demand : String → Value τ → Test π (Value τ)) : Bench π τ where
  tell f v :=
    match s.ask lib f [v] with
    | some (.value told) => some told
    | _ => none
  demand := demand
  failure := failureOf s.runtimePath

/-- An assertion that calls no other one. -/
def demandAlone (name : String) (vs : List (Value τ)) : Test π (Value τ) :=
  match s.assertion? name with
  | some f => f.test (s.bench lib fun _ _ => .of? none) vs
  | none => .of? none

/-- An assertion, which may call others that call none. -/
def demand (name : String) (vs : List (Value τ)) : Test π (Value τ) :=
  match s.assertion? name with
  | some f => f.test (s.bench lib fun f v => s.demandAlone lib f [v]) vs
  | none => .of? none

/-- What is caught of an assertion. -/
def caught (name : String) (vs : List (Value τ)) :
    Option (Except (Raised π) (Except AssertionFailure (Value τ))) :=
  (s.demand lib name vs).run.map catchFailure

end calls

theorem assertionFunctions_eq :
    s.assertionFunctions = s.cases.flatMap (assertionDefinitions s) := by
  simp [assertionFunctions, assertions, Item.implementations]

theorem map_name_assertionFunctions : s.assertionFunctions.map (·.name) = s.assertionNames := by
  rw [assertionFunctions_eq, List.map_flatMap, assertionNames]
  refine List.flatMap_congr fun c _ => ?_
  cases hequal : hasEquality s c <;>
    simp [assertionDefinitions, caseAssertion, valueAssertion, hequal]

/-- No function of the union itself is called like an assertion. -/
theorem shouldBe_notMem_allOwnNames (rest : String) : "should_be_" ++ rest ∉ s.allOwnNames := by
  have hheads : ∀ h ∈ Head.all, ¬ h.text.toList <+: "should_be_".toList ∧
      ¬ "should_be_".toList <+: h.text.toList := by
    decide
  have hpartition : "should_be_" ++ rest ≠ "partition" ++ "" :=
    append_ne_append (by decide) (by decide) rest ""
  rw [s.allOwnNames_eq]
  simp only [List.mem_append, List.mem_map, List.mem_singleton, not_or, not_exists, not_and]
  refine ⟨?_, ?_, by simpa using hpartition⟩
  · intro hown
    obtain ⟨head, hhead, hname⟩ := List.mem_flatMap.mp (s.ownNames_perm.mem_iff.mp hown)
    obtain ⟨a, -, ha⟩ := List.mem_map.mp hname
    exact append_ne_append (hheads head hhead).1 (hheads head hhead).2 a rest ha
  · intro stem _ heq
    exact append_ne_append (by decide) (by decide) stem rest heq

/-- The shape goes by the names in `labels`, and the values of all its cases can be compared. -/
structure IsLabelled {n : Nat} (labels : Labels n) : Prop where
  name : s.name = labels.union
  variant (k : Fin n) : (s.caseAt k).variant = labels.caseName k
  quotable : IsQuotable labels.union ∧ ∀ k, IsQuotable (labels.caseName k)
  comparable (k : Fin n) : hasEquality s (s.caseAt k) = true

/-! ### What a call gives -/

/-- The function that demands a case. -/
def caseFunction (c : ShapeCase) : Function :=
  { caseAssertion c with
    attributes := [trackCaller]
    body := some (caseAssertionBody s c) }

/-- The function that demands an equal value. -/
def valueFunction (c : ShapeCase) : Function :=
  { valueAssertion s c with
    attributes := [trackCaller]
    body := some (valueAssertionBody s c) }

/-- The names in the function that demands a value, behind the demand for its case. -/
def valueNames {n : Nat} {ts : Fin n → ι} (k : Fin n) (a expected : τ (ts k)) :
    Names (Value τ) :=
  [(Schema.heldName, .plain ⟨ts k, a⟩), ("self", s.encode ts (.ofCase k a)),
    ("expected", .plain ⟨ts k, expected⟩)]

/-- A value as the emitted code has it, where one is returned. -/
def encodeHeld {n : Nat} {ts : Fin n → ι} (k : Fin n) (x : Except (Raised π) (τ (ts k))) :
    Test π (Value τ) :=
  ExceptT.mk (some (x.map fun a => .plain ⟨ts k, a⟩))

namespace IsApart

variable {s} {n : Nat} {ts : Fin n → ι} (h : s.IsApart n)
include h

theorem find?_assertionFunctions {f : Function} (hf : f ∈ s.assertionFunctions) :
    s.assertionFunctions.find? (·.name = f.name) = some f := by
  have hstems := (s.namesDistinct_iff).mp h.names
  have hnodup : (s.assertionFunctions.map (·.name)).Nodup := by
    rw [map_name_assertionFunctions]
    exact s.nodup_assertionNames_iff.mpr ⟨hstems.nodup, hstems.ne_append_eq⟩
  refine find?_eq_some_of_unique hf (by simp) ?_
  intro g hg hname
  exact List.inj_on_of_nodup_map hnodup hg hf (by simpa using hname)

/-- An assertion of the union is found by its name. -/
theorem assertion?_eq {f : Function} (hf : f ∈ s.assertionFunctions) {rest : String}
    (hname : f.name = "should_be_" ++ rest) : s.assertion? f.name = some f := by
  have hown : f.name ∉ s.allOwnNames := by
    rw [hname]
    exact s.shouldBe_notMem_allOwnNames rest
  rw [assertion?, if_neg hown, h.find?_assertionFunctions hf]

theorem assertion?_case (k : Fin n) : s.assertion? ("should_be_" ++ (s.caseAt k).stem) =
    some (s.caseFunction (s.caseAt k)) := by
  refine h.assertion?_eq (f := s.caseFunction (s.caseAt k)) ?_ rfl
  rw [assertionFunctions_eq]
  exact List.mem_flatMap.mpr ⟨_, h.caseAt_mem k, List.mem_cons_self⟩

theorem assertion?_value (k : Fin n) (hequal : hasEquality s (s.caseAt k) = true) :
    s.assertion? ("should_be_" ++ (s.caseAt k).stem ++ "_eq") =
      some (s.valueFunction (s.caseAt k)) := by
  refine h.assertion?_eq (f := s.valueFunction (s.caseAt k)) ?_ (String.append_assoc ..)
  rw [assertionFunctions_eq]
  refine List.mem_flatMap.mpr ⟨_, h.caseAt_mem k, List.mem_cons_of_mem _ ?_⟩
  rw [if_pos hequal]
  exact List.mem_singleton_self _

variable [DecidableEq ι] [∀ i, BEq (τ i)] [∀ i, Shown (τ i)] {lib : Library τ}
  {demand : String → Value τ → Test π (Value τ)} {labels : Labels n}

/-! ### What is raised -/

omit h [DecidableEq ι] [∀ i, BEq (τ i)] in
theorem argument_literal (names : Names (Value τ)) (text : String) :
    argument (s.bench lib demand) names (literal text) = some (.literal (literal text)) := by
  simp [argument, isLiteral, literal]

omit [DecidableEq ι] [∀ i, BEq (τ i)] in
/-- What another case is reported by: the name of the held one. -/
theorem argument_caseName (hl : s.IsLabelled labels) (u : OneOf fun k => τ (ts k))
    (names : Names (Value τ)) :
    argument (s.bench lib demand) (("other", s.encode ts u) :: names) "other.case_name()" =
      some (.literal (literal (u.caseName labels))) := by
  have hliteral : isLiteral "other.case_name()" = false := by decide
  have hcalled : called? "other.case_name()" = some ("other", "case_name") := by decide
  rw [argument, hliteral, hcalled]
  show (s.bench lib demand).tell "case_name" (s.encode ts u) = _
  simp only [bench, h.ask_caseName, hl.variant]
  rfl

omit h in
/-- A failure is made from the arguments, and raised. -/
theorem run_raised {names : Names (Value τ)} {kind : String} {arguments : List String}
    {vs : List (Value τ)} {failure : AssertionFailure}
    (hvs : arguments.mapM (argument (s.bench lib demand) names) = some vs)
    (hfailure : failureOf s.runtimePath (s.runtimePath ++ "::AssertionFailed::" ++ kind) vs =
      some failure) :
    (raised s kind arguments).run (s.bench lib demand).machine names =
      throw (.failure failure) := by
  have hcall : (Expr.call (s.runtimePath ++ "::AssertionFailed::" ++ kind) arguments).run
      (s.bench lib demand).machine names = pure (.failure failure) := by
    rw [Expr.run_call, Bench.machine]
    simp only [hvs, Option.bind_some]
    exact congrArg (Verdict.failure <$> Test.of? ·) hfailure
  rw [raised, Expr.run_method, hcall, pure_bind]
  rfl

/-- The failure that is raised where another case is held. -/
theorem run_otherCase (hl : s.IsLabelled labels) (k : Fin n) (u : OneOf fun k => τ (ts k))
    (names : Names (Value τ)) :
    (raised s "case_mismatch" [literal s.name, literal (s.caseAt k).variant,
        "other.case_name()"]).run (s.bench lib demand).machine
          (("other", s.encode ts u) :: names) =
      throw (.failure (u.otherCase labels k)) := by
  have harguments : [literal s.name, literal (s.caseAt k).variant, "other.case_name()"].mapM
      (argument (s.bench lib demand) (("other", s.encode ts u) :: names)) =
        some [.literal (literal labels.union), .literal (literal (labels.caseName k)),
          .literal (literal (u.caseName labels))] := by
    simp [List.mapM_cons, argument_literal, h.argument_caseName hl, hl.name, hl.variant]
  refine run_raised harguments ?_
  rw [failureOf, if_pos rfl]
  simp [Value.text?, quoted?_literal, hl.quotable.1, hl.quotable.2, OneOf.otherCase,
    OneOf.caseName]

/-- The failure that is raised where another value is held: the expected value comes first. -/
theorem run_otherValue (hl : s.IsLabelled labels) (k : Fin n) (a expected : τ (ts k)) :
    (raised s "value_mismatch" [literal s.name, literal (s.caseAt k).variant, "expected",
        s.binding]).run (s.bench lib demand).machine (s.valueNames k a expected) =
      throw (.failure (OneOf.otherValue (α := fun k => τ (ts k)) labels k expected a)) := by
  have hexpected : argument (s.bench lib demand) (s.valueNames k a expected) "expected" =
      some (.plain ⟨ts k, expected⟩) := rfl
  have hheld : argument (s.bench lib demand) (s.valueNames k a expected) Schema.heldName =
      some (.plain ⟨ts k, a⟩) := rfl
  have harguments : [literal s.name, literal (s.caseAt k).variant, "expected", s.binding].mapM
      (argument (s.bench lib demand) (s.valueNames k a expected)) =
        some [.literal (literal labels.union), .literal (literal (labels.caseName k)),
          .plain ⟨ts k, expected⟩, .plain ⟨ts k, a⟩] := by
    rw [h.binding]
    simp [List.mapM_cons, argument_literal, hexpected, hheld, hl.name, hl.variant]
  have hpath : s.runtimePath ++ "::AssertionFailed::" ++ "value_mismatch" ≠
      s.runtimePath ++ "::AssertionFailed::" ++ "case_mismatch" := by
    rw [Ne, String.append_right_inj]
    decide
  refine run_raised harguments ?_
  rw [failureOf, if_neg hpath, if_pos rfl]
  simp [Value.text?, Value.shown?, quoted?_literal, hl.quotable.1, hl.quotable.2,
    OneOf.otherValue]

/-! ### What is returned -/

/-- The function that demands a case does what the demand does at run time. -/
theorem test_caseFunction (hl : s.IsLabelled labels) (k : Fin n) (u : OneOf fun k => τ (ts k)) :
    (s.caseFunction (s.caseAt k)).test (s.bench lib demand) [s.encode ts u] =
      encodeHeld k (u.shouldBe labels k) := by
  have hself : (s.bench lib demand).machine.valueOf? [("self", s.encode ts u)] "self" =
      some (s.encode ts u) := rfl
  have hrun : (s.caseFunction (s.caseAt k)).run (s.bench lib demand).machine [s.encode ts u] =
      runBody (s.bench lib demand).machine [("self", s.encode ts u)]
        (caseAssertionBody s (s.caseAt k)) := Function.run_plain _ rfl rfl rfl
  refine Function.test_of_run (hrun.trans ((h.dispatch_taken hself k _ _ "other").trans ?_))
  rcases OneOf.held_or_other k u with ⟨a, rfl⟩ | hu
  · rw [OneOf.get?_ofCase, OneOf.shouldBe_ofCase]
    exact Bench.run_name _ _ _ _
  · rw [OneOf.get?_other hu, OneOf.shouldBe_other labels hu]
    exact h.run_otherCase hl k u _

/-- The block that compares the held value with the expected one. -/
theorem run_ifDifferent (k : Fin n) (a expected : τ (ts k))
    (block : Names (Value τ) → Test π Unit) :
    (BlockHead.ifDifferent s.binding "expected").run (s.bench lib demand).machine
        (s.valueNames k a expected) block =
      if a != expected then block (s.valueNames k a expected) else pure () := by
  have hheld : (s.bench lib demand).machine.valueOf? (s.valueNames k a expected) s.binding =
      some (.plain ⟨ts k, a⟩) := by
    rw [h.binding]
    rfl
  have hexpected : (s.bench lib demand).machine.valueOf? (s.valueNames k a expected) "expected" =
      some (.plain ⟨ts k, expected⟩) := rfl
  have hdiffer : (s.bench lib demand).machine.differ? (.plain ⟨ts k, a⟩)
      (.plain ⟨ts k, expected⟩) = some (a != expected) := dif_pos rfl
  rw [BlockHead.run, hheld, hexpected]
  simp only [hdiffer]
  cases a != expected <;> rfl

/-- The function that demands a value does what the demand does at run time, where the demand for
    the case does. -/
theorem test_valueFunction (hl : s.IsLabelled labels) (k : Fin n) (u : OneOf fun k => τ (ts k))
    (hcase : demand ("should_be_" ++ (s.caseAt k).stem) (s.encode ts u) =
      encodeHeld k (u.shouldBe labels k)) (expected : τ (ts k)) :
    (s.valueFunction (s.caseAt k)).test (s.bench lib demand)
        [s.encode ts u, .plain ⟨ts k, expected⟩] =
      encodeHeld k (u.shouldEqual labels k expected) := by
  have hself : (Expr.method (.name "self") ("should_be_" ++ (s.caseAt k).stem) []).run
      (s.bench lib demand).machine
        [("self", s.encode ts u), ("expected", .plain ⟨ts k, expected⟩)] =
      Verdict.value <$> encodeHeld k (u.shouldBe labels k) :=
    congrArg (Verdict.value <$> ·) hcase
  have hrun : (s.valueFunction (s.caseAt k)).run (s.bench lib demand).machine
      [s.encode ts u, .plain ⟨ts k, expected⟩] =
        runBody (s.bench lib demand).machine
          [("self", s.encode ts u), ("expected", .plain ⟨ts k, expected⟩)]
          (valueAssertionBody s (s.caseAt k)) := Function.run_plain _ rfl rfl rfl
  refine Function.test_of_run (hrun.trans ?_)
  rw [valueAssertionBody, runBody_bind, hself]
  rcases OneOf.held_or_other k u with ⟨a, rfl⟩ | hu
  · -- The demand for the case is met, and the value is bound for what follows.
    rw [OneOf.shouldBe_ofCase, OneOf.shouldEqual_ofCase]
    have hnames : ((s.binding, .plain ⟨ts k, a⟩) :: [("self", s.encode ts (.ofCase k a)),
        ("expected", .plain ⟨ts k, expected⟩)] : Names (Value τ)) =
          s.valueNames k a expected := by
      rw [h.binding]
      rfl
    have hreturned : runBody (s.bench lib demand).machine (s.valueNames k a expected)
        [.value (.name s.binding)] = Verdict.value <$> (pure (.plain ⟨ts k, a⟩) : Test π _) := by
      rw [← hnames]
      exact Bench.run_name _ _ _ _
    show runBody (s.bench lib demand).machine ((s.binding, .plain ⟨ts k, a⟩) :: _) _ = _
    rw [hnames, runBody_within, h.run_ifDifferent, hreturned]
    cases hequal : a == expected with
    | true =>
      rw [bne, hequal]
      rfl
    | false =>
      rw [bne, hequal, if_pos (by decide), Statement.perform, h.run_otherValue hl]
      rfl
  · -- What the demand for the case raises ends the run, so nothing is compared.
    rw [OneOf.shouldBe_other labels hu, OneOf.shouldEqual_other labels hu]
    rfl

/-! ### All calls -/

theorem demandAlone_case (hl : s.IsLabelled labels) (k : Fin n) (u : OneOf fun k => τ (ts k)) :
    s.demandAlone lib ("should_be_" ++ (s.caseAt k).stem) [s.encode ts u] =
      encodeHeld (π := π) k (u.shouldBe labels k) := by
  rw [demandAlone, h.assertion?_case]
  exact h.test_caseFunction hl k u

theorem demand_case (hl : s.IsLabelled labels) (k : Fin n) (u : OneOf fun k => τ (ts k)) :
    s.demand lib ("should_be_" ++ (s.caseAt k).stem) [s.encode ts u] =
      encodeHeld (π := π) k (u.shouldBe labels k) := by
  rw [demand, h.assertion?_case]
  exact h.test_caseFunction hl k u

theorem demand_value (hl : s.IsLabelled labels) (k : Fin n) (u : OneOf fun k => τ (ts k))
    (expected : τ (ts k)) :
    s.demand lib ("should_be_" ++ (s.caseAt k).stem ++ "_eq")
        [s.encode ts u, .plain ⟨ts k, expected⟩] =
      encodeHeld (π := π) k (u.shouldEqual labels k expected) := by
  -- The assertion that it calls calls none.
  rw [demand, h.assertion?_value k (hl.comparable k)]
  exact h.test_valueFunction hl k u (h.demandAlone_case hl k u) expected

end IsApart

/-! ### What is caught -/

section caught

variable {s} [DecidableEq ι] [∀ i, BEq (τ i)] [∀ i, Shown (τ i)]

/-- What the emitted assertions of a shape give where failures are caught; the cases have the
    types `ts` and the names in `labels`, and `π` has what else can be raised. -/
structure Demands (s : Shape) (lib : Library τ) (π : Type) {n : Nat} (labels : Labels n)
    (ts : Fin n → ι) : Prop where
  /-- The value is returned exactly if its case is held. -/
  caseMet (u : OneOf fun k => τ (ts k)) (k : Fin n) (a : τ (ts k)) :
    s.caught (π := π) lib ("should_be_" ++ (s.caseAt k).stem) [s.encode ts u] =
      some (.ok (.ok (.plain ⟨ts k, a⟩))) ↔ u = .ofCase k a
  /-- Otherwise the failure has the names of the union, of the case, and of the held one. -/
  caseMissed (u : OneOf fun k => τ (ts k)) (k : Fin n) (h : ∀ a, u ≠ .ofCase k a) :
    s.caught (π := π) lib ("should_be_" ++ (s.caseAt k).stem) [s.encode ts u] =
      some (.ok (.error (.caseMismatch labels.union (labels.caseName k) (u.caseName labels))))
  /-- The value is returned exactly if its case is held and it is equal to the expected one. -/
  valueMet (u : OneOf fun k => τ (ts k)) (k : Fin n) (expected a : τ (ts k)) :
    s.caught (π := π) lib ("should_be_" ++ (s.caseAt k).stem ++ "_eq")
        [s.encode ts u, .plain ⟨ts k, expected⟩] = some (.ok (.ok (.plain ⟨ts k, a⟩))) ↔
      u = .ofCase k a ∧ (a == expected) = true
  /-- Where another case is held, the failure is the one of the demand for the case. -/
  valueOfOther (u : OneOf fun k => τ (ts k)) (k : Fin n) (expected : τ (ts k))
    (h : ∀ a, u ≠ .ofCase k a) :
    s.caught (π := π) lib ("should_be_" ++ (s.caseAt k).stem ++ "_eq")
        [s.encode ts u, .plain ⟨ts k, expected⟩] =
      some (.ok (.error (.caseMismatch labels.union (labels.caseName k) (u.caseName labels))))
  /-- Where another value is held, the failure shows the expected value and then the held one. -/
  valueMissed (k : Fin n) (expected a : τ (ts k)) (h : (a == expected) = false) :
    s.caught (π := π) lib ("should_be_" ++ (s.caseAt k).stem ++ "_eq")
        [s.encode ts (.ofCase k a), .plain ⟨ts k, expected⟩] =
      some (.ok (.error (.valueMismatch labels.union (labels.caseName k) (Shown.shown expected)
        (Shown.shown a))))

variable {n : Nat} {ts : Fin n → ι}

omit [DecidableEq ι] [∀ i, BEq (τ i)] [∀ i, Shown (τ i)] in
theorem caught_encodeHeld (k : Fin n) (x : Except (Raised π) (τ (ts k))) :
    (encodeHeld k x).run.map catchFailure =
      some ((catchFailure x).map fun y => y.map fun a => (.plain ⟨ts k, a⟩ : Value τ)) := by
  cases x with
  | ok a => rfl
  | error raised => cases raised <;> rfl

omit [DecidableEq ι] [∀ i, BEq (τ i)] [∀ i, Shown (τ i)] in
theorem map_plain_eq_value_iff {k : Fin n}
    {x : Except (Raised π) (Except AssertionFailure (τ (ts k)))} {a : τ (ts k)} :
    some (x.map fun y => y.map fun a => (.plain ⟨ts k, a⟩ : Value τ)) =
      some (.ok (.ok (.plain ⟨ts k, a⟩))) ↔ x = .ok (.ok a) := by
  rcases x with raised | failure | b <;> simp [Except.map]

theorem IsApart.demands (h : s.IsApart n) {labels : Labels n} (hl : s.IsLabelled labels)
    (lib : Library τ) (π : Type) (ts : Fin n → ι) : s.Demands lib π labels ts := by
  have hrun := OneOf.demands labels (fun k => τ (ts k)) π
  have hcase (u : OneOf fun k => τ (ts k)) (k : Fin n) :
      s.caught (π := π) lib ("should_be_" ++ (s.caseAt k).stem) [s.encode ts u] =
        some ((catchFailure (u.shouldBe labels k)).map fun y =>
          y.map fun a => .plain ⟨ts k, a⟩) := by
    rw [caught, h.demand_case hl k u]
    exact caught_encodeHeld k _
  have hvalue (u : OneOf fun k => τ (ts k)) (k : Fin n) (expected : τ (ts k)) :
      s.caught (π := π) lib ("should_be_" ++ (s.caseAt k).stem ++ "_eq")
          [s.encode ts u, .plain ⟨ts k, expected⟩] =
        some ((catchFailure (u.shouldEqual labels k expected)).map fun y =>
          y.map fun a => .plain ⟨ts k, a⟩) := by
    rw [caught, h.demand_value hl k u expected]
    exact caught_encodeHeld k _
  refine { caseMet := ?_, caseMissed := ?_, valueMet := ?_, valueOfOther := ?_, valueMissed := ?_ }
  · intro u k a
    rw [← hrun.caseMet u k a, ← map_plain_eq_value_iff, ← hcase u k]
  · intro u k hu
    rw [hcase u k, hrun.caseMissed u k hu]
    rfl
  · intro u k expected a
    rw [← hrun.valueMet u k expected a, ← map_plain_eq_value_iff, ← hvalue u k expected]
  · intro u k expected hu
    rw [hvalue u k expected, hrun.valueOfOther u k expected hu]
    rfl
  · intro k expected a hne
    rw [hvalue (.ofCase k a) k expected, hrun.valueMissed k expected a hne]
    rfl

end caught

/-! ### All unions -/

theorem isQuotable_append_toString {text : String} (h : IsQuotable text) (n : Nat) :
    IsQuotable (text ++ toString n) := by
  have hdigits {c : Char} (hc : c.isDigit = false) : c ∉ (toString n).toList := by
    intro hmem
    rw [Text.isDigit_of_mem_toString hmem] at hc
    cases hc
  simp only [IsQuotable, String.toList_append, List.mem_append, not_or]
  exact ⟨⟨h.1, hdigits (by decide)⟩, ⟨h.2, hdigits (by decide)⟩⟩

theorem isLabelled_generic (n : Nat) (path : String) :
    (generic n path).IsLabelled (Labels.generic n) where
  name := rfl
  variant k := by
    rw [caseAt_generic]
    rfl
  quotable := ⟨isQuotable_append_toString (by decide) n,
    fun k => isQuotable_append_toString (by decide) (k.val + 1)⟩
  comparable _ := rfl

end Shape

theorem Status.isLabelled_shape (path : String) : (shape path).IsLabelled labels where
  name := rfl
  variant k := (isCase_caseAt path k).variant
  quotable := by decide
  comparable k := by
    have hrecords : union.populate.cases.all (·.isRecord) = true := by decide +kernel
    obtain ⟨c, hc, hcase⟩ := List.mem_map.mp ((isApart_shape path).caseAt_mem k)
    rw [hasEquality, ← hcase]
    exact List.all_eq_true.mp hrecords c hc

/-- A demand for a case returns the held value exactly if the case is held, and a demand for a
    value exactly if this value is equal to the expected one. Otherwise the failure that is caught
    has the names of the union and of the case, with the name of the held case or, where the case
    is right, with the texts of the expected value and of the held one. So do the functions that
    are emitted for a generic union with any number of cases, those for the status of a job, and
    those that a union has at run time, whatever the types of the cases compare and show their
    values by. What is raised and is no failure is not caught, and passes as it is. -/
theorem demandsSayWhy (π : Type) :
    (∀ {ι : Type} [DecidableEq ι] (τ : ι → Type) [∀ i, BEq (τ i)] [∀ i, Shown (τ i)]
        (lib : Library τ) (n : Nat) (path : String) (ts : Fin n → ι),
      (∀ k : Fin n, (Shape.generic n path).caseAt k = Shape.genericCase (k.val + 1)) ∧
        (Shape.generic n path).Demands lib π (Labels.generic n) ts) ∧
    (Schema.Union.ofDocument Status.document "Status" = .ok Status.union ∧
      ∀ {ι : Type} [DecidableEq ι] (τ : ι → Type) [∀ i, BEq (τ i)] [∀ i, Shown (τ i)]
          (lib : Library τ) (path : String) (ts : Fin 3 → ι),
        (∀ k, Status.IsCase k ((Status.shape path).caseAt k)) ∧
          (Status.shape path).Demands lib π Status.labels ts) ∧
    (∀ (n : Nat) (α : Fin n → Type) [∀ k, Shown (α k)] [∀ k, BEq (α k)],
      OneOf.Demands (Labels.generic n) α π) ∧
    OneOf.Demands Status.labels statusCases π ∧
    ∀ {γ : Type} (test : Except (Raised π) γ) (r : Raised π),
      catchFailure test = .error r ↔ test = .error r ∧ ∃ payload, r = .other payload := by
  refine ⟨?_, ⟨Status.ofDocument_document, ?_⟩, ?_, OneOf.demands _ _ π, ?_⟩
  · intro ι _ τ _ _ lib n path ts
    exact ⟨Shape.caseAt_generic path,
      (Shape.isApart_generic n path).demands (Shape.isLabelled_generic n path) lib π ts⟩
  · intro ι _ τ _ _ lib path ts
    exact ⟨Status.isCase_caseAt path,
      (Status.isApart_shape path).demands (Status.isLabelled_shape path) lib π ts⟩
  · intro n α _ _
    exact OneOf.demands _ α π
  · intro γ test r
    exact catchFailure_eq_error_iff

end TaggedUnion
