import TaggedUnion.Proofs.Emit.Answers
import TaggedUnion.Proofs.Emit.OneHandler

/-! # One story

    Whatever accessor of a union is called, the answers tell which case is held, and they agree:

    * **`Shape.OneStory`**: what the emitted functions of a shape say about a union together. Each
      equation has a call on the left and on the right what the union does at run time.
    * **`Status.OneStory`**: the same for the status of a job, whose values are built in more ways.
    * **`tellOneStory`**: this holds for the generic unions of all numbers of cases and for the
      status of a job, both as emitted code and at run time.
-/

namespace TaggedUnion

open Code Emit

variable {ι : Type} {τ : ι → Type} {n : Nat}

/-! ### The functions of a shape -/

/-- What is emitted for a shape to build a union and to look into it, where the cases have the
    types `ts` and the names in `labels`. -/
structure Shape.OneStory (s : Shape) (lib : Library τ) (labels : Labels n) (ts : Fin n → ι) :
    Prop where
  tag (u : OneOf fun k => τ (ts k)) :
    s.ask lib "tag" [s.encode ts u] = some (.value (.literal (toString u.tag)))
  caseName (u : OneOf fun k => τ (ts k)) :
    s.ask lib "case_name" [s.encode ts u] = some (.value (.literal (literal (u.caseName labels))))
  /-- The trait for all unions says what the union itself does. -/
  unionTrait (u : OneOf fun k => τ (ts k)) :
    s.askTrait lib s.unionTrait "tag" [s.encode ts u] = s.ask lib "tag" [s.encode ts u] ∧
      s.askTrait lib s.unionTrait "case_name" [s.encode ts u] =
        s.ask lib "case_name" [s.encode ts u]
  holds (u : OneOf fun k => τ (ts k)) (tag : Nat) :
    s.holds lib (s.encode ts u) tag = some (u.holds tag)
  isCase (u : OneOf fun k => τ (ts k)) (k : Fin n) :
    s.ask lib ("is_" ++ (s.caseAt k).stem) [s.encode ts u] = some (.truth (u.isCase k))
  tryGet (u : OneOf fun k => τ (ts k)) (k : Fin n) :
    s.ask lib ("try_get_" ++ (s.caseAt k).stem) [s.encode ts u] =
      some (.option ((u.get? k).map fun a => .plain ⟨ts k, a⟩))
  tryInto (u : OneOf fun k => τ (ts k)) (k : Fin n) :
    s.ask lib ("try_into_" ++ (s.caseAt k).stem) [s.encode ts u] =
      some (.result (((u.tryInto k).map fun a => .plain ⟨ts k, a⟩).mapError (s.encode ts)))
  ofCase (k : Fin n) (a : τ (ts k)) :
    s.ask lib ("from_" ++ (s.caseAt k).stem) [.plain ⟨ts k, a⟩] =
      some (.value (s.encode ts (.ofCase k a)))
  /-- All functions agree on whether a case is held. -/
  agree (u : OneOf fun k => τ (ts k)) (k : Fin n) :
    [s.ask lib ("is_" ++ (s.caseAt k).stem) [s.encode ts u] = some (.truth true),
      s.ask lib "tag" [s.encode ts u] = some (.value (.literal (toString (k.val + 1)))),
      s.ask lib "case_name" [s.encode ts u] =
        some (.value (.literal (literal (labels.caseName k)))),
      s.holds lib (s.encode ts u) (k.val + 1) = some true,
      (∃ a, s.ask lib ("try_get_" ++ (s.caseAt k).stem) [s.encode ts u] =
        some (.option (some (.plain ⟨ts k, a⟩)))),
      ∃ a, s.ask lib ("try_into_" ++ (s.caseAt k).stem) [s.encode ts u] =
        some (.result (.ok (.plain ⟨ts k, a⟩)))].TFAE
  /-- No value of another case is found, and the union is given back. -/
  other (u : OneOf fun k => τ (ts k)) (k : Fin n)
    (h : s.ask lib ("is_" ++ (s.caseAt k).stem) [s.encode ts u] = some (.truth false)) :
    s.ask lib ("try_get_" ++ (s.caseAt k).stem) [s.encode ts u] = some (.option none) ∧
      s.ask lib ("try_into_" ++ (s.caseAt k).stem) [s.encode ts u] =
        some (.result (.error (s.encode ts u)))
  /-- One case is held. -/
  one (u : OneOf fun k => τ (ts k)) :
    ∃! k : Fin n, s.ask lib ("is_" ++ (s.caseAt k).stem) [s.encode ts u] = some (.truth true)
  /-- Building from the held value gives the union again. -/
  rebuilt (u : OneOf fun k => τ (ts k)) : ∃ (k : Fin n) (v : Value τ),
    s.ask lib "tag" [s.encode ts u] = some (.value (.literal (toString (k.val + 1)))) ∧
      s.ask lib ("try_get_" ++ (s.caseAt k).stem) [s.encode ts u] = some (.option (some v)) ∧
        s.ask lib ("from_" ++ (s.caseAt k).stem) [v] = some (.value (s.encode ts u))

theorem Emit.literal_inj {a b : String} : literal a = literal b ↔ a = b := by
  rw [literal, literal, String.append_left_inj, String.append_right_inj]

theorem mapError_map_eq_ok_iff {α β γ δ : Type} {f : α → β} (hf : Function.Injective f)
    (g : γ → δ) (x : Except γ α) (a : α) : (x.map f).mapError g = .ok (f a) ↔ x = .ok a := by
  cases x with
  | error e => simp [Except.map, Except.mapError]
  | ok b => simp [Except.map, Except.mapError, hf.eq_iff]

theorem Code.plain_injective (i : ι) : Function.Injective fun a : τ i => Value.plain ⟨i, a⟩ := by
  intro a b h
  simpa using h

namespace Shape.IsApart

variable {s : Shape} {lib : Library τ} {labels : Labels n} {ts : Fin n → ι} (h : s.IsApart n)
  (hnames : ∀ k : Fin n, (s.caseAt k).variant = labels.caseName k)
include h

theorem ask_from_held (k : Fin n) (a : τ (ts k)) :
    s.ask lib ("from_" ++ (s.caseAt k).stem) [.plain ⟨ts k, a⟩] =
      some (.value (s.encode ts (.ofCase k a))) := h.ask_from k _

include hnames

theorem caseName_injective : Function.Injective labels.caseName := by
  rw [← funext hnames]
  exact h.variant_injective

theorem ask_label (u : OneOf fun k => τ (ts k)) : s.ask lib "case_name" [s.encode ts u] =
    some (.value (.literal (literal (u.caseName labels)))) := by
  rw [h.ask_caseName, hnames]
  rfl

/-- The story of the functions that are emitted is the one of the functions at run time. -/
theorem oneStory : s.OneStory lib labels ts where
  tag := h.ask_tag
  caseName := h.ask_label hnames
  unionTrait u := ⟨(h.askTrait_tag u).trans (h.ask_tag u).symm,
    (h.askTrait_caseName u).trans (h.ask_caseName u).symm⟩
  holds := h.holds_encode
  isCase u k := h.ask_is k u
  tryGet u k := h.ask_tryGet k u
  tryInto u k := h.ask_tryInto k u
  ofCase := h.ask_from_held
  agree u k := by
    have hsome (a : τ (ts k)) : ((u.get? k).map fun a => (.plain ⟨ts k, a⟩ : Value τ)) =
        some (.plain ⟨ts k, a⟩) ↔ u.get? k = some a :=
      (Option.map_injective (plain_injective (ts k))).eq_iff (b := some a)
    have hok (a : τ (ts k)) := mapError_map_eq_ok_iff (plain_injective (ts k)) (s.encode ts)
      (u.tryInto k) a
    simp only [h.ask_is, h.ask_tag, h.ask_label hnames, h.holds_encode, h.ask_tryGet,
      h.ask_tryInto, Option.some.injEq, Answer.truth.injEq, Answer.value.injEq,
      Value.literal.injEq, Answer.option.injEq, Answer.result.injEq,
      Text.toString_injective.eq_iff, literal_inj, hsome, hok]
    exact (OneOf.oneStory (h.caseName_injective hnames) _).agree u k
  other u k hu := by
    have hother : u.isCase k = false := by simpa [h.ask_is] using hu
    obtain ⟨hget, hinto⟩ :=
      (OneOf.oneStory (h.caseName_injective hnames) fun k => τ (ts k)).other u k hother
    rw [h.ask_tryGet, h.ask_tryInto, hget, hinto]
    exact ⟨rfl, rfl⟩
  one u := by
    simpa [h.ask_is] using
      (OneOf.oneStory (h.caseName_injective hnames) fun k => τ (ts k)).one u
  rebuilt u := by
    obtain ⟨k, a, htag, hget, hu⟩ :=
      (OneOf.oneStory (h.caseName_injective hnames) fun k => τ (ts k)).rebuilt u
    refine ⟨k, .plain ⟨ts k, a⟩, ?_, ?_, ?_⟩
    · rw [h.ask_tag, htag]
    · rw [h.ask_tryGet, hget]
      rfl
    · rw [h.ask_from_held, hu]

end Shape.IsApart

/-! ### The status of a job -/

namespace Status

/-- The types of the values that a status is built from. -/
inductive Part where
  | held (k : Fin 3)
  /-- A text. -/
  | text
  /-- The number of an attempt. -/
  | count
  /-- A time. -/
  | time

/-- The values of these types. -/
@[reducible] def parts : Part → Type
  | .held k => statusCases k
  | .text => String
  | .count => UInt32
  | .time => Nat

/-- The value that a status holds. -/
def heldValue (u : Status) : Value parts := .plain ⟨.held u.index, u.value⟩

/-- What the case types are built with: the first one has a constructor, of the others the fields
    are set. -/
def library : Library parts where
  call
    | "Active::new", [.plain ⟨.text, description⟩] => some (heldValue (.ofActive ⟨description⟩))
    | _, _ => none
  record
    | "Retry", [("attempt", .plain ⟨.count, attempt⟩)] => some (heldValue (.ofRetry ⟨attempt⟩))
    | "Aborted", [("cancellation_time", .plain ⟨.time, time⟩)] =>
      some (heldValue (.ofAborted ⟨time⟩))
    | _, _ => none

/-- The shape of the status of a job. -/
def shape (path : String) : Shape := .named union.populate path

/-- A status as the emitted code has it. -/
def encode (path : String) (u : Status) : Value parts := (shape path).encode Part.held u

/-- What is emitted for the status of a job. -/
structure OneStory (path : String) : Prop where
  accessors : (shape path).OneStory library labels Part.held
  newActive (description : String) :
    (shape path).ask library "new_active" [.plain ⟨.text, description⟩] =
      some (.value (encode path (.newActive description)))
  newRetry (attempt : UInt32) :
    (shape path).ask library "new_retry" [.plain ⟨.count, attempt⟩] =
      some (.value (encode path (.newRetry attempt)))
  newAborted (time : Nat) :
    (shape path).ask library "new_aborted" [.plain ⟨.time, time⟩] =
      some (.value (encode path (.newAborted time)))
  /-- The conversion from a case type builds what the function for the case does. -/
  conversion (k : Fin 3) (a : statusCases k) :
    (shape path).askTrait library (Shape.conversionTrait (labels.caseName k)) "from"
        [.plain ⟨.held k, a⟩] = some (.value (encode path (.ofCase k a))) ∧
      (shape path).ask library ("from_" ++ ((shape path).caseAt k).stem)
        [.plain ⟨.held k, a⟩] = some (.value (encode path (.ofCase k a)))
  /-- A status is terminal if the emitted test finds the last case. -/
  isTerminal (u : Status) :
    (shape path).ask library "is_aborted" [encode path u] = some (.truth u.isTerminal)

/-- What the names of the functions for a case end in. -/
def stem : Fin 3 → String
  | 0 => "active"
  | 1 => "retry"
  | 2 => "aborted"

/-- The parameter that a value of a case is built from. -/
def parameter : Fin 3 → String
  | 0 => "description"
  | 1 => "attempt"
  | 2 => "cancellation_time"

/-- Each case has a constructor with one parameter, and only that of the first one is called. -/
structure IsCase (k : Fin 3) (c : ShapeCase) : Prop where
  variant : c.variant = labels.caseName k
  typeName : c.typeName = labels.caseName k
  stem_eq : c.stem = stem k
  constructor_eq : c.constructor = some ⟨"new", k ≠ 0⟩
  parameters : c.parameters.map (fun p => (p.fieldName, p.argumentName)) =
    [(parameter k, parameter k)]

theorem isCase_caseAt (path : String) (k : Fin 3) : IsCase k ((shape path).caseAt k) := by
  have hcases : union.populate.cases.map (fun c => (c.name, c.stem, c.constructor,
      c.parameters.map fun p => (p.fieldName, p.argumentName))) = List.ofFn fun k : Fin 3 =>
        (labels.caseName k, stem k, some ⟨"new", k ≠ 0⟩, [(parameter k, parameter k)]) := by
    decide +kernel
  have hk := congrArg (·[k.val]?) hcases
  simp only [List.getElem?_map, List.getElem?_ofFn, k.isLt, dite_true] at hk
  obtain ⟨c, hc, hfields⟩ := Option.map_eq_some_iff.mp hk
  simp only [Prod.mk.injEq] at hfields
  obtain ⟨hname, hstem, hconstructor, hparameters⟩ := hfields
  have hcase : (shape path).caseAt k =
      ⟨c.ordinal, c.name, c.name, c.stem, c.constructor, c.parameters,
        Shape.importOf union.populate.scope c, c.isRecord⟩ := by
    simp [Shape.caseAt, shape, Shape.named, List.getD, hc]
  rw [hcase]
  exact ⟨hname, hname, hstem, hconstructor, hparameters⟩

theorem isApart_shape (path : String) : (shape path).IsApart 3 := Shape.isApart_status path

theorem accessors (path : String) : (shape path).OneStory library labels Part.held :=
  (isApart_shape path).oneStory fun k => (isCase_caseAt path k).variant

theorem nodup_caseTypes (path : String) : (shape path).caseTypes.Nodup := by
  have htypes : (shape path).caseTypes = List.ofFn labels.caseName := by
    rw [Shape.caseTypes, (isApart_shape path).cases_eq, List.map_ofFn]
    exact congrArg List.ofFn (funext fun k => (isCase_caseAt path k).typeName)
  rw [htypes]
  exact List.nodup_ofFn.mpr caseName_injective

/-- What the constructor of a case builds from a value. -/
theorem built_eq (path : String) (k : Fin 3) (v : Value parts) :
    Shape.built library ((shape path).caseAt k) ⟨"new", k ≠ 0⟩ [v] =
      if k = 0 then library.call (labels.caseName k ++ "::" ++ "new") [v]
      else library.record (labels.caseName k) [(parameter k, v)] := by
  have hcase := isCase_caseAt path k
  have hfields : ((shape path).caseAt k).parameters.map (·.fieldName) = [parameter k] := by
    simpa [Function.comp_def] using congrArg (List.map Prod.fst) hcase.parameters
  rw [Shape.built, hcase.typeName, hfields]
  simp

/-- From an argument the constructor builds a value, which is put into its case. -/
theorem ask_new (path : String) (k : Fin 3) {v : Value parts} {a : statusCases k}
    (hbuilt : Shape.built library ((shape path).caseAt k) ⟨"new", k ≠ 0⟩ [v] =
      some (.plain ⟨.held k, a⟩)) :
    (shape path).ask library ("new_" ++ stem k) [v] =
      some (.value (encode path (.ofCase k a))) := by
  have hcase := isCase_caseAt path k
  have hnames : ((shape path).caseAt k).parameters.map (·.argumentName) = [parameter k] := by
    simpa [Function.comp_def] using congrArg (List.map Prod.snd) hcase.parameters
  have hlength : ((shape path).caseAt k).parameters.length = [v].length := by
    simpa using congrArg List.length hnames
  rw [← hcase.stem_eq]
  refine ((isApart_shape path).ask_new k hcase.constructor_eq ?_ ?_ hlength).trans ?_
  · exact List.ne_nil_of_length_eq_add_one hlength
  · rw [hnames]
    exact List.nodup_singleton _
  · rw [hbuilt]
    exact (accessors path).ofCase k a

theorem oneStory (path : String) : OneStory path where
  accessors := accessors path
  newActive description := ask_new path 0 ((built_eq path 0 _).trans rfl)
  newRetry attempt := ask_new path 1 ((built_eq path 1 _).trans rfl)
  newAborted time := ask_new path 2 ((built_eq path 2 _).trans rfl)
  conversion k a := by
    have hfrom := (accessors path).ofCase k a
    refine ⟨?_, hfrom⟩
    rw [← (isCase_caseAt path k).typeName]
    exact ((isApart_shape path).askTrait_from rfl (nodup_caseTypes path) k _).trans hfrom
  isTerminal u := by
    have his := (accessors path).isCase u 2
    rw [(isCase_caseAt path 2).stem_eq] at his
    exact his

end Status

/-! ### All unions -/

theorem Shape.caseAt_generic (path : String) (k : Fin n) :
    (generic n path).caseAt k = genericCase (k.val + 1) := by
  simp [caseAt, generic, List.getD, Nat.add_comm]

/-- All functions that tell which case a union holds agree: `is_…`, `tag`, `case_name`, `holds`,
    `try_get_…` and `try_into_…`, of which the last two find the held value and no other one. One
    case is held, the one of the tag, and `from_…` builds the union again from its value. So do
    the functions that are emitted for a generic union with any number of cases, those for the
    status of a job, and those that a union has at run time. A status that is built from the
    parameters of a case, or converted from its type, is the one that `from_…` builds; it is
    terminal exactly if the job was given up. -/
theorem tellOneStory :
    (∀ {ι : Type} (τ : ι → Type) (lib : Library τ) (n : Nat) (path : String) (ts : Fin n → ι),
      (∀ k : Fin n, (Shape.generic n path).caseAt k = Shape.genericCase (k.val + 1)) ∧
        (Shape.generic n path).OneStory lib (Labels.generic n) ts) ∧
    (Schema.Union.ofDocument Status.document "Status" = .ok Status.union ∧
      ∀ path, (∀ k, Status.IsCase k ((Status.shape path).caseAt k)) ∧ Status.OneStory path) ∧
    (∀ (n : Nat) (α : Fin n → Type), OneOf.OneStory (Labels.generic n) α) ∧
    OneOf.OneStory Status.labels statusCases ∧
    (∀ description, Status.newActive description = Status.ofActive ⟨description⟩) ∧
    (∀ attempt, Status.newRetry attempt = Status.ofRetry ⟨attempt⟩) ∧
    (∀ time, Status.newAborted time = Status.ofAborted ⟨time⟩) ∧
    (∀ a : Active, (a : Status) = .ofActive a) ∧ (∀ r : Retry, (r : Status) = .ofRetry r) ∧
    (∀ a : Aborted, (a : Status) = .ofAborted a) ∧
    ∀ s : Status, [s.isTerminal = true, s.holds 3 = true, s.caseName Status.labels = "Aborted",
      ∃ a, s = .ofAborted a].TFAE := by
  refine ⟨?_, ⟨Status.ofDocument_document, ?_⟩, ?_, ?_, fun _ => rfl, fun _ => rfl, fun _ => rfl,
    fun _ => rfl, fun _ => rfl, fun _ => rfl, ?_⟩
  · intro ι τ lib n path ts
    have hcases (k : Fin n) := Shape.caseAt_generic path k
    refine ⟨hcases, (Shape.isApart_generic n path).oneStory ?_⟩
    intro k
    rw [hcases]
    rfl
  · intro path
    exact ⟨Status.isCase_caseAt path, Status.oneStory path⟩
  · intro n α
    exact OneOf.oneStory (OneOf.caseName_generic_injective n) α
  · exact OneOf.oneStory Status.caseName_injective statusCases
  · intro s
    exact s.isTerminal_tfae

end TaggedUnion
