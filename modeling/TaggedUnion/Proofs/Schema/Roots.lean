import TaggedUnion.Proofs.Schema.Definitions

/-! # Definitions outside of a root

    A definition needs a document, and the reader has one from the first `unions` tag on. This
    module says what follows for a definition that stands outside of every root:

    * **`definition?`**: what an event defines outside of every other definition.
    * **`State.step_begin`**: before the first root the reader has nothing, and a definition is
      refused.
    * **`Rooted`**: an outcome that is no refusal for want of a root. Behind a root every outcome
      is one (**`Rooted.readOn`**).
    * **`Document.read_eq_outsideRoot_iff`**: so a text is refused for this cause exactly where
      a definition stands before the first root.

    Whether the root is still open is not looked at: behind its end tag definitions are accepted
    as before it (**`Document.not_forall_read_outside`**).
-/

namespace TaggedUnion.Schema

open TaggedUnion.Xml (Event Tag Transcript openBehind)

/-! ### Before the first root -/

/-- The element that an event defines where it stands outside of every other definition: a type
    or a union, or an alias in one tag. -/
def definition? : Event → Option String
  | .start tag => if tag.label ∈ ["type", "union"] then some tag.label else none
  | .empty tag => if tag.label ∈ ["type", "alias", "union"] then some tag.label else none
  | _ => none

/-- Neither a root nor a definition begins at an event. -/
def IsProlog (e : Event) : Prop := ¬ IsRoot e ∧ definition? e = none

instance (e : Event) : Decidable (IsProlog e) := inferInstanceAs (Decidable (_ ∧ _))

theorem not_isRoot_of_definition? {e : Event} {element : String}
    (h : definition? e = some element) : ¬ IsRoot e := by
  rintro ⟨tag, htag, hlabel⟩
  cases e with
  | start tag' | empty tag' =>
    cases htag
    simp [definition?, hlabel] at h
  | close | text | cdata | reference | comment | instruction | doctype => cases h

namespace State

variable {e : Event} {es : List Event} {s s' : State}

/-- Before the first root a definition is refused, and everything else is passed over. -/
theorem step_begin (hroot : ¬ IsRoot e) :
    ({} : State).step e =
      match definition? e with
      | some element => .error (.outsideRoot element)
      | none => .ok {} := by
  cases e with
  | start tag =>
    simp only [step, stepOutline]
    split
    · next hlabel => exact absurd ⟨tag, rfl, hlabel⟩ hroot
    · next hlabel => simp only [definition?, Tag.label, hlabel]; rfl
    · next hlabel => simp only [definition?, Tag.label, hlabel]; rfl
    · next htype hunion =>
      have hother : tag.label ∉ ["type", "union"] := by
        simpa [Tag.label] using ⟨htype, hunion⟩
      rw [definition?, if_neg hother]
  | empty tag =>
    simp only [step, stepOutline]
    split
    · next hlabel => exact absurd ⟨tag, rfl, hlabel⟩ hroot
    · next hlabel => simp only [definition?, Tag.label, hlabel]; rfl
    · next hlabel => simp only [definition?, Tag.label, hlabel]; rfl
    · next hlabel => simp only [definition?, Tag.label, hlabel]; rfl
    · next htype halias hunion =>
      have hother : tag.label ∉ ["type", "alias", "union"] := by
        simpa [Tag.label] using ⟨htype, halias, hunion⟩
      rw [definition?, if_neg hother]
  | close | text | cdata | reference | comment | instruction | doctype => rfl

/-- Behind events that are neither roots nor definitions the reader still has nothing. -/
theorem foldlM_begin (h : ∀ e ∈ es, IsProlog e) : es.foldlM State.step {} = .ok {} := by
  induction es with
  | nil => rfl
  | cons e es ih =>
    obtain ⟨hroot, hdefinition⟩ := h e List.mem_cons_self
    rw [List.foldlM_cons, step_begin hroot, hdefinition]
    exact ih fun e he => h e (List.mem_cons_of_mem _ he)

/-- A document stays. -/
theorem isSome_document_step (hsome : s.document.isSome) (h : s.step e = .ok s') :
    s'.document.isSome := by
  rcases document_cases h with hsame | ⟨-, -, scope, hd⟩ | ⟨d, d', op, -, -, hd'⟩
  · rwa [hsame]
  · rw [hd]
    rfl
  · rw [hd']
    rfl

theorem isSome_document_run (hsome : s.document.isSome) (h : es.foldlM State.step s = .ok s') :
    s'.document.isSome :=
  run_keeps (P := fun _ s => s.document.isSome) isSome_document_step [] hsome h

/-- A root outside of every definition begins a document. -/
theorem isSome_document_root (hplace : s.place = .outline) (hroot : IsRoot e)
    (h : s.step e = .ok s') : s'.document.isSome := by
  obtain ⟨tag, htag, hlabel⟩ := hroot
  rw [step, hplace] at h
  cases outlineMove_of_step h with
  | root => rfl
  | openType _ hd | openUnion _ hd | wholeAlias _ hd => exact Option.isSome_of_eq_some hd
  | wholeType _ _ hclose =>
    obtain ⟨d, d', -, -, rfl⟩ := closeType_cases hclose
    rfl
  | wholeUnion _ _ _ hclose =>
    obtain ⟨d, d', -, -, rfl⟩ := closeUnion_cases hclose
    rfl
  | pass hother =>
    have := hother tag htag
    simp [hlabel] at this

end State

/-! ### Behind a root -/

/-- The outcome is no refusal for want of a root. -/
def Rooted {α : Type} (x : Except Error α) : Prop := ∀ element, x ≠ .error (.outsideRoot element)

namespace Rooted

variable {α β σ : Type}

theorem ok (a : α) : Rooted (.ok a : Except Error α) := nofun

theorem error {err : Error} (h : ∀ element, err ≠ .outsideRoot element) :
    Rooted (.error err : Except Error α) :=
  fun element heq => h element (Except.error.inj heq)

theorem bind {x : Except Error α} {f : α → Except Error β} (hx : Rooted x)
    (hf : ∀ a, x = .ok a → Rooted (f a)) : Rooted (x >>= f) := by
  cases x with
  | error err => exact error fun element heq => hx element (congrArg _ heq)
  | ok a => exact hf a rfl

theorem foldlM {f : σ → α → Except Error σ} (h : ∀ s a, Rooted (f s a)) (s : σ) (as : List α) :
    Rooted (as.foldlM f s) := by
  induction as generalizing s with
  | nil => exact ok s
  | cons a as ih =>
    rw [List.foldlM_cons]
    exact (h s a).bind fun s' _ => ih s'

/-! ### Tags -/

theorem attributeValue (a : Xml.Attribute) : Rooted (attributeValue a) := by
  unfold Schema.attributeValue
  split
  · exact ok _
  · exact error nofun

theorem foldAttributes {tag : Tag} {s : σ} {step : σ → String → String → Except Error σ}
    (h : ∀ s key value, Rooted (step s key value)) : Rooted (foldAttributes tag s step) := by
  refine foldlM ?_ s tag.attributes
  intro s a
  cases a with
  | none => exact ok s
  | some a => exact (attributeValue a).bind fun value _ => h s _ value

theorem required (element key : String) (value : Option String) :
    Rooted (required element key value) := by
  unfold Schema.required
  split
  · exact ok _
  · exact error nofun

theorem flag (element key value : String) : Rooted (flag element key value) := by
  unfold Schema.flag
  split
  all_goals first | exact ok _ | exact error nofun

theorem rootOf (tag : Tag) : Rooted (rootOf tag) :=
  (foldAttributes fun _ _ _ => ok _).bind fun _ _ => ok _

theorem typeOf (tag : Tag) : Rooted (typeOf tag) := by
  refine (foldAttributes ?_).bind fun p _ => (required _ _ _).bind fun _ _ => ok _
  rintro ⟨name, symbol⟩ key value
  dsimp only
  split
  · exact ok _
  · split
    · exact ok _
    · exact error nofun
  · exact (flag _ _ _).bind fun _ _ => ok _
  · exact ok _
  · exact ok _
  · exact ok _
  · exact ok _

theorem constructorOf (tag : Tag) : Rooted (constructorOf tag) := by
  refine foldAttributes ?_
  intro c key value
  split
  · exact ok _
  · split
    · exact ok _
    · exact error nofun
  · exact (flag _ _ _).bind fun _ _ => ok _
  · exact ok _

theorem attributePair (tag : Tag) (first second : String) :
    Rooted (attributePair tag first second) :=
  foldAttributes fun _ _ _ => ok _

theorem parameterOf (tag : Tag) : Rooted (parameterOf tag) :=
  (attributePair _ _ _).bind fun _ _ => (required _ _ _).bind fun _ _ =>
    (required _ _ _).bind fun _ _ => ok _

theorem aliasOf (tag : Tag) : Rooted (aliasOf tag) :=
  (attributePair _ _ _).bind fun _ _ => (required _ _ _).bind fun _ _ =>
    (required _ _ _).bind fun _ _ => ok _

theorem unionOf (tag : Tag) (scope : String) : Rooted (unionOf tag scope) := by
  refine (foldAttributes ?_).bind fun p _ => (required _ _ _).bind fun _ _ => ok _
  rintro ⟨name, isPartial⟩ key value
  dsimp only
  split
  · exact ok _
  · exact (flag _ _ _).bind fun _ _ => ok _
  · exact ok _

theorem caseOf (tag : Tag) : Rooted (caseOf tag) := by
  unfold Schema.caseOf
  split
  · exact attributeValue _
  · exact error nofun

/-! ### Documents -/

theorem addType (d : Document) (symbol : TypeSymbol) :
    Rooted (d.addType symbol) := by
  rw [Document.outcome_addType]
  split
  · exact error nofun
  · exact ok _

theorem addAlias (d : Document) (name target : String) :
    Rooted (d.addAlias name target) := by
  rw [Document.outcome_addAlias]
  split
  · exact error nofun
  · exact error nofun
  · exact ok _

theorem addUnion (d : Document) (declaration : UnionDeclaration) :
    Rooted (d.addUnion declaration) := by
  rw [Document.outcome_addUnion]
  split
  · exact error nofun
  · exact ok _

theorem bindAliases (d : Document) (aliases : List (String × String)) :
    Rooted (d.bindAliases aliases) := by
  refine foldlM ?_ d aliases
  intro d entry
  exact (addAlias d entry.1 entry.2).bind fun _ _ => ok _

/-! ### Steps -/

variable {s : State}

theorem root (hsome : s.document.isSome) (element : String) : Rooted (s.root element) := by
  obtain ⟨d, hd⟩ := Option.isSome_iff_exists.mp hsome
  rw [State.root, hd]
  exact ok d

theorem closeType (hsome : s.document.isSome) (symbol : TypeSymbol) :
    Rooted (s.closeType symbol) :=
  (root hsome "type").bind fun d _ => (addType d symbol).bind fun _ _ => ok _

theorem closeUnion (hsome : s.document.isSome) (declaration : UnionDeclaration) :
    Rooted (s.closeUnion declaration) :=
  (root hsome "union").bind fun d _ => (addUnion d declaration).bind fun _ _ => ok _

theorem stepOutline (hsome : s.document.isSome) (e : Event) : Rooted (s.stepOutline e) := by
  cases e with
  | start tag =>
    simp only [State.stepOutline]
    split
    · exact (rootOf tag).bind fun _ _ => ok _
    · exact (root hsome "type").bind fun _ _ => (typeOf tag).bind fun _ _ => ok _
    · exact (root hsome "union").bind fun d _ => (unionOf tag d.scope).bind fun _ _ => ok _
    · exact ok s
  | empty tag =>
    simp only [State.stepOutline]
    split
    · exact (rootOf tag).bind fun _ _ => ok _
    · exact (root hsome "type").bind fun _ _ => (typeOf tag).bind fun symbol _ =>
        closeType hsome symbol
    · exact (root hsome "alias").bind fun _ _ => (aliasOf tag).bind fun _ _ => ok _
    · exact (root hsome "union").bind fun d _ => (unionOf tag d.scope).bind fun declaration _ =>
        closeUnion hsome declaration
    · exact ok s
  | close | text | cdata | reference | comment | instruction | doctype => exact ok s

theorem stepType (hsome : s.document.isSome) (t : OpenType) (e : Event) :
    Rooted (s.stepType t e) := by
  cases e with
  | start tag | empty tag =>
    simp only [State.stepType]
    split
    · exact (constructorOf tag).bind fun _ _ => ok _
    · exact ok _
  | close name =>
    simp only [State.stepType]
    split
    · exact closeType hsome t.symbol
    · exact ok _
  | text | cdata | reference | comment | instruction | doctype => exact ok s

theorem stepConstructor (s : State) (t : OpenType) (c : OpenConstructor) (e : Event) :
    Rooted (s.stepConstructor t c e) := by
  cases e with
  | start tag =>
    simp only [State.stepConstructor]
    split
    · exact ok _
    · exact (parameterOf tag).bind fun _ _ => ok _
    · exact ok _
  | empty tag =>
    simp only [State.stepConstructor]
    split
    · exact (parameterOf tag).bind fun _ _ => ok _
    · exact ok _
  | close name =>
    simp only [State.stepConstructor]
    split <;> exact ok _
  | text | cdata | reference | comment | instruction | doctype => exact ok s

theorem stepUnion (hsome : s.document.isSome) (u : OpenUnion) (e : Event) :
    Rooted (s.stepUnion u e) := by
  cases e with
  | start tag | empty tag =>
    simp only [State.stepUnion]
    split
    · exact (caseOf tag).bind fun _ _ => ok _
    · exact ok _
  | close name =>
    simp only [State.stepUnion]
    split
    · exact closeUnion hsome u.declaration
    · exact ok _
  | text | cdata | reference | comment | instruction | doctype => exact ok s

theorem step (hsome : s.document.isSome) (e : Event) : Rooted (s.step e) := by
  unfold State.step
  split
  · exact stepOutline hsome e
  · exact stepType hsome _ e
  · exact stepConstructor s _ _ e
  · exact ok _
  · exact stepUnion hsome _ e

/-- Behind a root no further event is refused for want of one. -/
theorem run (hsome : s.document.isSome) (es : List Event) : Rooted (es.foldlM State.step s) := by
  induction es generalizing s with
  | nil => exact ok s
  | cons e es ih =>
    rw [List.foldlM_cons]
    exact (step hsome e).bind fun s' hs => ih (State.isSome_document_step hsome hs)

theorem leave (hsome : s.document.isSome) : Rooted s.leave := by
  unfold State.leave
  split
  · exact ok s
  · exact closeType hsome _
  · exact closeType hsome _
  · exact closeType hsome _
  · exact closeUnion hsome _

theorem bound (s : State) : Rooted s.bound := by
  unfold State.bound
  split
  · exact error nofun
  · exact bindAliases _ _

/-- Behind a root nothing is refused for want of one. -/
theorem readOn (hsome : s.document.isSome) (t : Transcript) : Rooted (s.readOn t) := by
  refine (run hsome t.events).bind fun s' hs => ?_
  split
  · exact error nofun
  · have hsome' := State.isSome_document_run hsome hs
    rw [State.finish_eq]
    exact (leave hsome').bind fun s'' _ => bound s''

/-- The first root is not refused for want of one. -/
theorem step_begin {e : Event} (hroot : IsRoot e) : Rooted (({} : State).step e) := by
  obtain ⟨tag, htag, hlabel⟩ := hroot
  replace hlabel : String.ofList tag.name = "unions" := hlabel
  cases e with
  | start tag' | empty tag' =>
    cases htag
    simp only [State.step, State.stepOutline, hlabel]
    exact (rootOf tag).bind fun _ _ => ok _
  | close | text | cdata | reference | comment | instruction | doctype => cases htag

/-- Where a root comes before every definition, nothing is refused for want of one. -/
theorem readOn_begin {before after : List Event} {e : Event} {fault : Option Xml.Fault}
    (hbefore : ∀ b ∈ before, IsProlog b) (hroot : IsRoot e) :
    Rooted (({} : State).readOn ⟨before ++ e :: after, fault⟩) := by
  have happend := ({} : State).readOn_append before ⟨e :: after, fault⟩
  rw [happend, State.foldlM_begin hbefore]
  show Rooted (({} : State).readOn _)
  rw [State.readOn, List.foldlM_cons, bind_assoc]
  refine (step_begin hroot).bind fun s hs => ?_
  exact readOn (State.isSome_document_root rfl hroot hs) ⟨after, fault⟩

/-- Where there is neither a root nor a definition, it is the root that is missed. -/
theorem readOn_prolog {t : Transcript} (h : ∀ e ∈ t.events, IsProlog e) :
    Rooted (({} : State).readOn t) := by
  rw [State.readOn, State.foldlM_begin h]
  refine (ok _).bind fun s hs => ?_
  cases hs
  cases t.fault with
  | some f =>
    refine error ?_
    intro element heq
    cases heq
  | none => exact bound {}

end Rooted

/-! ### Whole texts -/

/-- The first definition is refused where it stands before every root. -/
theorem State.readOn_definition {t : Transcript} {before after : List Event} {e : Event}
    {element : String} (hevents : t.events = before ++ e :: after)
    (hdefinition : definition? e = some element) (hbefore : ∀ b ∈ before, IsProlog b) :
    ({} : State).readOn t = .error (.outsideRoot element) := by
  have hstep := State.step_begin (not_isRoot_of_definition? hdefinition)
  rw [hdefinition] at hstep
  rw [readOn, hevents, List.foldlM_append, foldlM_begin hbefore]
  show (List.foldlM State.step {} (e :: after) >>= _) = _
  rw [List.foldlM_cons, hstep]
  rfl

namespace Document

variable {text element : String}

/-- A text is refused for a definition that stands outside of a root exactly where a definition
    stands before the first root, and it is the first such definition that is named. -/
theorem read_eq_outsideRoot_iff :
    read text = .error (.outsideRoot element) ↔
      ∃ before e after, (Transcript.ofText text).events = before ++ e :: after ∧
        definition? e = some element ∧ ∀ b ∈ before, IsProlog b := by
  have hread : read text = ({} : State).readOn (Transcript.ofText text) := rfl
  rw [hread]
  generalize Transcript.ofText text = t
  constructor
  · intro h
    -- The first event that is no prolog decides: it is a definition, or it is the root.
    cases hfind : t.events.find? (¬ IsProlog ·) with
    | none =>
      have hprolog : ∀ e ∈ t.events, IsProlog e := by simpa using hfind
      exact absurd h (Rooted.readOn_prolog hprolog element)
    | some e =>
      obtain ⟨hother, before, after, hevents, hnone⟩ := List.find?_eq_some_iff_append.mp hfind
      have hbefore : ∀ b ∈ before, IsProlog b := by simpa using hnone
      by_cases hroot : IsRoot e
      · obtain ⟨events, fault⟩ := t
        cases hevents
        exact absurd h (Rooted.readOn_begin hbefore hroot element)
      · cases hdefinition : definition? e with
        | none =>
          have hprolog : IsProlog e := ⟨hroot, hdefinition⟩
          simp [hprolog] at hother
        | some element' =>
          have hsame := State.readOn_definition hevents hdefinition hbefore
          rw [h] at hsame
          obtain rfl : element = element' := Error.outsideRoot.inj (Except.error.inj hsame)
          exact ⟨before, e, after, hevents, hdefinition, hbefore⟩
  · rintro ⟨before, e, after, hevents, hdefinition, hbefore⟩
    exact State.readOn_definition hevents hdefinition hbefore

/-- Not every definition outside of a root is refused: where a root has been closed, one that
    follows it is accepted. -/
theorem not_forall_read_outside : ¬ ∀ {text : String} {before after : List Event} {e : Event}
    {tag : Tag}, (Transcript.ofText text).events = before ++ e :: after → e.tag? = some tag →
    tag.label ∈ ["type", "alias", "union"] →
    (∀ name ∈ openBehind [] before, String.ofList name ≠ "unions") →
    ∃ err, read text = .error err := by
  intro hall
  let text := "<unions></unions><type name=\"A\"/>"
  let tag : Tag := ⟨"type name=\"A\"".toList⟩
  have htext : Transcript.ofText text =
      ⟨[.start ⟨"unions".toList⟩, .close "unions".toList, .empty tag], none⟩ := by cbv
  have hevents : (Transcript.ofText text).events =
      [.start ⟨"unions".toList⟩, .close "unions".toList] ++ .empty tag :: [] := by
    rw [htext]
    rfl
  have hread : (read text).map (fun d => d.types.map (·.name)) = .ok ["Any", "A"] := by
    rw [read, htext]
    cbv
  obtain ⟨err, herr⟩ := hall hevents rfl (by decide) (by decide)
  rw [herr] at hread
  cases hread

end Document

end TaggedUnion.Schema
