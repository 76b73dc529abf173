import Mathlib
import TaggedUnion.Proofs.Schema.Pieces

/-! # Every definition is kept

    A definition that the reader has read stays in the document until another root begins:

    * **`NoRoot`**: in some events no root begins outside of every definition.
    * **`Document.Includes`**, **`State.Grows`**: a document has all types and unions of another
      one, and so has the document of a state.
    * **`State.grows_run`**: without another root the document of the reader only grows.
    * **`State.HasType`**, **`State.HasUnion`**: a definition is in the document or is the one
      that is being read.
    * **`Document.read_keeps`**: in the document that has been read, every definition that stands
      in no other one and before no further root has its place, and no namesake.
-/

namespace TaggedUnion.Schema

open TaggedUnion.Xml (Event Tag Transcript openBehind)

/-! ### Roots -/

/-- A root begins at an event. -/
def IsRoot (e : Event) : Prop := ∃ tag ∈ e.tag?, tag.label = "unions"

instance (e : Event) : Decidable (IsRoot e) :=
  inferInstanceAs (Decidable (∃ tag ∈ e.tag?, _))

/-- Inside the elements `opened`, no root begins outside of every definition. -/
def NoRoot (opened : List (List Char)) : List Event → Prop
  | [] => True
  | e :: es => (NoDefinition opened → ¬ IsRoot e) ∧ NoRoot (e.nest opened) es

instance NoRoot.decidable (opened : List (List Char)) (es : List Event) :
    Decidable (NoRoot opened es) :=
  match es with
  | [] => inferInstanceAs (Decidable True)
  | e :: es =>
    have := NoRoot.decidable (e.nest opened) es
    inferInstanceAs (Decidable ((NoDefinition opened → ¬ IsRoot e) ∧ NoRoot (e.nest opened) es))

theorem NoRoot.cons {opened : List (List Char)} {e : Event} {es : List Event}
    (h : NoRoot (e.nest opened) es) (he : ¬ IsRoot e) : NoRoot opened (e :: es) :=
  And.intro (fun _ => he) h

/-! ### Growing documents -/

/-- `d'` has the types and unions of `d`, and the same namespace. -/
structure Document.Includes (d d' : Document) : Prop where
  types : d.types ⊆ d'.types
  unions : d.unions ⊆ d'.unions
  scope : d'.scope = d.scope

namespace Document.Includes

variable {d d' d'' : Document}

theorem refl (d : Document) : d.Includes d := ⟨List.Subset.refl _, List.Subset.refl _, rfl⟩

theorem trans (h : d.Includes d') (h' : d'.Includes d'') : d.Includes d'' :=
  ⟨List.Subset.trans h.types h'.types, List.Subset.trans h.unions h'.unions,
    h'.scope.trans h.scope⟩

/-- A successful operation loses no type and no union. -/
theorem perform {op : Operation} (h : d.perform op = .ok d') : d.Includes d' := by
  obtain ⟨symbol, -, -, rfl⟩ | ⟨name, target, id, -, -, -, rfl⟩ | ⟨declaration, -, -, rfl⟩ :=
    perform_cases h
  · exact ⟨List.subset_append_left _ _, List.Subset.refl _, rfl⟩
  · exact ⟨List.Subset.refl _, List.Subset.refl _, rfl⟩
  · exact ⟨List.Subset.refl _, List.subset_append_left _ _, rfl⟩

end Document.Includes

/-- The document of `s'` has whatever the document of `s` has. -/
def State.Grows (s s' : State) : Prop :=
  ∀ d, s.document = some d → ∃ d', s'.document = some d' ∧ d.Includes d'

namespace State

variable {s s' s'' : State} {e : Event} {opened : List (List Char)}

theorem Grows.refl (s : State) : s.Grows s := fun d hd => ⟨d, hd, .refl d⟩

theorem Grows.of_document_eq (h : s'.document = s.document) : s.Grows s' :=
  fun d hd => ⟨d, h.trans hd, .refl d⟩

theorem Grows.trans (h : s.Grows s') (h' : s'.Grows s'') : s.Grows s'' := by
  intro d hd
  obtain ⟨d', hd', hincludes⟩ := h d hd
  obtain ⟨d'', hd'', hincludes'⟩ := h' d' hd'
  exact ⟨d'', hd'', hincludes.trans hincludes'⟩

/-- One operation leads from the document of `s` to that of `s'`. -/
def Performs (s s' : State) : Prop :=
  ∃ d d' op, s.document = some d ∧ Document.perform d op = .ok d' ∧ s'.document = some d'

theorem performs_closeType {symbol : TypeSymbol} (h : s.closeType symbol = .ok s') :
    s.Performs s' := by
  obtain ⟨d, d', hd, hperform, rfl⟩ := closeType_cases h
  exact ⟨d, d', _, hd, hperform, rfl⟩

theorem performs_closeUnion {declaration : UnionDeclaration}
    (h : s.closeUnion declaration = .ok s') : s.Performs s' := by
  obtain ⟨d, d', hd, hperform, rfl⟩ := closeUnion_cases h
  exact ⟨d, d', _, hd, hperform, rfl⟩

theorem document_stepDocumentation (s : State) (t : OpenType) (c : OpenConstructor)
    (d : OpenDocumentation) (e : Event) : (s.stepDocumentation t c d e).document = s.document := by
  cases e with
  | close name =>
    simp only [stepDocumentation]
    split <;> rfl
  | start | empty | text | cdata | reference | comment | instruction | doctype => rfl

/-- All that a step can do to the document: nothing, or to begin a new one at a root, or one
    operation. -/
theorem document_cases (h : s.step e = .ok s') :
    s'.document = s.document ∨
    (s.place = .outline ∧ IsRoot e ∧ ∃ scope, s'.document = some (.empty scope)) ∨
    s.Performs s' := by
  cases hplace : s.place with
  | outline =>
    rw [step, hplace] at h
    cases outlineMove_of_step h with
    | @root _ tag d htag hlabel hroot =>
      obtain ⟨scope, -, hd⟩ := exists_of_bind_ok hroot
      cases hd
      exact .inr (.inl ⟨rfl, ⟨tag, htag, hlabel⟩, scope, rfl⟩)
    | openType | openUnion | wholeAlias | pass => exact .inl rfl
    | wholeType hlabel hsymbol hclose => exact .inr (.inr (performs_closeType hclose))
    | wholeUnion hlabel hd hdeclaration hclose => exact .inr (.inr (performs_closeUnion hclose))
  | type t =>
    rw [step, hplace] at h
    cases typeMove_of_step h with
    | leave hdepth hclose => exact .inr (.inr (performs_closeType hclose))
    | openConstructor | descend | wholeConstructor | pass | ascend => exact .inl rfl
  | constructor t c =>
    rw [step, hplace] at h
    cases constructorMove_of_step h <;> exact .inl rfl
  | documentation t c d =>
    rw [step, hplace] at h
    cases h
    exact .inl (document_stepDocumentation s t c d e)
  | union u =>
    rw [step, hplace] at h
    cases unionMove_of_step h with
    | leave hdepth hclose => exact .inr (.inr (performs_closeUnion hclose))
    | openCase | descend | wholeCase | pass | ascend => exact .inl rfl

/-- At the end of the text a definition that is still open is added to the document. -/
theorem leave_cases (h : s.leave = .ok s') : s' = s ∨ s.Performs s' := by
  unfold leave at h
  split at h
  · exact .inl (Except.ok.inj h).symm
  · exact .inr (performs_closeType h)
  · exact .inr (performs_closeType h)
  · exact .inr (performs_closeType h)
  · exact .inr (performs_closeUnion h)

theorem Performs.grows (h : s.Performs s') : s.Grows s' := by
  obtain ⟨d, d', op, hd, hperform, hd'⟩ := h
  intro d₀ hd₀
  cases hd.symm.trans hd₀
  exact ⟨d', hd', .perform hperform⟩

/-- Where no root begins, the document only grows. -/
theorem grows_step (h : s.step e = .ok s') (hroot : s.place = .outline → ¬ IsRoot e) :
    s.Grows s' := by
  rcases document_cases h with hsame | ⟨hplace, hisRoot, -⟩ | hperforms
  · exact .of_document_eq hsame
  · exact absurd hisRoot (hroot hplace)
  · exact hperforms.grows

/-- Where no further root begins outside of every definition, a run keeps what every step keeps
    that lets the document grow. -/
theorem invariant_run {P : State → Prop} {es : List Event} (h : P s)
    (hstep : ∀ s e s', P s → s.Grows s' → s.step e = .ok s' → P s')
    (hnested : s.place.Nested opened) (hroot : NoRoot opened es)
    (hs : es.foldlM State.step s = .ok s') : P s' := by
  induction es generalizing s opened with
  | nil =>
    cases hs
    exact h
  | cons e es ih =>
    rw [List.foldlM_cons] at hs
    obtain ⟨s₁, hs₁, hs⟩ := exists_of_bind_ok hs
    have hgrows : s.Grows s₁ :=
      grows_step hs₁ fun hplace => hroot.1 (hnested.eq_outline_iff.mp hplace)
    exact ih (hstep s e s₁ h hgrows hs₁) (hnested.step hs₁) hroot.2 hs

theorem grows_run {es : List Event} (hnested : s.place.Nested opened) (hroot : NoRoot opened es)
    (hs : es.foldlM State.step s = .ok s') : s.Grows s' :=
  invariant_run (.refl s) (fun _ _ _ h hgrows _ => h.trans hgrows) hnested hroot hs

theorem grows_leave (h : s.leave = .ok s') : s.Grows s' := by
  rcases leave_cases h with rfl | hperforms
  · exact .refl s'
  · exact hperforms.grows

/-! ### The invariant of the store -/

/-- The document that is being read keeps the invariant of the store. -/
def Sound (s : State) : Prop := ∀ d, s.document = some d → d.Sound

theorem sound_begin : ({} : State).Sound := by
  intro d hd
  cases hd

theorem Sound.performs (hsound : s.Sound) (h : s.Performs s') : s'.Sound := by
  obtain ⟨d, d₁, op, hd, hperform, hd₁⟩ := h
  intro d' hd'
  cases hd₁.symm.trans hd'
  exact (hsound d hd).perform hperform

theorem Sound.step (hsound : s.Sound) (h : s.step e = .ok s') : s'.Sound := by
  rcases document_cases h with hsame | ⟨-, -, scope, hd⟩ | hperforms
  · intro d' hd'
    exact hsound d' (hsame ▸ hd')
  · intro d' hd'
    cases hd.symm.trans hd'
    exact Document.sound_empty scope
  · exact hsound.performs hperforms

theorem Sound.run {es : List Event} (hsound : s.Sound) (h : es.foldlM State.step s = .ok s') :
    s'.Sound :=
  run_keeps (P := fun _ s => s.Sound) (fun hsound hs => hsound.step hs) [] hsound h

theorem Sound.leave (hsound : s.Sound) (h : s.leave = .ok s') : s'.Sound := by
  rcases leave_cases h with rfl | hperforms
  · exact hsound
  · exact hsound.performs hperforms

end State

/-- Binding aliases keeps the types, the unions and the invariant. -/
theorem Document.Sound.bindAliases {aliases : List (String × String)} {d d' : Document}
    (hsound : d.Sound) (h : d.bindAliases aliases = .ok d') : d.Includes d' ∧ d'.Sound := by
  induction aliases generalizing d with
  | nil =>
    cases h
    exact ⟨.refl _, hsound⟩
  | cons entry aliases ih =>
    rw [Document.bindAliases, List.foldlM_cons] at h
    obtain ⟨d₁, hd₁, h⟩ := exists_of_bind_ok h
    have hperform : d.perform (.addAlias entry.1 entry.2) = .ok d₁ := by
      rw [Document.perform_addAlias]
      exact hd₁
    obtain ⟨hincludes, hsound'⟩ := ih (hsound.perform hperform) h
    exact ⟨(Document.Includes.perform hperform).trans hincludes, hsound'⟩

/-- The document at the end of the text has whatever the reader had, and keeps the invariant. -/
theorem State.finish_cases {s : State} {d : Document} (hsound : s.Sound) (h : s.finish = .ok d) :
    ∃ s' d', s.leave = .ok s' ∧ s'.document = some d' ∧ d'.Includes d ∧ d.Sound := by
  rw [State.finish_eq] at h
  obtain ⟨s', hleave, h⟩ := exists_of_bind_ok h
  unfold State.bound at h
  split at h
  · cases h
  · next d' hd' =>
    obtain ⟨hincludes, hsound'⟩ := (hsound.leave hleave d' hd').bindAliases h
    exact ⟨s', d', hleave, hd', hincludes, hsound'⟩

/-! ### Types -/

/-- The document has the type, at some position and with some constructors. -/
def Document.HasType (d : Document) (symbol : TypeSymbol) : Prop :=
  ∃ id constructors, { symbol with id := id, constructors := constructors } ∈ d.types

/-- The type that is being read at a place. -/
def Place.symbol? : Place → Option TypeSymbol
  | .type t | .constructor t _ | .documentation t _ _ => some t.symbol
  | .outline | .union _ => none

/-- The type is in the document, or it is the one that is being read. -/
def State.HasType (s : State) (symbol : TypeSymbol) : Prop :=
  (∃ d, s.document = some d ∧ d.HasType symbol) ∨
  ∃ constructors, s.place.symbol? = some { symbol with constructors := constructors }

namespace State

variable {s s' : State} {e : Event} {opened : List (List Char)} {symbol : TypeSymbol}

theorem hasType_closeType {constructors : List Constructor}
    (h : s.closeType { symbol with constructors := constructors } = .ok s') :
    ∃ d, s'.document = some d ∧ d.HasType symbol := by
  obtain ⟨d, d', -, hperform, rfl⟩ := closeType_cases h
  refine ⟨d', rfl, d.types.length, constructors, ?_⟩
  obtain ⟨_, hop, -, rfl⟩ | ⟨_, _, _, hop, -⟩ | ⟨_, hop, -⟩ := Document.perform_cases hperform
  · cases hop
    exact List.mem_append_right _ List.mem_cons_self
  · cases hop
  · cases hop

/-- A type that is in the document stays in a growing one. -/
theorem HasType.grows (hgrows : s.Grows s')
    (h : ∃ d, s.document = some d ∧ d.HasType symbol) : 
    ∃ d, s'.document = some d ∧ d.HasType symbol := by
  obtain ⟨d, hd, id, constructors, hmem⟩ := h
  obtain ⟨d', hd', hincludes⟩ := hgrows d hd
  exact ⟨d', hd', id, constructors, hincludes.types hmem⟩

theorem symbol_push {t : OpenType} {constructors : List Constructor}
    (h : t.symbol = { symbol with constructors := constructors }) (c : Constructor) :
    (t.push c).symbol = { symbol with constructors := constructors ++ [c] } := by
  rw [OpenType.push, h]

theorem symbol?_stepDocumentation (s : State) (t : OpenType) (c : OpenConstructor)
    (d : OpenDocumentation) (e : Event) :
    (s.stepDocumentation t c d e).place.symbol? = some t.symbol := by
  cases e with
  | close name =>
    simp only [stepDocumentation]
    split <;> rfl
  | start | empty | text | cdata | reference | comment | instruction | doctype => rfl

/-- A type that is being read is read on or complete. -/
theorem HasType.step (h : s.HasType symbol) (hgrows : s.Grows s') (hs : s.step e = .ok s') :
    s'.HasType symbol := by
  rcases h with h | ⟨constructors, hsymbol⟩
  · exact .inl (HasType.grows hgrows h)
  · cases hplace : s.place with
    | outline | union =>
      rw [hplace] at hsymbol
      cases hsymbol
    | type t =>
      rw [hplace] at hsymbol
      rw [State.step, hplace] at hs
      replace hsymbol := Option.some.inj hsymbol
      cases typeMove_of_step hs with
      | openConstructor | descend | ascend => exact .inr ⟨constructors, congrArg some hsymbol⟩
      | wholeConstructor => exact .inr ⟨_, congrArg some (symbol_push hsymbol _)⟩
      | pass => exact .inr ⟨constructors, by rw [hplace]; exact congrArg some hsymbol⟩
      | leave hdepth hclose => exact .inl (hasType_closeType (hsymbol ▸ hclose))
    | constructor t c =>
      rw [hplace] at hsymbol
      rw [State.step, hplace] at hs
      replace hsymbol := Option.some.inj hsymbol
      cases constructorMove_of_step hs with
      | openDocumentation | openParameter | descend | wholeParameter | ascend =>
        exact .inr ⟨constructors, congrArg some hsymbol⟩
      | pass => exact .inr ⟨constructors, by rw [hplace]; exact congrArg some hsymbol⟩
      | leave => exact .inr ⟨_, congrArg some (symbol_push hsymbol _)⟩
    | documentation t c d =>
      rw [hplace] at hsymbol
      rw [State.step, hplace] at hs
      cases hs
      exact .inr ⟨constructors, (symbol?_stepDocumentation s t c d e).trans hsymbol⟩

/-- A type stays until another root begins. -/
theorem HasType.run {es : List Event} (h : s.HasType symbol) (hnested : s.place.Nested opened)
    (hroot : NoRoot opened es) (hs : es.foldlM State.step s = .ok s') : s'.HasType symbol :=
  invariant_run (P := fun s => s.HasType symbol) h
    (fun _ _ _ h hgrows hstep => h.step hgrows hstep) hnested hroot hs

/-- At the end of the text the type is in the document. -/
theorem HasType.leave (h : s.HasType symbol) (hs : s.leave = .ok s') :
    ∃ d, s'.document = some d ∧ d.HasType symbol := by
  rcases h with h | ⟨constructors, hsymbol⟩
  · exact HasType.grows (grows_leave hs) h
  · unfold State.leave at hs
    split at hs
    · next hplace =>
      rw [hplace] at hsymbol
      cases hsymbol
    · next t hplace =>
      rw [hplace] at hsymbol
      exact hasType_closeType (Option.some.inj hsymbol ▸ hs)
    · next t c hplace =>
      rw [hplace] at hsymbol
      exact hasType_closeType (symbol_push (Option.some.inj hsymbol) _ ▸ hs)
    · next t c d hplace =>
      rw [hplace] at hsymbol
      exact hasType_closeType (symbol_push (Option.some.inj hsymbol) _ ▸ hs)
    · next hplace =>
      rw [hplace] at hsymbol
      cases hsymbol

/-- A `type` outside of every definition begins a type. -/
theorem hasType_of_step {tag : Tag} (hplace : s.place = .outline) (htag : e.tag? = some tag)
    (hlabel : tag.label = "type") (hs : s.step e = .ok s') :
    ∃ symbol, typeOf tag = .ok symbol ∧ s'.HasType symbol := by
  rw [State.step, hplace] at hs
  cases outlineMove_of_step hs with
  | root htag' hlabel' =>
    cases htag.symm.trans htag'
    simp [hlabel] at hlabel'
  | openType _ _ hsymbol =>
    cases htag
    exact ⟨_, hsymbol, .inr ⟨_, rfl⟩⟩
  | openUnion hlabel' | wholeUnion hlabel' | wholeAlias hlabel' =>
    cases htag
    simp [hlabel] at hlabel'
  | wholeType _ hsymbol hclose =>
    cases htag
    exact ⟨_, hsymbol, .inl (hasType_closeType hclose)⟩
  | pass hother =>
    have := hother tag htag
    simp [hlabel] at this

end State

/-! ### Unions -/

/-- The events of the content of an element, up to its end tag or to the end of the text, where
    `depth` elements are open inside it. -/
def contentFrom (depth : Nat) : List Event → List Event
  | [] => []
  | e :: es =>
    match e with
    | .start _ => e :: contentFrom (depth + 1) es
    | .close _ => if depth = 0 then [] else e :: contentFrom (depth - 1) es
    | _ => e :: contentFrom depth es

/-- The events of the content of the element that begins at `e`. -/
def contentOf (e : Event) (es : List Event) : List Event :=
  match e with
  | .start _ => contentFrom 0 es
  | _ => []

/-- The references of the cases among some events, at any depth. -/
def caseReferences (es : List Event) : Except Error (List String) :=
  ((es.filterMap Event.tag?).filter (·.label = "case")).mapM caseOf

section references

variable {e : Event} {es : List Event} {tag : Tag} {reference : String} {references : List String}

theorem contentFrom_of_isFlat (h : e.isFlat) (depth : Nat) (es : List Event) :
    contentFrom depth (e :: es) = e :: contentFrom depth es := by
  cases e with
  | start | close => cases h
  | empty | text | cdata | reference | comment | instruction | doctype => rfl

theorem caseReferences_case (htag : e.tag? = some tag) (hlabel : tag.label = "case")
    (hreference : caseOf tag = .ok reference) (h : caseReferences es = .ok references) :
    caseReferences (e :: es) = .ok (reference :: references) := by
  unfold caseReferences at h ⊢
  rw [List.filterMap_cons_some htag, List.filter_cons_of_pos (by simp [hlabel]), List.mapM_cons,
    hreference, h]
  rfl

theorem caseReferences_other (h : ∀ tag, e.tag? = some tag → tag.label ≠ "case") :
    caseReferences (e :: es) = caseReferences es := by
  unfold caseReferences
  cases htag : e.tag? with
  | none => rw [List.filterMap_cons_none htag]
  | some tag =>
    rw [List.filterMap_cons_some htag, List.filter_cons_of_neg (by simp [h tag htag])]

end references

/-- The union is in the document, or it is the one that is being read. -/
def State.HasUnion (s : State) (declaration : UnionDeclaration) : Prop :=
  (∃ d, s.document = some d ∧ declaration ∈ d.unions) ∨
  ∃ depth, s.place = .union { declaration := declaration, depth := depth }

namespace State

variable {s s' : State} {e : Event} {opened : List (List Char)} {declaration : UnionDeclaration}

theorem hasUnion_closeUnion (h : s.closeUnion declaration = .ok s') :
    ∃ d, s'.document = some d ∧ declaration ∈ d.unions := by
  obtain ⟨d, d', -, hperform, rfl⟩ := closeUnion_cases h
  refine ⟨d', rfl, ?_⟩
  obtain ⟨_, hop, -⟩ | ⟨_, _, _, hop, -⟩ | ⟨_, hop, -, rfl⟩ := Document.perform_cases hperform
  · cases hop
  · cases hop
  · cases hop
    exact List.mem_append_right _ List.mem_cons_self

/-- A union that is in the document stays in a growing one. -/
theorem HasUnion.grows (hgrows : s.Grows s')
    (h : ∃ d, s.document = some d ∧ declaration ∈ d.unions) :
    ∃ d, s'.document = some d ∧ declaration ∈ d.unions := by
  obtain ⟨d, hd, hmem⟩ := h
  obtain ⟨d', hd', hincludes⟩ := hgrows d hd
  exact ⟨d', hd', hincludes.unions hmem⟩

/-- A union that is being read gains the cases in the rest of its content. -/
theorem HasUnion.run {es : List Event} {u : OpenUnion} (hplace : s.place = .union u)
    (hnested : s.place.Nested opened) (hroot : NoRoot opened es)
    (hs : es.foldlM State.step s = .ok s') :
    ∃ references, caseReferences (contentFrom u.depth es) = .ok references ∧
      s'.HasUnion { u.declaration with cases := u.declaration.cases ++ references } := by
  induction es generalizing s opened u with
  | nil =>
    cases hs
    exact ⟨[], rfl, .inr ⟨u.depth, by rw [List.append_nil, hplace]⟩⟩
  | cons e es ih =>
    rw [List.foldlM_cons] at hs
    obtain ⟨s₁, hs₁, hrest⟩ := exists_of_bind_ok hs
    have hnested₁ := hnested.step hs₁
    rw [State.step, hplace] at hs₁
    cases unionMove_of_step hs₁ with
    | @openCase tag reference hlabel hreference =>
      obtain ⟨references, hreferences, hunion⟩ := ih rfl hnested₁ hroot.2 hrest
      refine ⟨reference :: references, caseReferences_case rfl hlabel hreference hreferences, ?_⟩
      rwa [List.append_cons]
    | @descend tag hlabel =>
      obtain ⟨references, hreferences, hunion⟩ := ih rfl hnested₁ hroot.2 hrest
      refine ⟨references, ?_, hunion⟩
      rw [← hreferences]
      exact caseReferences_other fun tag' htag => by cases htag; exact hlabel
    | @wholeCase tag reference hlabel hreference =>
      obtain ⟨references, hreferences, hunion⟩ := ih rfl hnested₁ hroot.2 hrest
      refine ⟨reference :: references, caseReferences_case rfl hlabel hreference hreferences, ?_⟩
      rwa [List.append_cons]
    | pass hflat hlabel =>
      obtain ⟨references, hreferences, hunion⟩ := ih hplace hnested₁ hroot.2 hrest
      refine ⟨references, ?_, hunion⟩
      rw [← hreferences, contentFrom_of_isFlat hflat]
      refine caseReferences_other fun tag htag => hlabel tag ?_
      exact Event.eq_empty_of_tag? hflat htag
    | @ascend name depth hdepth =>
      obtain ⟨references, hreferences, hunion⟩ := ih rfl hnested₁ hroot.2 hrest
      refine ⟨references, ?_, hunion⟩
      rw [hdepth, ← hreferences]
      exact caseReferences_other (by simp [Event.tag?])
    | leave hdepth hclose =>
      -- Behind its end tag the union is complete, and further events only add to the document.
      refine ⟨[], by rw [hdepth]; rfl, .inl ?_⟩
      rw [List.append_nil]
      exact HasUnion.grows (grows_run hnested₁ hroot.2 hrest) (hasUnion_closeUnion hclose)

/-- At the end of the text the union is in the document. -/
theorem HasUnion.leave (h : s.HasUnion declaration) (hs : s.leave = .ok s') :
    ∃ d, s'.document = some d ∧ declaration ∈ d.unions := by
  rcases h with h | ⟨depth, hplace⟩
  · exact HasUnion.grows (grows_leave hs) h
  · rw [State.leave, hplace] at hs
    exact hasUnion_closeUnion hs

theorem cases_of_unionOf {tag : Tag} {scope : String} (h : unionOf tag scope = .ok declaration) :
    declaration.cases = [] := by
  obtain ⟨p, -, h⟩ := exists_of_bind_ok h
  obtain ⟨name, -, h⟩ := exists_of_bind_ok h
  cases h
  rfl

/-- A `union` outside of every definition is read up to the end of its content. -/
theorem hasUnion_of_run {tag : Tag} {es : List Event} (hnested : s.place.Nested opened)
    (hplace : s.place = .outline) (htag : e.tag? = some tag) (hlabel : tag.label = "union")
    (hroot : NoRoot (e.nest opened) es) (hs : (e :: es).foldlM State.step s = .ok s') :
    ∃ d declaration references, s.document = some d ∧ unionOf tag d.scope = .ok declaration ∧
      caseReferences (contentOf e es) = .ok references ∧
      s'.HasUnion { declaration with cases := references } := by
  rw [List.foldlM_cons] at hs
  obtain ⟨s₁, hs₁, hrest⟩ := exists_of_bind_ok hs
  have hnested₁ := hnested.step hs₁
  rw [State.step, hplace] at hs₁
  cases outlineMove_of_step hs₁ with
  | root htag' hlabel' =>
    cases htag.symm.trans htag'
    simp [hlabel] at hlabel'
  | openType hlabel' | wholeType hlabel' | wholeAlias hlabel' =>
    cases htag
    simp [hlabel] at hlabel'
  | openUnion _ hd hdeclaration =>
    cases htag
    obtain ⟨references, hreferences, hunion⟩ := HasUnion.run rfl hnested₁ hroot hrest
    refine ⟨_, _, references, hd, hdeclaration, hreferences, ?_⟩
    rwa [cases_of_unionOf hdeclaration, List.nil_append] at hunion
  | @wholeUnion _ d declaration _ _ hd hdeclaration hclose =>
    cases htag
    refine ⟨d, declaration, [], hd, hdeclaration, rfl, .inl ?_⟩
    have hcases : { declaration with cases := [] } = declaration := by
      rw [← cases_of_unionOf hdeclaration]
    rw [hcases]
    exact HasUnion.grows (grows_run hnested₁ hroot hrest) (hasUnion_closeUnion hclose)
  | pass hother =>
    have := hother tag htag
    simp [hlabel] at this

end State

/-! ### Whole texts -/

namespace Document

/-- The definition with the tag `tag`, which begins at `e` before the events `es`, stands in the
    document, and no other one of its kind has its name. -/
structure Keeps (d : Document) (e : Event) (es : List Event) (tag : Tag) : Prop where
  type : tag.label = "type" → ∃ symbol, typeOf tag = .ok symbol ∧
    d.HasType symbol ∧ (d.types.map (·.name)).count symbol.name = 1
  union : tag.label = "union" → ∃ declaration references,
    unionOf tag d.scope = .ok declaration ∧ caseReferences (contentOf e es) = .ok references ∧
    { declaration with cases := references } ∈ d.unions ∧
    (d.unions.map (·.name)).count declaration.name = 1

variable {text : String} {d : Document} {before after : List Event} {e : Event} {tag : Tag}

/-- The document that has been read keeps every definition that stands in no other one, unless a
    further root begins behind it. -/
theorem read_keeps (hread : read text = .ok d)
    (hevents : (Transcript.ofText text).events = before ++ e :: after) (htag : e.tag? = some tag)
    (hnone : NoDefinition (openBehind [] before))
    (hroot : NoRoot (e.nest (openBehind [] before)) after) : d.Keeps e after tag := by
  obtain ⟨-, s, hs, hfinish⟩ := exists_of_read_ok hread
  obtain ⟨s', d', hleave, hd', hincludes, hsound⟩ :=
    State.finish_cases (State.sound_begin.run hs) hfinish
  rw [hevents, List.foldlM_append] at hs
  obtain ⟨s₀, hs₀, hs⟩ := exists_of_bind_ok hs
  have hnested : s₀.place.Nested (openBehind [] before) := Place.Nested.run_begin hs₀
  have hplace : s₀.place = .outline := hnested.eq_outline_iff.mpr hnone
  constructor
  · intro hlabel
    rw [List.foldlM_cons] at hs
    obtain ⟨s₁, hs₁, hrest⟩ := exists_of_bind_ok hs
    obtain ⟨symbol, hsymbol, htype⟩ := State.hasType_of_step hplace htag hlabel hs₁
    have htype' : s.HasType symbol := htype.run (hnested.step hs₁) hroot hrest
    obtain ⟨d₁, hd₁, id, constructors, hmem⟩ := htype'.leave hleave
    cases hd'.symm.trans hd₁
    have hmem' := hincludes.types hmem
    have hname : symbol.name ∈ d.types.map (·.name) := List.mem_map.mpr ⟨_, hmem', rfl⟩
    exact ⟨symbol, hsymbol, ⟨id, constructors, hmem'⟩,
      List.count_eq_one_of_mem hsound.typeNames_nodup hname⟩
  · intro hlabel
    obtain ⟨d₀, declaration, references, hd₀, hdeclaration, hreferences, hunion⟩ :=
      State.hasUnion_of_run hnested hplace htag hlabel hroot hs
    obtain ⟨d₁, hd₁, hmem⟩ := hunion.leave hleave
    cases hd'.symm.trans hd₁
    have hmem' := hincludes.unions hmem
    have hnotRoot : ¬ IsRoot e := by
      rintro ⟨tag', htag', hlabel'⟩
      cases htag.symm.trans htag'
      simp [hlabel] at hlabel'
    have hgrows : s₀.Grows s' :=
      (State.grows_run hnested (hroot.cons hnotRoot) hs).trans (State.grows_leave hleave)
    obtain ⟨d₂, hd₂, hincludes₀⟩ := hgrows d₀ hd₀
    cases hd'.symm.trans hd₂
    have hscope : d.scope = d₀.scope := (hincludes₀.trans hincludes).scope
    have hname : declaration.name ∈ d.unions.map (·.name) := List.mem_map.mpr ⟨_, hmem', rfl⟩
    exact ⟨declaration, references, hscope ▸ hdeclaration, hreferences, hmem',
      List.count_eq_one_of_mem hsound.unionNames_nodup hname⟩

/-- The same for a union. -/
theorem read_keeps_union :
    let text := "<unions><union name=\"U\"><case type=\"A\"/></union></unions>"
    let tag : Tag := ⟨"union name=\"U\"".toList⟩
    let content : Event := .empty ⟨"case type=\"A\"".toList⟩
    ∃ d, read text = .ok d ∧
      d.Keeps (.start tag) [content, .close "union".toList, .close "unions".toList] tag := by
  intro text tag content
  have htext : Transcript.ofText text = ⟨[.start ⟨"unions".toList⟩, .start tag, content,
      .close "union".toList, .close "unions".toList], none⟩ := by cbv
  have hread : read text = .ok {
      scope := ""
      types := [{ id := 0, name := "Any", kind := .top }]
      unions := [{ scope := "", name := "U", isPartial := false, cases := ["A"] }]
      names := [("Any", 0)] } := by
    rw [read, htext]
    cbv
  have hevents : (Transcript.ofText text).events = [.start ⟨"unions".toList⟩] ++
      .start tag :: [content, .close "union".toList, .close "unions".toList] := by
    rw [htext]
    rfl
  exact ⟨_, hread, read_keeps hread hevents rfl (by decide) (by decide)⟩

/-- Not every definition outside of documentation is kept: a second root drops what was read
    before it. -/
theorem not_forall_read_keeps : ¬ ∀ {text : String} {d : Document} {before after : List Event}
    {e : Event} {tag : Tag}, read text = .ok d →
    (Transcript.ofText text).events = before ++ e :: after → e.tag? = some tag →
    (∀ name ∈ openBehind [] before, String.ofList name ≠ "doc") → d.Keeps e after tag := by
  intro hall
  let text := "<unions><type name=\"A\"/></unions><unions/>"
  let tag : Tag := ⟨"type name=\"A\"".toList⟩
  have htext : Transcript.ofText text = ⟨[.start ⟨"unions".toList⟩, .empty tag,
      .close "unions".toList, .empty ⟨"unions".toList⟩], none⟩ := by cbv
  have hread : read text = .ok (.empty "") := by
    rw [read, htext]
    cbv
  have hevents : (Transcript.ofText text).events = [.start ⟨"unions".toList⟩] ++
      .empty tag :: [.close "unions".toList, .empty ⟨"unions".toList⟩] := by
    rw [htext]
    rfl
  have hkeeps := hall hread hevents rfl (by decide)
  have htypeOf : typeOf tag = .ok { name := "A" } := by cbv
  obtain ⟨symbol, hsymbol, ⟨id, constructors, hmem⟩, -⟩ := hkeeps.type (by decide)
  cases htypeOf.symm.trans hsymbol
  have hname : "A" = topTypeName := congrArg TypeSymbol.name (List.mem_singleton.mp hmem)
  exact absurd hname (by decide)

end Document

end TaggedUnion.Schema
