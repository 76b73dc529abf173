import TaggedUnion.Proofs.Schema.Moves

/-! # The place of the reader and the open elements

    The reader counts the elements that it opens and does not keep their names. This module says
    that its place and its counters always agree with the elements that are open:

    * **`Inside`**: a number of elements is open inside an element with a given name.
    * **`Place.Nested`**: the elements that a place stands for are open, as many inside each of
      them as its counter says, and outside of the definition no other one is open.
    * **`Place.Nested.step`**, **`Place.Nested.run`**: the reader keeps this.
      **`State.run_keeps`** takes what every step keeps to a run, here and in other modules.

    So the reader is outside of every definition exactly where no `type` and no `union` is open
    (`Place.Nested.eq_outline_iff`).
-/

namespace TaggedUnion.Schema

open TaggedUnion.Xml (Event Tag openBehind)

/-! ### Open elements -/

/-- The names of the elements that define something. -/
def IsDefinition (name : List Char) : Prop :=
  String.ofList name = "type" ∨ String.ofList name = "union"

instance (name : List Char) : Decidable (IsDefinition name) :=
  inferInstanceAs (Decidable (_ ∨ _))

theorem isDefinition_name {tag : Tag} :
    IsDefinition tag.name ↔ tag.label = "type" ∨ tag.label = "union" := Iff.rfl

/-- No open element is a definition. -/
def NoDefinition (opened : List (List Char)) : Prop := ∀ name ∈ opened, ¬ IsDefinition name

instance (opened : List (List Char)) : Decidable (NoDefinition opened) :=
  List.decidableBAll _ opened

/-- An event that begins no definition leaves none open where none was. -/
theorem NoDefinition.nest {opened : List (List Char)} (h : NoDefinition opened) {e : Event}
    (he : ∀ tag, e.tag? = some tag → ¬ IsDefinition tag.name) :
    NoDefinition (e.nest opened) := by
  cases e with
  | start tag =>
    intro name hname
    rcases List.mem_cons.mp hname with rfl | hname
    · exact he tag rfl
    · exact h name hname
  | close =>
    intro name hname
    exact h name (List.mem_of_mem_tail hname)
  | empty | text | cdata | reference | comment | instruction | doctype => exact h

/-- What every step keeps, a run keeps. It may depend on the open elements. -/
theorem State.run_keeps {P : List (List Char) → State → Prop}
    (hstep : ∀ {opened : List (List Char)} {s s' : State} {e : Event},
      P opened s → s.step e = .ok s' → P (e.nest opened) s')
    (opened : List (List Char)) {s s' : State} {es : List Event} (h : P opened s)
    (hs : es.foldlM State.step s = .ok s') : P (openBehind opened es) s' := by
  induction es generalizing s opened with
  | nil =>
    cases hs
    exact h
  | cons e es ih =>
    rw [List.foldlM_cons] at hs
    obtain ⟨s₁, hs₁, hs⟩ := exists_of_bind_ok hs
    exact ih (e.nest opened) (hstep h hs₁) hs

/-- A number of elements is open inside an element called `label`, which stands inside the
    elements `outer`. -/
def Inside (label : String) (depth : Nat) (opened outer : List (List Char)) : Prop :=
  ∃ name, opened.drop depth = name :: outer ∧ String.ofList name = label

namespace Inside

variable {label : String} {depth : Nat} {opened outer : List (List Char)}

theorem begin {name : List Char} (h : String.ofList name = label) (outer : List (List Char)) :
    Inside label 0 (name :: outer) outer := ⟨name, rfl, h⟩

theorem descend (h : Inside label depth opened outer) (name : List Char) :
    Inside label (depth + 1) (name :: opened) outer := h

theorem ascend (h : Inside label (depth + 1) opened outer) :
    Inside label depth opened.tail outer := by
  obtain ⟨name, hdrop, hlabel⟩ := h
  exact ⟨name, by rw [List.drop_tail, hdrop], hlabel⟩

/-- At depth zero the innermost element is the one that was called for. -/
theorem tail_eq (h : Inside label 0 opened outer) : opened.tail = outer := by
  obtain ⟨name, hdrop, -⟩ := h
  rw [List.drop_zero] at hdrop
  rw [hdrop, List.tail_cons]

theorem exists_mem (h : Inside label depth opened outer) :
    ∃ name ∈ opened, String.ofList name = label := by
  obtain ⟨name, hdrop, hlabel⟩ := h
  have hmem : name ∈ opened.drop depth := hdrop ▸ List.mem_cons_self
  exact ⟨name, List.mem_of_mem_drop hmem, hlabel⟩

theorem mem_of_mem_outer (h : Inside label depth opened outer) {name : List Char}
    (hname : name ∈ outer) : name ∈ opened := by
  obtain ⟨own, hdrop, -⟩ := h
  have hmem : name ∈ opened.drop depth := hdrop ▸ List.mem_cons_of_mem _ hname
  exact List.mem_of_mem_drop hmem

/-- The open elements are those inside, the one that was called for, and those around it. -/
theorem split (h : Inside label depth opened outer) :
    ∃ inner name, opened = inner ++ name :: outer ∧ inner.length = depth := by
  obtain ⟨name, hdrop, -⟩ := h
  refine ⟨opened.take depth, name, ?_, ?_⟩
  · rw [← hdrop, List.take_append_drop]
  · have hlength := congrArg List.length hdrop
    rw [List.length_drop, List.length_cons] at hlength
    rw [List.length_take]
    omega

end Inside

/-! ### Places -/

/-- The type is open, and no definition around it. -/
def OpenType.Nested (t : OpenType) (opened : List (List Char)) : Prop :=
  ∃ outer, Inside "type" t.depth opened outer ∧ NoDefinition outer

/-- The constructor is open inside its type. -/
def OpenConstructor.Nested (t : OpenType) (c : OpenConstructor) (opened : List (List Char)) :
    Prop :=
  ∃ outer, Inside "constructor" c.depth opened outer ∧ t.Nested outer

/-- The documentation is open inside its constructor. -/
def OpenDocumentation.Nested (t : OpenType) (c : OpenConstructor) (d : OpenDocumentation)
    (opened : List (List Char)) : Prop :=
  ∃ outer, Inside "doc" d.depth opened outer ∧ c.Nested t outer

/-- The union is open, and no definition around it. -/
def OpenUnion.Nested (u : OpenUnion) (opened : List (List Char)) : Prop :=
  ∃ outer, Inside "union" u.depth opened outer ∧ NoDefinition outer

/-- The elements that the place stands for are the open ones. -/
def Place.Nested : Place → List (List Char) → Prop
  | .outline => NoDefinition
  | .type t => t.Nested
  | .constructor t c => c.Nested t
  | .documentation t c d => d.Nested t c
  | .union u => u.Nested

namespace Place.Nested

variable {s s' : State} {e : Event} {opened : List (List Char)}

theorem step_outline (h : NoDefinition opened) (hs : OutlineMove s e s')
    (hplace : s.place = .outline) : s'.place.Nested (e.nest opened) := by
  cases hs with
  | root htag hlabel hroot =>
    rw [hplace]
    refine h.nest ?_
    intro tag htag'
    cases htag.symm.trans htag'
    simp [isDefinition_name, hlabel]
  | openType hlabel hd hsymbol => exact ⟨opened, .begin hlabel opened, h⟩
  | openUnion hlabel hd hdeclaration => exact ⟨opened, .begin hlabel opened, h⟩
  | wholeType hlabel hsymbol hclose =>
    obtain ⟨d, d', -, -, rfl⟩ := State.closeType_cases hclose
    exact h
  | wholeUnion hlabel hd hdeclaration hclose =>
    obtain ⟨d, d', -, -, rfl⟩ := State.closeUnion_cases hclose
    exact h
  | wholeAlias hlabel hd hentry =>
    rw [hplace]
    exact h
  | pass hlabel =>
    rw [hplace]
    refine h.nest ?_
    intro tag htag
    rw [isDefinition_name, not_or]
    have hother := hlabel tag htag
    simp only [List.mem_cons, List.not_mem_nil, or_false, not_or] at hother
    exact hother.2

theorem step_type {t : OpenType} (h : t.Nested opened) (hs : TypeMove s t e s')
    (hplace : s.place = .type t) : s'.place.Nested (e.nest opened) := by
  obtain ⟨outer, hinside, houter⟩ := h
  cases hs with
  | openConstructor hlabel hc => exact ⟨opened, .begin hlabel opened, outer, hinside, houter⟩
  | descend => exact ⟨outer, hinside.descend _, houter⟩
  | wholeConstructor hlabel hc => exact ⟨outer, hinside, houter⟩
  | pass hflat =>
    rw [Event.nest_of_isFlat hflat, hplace]
    exact ⟨outer, hinside, houter⟩
  | ascend hdepth => exact ⟨outer, (hdepth ▸ hinside).ascend, houter⟩
  | leave hdepth hclose =>
    obtain ⟨d, d', -, -, rfl⟩ := State.closeType_cases hclose
    have htail := Inside.tail_eq (hdepth ▸ hinside)
    show NoDefinition opened.tail
    rw [htail]
    exact houter

theorem step_constructor {t : OpenType} {c : OpenConstructor} (h : c.Nested t opened)
    (hs : ConstructorMove s t c e s') (hplace : s.place = .constructor t c) :
    s'.place.Nested (e.nest opened) := by
  obtain ⟨outer, hinside, houter⟩ := h
  cases hs with
  | openDocumentation hlabel => exact ⟨opened, .begin hlabel opened, outer, hinside, houter⟩
  | openParameter hlabel hp => exact ⟨outer, hinside.descend _, houter⟩
  | descend => exact ⟨outer, hinside.descend _, houter⟩
  | wholeParameter hlabel hp => exact ⟨outer, hinside, houter⟩
  | pass hflat =>
    rw [Event.nest_of_isFlat hflat, hplace]
    exact ⟨outer, hinside, houter⟩
  | ascend hdepth => exact ⟨outer, (hdepth ▸ hinside).ascend, houter⟩
  | leave hdepth =>
    have htail := Inside.tail_eq (hdepth ▸ hinside)
    show OpenType.Nested _ opened.tail
    rw [htail]
    exact houter

theorem step_union {u : OpenUnion} (h : u.Nested opened) (hs : UnionMove s u e s')
    (hplace : s.place = .union u) : s'.place.Nested (e.nest opened) := by
  obtain ⟨outer, hinside, houter⟩ := h
  cases hs with
  | openCase hlabel hreference => exact ⟨outer, hinside.descend _, houter⟩
  | descend hlabel => exact ⟨outer, hinside.descend _, houter⟩
  | wholeCase hlabel hreference => exact ⟨outer, hinside, houter⟩
  | pass hflat =>
    rw [Event.nest_of_isFlat hflat, hplace]
    exact ⟨outer, hinside, houter⟩
  | ascend hdepth => exact ⟨outer, (hdepth ▸ hinside).ascend, houter⟩
  | leave hdepth hclose =>
    obtain ⟨d, d', -, -, rfl⟩ := State.closeUnion_cases hclose
    have htail := Inside.tail_eq (hdepth ▸ hinside)
    show NoDefinition opened.tail
    rw [htail]
    exact houter

theorem step_documentation {t : OpenType} {c : OpenConstructor} {d : OpenDocumentation}
    (h : d.Nested t c opened) (s : State) :
    (s.stepDocumentation t c d e).place.Nested (e.nest opened) := by
  obtain ⟨outer, hinside, houter⟩ := h
  cases e with
  | start tag => exact ⟨outer, hinside.descend _, houter⟩
  | close name =>
    simp only [State.stepDocumentation]
    split
    · next hdepth =>
      have htail := Inside.tail_eq (hdepth ▸ hinside)
      show OpenConstructor.Nested _ _ opened.tail
      rw [htail]
      exact houter
    · next hdepth =>
      rw [← Nat.succ_pred_eq_of_ne_zero hdepth] at hinside
      exact ⟨outer, hinside.ascend, houter⟩
  | empty | text | cdata | reference | comment | instruction | doctype =>
    exact ⟨outer, hinside, houter⟩

/-- The reader counts every element that it opens or closes. -/
theorem step (h : s.place.Nested opened) (hs : s.step e = .ok s') :
    s'.place.Nested (e.nest opened) := by
  cases hplace : s.place with
  | outline =>
    rw [hplace] at h
    rw [State.step, hplace] at hs
    exact step_outline h (outlineMove_of_step hs) hplace
  | type t =>
    rw [hplace] at h
    rw [State.step, hplace] at hs
    exact step_type h (typeMove_of_step hs) hplace
  | constructor t c =>
    rw [hplace] at h
    rw [State.step, hplace] at hs
    exact step_constructor h (constructorMove_of_step hs) hplace
  | documentation t c d =>
    rw [hplace] at h
    rw [State.step, hplace] at hs
    cases hs
    exact step_documentation h s
  | union u =>
    rw [hplace] at h
    rw [State.step, hplace] at hs
    exact step_union h (unionMove_of_step hs) hplace

/-- Behind any events, the place of the reader and the open elements agree. -/
theorem run {es : List Event} (h : s.place.Nested opened)
    (hs : es.foldlM State.step s = .ok s') : s'.place.Nested (openBehind opened es) :=
  State.run_keeps (P := fun opened s => s.place.Nested opened) (fun h hs => h.step hs) opened h hs

/-- The same from the beginning of a text. -/
theorem run_begin {es : List Event} (hs : es.foldlM State.step {} = .ok s) :
    s.place.Nested (openBehind [] es) := by
  have hbegin : ({} : State).place.Nested [] := by simp [Place.Nested, NoDefinition]
  exact hbegin.run hs

/-! ### What the open elements say about the place -/

variable {place : Place} {t : OpenType} {c : OpenConstructor} {d : OpenDocumentation}

/-- Inside a constructor, an element `constructor` is open. -/
theorem exists_constructor (h : (Place.constructor t c).Nested opened) :
    ∃ name ∈ opened, String.ofList name = "constructor" := by
  obtain ⟨outer, hinside, -⟩ := h
  exact hinside.exists_mem

/-- Inside documentation, an element `doc` is open. -/
theorem exists_doc (h : (Place.documentation t c d).Nested opened) :
    ∃ name ∈ opened, String.ofList name = "doc" := by
  obtain ⟨outer, hinside, -⟩ := h
  exact hinside.exists_mem

/-- Where no `doc` is open, no documentation is read. -/
theorem ne_documentation (h : place.Nested opened)
    (hdoc : ∀ name ∈ opened, String.ofList name ≠ "doc") :
    ∀ t c d, place ≠ .documentation t c d := by
  rintro t c d rfl
  obtain ⟨name, hname, hlabel⟩ := h.exists_doc
  exact hdoc name hname hlabel

/-- Inside a definition, its element is open. -/
theorem exists_definition (h : place.Nested opened) (hplace : place ≠ .outline) :
    ∃ name ∈ opened, IsDefinition name := by
  cases place with
  | outline => exact absurd rfl hplace
  | type t =>
    obtain ⟨outer, hinside, -⟩ := h
    obtain ⟨name, hname, hlabel⟩ := hinside.exists_mem
    exact ⟨name, hname, .inl hlabel⟩
  | constructor t c =>
    obtain ⟨inner, hinside, outer, htype, -⟩ := h
    obtain ⟨name, hname, hlabel⟩ := htype.exists_mem
    exact ⟨name, hinside.mem_of_mem_outer hname, .inl hlabel⟩
  | documentation t c d =>
    obtain ⟨innermost, hdoc, inner, hinside, outer, htype, -⟩ := h
    obtain ⟨name, hname, hlabel⟩ := htype.exists_mem
    exact ⟨name, hdoc.mem_of_mem_outer (hinside.mem_of_mem_outer hname), .inl hlabel⟩
  | union u =>
    obtain ⟨outer, hinside, -⟩ := h
    obtain ⟨name, hname, hlabel⟩ := hinside.exists_mem
    exact ⟨name, hname, .inr hlabel⟩

/-- The reader is outside of every definition exactly where none is open. -/
theorem eq_outline_iff (h : place.Nested opened) : place = .outline ↔ NoDefinition opened := by
  constructor
  · rintro rfl
    exact h
  · intro hnone
    refine Decidable.not_not.mp ?_
    intro hplace
    obtain ⟨name, hname, hdefinition⟩ := h.exists_definition hplace
    exact hnone name hname hdefinition

end Place.Nested

end TaggedUnion.Schema
