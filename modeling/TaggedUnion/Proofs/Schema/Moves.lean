import TaggedUnion.Proofs.Schema.Store
import TaggedUnion.Proofs.Xml.Reads
import TaggedUnion.Schema.Reader

/-! # What one event can do

    A successful step of the reader is one of a few moves, and each place has its own:

    * **`OutlineMove`**: outside of every definition, an event begins a document or a definition,
      adds a whole definition or an alias, or is passed over.
    * **`TypeMove`**, **`ConstructorMove`**, **`UnionMove`**: inside a definition, an event opens
      or closes an element or adds a part; the end tag at depth zero leaves the place.
    * **`State.closeType_cases`**, **`State.closeUnion_cases`**: a definition that is complete is
      one operation on the document.

    The properties of the reader are read off the moves; no later proof opens a step.
-/

namespace TaggedUnion.Schema

open TaggedUnion.Xml (Event Tag)

/-- A success of two computations in a row is a success of both. -/
theorem exists_of_bind_ok {ε α β : Type} {x : Except ε α} {f : α → Except ε β} {b : β}
    (h : x >>= f = .ok b) : ∃ a, x = .ok a ∧ f a = .ok b := by
  cases x with
  | error e => cases h
  | ok a => exact ⟨a, rfl, h⟩

/-! ### Complete definitions -/

namespace State

variable {s s' : State}

theorem root_eq_ok {element : String} {d : Document} (h : s.root element = .ok d) :
    s.document = some d := by
  unfold root at h
  split at h
  · next hd => rw [hd, Except.ok.inj h]
  · cases h

/-- A complete type is added to the document. -/
theorem closeType_cases {symbol : TypeSymbol} (h : s.closeType symbol = .ok s') :
    ∃ d d', s.document = some d ∧ d.perform (.addType symbol) = .ok d' ∧
      s' = { s with document := some d', place := .outline } := by
  obtain ⟨d, hd, h⟩ := exists_of_bind_ok h
  obtain ⟨p, hp, h⟩ := exists_of_bind_ok h
  refine ⟨d, p.1, root_eq_ok hd, ?_, (Except.ok.inj h).symm⟩
  rw [Document.perform_addType, hp]
  rfl

/-- A complete union is added to the document. -/
theorem closeUnion_cases {declaration : UnionDeclaration}
    (h : s.closeUnion declaration = .ok s') :
    ∃ d d', s.document = some d ∧ d.perform (.addUnion declaration) = .ok d' ∧
      s' = { s with document := some d', place := .outline } := by
  obtain ⟨d, hd, h⟩ := exists_of_bind_ok h
  obtain ⟨d', hd', h⟩ := exists_of_bind_ok h
  refine ⟨d, d', root_eq_ok hd, ?_, (Except.ok.inj h).symm⟩
  rw [Document.perform_addUnion, hd']

end State

/-! ### Moves -/

/-- What an event can do outside of every definition. -/
inductive OutlineMove (s : State) : Event → State → Prop
  | root {e : Event} {tag : Tag} {d : Document} (htag : e.tag? = some tag)
      (hlabel : tag.label = "unions") (hroot : rootOf tag = .ok d) :
      OutlineMove s e { s with document := some d }
  | openType {tag : Tag} {d : Document} {symbol : TypeSymbol} (hlabel : tag.label = "type")
      (hd : s.document = some d) (hsymbol : typeOf tag = .ok symbol) :
      OutlineMove s (.start tag) { s with place := .type { symbol := symbol } }
  | openUnion {tag : Tag} {d : Document} {declaration : UnionDeclaration}
      (hlabel : tag.label = "union") (hd : s.document = some d)
      (hdeclaration : unionOf tag d.scope = .ok declaration) :
      OutlineMove s (.start tag) { s with place := .union { declaration := declaration } }
  | wholeType {tag : Tag} {symbol : TypeSymbol} {s' : State} (hlabel : tag.label = "type")
      (hsymbol : typeOf tag = .ok symbol) (hclose : s.closeType symbol = .ok s') :
      OutlineMove s (.empty tag) s'
  | wholeUnion {tag : Tag} {d : Document} {declaration : UnionDeclaration} {s' : State}
      (hlabel : tag.label = "union") (hd : s.document = some d)
      (hdeclaration : unionOf tag d.scope = .ok declaration)
      (hclose : s.closeUnion declaration = .ok s') : OutlineMove s (.empty tag) s'
  | wholeAlias {tag : Tag} {d : Document} {entry : String × String} (hlabel : tag.label = "alias")
      (hd : s.document = some d) (hentry : aliasOf tag = .ok entry) :
      OutlineMove s (.empty tag) { s with aliases := s.aliases ++ [entry] }
  | pass {e : Event} (h : ∀ tag, e.tag? = some tag → tag.label ∉ ["unions", "type", "union"]) :
      OutlineMove s e s

/-- What an event can do inside a type. -/
inductive TypeMove (s : State) (t : OpenType) : Event → State → Prop
  | openConstructor {tag : Tag} {c : Constructor} (hlabel : tag.label = "constructor")
      (hc : constructorOf tag = .ok c) :
      TypeMove s t (.start tag) { s with place := .constructor t { constructor := c } }
  | descend {tag : Tag} :
      TypeMove s t (.start tag) { s with place := .type { t with depth := t.depth + 1 } }
  | wholeConstructor {tag : Tag} {c : Constructor} (hlabel : tag.label = "constructor")
      (hc : constructorOf tag = .ok c) :
      TypeMove s t (.empty tag) { s with place := .type (t.push c) }
  | pass {e : Event} (hflat : e.isFlat) : TypeMove s t e s
  | ascend {name : List Char} {depth : Nat} (hdepth : t.depth = depth + 1) :
      TypeMove s t (.close name) { s with place := .type { t with depth := depth } }
  | leave {name : List Char} {s' : State} (hdepth : t.depth = 0)
      (hclose : s.closeType t.symbol = .ok s') : TypeMove s t (.close name) s'

/-- What an event can do inside a constructor. -/
inductive ConstructorMove (s : State) (t : OpenType) (c : OpenConstructor) : Event → State → Prop
  | openDocumentation {tag : Tag} (hlabel : tag.label = "doc") :
      ConstructorMove s t c (.start tag) { s with place := .documentation t c {} }
  | openParameter {tag : Tag} {p : Parameter} (hlabel : tag.label = "param")
      (hp : parameterOf tag = .ok p) :
      ConstructorMove s t c (.start tag)
        { s with place := .constructor t { c.push p with depth := c.depth + 1 } }
  | descend {tag : Tag} :
      ConstructorMove s t c (.start tag)
        { s with place := .constructor t { c with depth := c.depth + 1 } }
  | wholeParameter {tag : Tag} {p : Parameter} (hlabel : tag.label = "param")
      (hp : parameterOf tag = .ok p) :
      ConstructorMove s t c (.empty tag) { s with place := .constructor t (c.push p) }
  | pass {e : Event} (hflat : e.isFlat) : ConstructorMove s t c e s
  | ascend {name : List Char} {depth : Nat} (hdepth : c.depth = depth + 1) :
      ConstructorMove s t c (.close name)
        { s with place := .constructor t { c with depth := depth } }
  | leave {name : List Char} (hdepth : c.depth = 0) :
      ConstructorMove s t c (.close name) { s with place := .type (t.push c.constructor) }

/-- What an event can do inside a union. -/
inductive UnionMove (s : State) (u : OpenUnion) : Event → State → Prop
  | openCase {tag : Tag} {reference : String} (hlabel : tag.label = "case")
      (hreference : caseOf tag = .ok reference) :
      UnionMove s u (.start tag)
        { s with place := .union { u.push reference with depth := u.depth + 1 } }
  | descend {tag : Tag} (hlabel : tag.label ≠ "case") :
      UnionMove s u (.start tag) { s with place := .union { u with depth := u.depth + 1 } }
  | wholeCase {tag : Tag} {reference : String} (hlabel : tag.label = "case")
      (hreference : caseOf tag = .ok reference) :
      UnionMove s u (.empty tag) { s with place := .union (u.push reference) }
  | pass {e : Event} (hflat : e.isFlat) (h : ∀ tag, e = .empty tag → tag.label ≠ "case") :
      UnionMove s u e s
  | ascend {name : List Char} {depth : Nat} (hdepth : u.depth = depth + 1) :
      UnionMove s u (.close name) { s with place := .union { u with depth := depth } }
  | leave {name : List Char} {s' : State} (hdepth : u.depth = 0)
      (hclose : s.closeUnion u.declaration = .ok s') : UnionMove s u (.close name) s'

/-! ### Every step is a move -/

section moves

variable {s s' : State} {e : Event}

theorem outlineMove_of_step (h : s.stepOutline e = .ok s') : OutlineMove s e s' := by
  cases e with
  | start tag =>
    simp only [State.stepOutline] at h
    split at h
    · next hlabel =>
      obtain ⟨d, hroot, h⟩ := exists_of_bind_ok h
      cases h
      exact .root rfl hlabel hroot
    · next hlabel =>
      obtain ⟨d, hd, h⟩ := exists_of_bind_ok h
      obtain ⟨symbol, hsymbol, h⟩ := exists_of_bind_ok h
      cases h
      exact .openType hlabel (State.root_eq_ok hd) hsymbol
    · next hlabel =>
      obtain ⟨d, hd, h⟩ := exists_of_bind_ok h
      obtain ⟨declaration, hdeclaration, h⟩ := exists_of_bind_ok h
      cases h
      exact .openUnion hlabel (State.root_eq_ok hd) hdeclaration
    · next hunions htype hunion =>
      cases h
      refine .pass ?_
      rintro tag ⟨⟩
      simpa [Tag.label] using ⟨hunions, htype, hunion⟩
  | empty tag =>
    simp only [State.stepOutline] at h
    split at h
    · next hlabel =>
      obtain ⟨d, hroot, h⟩ := exists_of_bind_ok h
      cases h
      exact .root rfl hlabel hroot
    · next hlabel =>
      obtain ⟨d, hd, h⟩ := exists_of_bind_ok h
      obtain ⟨symbol, hsymbol, h⟩ := exists_of_bind_ok h
      exact .wholeType hlabel hsymbol h
    · next hlabel =>
      obtain ⟨d, hd, h⟩ := exists_of_bind_ok h
      obtain ⟨entry, hentry, h⟩ := exists_of_bind_ok h
      cases h
      exact .wholeAlias hlabel (State.root_eq_ok hd) hentry
    · next hlabel =>
      obtain ⟨d, hd, h⟩ := exists_of_bind_ok h
      obtain ⟨declaration, hdeclaration, h⟩ := exists_of_bind_ok h
      exact .wholeUnion hlabel (State.root_eq_ok hd) hdeclaration h
    · next hunions htype halias hunion =>
      cases h
      refine .pass ?_
      rintro tag ⟨⟩
      simpa [Tag.label] using ⟨hunions, htype, hunion⟩
  | close | text | cdata | reference | comment | instruction | doctype =>
    cases h
    exact .pass (by simp [Event.tag?])

theorem typeMove_of_step {t : OpenType} (h : s.stepType t e = .ok s') : TypeMove s t e s' := by
  cases e with
  | start tag =>
    simp only [State.stepType] at h
    split at h
    · next hlabel =>
      obtain ⟨c, hc, h⟩ := exists_of_bind_ok h
      cases h
      exact .openConstructor hlabel hc
    · cases h
      exact .descend
  | empty tag =>
    simp only [State.stepType] at h
    split at h
    · next hlabel =>
      obtain ⟨c, hc, h⟩ := exists_of_bind_ok h
      cases h
      exact .wholeConstructor hlabel hc
    · cases h
      exact .pass rfl
  | close name =>
    simp only [State.stepType] at h
    split at h
    · next hdepth => exact .leave hdepth h
    · next hdepth =>
      cases h
      exact .ascend (Nat.succ_pred_eq_of_ne_zero hdepth).symm
  | text | cdata | reference | comment | instruction | doctype =>
    cases h
    exact .pass rfl

theorem constructorMove_of_step {t : OpenType} {c : OpenConstructor}
    (h : s.stepConstructor t c e = .ok s') : ConstructorMove s t c e s' := by
  cases e with
  | start tag =>
    simp only [State.stepConstructor] at h
    split at h
    · next hlabel =>
      cases h
      exact .openDocumentation hlabel
    · next hlabel =>
      obtain ⟨p, hp, h⟩ := exists_of_bind_ok h
      cases h
      exact .openParameter hlabel hp
    · cases h
      exact .descend
  | empty tag =>
    simp only [State.stepConstructor] at h
    split at h
    · next hlabel =>
      obtain ⟨p, hp, h⟩ := exists_of_bind_ok h
      cases h
      exact .wholeParameter hlabel hp
    · cases h
      exact .pass rfl
  | close name =>
    simp only [State.stepConstructor] at h
    split at h
    · next hdepth =>
      cases h
      exact .leave hdepth
    · next hdepth =>
      cases h
      exact .ascend (Nat.succ_pred_eq_of_ne_zero hdepth).symm
  | text | cdata | reference | comment | instruction | doctype =>
    cases h
    exact .pass rfl

theorem unionMove_of_step {u : OpenUnion} (h : s.stepUnion u e = .ok s') : UnionMove s u e s' := by
  cases e with
  | start tag =>
    simp only [State.stepUnion] at h
    split at h
    · next hlabel =>
      obtain ⟨reference, hreference, h⟩ := exists_of_bind_ok h
      cases h
      exact .openCase hlabel hreference
    · next hlabel =>
      cases h
      exact .descend hlabel
  | empty tag =>
    simp only [State.stepUnion] at h
    split at h
    · next hlabel =>
      obtain ⟨reference, hreference, h⟩ := exists_of_bind_ok h
      cases h
      exact .wholeCase hlabel hreference
    · next hlabel =>
      cases h
      refine .pass rfl ?_
      rintro tag ⟨⟩
      exact hlabel
  | close name =>
    simp only [State.stepUnion] at h
    split at h
    · next hdepth => exact .leave hdepth h
    · next hdepth =>
      cases h
      exact .ascend (Nat.succ_pred_eq_of_ne_zero hdepth).symm
  | text | cdata | reference | comment | instruction | doctype =>
    cases h
    exact .pass rfl (by simp)

end moves

end TaggedUnion.Schema
