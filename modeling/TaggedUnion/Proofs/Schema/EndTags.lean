import TaggedUnion.Proofs.Schema.DescentAgrees
import TaggedUnion.Proofs.Schema.Descriptions

/-! # Every element is read up to its own end tag

    The functions that read the content of elements keep no names. They count, and this module
    says that counting is enough:

    * **`Body.KeepsToElement`**: a body leaves the element that it was called in, and between two
      turns of its loop the counter is the number of elements that it has opened and that are
      still open. **`Body.CountsAll`**: where no element is handed to another reader, these are
      all that are open.
    * **`DocumentationState.foldlM_checkedStep`**: in a fragment of documentation no end tag comes
      at depth zero, so the counter is never taken below it.
    * **`KeepToElements`**, **`keepToElements`**: the bodies of a document, the documentation and
      the steps of the reader keep to the elements that they read.
-/

namespace TaggedUnion.Schema

open TaggedUnion.Xml (Event Reader Reads readerBehind withoutMark)

/-- What a body does with the element that it is called in. -/
structure Body.KeepsToElement {σ : Type} (b : Body σ) : Prop where
  /-- It returns behind the end tag of the element or at the end of the text. -/
  leaves (built : σ) : LeavesElement (b.read built)
  /-- Whatever turns its loop has made, the counter tells the elements that are open. -/
  counts {name : List Char} {outer : List (List Char)} {built : σ} {c : Content σ} {r r' : Reader}
    (hopened : r.opened = name :: outer) (h : b.loop.Reaches { built := built } r c r') :
    b.Within name outer r.rest c.depth r'

theorem Body.keepsToElement {σ : Type} (b : Body σ) : b.KeepsToElement where
  leaves := b.read_leaves
  counts := within_of_reaches

/-- Whatever turns the loop of a body has made, its counter is the number of elements that are
    open in the content, also where the text has ended. -/
def Body.CountsAll {σ : Type} (b : Body σ) : Prop :=
  ∀ ⦃name : List Char⦄ ⦃outer : List (List Char)⦄ ⦃built : σ⦄ ⦃c : Content σ⦄ ⦃r r' : Reader⦄,
    r.opened = name :: outer → b.loop.Reaches { built := built } r c r' →
      ∃ inner, r'.opened = inner ++ name :: outer ∧ inner.length = c.depth

/-- A body that hands no element to another reader counts them all. -/
theorem Body.countsAll {σ : Type} {b : Body σ} (hwhole : ∀ tag, b.nested? tag = none) :
    b.CountsAll := by
  intro name outer built c r r' hopened h
  exact (within_of_reaches hopened h).counts.exists_inner_of_whole hwhole

/-! ### Fragments of documentation -/

namespace DocumentationState

variable {s : DocumentationState} {opened inner : List (List Char)} {cs rest : List Char}
  {es : List Event}

/-- The state behind an event, where nothing is taken from a counter that is zero. -/
def checkedStep (s : DocumentationState) (e : Event) : Option DocumentationState :=
  match e with
  | .close _ => if s.depth = 0 then none else s.step e
  | _ => s.step e

/-- An end tag that closes an element does not come at depth zero. -/
theorem checkedStep_of_enter {e : Event} {next : List (List Char)}
    (henter : e.enter opened = .ok next) (hdepth : s.depth = opened.length) :
    s.checkedStep e = s.step e := by
  cases e with
  | close name =>
    have hopened := Xml.Event.eq_cons_of_enter_close henter
    have hne : s.depth ≠ 0 := by
      rw [hdepth, hopened]
      exact Nat.succ_ne_zero _
    exact if_neg hne
  | start | empty | text | cdata | reference | comment | instruction | doctype => rfl

/-- The check makes no difference. -/
theorem foldlM_checkedStep (h : Reads opened cs es inner rest) (hdepth : s.depth = opened.length) :
    es.foldlM checkedStep s = es.foldlM step s := by
  induction h generalizing s with
  | here => rfl
  | event _ henter _ ih =>
    rw [List.foldlM_cons, List.foldlM_cons, checkedStep_of_enter henter hdepth]
    exact Option.bind_congr fun s' hs' => ih (depth_of_step hs' henter hdepth)

end DocumentationState

/-! ### All readers -/

/-- The readers of elements keep to the elements that they read. -/
structure KeepToElements : Prop where
  type : typeBody.KeepsToElement
  constructor : constructorBody.KeepsToElement
  union : unionBody.KeepsToElement
  documentation : documentationBody.KeepsToElement
  /-- The content of a union or of documentation is read by one loop, which counts all of it. -/
  countsAll : unionBody.CountsAll ∧ documentationBody.CountsAll
  /-- So it is where trimming is turned off for it. -/
  untrimmed : LeavesElement readDocumentation
  /-- Trimming is on again behind documentation, also where reading it fails. -/
  trims (r : Reader) : (readerBehind (readDocumentation r)).trims = true
  /-- No other reader turns it off. -/
  keepTrims : (∀ t, KeepsTrims true (typeBody.read t)) ∧
    (∀ c, KeepsTrims true (constructorBody.read c)) ∧ ∀ u, KeepsTrims true (unionBody.read u)
  /-- By these readers every text is read as it is by steps. -/
  descend (text : String) : Document.read text = Document.descend text
  /-- Wherever the steps have come to in a text, the elements that the place stands for are open,
      as many inside each of them as its counter says. -/
  steps {text : String} {es : List Event} {opened : List (List Char)} {rest : List Char} {s : State}
    (h : Reads [] (withoutMark text.toList) es opened rest)
    (hs : es.foldlM State.step {} = .ok s) : s.place.Nested opened
  /-- Wherever a fragment of documentation has been read to, its counter is the number of open
      elements. -/
  fragments {text : String} {es : List Event} {opened : List (List Char)} {rest : List Char}
    {s : DocumentationState} (h : Reads [] (withoutMark text.toList) es opened rest)
    (hs : es.foldlM DocumentationState.step {} = some s) : s.depth = opened.length
  /-- So nothing is ever taken from it where it is zero. -/
  checked {text : String} {es : List Event} {opened : List (List Char)} {rest : List Char}
    (h : Reads [] (withoutMark text.toList) es opened rest) :
    es.foldlM DocumentationState.checkedStep {} = es.foldlM DocumentationState.step {}

theorem keepToElements : KeepToElements where
  type := typeBody.keepsToElement
  constructor := constructorBody.keepsToElement
  union := unionBody.keepsToElement
  documentation := documentationBody.keepsToElement
  countsAll := ⟨Body.countsAll fun _ => rfl, Body.countsAll fun _ => rfl⟩
  untrimmed := readDocumentation_leaves
  trims r := KeepsTrims.trims_untrimmed _ r
  keepTrims := ⟨keepsTrims_typeBody, keepsTrims_constructorBody, keepsTrims_unionBody⟩
  descend := Document.read_eq_descend
  steps h hs := by
    rw [h.inner_eq]
    exact Place.Nested.run_begin hs
  fragments h hs := DocumentationState.depth_of_reads h hs rfl
  checked h := DocumentationState.foldlM_checkedStep h rfl

end TaggedUnion.Schema
