import Mathlib
import TaggedUnion.Proofs.Schema.Pieces
import TaggedUnion.Proofs.Xml.Forest

/-! # Documentation with and without a section around it

    The documentation of a constructor can hold markup as it is, or within a CDATA section. In the
    first spelling it is taken apart into events and put together again; in the second it is one
    event:

    * **`Forest.IsInline`**: the fragments that can be put together again: running text,
      references and elements.
    * **`State.foldlM_inDocumentation`**: behind the events of such a fragment the documentation
      holds what the fragment was written as, character by character, however deep `doc` elements
      are nested in it.
    * **`Document.read_documented`**: both spellings lead to the same constructor, and what
      follows is read from the same state.
-/

namespace TaggedUnion.Xml

/-- A leaf that documentation keeps as it is written. -/
def Leaf.IsInline : Leaf Tag → Prop
  | reference name => IsEntityText name
  | empty tag => IsTagText tag.content
  | cdata _ | comment _ => False

/-- A fragment of running text, references and elements. -/
abbrev Forest.IsInline (f : Forest Tag) : Prop := f.Each Leaf.IsInline Tag.IsWritable

theorem Leaf.IsInline.isWritable {l : Leaf Tag} (h : l.IsInline) : l.IsWritable := by
  cases l with
  | reference name => exact h
  | empty tag => exact h
  | cdata | comment => cases h

theorem Forest.IsInline.isWritable {f : Forest Tag} (h : f.IsInline) : f.IsWritable := by
  induction f with
  | nil => trivial
  | text content next ih => exact ⟨h.1, ih h.2⟩
  | leaf l next ih => exact ⟨h.1.isWritable, ih h.2⟩
  | element tag children next ihchildren ihnext =>
    exact ⟨h.1, ihchildren h.2.1, ihnext h.2.2⟩

/-- A CDATA section. -/
def cdataSection (content : List Char) : List Char := (Filler.cdata content).spell

end TaggedUnion.Xml

namespace TaggedUnion.Schema

open TaggedUnion.Xml (Event Tag Leaf Forest Reads Arrives IsClosable IsRunningText startTag endTag
  cdataSection textEvents startsMarkup_startTag startsMarkup_endTag)

/-! ### Inside documentation -/

namespace State

variable {s : State} {t : OpenType} {c : OpenConstructor}

/-- The state inside documentation of which `raw` has been read, and in which `depth` elements
    are open. -/
def inDocumentation (s : State) (t : OpenType) (c : OpenConstructor) (raw : List Char)
    (depth : Nat) : State :=
  { s with place := .documentation t c ⟨String.ofList raw, depth⟩ }

/-- The state behind documentation. -/
def documented (s : State) (t : OpenType) (c : OpenConstructor) (raw : List Char) : State :=
  { s with place := .constructor t (c.document (String.ofList raw)) }

theorem foldlM_cons_of_ok {s s' : State} {e : Event} (h : s.step e = .ok s') (es : List Event) :
    (e :: es).foldlM State.step s = es.foldlM State.step s' := by
  rw [List.foldlM_cons, h]
  rfl

theorem foldlM_append_of_ok {s s' : State} {ds : List Event}
    (h : ds.foldlM State.step s = .ok s') (es : List Event) :
    (ds ++ es).foldlM State.step s = es.foldlM State.step s' := by
  rw [List.foldlM_append, h]
  rfl

variable {raw : List Char} {depth : Nat}

theorem step_start_inDocumentation (tag : Tag) :
    (s.inDocumentation t c raw depth).step (.start tag) =
      .ok (s.inDocumentation t c (raw ++ startTag tag.content) (depth + 1)) := by
  simp only [step, inDocumentation, stepDocumentation, ← String.ofList_append]
  rfl

/-- An end tag further in is kept. -/
theorem step_close_inDocumentation (name : List Char) :
    (s.inDocumentation t c raw (depth + 1)).step (.close name) =
      .ok (s.inDocumentation t c (raw ++ endTag name) depth) := by
  simp only [step, inDocumentation, stepDocumentation, ← String.ofList_append, Nat.add_one_ne_zero,
    if_false, Nat.add_sub_cancel]
  rfl

theorem step_text_inDocumentation (content : List Char) :
    (s.inDocumentation t c raw depth).step (.text content) =
      .ok (s.inDocumentation t c (raw ++ content) depth) := by
  simp only [step, inDocumentation, stepDocumentation, ← String.ofList_append]
  rfl

theorem step_cdata_inDocumentation (content : List Char) :
    (s.inDocumentation t c raw depth).step (.cdata content) =
      .ok (s.inDocumentation t c (raw ++ content) depth) := by
  simp only [step, inDocumentation, stepDocumentation, ← String.ofList_append]
  rfl

theorem step_leaf_inDocumentation {l : Leaf Tag} (h : l.IsInline) :
    (s.inDocumentation t c raw depth).step l.event =
      .ok (s.inDocumentation t c (raw ++ l.spell) depth) := by
  cases l with
  | reference name =>
    simp only [step, inDocumentation, stepDocumentation, Leaf.event, ← String.ofList_append]
    rfl
  | empty tag =>
    simp only [step, inDocumentation, stepDocumentation, Leaf.event, ← String.ofList_append]
    rfl
  | cdata | comment => cases h

theorem foldlM_textEvents_inDocumentation (gap : List Char) :
    (textEvents gap).foldlM State.step (s.inDocumentation t c raw depth) =
      .ok (s.inDocumentation t c (raw ++ gap) depth) := by
  by_cases hgap : gap = []
  · rw [textEvents, if_pos hgap, hgap, List.append_nil]
    rfl
  · rw [textEvents, if_neg hgap, List.foldlM_cons, step_text_inDocumentation]
    rfl

/-- Behind the events of a fragment the documentation holds what the fragment was written as. -/
theorem foldlM_inDocumentation {f : Forest Tag} (h : f.IsInline) (gap raw : List Char)
    (depth : Nat) :
    (f.events gap).foldlM State.step (s.inDocumentation t c raw depth) =
      .ok (s.inDocumentation t c (raw ++ (gap ++ f.spell)) depth) := by
  -- An element in the fragment is one more to close before the documentation ends.
  induction f generalizing gap raw depth with
  | nil =>
    rw [Forest.spell, List.append_nil]
    exact foldlM_textEvents_inDocumentation gap
  | text content next ih =>
    have hnext := ih h.2 (gap ++ content) raw depth
    rwa [List.append_assoc] at hnext
  | leaf l next ih =>
    have hnext := ih h.2 [] (raw ++ gap ++ l.spell) depth
    rw [Forest.events, foldlM_append_of_ok (foldlM_textEvents_inDocumentation gap),
      foldlM_cons_of_ok (step_leaf_inDocumentation h.1), hnext]
    simp [Forest.spell]
  | element tag children next ihchildren ihnext =>
    have hchildren := ihchildren h.2.1 [] (raw ++ gap ++ startTag tag.content) (depth + 1)
    have hnext := ihnext h.2.2 []
      (raw ++ gap ++ startTag tag.content ++ children.spell ++ endTag tag.name) depth
    rw [Forest.events, foldlM_append_of_ok (foldlM_textEvents_inDocumentation gap),
      foldlM_cons_of_ok (step_start_inDocumentation tag), foldlM_append_of_ok hchildren,
      List.nil_append, foldlM_cons_of_ok (step_close_inDocumentation tag.name), hnext]
    simp [Forest.spell]

/-! ### The whole element -/

theorem step_doc (hplace : s.place = .constructor t c) :
    s.step (.start ⟨"doc".toList⟩) = .ok (s.inDocumentation t c [] 0) := by
  obtain ⟨document, aliases, place⟩ := s
  cases hplace
  rfl

/-- Events between the tags of a `doc` element are read inside documentation. -/
theorem foldlM_doc (hplace : s.place = .constructor t c) {es : List Event}
    (hes : es.foldlM State.step (s.inDocumentation t c [] 0) = .ok (s.inDocumentation t c raw 0)) :
    (Event.start ⟨"doc".toList⟩ :: (es ++ [.close "doc".toList])).foldlM State.step s =
      .ok (s.documented t c raw) := by
  rw [foldlM_cons_of_ok (step_doc hplace), foldlM_append_of_ok hes]
  rfl

end State

/-- A `doc` element around a content. -/
def docElement (content : List Char) : List Char :=
  startTag "doc".toList ++ (content ++ endTag "doc".toList)

theorem startsMarkup_docElement (content rest : List Char) :
    Xml.StartsMarkup (docElement content ++ rest) := Xml.startsMarkup_bracket _

/-- What is read between the tags of a `doc` element is read as the content of the element. -/
theorem reads_docElement {content after : List Char} {es : List Event}
    {opened : List (List Char)}
    (h : Reads ("doc".toList :: opened) (content ++ (endTag "doc".toList ++ after)) es
      ("doc".toList :: opened) (endTag "doc".toList ++ after)) :
    Reads opened (docElement content ++ after)
      (.start ⟨"doc".toList⟩ :: (es ++ [.close "doc".toList])) opened after := by
  have hclosable : IsClosable "doc".toList := by decide
  have hclose : Reads ("doc".toList :: opened) (endTag "doc".toList ++ after)
      [.close "doc".toList] opened after :=
    .event (Event.next_endTag hclosable after) (by rw [Event.enter, if_pos rfl]) (.here _ _)
  have hsplit : docElement content ++ after =
      startTag "doc".toList ++ (content ++ (endTag "doc".toList ++ after)) := by
    simp [docElement]
  rw [hsplit]
  exact .event rfl rfl (h.trans hclose)

namespace Document

variable {before after : List Char} {es : List Event} {opened : List (List Char)} {s : State}
  {t : OpenType} {c : OpenConstructor}

/-- A document with a `doc` element in a constructor is read on from the state behind it. -/
theorem read_docElement {content raw : List Char} {ds : List Event}
    (harrives : Arrives before es opened (docElement content ++ after))
    (hs : es.foldlM State.step {} = .ok s) (hplace : s.place = .constructor t c)
    (hreads : Reads ("doc".toList :: opened) (content ++ (endTag "doc".toList ++ after)) ds
      ("doc".toList :: opened) (endTag "doc".toList ++ after))
    (hds : ds.foldlM State.step (s.inDocumentation t c [] 0) = .ok (s.inDocumentation t c raw 0)) :
    read (String.ofList (before ++ (docElement content ++ after))) =
      (s.documented t c raw).readOn (.within opened after) := by
  rw [read_of_reads harrives (reads_docElement hreads), hs]
  show ((Event.start ⟨"doc".toList⟩ :: (ds ++ [.close "doc".toList])).foldlM State.step s >>=
    _) = _
  rw [State.foldlM_doc hplace hds]
  rfl

/-- Markup in the documentation of a constructor is kept as it is written, be it written as it is
    or within a section, and what follows is read from the same state. -/
theorem read_documented {f : Forest Tag} (hf : f.IsInline)
    (hend : ¬ [']', ']', '>'] <:+: f.spell)
    (harrives : Arrives before es opened (docElement f.spell ++ after))
    (hs : es.foldlM State.step {} = .ok s) (hplace : s.place = .constructor t c) :
    let documented : Constructor :=
      { c.constructor with documentation := some (Text.trim (String.ofList f.spell)) }
    let behind : State := { s with place := .constructor t { c with constructor := documented } }
    read (String.ofList (before ++ (docElement f.spell ++ after))) =
        behind.readOn (.within opened after) ∧
      read (String.ofList (before ++ (docElement (cdataSection f.spell) ++ after))) =
        behind.readOn (.within opened after) := by
  intro documented behind
  have hempty : IsRunningText [] := by simp [IsRunningText]
  constructor
  · have hreads := Forest.reads hf.isWritable hempty (startsMarkup_endTag "doc".toList after)
      ("doc".toList :: opened)
    exact read_docElement harrives hs hplace hreads (State.foldlM_inDocumentation hf [] [] 0)
  · have harrives' := harrives.replace_rest (startsMarkup_docElement f.spell after)
      (startsMarkup_docElement (cdataSection f.spell) after)
    have hnext := Xml.Filler.next_spell (m := .cdata f.spell) hend (endTag "doc".toList ++ after)
    have hreads : Reads ("doc".toList :: opened)
        (cdataSection f.spell ++ (endTag "doc".toList ++ after)) [.cdata f.spell]
        ("doc".toList :: opened) (endTag "doc".toList ++ after) :=
      .event hnext rfl (.here _ _)
    refine read_docElement harrives' hs hplace hreads ?_
    rw [State.foldlM_cons_of_ok (State.step_cdata_inDocumentation f.spell)]
    rfl

/-- A fragment with a bracket in a value and a `doc` element of its own. -/
def markedFragment : Forest Tag :=
  .text " a ".toList <| .leaf (.reference "amp".toList) <|
  .element (Xml.ElementTag.tag ⟨"b".toList, [("x".toList, [.plain '>'])]⟩)
    (.element ⟨"doc".toList⟩ (.text "in".toList .nil) .nil) <|
  .leaf (.empty ⟨"br".toList⟩) (.text " ".toList .nil)

theorem read_documented_marked :
    let before := "<unions><type name=\"A\"><constructor>".toList
    let after := "</constructor></type></unions>".toList
    String.ofList markedFragment.spell = " a &amp;<b x=\">\"><doc>in</doc></b><br/> " ∧
      read (String.ofList (before ++ (docElement markedFragment.spell ++ after))) =
        read (String.ofList
          (before ++ (docElement (cdataSection markedFragment.spell) ++ after))) := by
  intro before after
  have hbold : Tag.IsWritable (Xml.ElementTag.tag ⟨"b".toList, [("x".toList, [.plain '>'])]⟩) :=
    Xml.ElementTag.isWritable (by decide)
  have hdoc : Tag.IsWritable ⟨"doc".toList⟩ :=
    Xml.ElementTag.isWritable (t := ⟨"doc".toList, []⟩) (by decide)
  have hbr : Tag.IsWritable ⟨"br".toList⟩ :=
    Xml.ElementTag.isWritable (t := ⟨"br".toList, []⟩) (by decide)
  have hamp : Xml.IsEntityText "amp".toList := by decide
  have hinline : markedFragment.IsInline :=
    ⟨by decide, hamp, ⟨hbold, ⟨hdoc, ⟨by decide, trivial⟩, trivial⟩,
      hbr.text, by decide, trivial⟩⟩
  have hend : ']' ∉ markedFragment.spell := by decide
  have harrives : Arrives before
      [.start ⟨"unions".toList⟩, .start ⟨"type name=\"A\"".toList⟩,
        .start ⟨"constructor".toList⟩]
      ["constructor".toList, "type".toList, "unions".toList]
      (docElement markedFragment.spell ++ after) :=
    .event rfl rfl (.event rfl rfl (.event rfl rfl (.here _ _)))
  let s : State :=
    { document := some (.empty "")
      place := .constructor { symbol := { name := "A" } } { constructor := {} } }
  have hs : [.start ⟨"unions".toList⟩, .start ⟨"type name=\"A\"".toList⟩,
      .start ⟨"constructor".toList⟩].foldlM State.step {} = .ok s := by cbv
  obtain ⟨hinside, hsection⟩ := read_documented hinline
    (fun hin => hend (hin.subset List.mem_cons_self)) harrives hs rfl
  exact ⟨by cbv, hinside.trans hsection.symm⟩

end Document

end TaggedUnion.Schema
