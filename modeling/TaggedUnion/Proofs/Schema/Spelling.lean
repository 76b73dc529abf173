import Mathlib
import TaggedUnion.Proofs.Schema.Pieces
import TaggedUnion.Proofs.Xml.Tags

/-! # The two spellings of an element without content

    An element without content is written as one empty-element tag or as a start tag with its
    end tag:

    * **`State.stepTwoTags`**: the state behind an element in two tags.
    * **`State.stepTwoTags_eq`**: outside of documentation it is the state behind the one tag,
      but for an `alias` outside of every definition and a `doc` in a constructor.
    * **`Document.read_twoTags`**: so a text with any other element means the same in both
      spellings.
    * **`Document.read_aliasTwoTags`**, **`Document.read_docOneTag`**: an `alias` in two tags and
      a `doc` in one tag mean no more than a comment.
-/

namespace TaggedUnion.Schema

open TaggedUnion.Xml (Event Tag Reads Arrives IsClosable emptyTag twoTags bareComment
  startsMarkup_emptyTag startsMarkup_twoTags)

/-! ### Steps -/

/-- The state behind a start tag and its end tag. -/
def State.stepTwoTags (s : State) (tag : Tag) : Except Error State := do
  let s ← s.step (.start tag)
  s.step (.close tag.name)

namespace State

variable {s : State} {tag : Tag}

theorem foldlM_twoTags (s : State) (tag : Tag) :
    [.start tag, .close tag.name].foldlM State.step s = s.stepTwoTags tag := by
  rw [List.foldlM_cons]
  refine bind_congr fun s => ?_
  exact bind_pure _

theorem foldlM_oneTag (s : State) (tag : Tag) :
    [.empty tag].foldlM State.step s = s.step (.empty tag) := bind_pure _

/-- Outside of every definition the alias is the one element that has to be a single tag. -/
theorem stepTwoTags_outline (hplace : s.place = .outline) (hlabel : tag.label ≠ "alias") :
    s.stepTwoTags tag = s.step (.empty tag) := by
  obtain ⟨document, aliases, place⟩ := s
  cases hplace
  simp only [stepTwoTags, step, stepOutline]
  split
  · next hunions =>
    simp only [hunions]
    cases rootOf tag <;> rfl
  · next htype =>
    simp only [htype]
    cases document with
    | none => rfl
    | some d => cases typeOf tag <;> rfl
  · next hunion =>
    simp only [hunion]
    cases document with
    | none => rfl
    | some d =>
      show ((unionOf tag d.scope).bind _).bind _ = (unionOf tag d.scope).bind _
      cases unionOf tag d.scope <;> rfl
  · next hunions htype hunion =>
    split
    · next h => exact absurd h hunions
    · next h => exact absurd h htype
    · next h => exact absurd h hlabel
    · next h => exact absurd h hunion
    · rfl

/-- An alias in two tags is passed over. -/
theorem stepTwoTags_alias (hplace : s.place = .outline) (hlabel : tag.label = "alias") :
    s.stepTwoTags tag = .ok s := by
  obtain ⟨document, aliases, place⟩ := s
  cases hplace
  replace hlabel : String.ofList tag.name = "alias" := hlabel
  simp only [stepTwoTags, step, stepOutline, hlabel]
  rfl

theorem stepTwoTags_type {t : OpenType} (hplace : s.place = .type t) :
    s.stepTwoTags tag = s.step (.empty tag) := by
  obtain ⟨document, aliases, place⟩ := s
  cases hplace
  simp only [stepTwoTags, step, stepType]
  split
  · cases constructorOf tag <;> rfl
  · rfl

/-- In a constructor a `doc` in one tag is no documentation. -/
theorem stepTwoTags_constructor {t : OpenType} {c : OpenConstructor}
    (hplace : s.place = .constructor t c) (hlabel : tag.label ≠ "doc") :
    s.stepTwoTags tag = s.step (.empty tag) := by
  obtain ⟨document, aliases, place⟩ := s
  cases hplace
  simp only [stepTwoTags, step, stepConstructor]
  split
  · next hdoc => exact absurd hdoc hlabel
  · next hparam =>
    rw [if_pos hparam]
    cases parameterOf tag <;> rfl
  · next hparam =>
    rw [if_neg hparam]
    rfl

/-- A `doc` in one tag is passed over wherever no documentation is being read. -/
theorem step_docOneTag {opened : List (List Char)} (hopened : s.place.Nested opened)
    (hdoc : ∀ name ∈ opened, String.ofList name ≠ "doc") (hlabel : tag.label = "doc") :
    s.step (.empty tag) = .ok s := by
  replace hlabel : String.ofList tag.name = "doc" := hlabel
  cases hplace : s.place with
  | outline =>
    simp only [step, hplace, stepOutline, hlabel]
    rfl
  | type t => simp [step, hplace, stepType, hlabel]
  | constructor t c => simp [step, hplace, stepConstructor, hlabel]
  | documentation t c d =>
    rw [hplace] at hopened
    obtain ⟨name, hname, hlabel⟩ := hopened.exists_doc
    exact absurd hlabel (hdoc name hname)
  | union u => simp [step, hplace, stepUnion, hlabel]

theorem stepTwoTags_union {u : OpenUnion} (hplace : s.place = .union u) :
    s.stepTwoTags tag = s.step (.empty tag) := by
  obtain ⟨document, aliases, place⟩ := s
  cases hplace
  simp only [stepTwoTags, step, stepUnion]
  split
  · cases caseOf tag <;> rfl
  · rfl

/-- Where the open elements are known, they say which spellings lead to the same state. -/
theorem stepTwoTags_eq {opened : List (List Char)} (hopened : s.place.Nested opened)
    (hdoc : ∀ name ∈ opened, String.ofList name ≠ "doc")
    (halias : tag.label = "alias" → ¬ NoDefinition opened)
    (hdocTag : tag.label = "doc" → ∀ name ∈ opened, String.ofList name ≠ "constructor") :
    s.stepTwoTags tag = s.step (.empty tag) := by
  cases hplace : s.place with
  | outline =>
    have hnone : NoDefinition opened := hopened.eq_outline_iff.mp hplace
    exact stepTwoTags_outline hplace fun hlabel => halias hlabel hnone
  | type t => exact stepTwoTags_type hplace
  | constructor t c =>
    rw [hplace] at hopened
    obtain ⟨name, hname, hconstructor⟩ := hopened.exists_constructor
    exact stepTwoTags_constructor hplace fun hlabel => hdocTag hlabel name hname hconstructor
  | documentation t c d =>
    rw [hplace] at hopened
    obtain ⟨name, hname, hlabel⟩ := hopened.exists_doc
    exact absurd hlabel (hdoc name hname)
  | union u => exact stepTwoTags_union hplace

end State

/-! ### Whole texts -/

namespace Document

variable {before content after : List Char} {es : List Event} {opened : List (List Char)}

/-- A text means the same in both spellings of an element without content that stands in no
    documentation, but for an `alias` outside of every definition and a `doc` in a
    constructor. -/
theorem read_twoTags (harrives : Arrives before es opened (emptyTag content ++ after))
    (htag : Event.next (emptyTag content ++ after) = some (.ok (.empty ⟨content⟩, after)))
    (hlast : content.getLast? ≠ some '/') (hname : IsClosable (Tag.name ⟨content⟩))
    (hdoc : ∀ name ∈ opened, String.ofList name ≠ "doc")
    (halias : Tag.label ⟨content⟩ = "alias" → ¬ NoDefinition opened)
    (hdocTag : Tag.label ⟨content⟩ = "doc" →
      ∀ name ∈ opened, String.ofList name ≠ "constructor") :
    read (String.ofList (before ++ (twoTags content ++ after))) =
      read (String.ofList (before ++ (emptyTag content ++ after))) := by
  have hone : Reads opened (emptyTag content ++ after) [.empty ⟨content⟩] opened after :=
    .event htag rfl (.here opened after)
  refine read_replace harrives (startsMarkup_emptyTag content after)
    (startsMarkup_twoTags content after) hone (.twoTags htag hlast hname) ?_
  intro s hs
  rw [State.foldlM_twoTags, State.foldlM_oneTag]
  exact State.stepTwoTags_eq hs hdoc halias hdocTag

/-- The same for a case of a union. -/
theorem read_twoTags_case :
    read "<unions><union name=\"U\"><case type=\"A\"></case></union></unions>" =
      read "<unions><union name=\"U\"><case type=\"A\"/></union></unions>" := by
  have hunion : Arrives "<unions><union name=\"U\">".toList
      [.start ⟨"unions".toList⟩, .start ⟨"union name=\"U\"".toList⟩]
      ["union".toList, "unions".toList]
      (emptyTag "case type=\"A\"".toList ++ "</union></unions>".toList) :=
    .event rfl rfl (.event rfl rfl (.here _ _))
  exact read_twoTags hunion rfl (by decide) (by decide) (by decide) (by decide) (by decide)

/-- Not every element has two spellings: an alias in two tags is lost. -/
theorem not_forall_read_twoTags : ¬ ∀ {before content after : List Char} {es : List Event}
    {opened : List (List Char)}, Arrives before es opened (emptyTag content ++ after) →
    Event.next (emptyTag content ++ after) = some (.ok (.empty ⟨content⟩, after)) →
    content.getLast? ≠ some '/' → IsClosable (Tag.name ⟨content⟩) →
    (∀ name ∈ opened, String.ofList name ≠ "doc") →
    read (String.ofList (before ++ (twoTags content ++ after))) =
      read (String.ofList (before ++ (emptyTag content ++ after))) := by
  intro hall
  have htype : Arrives "<unions><type name=\"A\"/>".toList
      [.start ⟨"unions".toList⟩, .empty ⟨"type name=\"A\"".toList⟩] ["unions".toList]
      (emptyTag "alias name=\"B\" target=\"A\"".toList ++ "</unions>".toList) :=
    .event rfl rfl (.event rfl rfl (.here _ _))
  have hsame :
      read "<unions><type name=\"A\"/><alias name=\"B\" target=\"A\"></alias></unions>" =
        read "<unions><type name=\"A\"/><alias name=\"B\" target=\"A\"/></unions>" :=
    hall htype rfl (by decide) (by decide) (by decide)
  have hone : (read "<unions><type name=\"A\"/><alias name=\"B\" target=\"A\"/></unions>").map
      Document.names = .ok [("Any", 0), ("A", 1), ("B", 1)] := by cbv
  have htwo : (read
      "<unions><type name=\"A\"/><alias name=\"B\" target=\"A\"></alias></unions>").map
      Document.names = .ok [("Any", 0), ("A", 1)] := by cbv
  rw [hsame, hone] at htwo
  cases htwo

/-- Outside of every definition an alias in two tags means no more than a comment. -/
theorem read_aliasTwoTags (harrives : Arrives before es opened (emptyTag content ++ after))
    (htag : Event.next (emptyTag content ++ after) = some (.ok (.empty ⟨content⟩, after)))
    (hlast : content.getLast? ≠ some '/') (hlabel : Tag.label ⟨content⟩ = "alias")
    (hnone : NoDefinition opened) :
    read (String.ofList (before ++ (twoTags content ++ after))) =
      read (String.ofList (before ++ (bareComment ++ after))) := by
  have hname : IsClosable (Tag.name ⟨content⟩) := by
    have hchars : Tag.name ⟨content⟩ = "alias".toList := by
      rw [← hlabel, Tag.label, String.toList_ofList]
    rw [hchars]
    decide
  have hstart := startsMarkup_twoTags content after
  refine read_passedOver (harrives.replace_rest (startsMarkup_emptyTag content after) hstart)
    hstart (.twoTags htag hlast hname) ?_
  intro s hs
  rw [State.foldlM_twoTags, State.stepTwoTags_alias (hs.eq_outline_iff.mpr hnone) hlabel]

/-- Outside of documentation a `doc` in one tag means no more than a comment. -/
theorem read_docOneTag (harrives : Arrives before es opened (emptyTag content ++ after))
    (htag : Event.next (emptyTag content ++ after) = some (.ok (.empty ⟨content⟩, after)))
    (hdoc : ∀ name ∈ opened, String.ofList name ≠ "doc") (hlabel : Tag.label ⟨content⟩ = "doc") :
    read (String.ofList (before ++ (emptyTag content ++ after))) =
      read (String.ofList (before ++ (bareComment ++ after))) := by
  have hone : Reads opened (emptyTag content ++ after) [.empty ⟨content⟩] opened after :=
    .event htag rfl (.here opened after)
  refine read_passedOver harrives (startsMarkup_emptyTag content after) hone ?_
  intro s hs
  rw [State.foldlM_oneTag]
  exact State.step_docOneTag hs hdoc hlabel

end Document

end TaggedUnion.Schema
