import Mathlib
import TaggedUnion.Proofs.Schema.Pieces
import TaggedUnion.Proofs.Xml.WellFormed

/-! # Attributes that are not well formed

    A tag is read as if the attributes that are not well formed were not there:

    * **`foldAttributes_eq`**: every reader of a tag goes through its well-formed attributes.
    * **`State.step_agrees`**: so tags that differ in other attributes lead to the same state or
      to the same error, but for documentation, which keeps tags as they stand.
    * **`Document.read_agrees`**: a text means the same with any of them. So it is refused for an
      attribute that is not well formed exactly where it is refused without the attribute, and
      not everywhere (**`Document.not_forall_read_malformed`**).
-/

namespace TaggedUnion.Schema

open TaggedUnion.Xml (Event Tag Transcript Arrives openBehind emptyTag startsMarkup_of_next)

/-! ### Tags -/

/-- To go through the attributes of a tag is to go through the well-formed ones. -/
theorem foldAttributes_eq {σ : Type} (tag : Tag) (s : σ)
    (step : σ → String → String → Except Error σ) :
    foldAttributes tag s step =
      tag.wellFormed.foldlM
        (fun s a => attributeValue a >>= fun value => step s (String.ofList a.key) value) s := by
  rw [foldAttributes, Tag.wellFormed]
  induction tag.attributes generalizing s with
  | nil => rfl
  | cons a as ih =>
    cases a with
    | none =>
      rw [List.foldlM_cons, List.filterMap_cons_none rfl]
      exact ih s
    | some a =>
      have hsome : (some a :: as).filterMap id = a :: as.filterMap id := rfl
      rw [List.foldlM_cons, hsome, List.foldlM_cons]
      exact bind_congr fun s => ih s

section tags

variable {tag tag' : Tag}

theorem foldAttributes_agrees (h : tag.Agrees tag') {σ : Type} (s : σ)
    (step : σ → String → String → Except Error σ) :
    foldAttributes tag' s step = foldAttributes tag s step := by
  rw [foldAttributes_eq, foldAttributes_eq, h.wellFormed]

theorem rootOf_agrees (h : tag.Agrees tag') : rootOf tag' = rootOf tag := by
  rw [rootOf, rootOf, foldAttributes_agrees h]

theorem typeOf_agrees (h : tag.Agrees tag') : typeOf tag' = typeOf tag := by
  rw [typeOf, typeOf, foldAttributes_agrees h]

theorem constructorOf_agrees (h : tag.Agrees tag') : constructorOf tag' = constructorOf tag := by
  rw [constructorOf, constructorOf, foldAttributes_agrees h]

theorem parameterOf_agrees (h : tag.Agrees tag') : parameterOf tag' = parameterOf tag := by
  rw [parameterOf, parameterOf, attributePair, attributePair, foldAttributes_agrees h]

theorem aliasOf_agrees (h : tag.Agrees tag') : aliasOf tag' = aliasOf tag := by
  rw [aliasOf, aliasOf, attributePair, attributePair, foldAttributes_agrees h]

theorem unionOf_agrees (h : tag.Agrees tag') (scope : String) :
    unionOf tag' scope = unionOf tag scope := by
  rw [unionOf, unionOf, foldAttributes_agrees h]

theorem caseOf_agrees (h : tag.Agrees tag') : caseOf tag' = caseOf tag := by
  have hsame : tag'.attributes.filterMap id = tag.attributes.filterMap id := h.wellFormed
  rw [caseOf, caseOf, hsame]

end tags

/-! ### Steps -/

/-- Outside of documentation, tags that agree lead to the same state or error. -/
theorem State.step_agrees {s : State} {e e' : Event} (h : e.Agrees e')
    (hplace : ∀ t c d, s.place ≠ .documentation t c d) : s.step e' = s.step e := by
  unfold step
  split
  · cases h with
    | start h | empty h =>
      simp only [stepOutline, h.name, rootOf_agrees h, typeOf_agrees h, aliasOf_agrees h,
        unionOf_agrees h]
  · cases h with
    | start h | empty h => simp only [stepType, h.name, constructorOf_agrees h]
  · cases h with
    | start h | empty h => simp only [stepConstructor, h.name, parameterOf_agrees h]
  · next t c d hd => exact absurd hd (hplace t c d)
  · cases h with
    | start h | empty h => simp only [stepUnion, h.name, caseOf_agrees h]

/-! ### Whole texts -/

namespace Document

variable {before piece piece' after : List Char} {es : List Event} {opened : List (List Char)}
  {e e' : Event}

/-- Outside of documentation, tags that agree on the well-formed attributes may stand for each
    other: a text with either of them means the same, or is refused with the same error. -/
theorem read_agrees (harrives : Arrives before es opened (piece ++ after))
    (hpiece : Event.next (piece ++ after) = some (.ok (e, after)))
    (hpiece' : Event.next (piece' ++ after) = some (.ok (e', after))) (hagrees : e.Agrees e')
    (hdoc : ∀ name ∈ opened, String.ofList name ≠ "doc") :
    read (String.ofList (before ++ (piece' ++ after))) =
      read (String.ofList (before ++ (piece ++ after))) := by
  obtain ⟨inner, henter, henter'⟩ := hagrees.exists_enter opened
  have hstart := startsMarkup_of_next hpiece fun content => (hagrees.ne_text content).1
  have hstart' := startsMarkup_of_next hpiece' fun content => (hagrees.ne_text content).2
  refine read_replace harrives hstart hstart' (.event hpiece henter (.here inner after))
    (.event hpiece' henter' (.here inner after)) ?_
  intro s hs
  rw [List.foldlM_cons, List.foldlM_cons, State.step_agrees hagrees (hs.ne_documentation hdoc)]

/-- The same for a tag that is written without an attribute whose value stands in no quotes. -/
theorem read_agrees_unquoted :
    read "<unions><type name=\"A\"/></unions>" =
      read "<unions><type name=\"A\" kind=record/></unions>" := by
  let tag : Tag := ⟨"type name=\"A\" kind=record".toList⟩
  have harrives : Arrives "<unions>".toList [.start ⟨"unions".toList⟩] ["unions".toList]
      (emptyTag tag.content ++ "</unions>".toList) := .event rfl rfl (.here _ _)
  have hkeys : tag.wellFormed = [⟨"name".toList, "A".toList⟩] := by cbv
  have hrepaired : (Event.empty tag).repaired.spellTag = "<type name=\"A\"/>".toList := by cbv
  have hnext := Event.next_repaired (e := .empty tag) rfl (by decide)
    (by simp [hkeys, Xml.isQuote]) "</unions>".toList
  rw [hrepaired] at hnext
  have hread := read_agrees harrives rfl hnext (Event.agrees_repaired rfl) (by decide)
  exact hread

/-- Not every text with an attribute that is not well formed is refused. -/
theorem not_forall_read_malformed : ¬ ∀ {text : String} {before after : List Event} {e : Event}
    {tag : Tag}, (Transcript.ofText text).events = before ++ e :: after → e.tag? = some tag →
    tag.label = "type" → NoDefinition (openBehind [] before) → none ∈ tag.attributes →
    ∃ err, read text = .error err := by
  intro hall
  let text := "<unions><type name=\"A\" kind=record/></unions>"
  let tag : Tag := ⟨"type name=\"A\" kind=record".toList⟩
  have htext : Transcript.ofText text =
      ⟨[.start ⟨"unions".toList⟩, .empty tag, .close "unions".toList], none⟩ := by cbv
  have hevents : (Transcript.ofText text).events =
      [.start ⟨"unions".toList⟩] ++ .empty tag :: [.close "unions".toList] := by
    rw [htext]
    rfl
  have hattributes : tag.attributes = [some ⟨"name".toList, "A".toList⟩, none] := by cbv
  have hread : (read text).map (fun d => d.types.map fun t => (t.name, t.kind)) =
      .ok [("Any", .top), ("A", .struct)] := by
    rw [read, htext]
    cbv
  obtain ⟨err, herr⟩ := hall hevents rfl (by decide) (by decide) (by rw [hattributes]; decide)
  rw [herr] at hread
  cases hread

end Document

end TaggedUnion.Schema
