import Mathlib
import TaggedUnion.Proofs.Schema.Deepening
import TaggedUnion.Proofs.Schema.Pieces
import TaggedUnion.Proofs.Xml.Filler

/-! # Markup that means nothing

    The reader knows eight elements and passes over everything else, counting the elements that
    it does not know:

    * **`State.step_idle`**: outside of documentation, an event that opens no element and is no
      element that is known leaves the state as it is.
    * **`State.run_wrapped`**: an unknown element around a run of content changes nothing. Inside a
      definition it is counted (`State.run_wrapped_above`), outside it is passed over tag by tag.
    * **`Padded`** and **`Document.read_padded`**: a text means the same with other running text
      between its markup, with comments, instructions, sections and unknown elements between it,
      and with unknown elements around it.
-/

namespace TaggedUnion.Schema

open TaggedUnion.Xml (Event Tag Reads Arrives Behind Spells StartsMarkup Filler IsRunningText IsRun
  IsTagText IsElement startTag endTag openBehind startsMarkup_startTag startsMarkup_endTag
  startsMarkup_bracket)

/-! ### Events that change nothing -/

/-- An event that opens and closes no element and is no element that is known. -/
structure IsIdle (e : Event) : Prop where
  flat : e.isFlat
  unknown : ∀ tag, e.tag? = some tag → tag.label ∉ knownLabels

/-- Running text is idle. -/
theorem isIdle_of_text {es : List Event} (h : ∀ e ∈ es, ∃ content, e = .text content) :
    ∀ e ∈ es, IsIdle e := by
  intro e he
  obtain ⟨content, rfl⟩ := h e he
  exact ⟨rfl, by simp [Event.tag?]⟩

namespace State

variable {s : State} {e : Event}

/-- Outside of documentation, an event that is idle leaves the state as it is. -/
theorem step_idle (he : IsIdle e) (hplace : ∀ t c d, s.place ≠ .documentation t c d) :
    s.step e = .ok s := by
  obtain ⟨hflat, hunknown⟩ := he
  unfold step
  cases e with
  | start | close => cases hflat
  | empty tag =>
    have hlabel := hunknown tag rfl
    simp only [knownLabels, Tag.label, List.mem_cons, List.not_mem_nil, or_false, not_or] at hlabel
    obtain ⟨hunions, htype, halias, hunion, hconstructor, hparam, hcase, -⟩ := hlabel
    split
    · simp only [stepOutline]
    · rw [stepType, if_neg hconstructor]
    · rw [stepConstructor, if_neg hparam]
    · next t c d hd => exact absurd hd (hplace t c d)
    · rw [stepUnion, if_neg hcase]
  | text | cdata | reference | comment | instruction | doctype =>
    split
    · rfl
    · rfl
    · rfl
    · next t c d hd => exact absurd hd (hplace t c d)
    · rfl

theorem run_idle {es : List Event} (hes : ∀ e ∈ es, IsIdle e)
    (hplace : ∀ t c d, s.place ≠ .documentation t c d) : es.foldlM step s = .ok s := by
  induction es with
  | nil => rfl
  | cons e es ih =>
    rw [List.foldlM_cons, step_idle (hes e List.mem_cons_self) hplace]
    exact ih fun e' he' => hes e' (List.mem_cons_of_mem e he')

end State

/-! ### Elements around a run of content -/

namespace State

variable {s : State} {es : List Event} {opened : List (List Char)} {tag : Tag}

/-- Outside of every definition, an unknown element is passed over tag by tag. -/
theorem step_start_outline (hplace : s.place = .outline) (hlabel : tag.label ∉ knownLabels) :
    s.step (.start tag) = .ok s := by
  simp only [knownLabels, Tag.label, List.mem_cons, List.not_mem_nil, or_false, not_or] at hlabel
  obtain ⟨hunions, htype, -, hunion, -⟩ := hlabel
  rw [step, hplace]
  simp only [stepOutline]

/-- An unknown element around a run of content changes nothing. -/
theorem run_wrapped (hs : s.place.Nested opened)
    (hdoc : ∀ name ∈ opened, String.ofList name ≠ "doc") (hlabel : tag.label ∉ knownLabels)
    (hes : es.foldlM Event.enter [] = .ok []) (hopened : openBehind opened es = opened)
    (name : List Char) :
    (.start tag :: (es ++ [.close name])).foldlM step s = es.foldlM step s := by
  cases hplace : s.place with
  | type t =>
    have habove : s.place.Above .type 0 := hplace ▸ Nat.zero_le t.depth
    exact run_wrapped_above habove hlabel hes name
  | constructor t c =>
    have habove : s.place.Above .constructor 0 := hplace ▸ Nat.zero_le c.depth
    exact run_wrapped_above habove hlabel hes name
  | union u =>
    have habove : s.place.Above .union 0 := hplace ▸ Nat.zero_le u.depth
    exact run_wrapped_above habove hlabel hes name
  | documentation t c d => exact absurd hplace (hs.ne_documentation hdoc t c d)
  | outline =>
    rw [List.foldlM_cons, step_start_outline hplace hlabel]
    show (es ++ [Event.close name]).foldlM step s = _
    rw [List.foldlM_append]
    cases hrun : es.foldlM step s with
    | error err => rfl
    | ok s' =>
      -- Behind the run no definition is open, as before it, and the end tag is passed over.
      have hs' := hs.run hrun
      rw [hopened] at hs'
      have hplace' : s'.place = .outline := hs'.eq_outline_iff.mpr (hs.eq_outline_iff.mp hplace)
      show (s'.step (.close name) >>= pure) = _
      rw [step, hplace']
      rfl

/-- What is idle around a run of content changes nothing where no documentation can be read. -/
theorem run_between (hs : s.place.Nested opened)
    (hdoc : ∀ place : Place, place.Nested opened → ∀ t c d, place ≠ .documentation t c d)
    (hopened : openBehind opened es = opened) {ts ts' : List Event} (hts : ∀ e ∈ ts, IsIdle e)
    (hts' : ∀ e ∈ ts', IsIdle e) :
    (ts ++ (es ++ ts')).foldlM step s = es.foldlM step s := by
  rw [List.foldlM_append, run_idle hts (hdoc s.place hs)]
  show (es ++ ts').foldlM step s = _
  rw [List.foldlM_append]
  cases hrun : es.foldlM step s with
  | error err => rfl
  | ok s' =>
    have hs' := hs.run hrun
    rw [hopened] at hs'
    exact run_idle hts' (hdoc s'.place hs')

end State

/-! ### Texts with more of what means nothing -/

/-- The second text is the first one with markup that means nothing. What is put in stands right
    behind a piece of markup or in the running text that follows one, and no `doc` is open
    there. -/
inductive Padded : List Char → List Char → Prop
  | refl (text : List Char) : Padded text text
  | trans {text text' text'' : List Char} (h : Padded text text') (h' : Padded text' text'') :
      Padded text text''
  /-- Other running text up to the next piece of markup. -/
  | text {before gap gap' after : List Char} {es : List Event} {opened : List (List Char)}
      (hbefore : Behind before es opened) (hdoc : ∀ name ∈ opened, String.ofList name ≠ "doc")
      (hgap : IsRunningText gap) (hgap' : IsRunningText gap') (hafter : StartsMarkup after) :
      Padded (before ++ (gap ++ after)) (before ++ (gap' ++ after))
  /-- A comment, an instruction, a CDATA section or an unknown empty element. -/
  | insert {before gap gap' after : List Char} {es : List Event} {opened : List (List Char)}
      {m : Filler} (hbefore : Behind before es opened)
      (hdoc : ∀ name ∈ opened, String.ofList name ≠ "doc") (hgap : IsRunningText gap)
      (hgap' : IsRunningText gap') (hafter : StartsMarkup after) (hm : m.IsWritable)
      (hlabel : ∀ tag, m.event.tag? = some tag → tag.label ∉ knownLabels) :
      Padded (before ++ (gap ++ (gap' ++ after)))
        (before ++ (gap ++ (m.spell ++ (gap' ++ after))))
  /-- An unknown element around a run of content. -/
  | wrap {before gap₁ gap₂ core gap₃ gap₄ after content blanks : List Char} {es ps : List Event}
      {opened : List (List Char)} (hbefore : Behind before es opened)
      (hdoc : ∀ name ∈ opened, String.ofList name ≠ "doc") (hcore : IsRun core ps)
      (hgap₁ : IsRunningText gap₁) (hgap₂ : IsRunningText gap₂) (hgap₃ : IsRunningText gap₃)
      (hgap₄ : IsRunningText gap₄) (hafter : StartsMarkup after)
      (helement : IsElement content blanks) (hlabel : Tag.label ⟨content⟩ ∉ knownLabels) :
      Padded (before ++ ((gap₁ ++ gap₂) ++ (core ++ ((gap₃ ++ gap₄) ++ after))))
        (before ++ (gap₁ ++ (startTag content ++ (gap₂ ++ (core ++ (gap₃ ++
          (endTag (Tag.name ⟨content⟩ ++ blanks) ++ (gap₄ ++ after))))))))

namespace Document

variable {before after : List Char} {es : List Event} {opened : List (List Char)}

/-- What is idle right behind a piece of markup means nothing. -/
theorem read_idle {cs : List Char} {ps : List Event} (hbefore : Behind before es opened)
    (hdoc : ∀ name ∈ opened, String.ofList name ≠ "doc") (hreads : Reads opened cs ps opened after)
    (hps : ∀ e ∈ ps, IsIdle e) :
    read (String.ofList (before ++ cs)) = read (String.ofList (before ++ after)) := by
  refine read_congr (hbefore after) (hbefore cs) (.here opened after) hreads ?_
  intro s hs
  exact State.run_idle hps (hs.ne_documentation hdoc)

/-- Running text right behind a piece of markup means nothing. -/
theorem read_text {gap : List Char} (hbefore : Behind before es opened)
    (hdoc : ∀ name ∈ opened, String.ofList name ≠ "doc") (hgap : IsRunningText gap)
    (hafter : StartsMarkup after) :
    read (String.ofList (before ++ (gap ++ after))) = read (String.ofList (before ++ after)) := by
  obtain ⟨ts, hts, hreads⟩ := hgap.reads hafter opened
  exact read_idle hbefore hdoc hreads (isIdle_of_text hts)

/-- A filler in running text means nothing. -/
theorem read_insert {gap gap' : List Char} {m : Filler} (hbefore : Behind before es opened)
    (hdoc : ∀ name ∈ opened, String.ofList name ≠ "doc") (hgap : IsRunningText gap)
    (hgap' : IsRunningText gap') (hafter : StartsMarkup after) (hm : m.IsWritable)
    (hlabel : ∀ tag, m.event.tag? = some tag → tag.label ∉ knownLabels) :
    read (String.ofList (before ++ (gap ++ (m.spell ++ (gap' ++ after))))) =
      read (String.ofList (before ++ (gap ++ (gap' ++ after)))) := by
  obtain ⟨ts, hts, hreads⟩ := hgap.reads (m.startsMarkup_spell (gap' ++ after)) opened
  obtain ⟨ts', hts', hreads'⟩ := hgap'.reads hafter opened
  have hidle : ∀ e ∈ ts ++ ([m.event] ++ ts'), IsIdle e := by
    intro e he
    rcases List.mem_append.mp he with he | he
    · exact isIdle_of_text hts e he
    · rcases List.mem_append.mp he with he | he
      · rw [List.mem_singleton.mp he]
        exact ⟨m.isFlat_event, hlabel⟩
      · exact isIdle_of_text hts' e he
  have hwhole := read_text hbefore hdoc (hgap.append hgap') hafter
  rw [List.append_assoc] at hwhole
  rw [hwhole]
  exact read_idle hbefore hdoc (hreads.trans ((Filler.spells hm opened _).trans hreads')) hidle

/-- An unknown element around a run of content means nothing. -/
theorem read_wrap {gap₁ gap₂ core gap₃ gap₄ content blanks : List Char} {ps : List Event}
    (hbefore : Behind before es opened) (hdoc : ∀ name ∈ opened, String.ofList name ≠ "doc")
    (hcore : IsRun core ps) (hgap₁ : IsRunningText gap₁) (hgap₂ : IsRunningText gap₂)
    (hgap₃ : IsRunningText gap₃) (hgap₄ : IsRunningText gap₄) (hafter : StartsMarkup after)
    (helement : IsElement content blanks) (hlabel : Tag.label ⟨content⟩ ∉ knownLabels) :
    read (String.ofList (before ++ (gap₁ ++ (startTag content ++ (gap₂ ++ (core ++ (gap₃ ++
        (endTag (Tag.name ⟨content⟩ ++ blanks) ++ (gap₄ ++ after))))))))) =
      read (String.ofList (before ++ ((gap₁ ++ gap₂) ++ (core ++ ((gap₃ ++ gap₄) ++ after))))) := by
  have hend := startsMarkup_endTag (Tag.name ⟨content⟩ ++ blanks) (gap₄ ++ after)
  obtain ⟨ts, ts', hts, hplain⟩ :=
    hcore.reads_between (hgap₁.append hgap₂) (hgap₃.append hgap₄) hafter opened
  obtain ⟨qs, qs', hqs, hinner⟩ := hcore.reads_between hgap₂ hgap₃ hend []
  have helement := helement.reads_around hinner opened
  obtain ⟨ts₁, hts₁, hbegin⟩ := hgap₁.reads (startsMarkup_startTag content _) opened
  obtain ⟨ts₄, hts₄, hrest⟩ := hgap₄.reads hafter opened
  refine read_congr (hbefore _) (hbefore _) hplain (hbegin.trans (helement.trans hrest)) ?_
  intro s hs
  have hopened := (hinner.append_opened opened).inner_eq.symm
  rw [List.nil_append] at hopened
  have hplace (place : Place) (h : place.Nested opened) := h.ne_documentation hdoc
  rw [State.run_between hs hplace helement.inner_eq.symm (isIdle_of_text hts₁)
      (isIdle_of_text hts₄),
    State.run_wrapped hs hdoc hlabel hinner.foldlM_enter hopened,
    State.run_between hs hplace (hcore.openBehind_eq opened) (isIdle_of_text hqs.1)
      (isIdle_of_text hqs.2),
    State.run_between hs hplace (hcore.openBehind_eq opened) (isIdle_of_text hts.1)
      (isIdle_of_text hts.2)]

/-- Unknown markup changes nothing: texts that differ in it only mean the same, or are refused
    with the same error. -/
theorem read_padded {text text' : List Char} (h : Padded text text') :
    read (String.ofList text') = read (String.ofList text) := by
  induction h with
  | refl => rfl
  | trans _ _ ih ih' => exact ih'.trans ih
  | text hbefore hdoc hgap hgap' hafter =>
    rw [read_text hbefore hdoc hgap hafter, read_text hbefore hdoc hgap' hafter]
  | insert hbefore hdoc hgap hgap' hafter hm hlabel =>
    exact read_insert hbefore hdoc hgap hgap' hafter hm hlabel
  | wrap hbefore hdoc hcore hgap₁ hgap₂ hgap₃ hgap₄ hafter helement hlabel =>
    exact read_wrap hbefore hdoc hcore hgap₁ hgap₂ hgap₃ hgap₄ hafter helement hlabel

/-- The same for a comment before a type and an unknown element around both. -/
theorem read_padded_group :
    (read "<unions>\n<type name=\"A\"/></unions>").isOk ∧
      read "<unions>\n<group ><!-- a --><type name=\"A\"/></group\n></unions>" =
        read "<unions>\n<type name=\"A\"/></unions>" := by
  let tag : Tag := ⟨"type name=\"A\"".toList⟩
  have harrives : Arrives "<unions>".toList [.start ⟨"unions".toList⟩] ["unions".toList]
      "</unions>".toList := .event rfl rfl (.here _ _)
  have hbefore := harrives.behind rfl (by simp)
  have hdoc : ∀ name ∈ ["unions".toList], String.ofList name ≠ "doc" := by decide
  have hnewline : IsRunningText "\n".toList := by decide
  have hnothing : IsRunningText [] := by decide
  -- The comment is put in first, and then the element around the comment and the type.
  have htype : StartsMarkup ("<type name=\"A\"/>".toList ++ "</unions>".toList) :=
    startsMarkup_bracket _
  have hbody : ¬ ['-', '-', '>'] <:+: " a ".toList := by decide
  have hcomment := Padded.insert (m := .comment " a ".toList) hbefore hdoc hnewline hnothing htype
    hbody (by simp [Filler.event, Event.tag?])
  have hreads : Reads [] ("<!-- a --><type name=\"A\"/>".toList ++ "</unions>".toList)
      [.comment, .empty tag] [] "</unions>".toList := .event rfl rfl (.event rfl rfl (.here _ _))
  have hrun : IsRun "<!-- a --><type name=\"A\"/>".toList [.comment, .empty tag] :=
    .of_reads hreads (startsMarkup_bracket _) rfl rfl (by simp)
  have htext : IsTagText "group ".toList :=
    ⟨.of_plain (by simp [Xml.isQuote]), 'g', "roup ".toList, rfl, by decide⟩
  have helement : IsElement "group ".toList "\n".toList :=
    ⟨htext, by decide, by decide, by decide, by simp [Xml.isSpace]⟩
  have hgroup := Padded.wrap hbefore hdoc hrun hnewline hnothing hnothing hnothing
    (startsMarkup_bracket _ : StartsMarkup "</unions>".toList) helement (by decide)
  have hread := read_padded (hcomment.trans hgroup)
  exact ⟨by cbv, hread⟩

end Document

end TaggedUnion.Schema
