import TaggedUnion.Proofs.Xml.Tags

/-! # Pieces of markup that can stand anywhere

    Where a piece of markup ends, what is read does not depend on what follows. So a text can be
    taken apart there and put together again:

    * **`Spells`**: a text that is read as some events whatever follows it. It is read so inside
      any further elements, too (**`Spells.append_opened`**).
    * **`Behind`**: a place in a whole text right behind such a piece, and **`Arrives.behind`**:
      every place behind an event other than running text is one.
    * **`Filler`**: comments, instructions, CDATA sections and empty elements with what is asked
      of them, and **`Filler.spells`**: each of them is read as one event.
    * **`IsRun`**: a text that begins and ends with markup and closes the elements that it opens,
      and **`IsElement`**: what is asked of an element around one.
-/

namespace TaggedUnion.Xml

/-! ### Reading inside further elements -/

variable {opened inner : List (List Char)} {cs rest : List Char} {es : List Event}

/-- Elements further out do not matter where every end tag names an element further in. -/
theorem Event.enter_append {e : Event} (h : e.enter opened = .ok inner)
    (outer : List (List Char)) : e.enter (opened ++ outer) = .ok (inner ++ outer) := by
  cases e with
  | start tag =>
    cases h
    rfl
  | close name =>
    cases opened with
    | nil => cases h
    | cons o opened =>
      rw [Event.enter] at h
      rw [List.cons_append, Event.enter]
      by_cases hname : o = name
      · rw [if_pos hname] at h ⊢
        rw [Except.ok.inj h]
      · rw [if_neg hname] at h
        cases h
  | empty | text | cdata | reference | comment | instruction | doctype =>
    cases h
    rfl

namespace Reads

theorem append_opened (h : Reads opened cs es inner rest) (outer : List (List Char)) :
    Reads (opened ++ outer) cs es (inner ++ outer) rest := by
  induction h with
  | here opened cs => exact .here _ cs
  | event hnext henter _ ih => exact .event hnext (Event.enter_append henter outer) ih

/-- Every end tag that is read names the innermost open element. -/
theorem foldlM_enter (h : Reads opened cs es inner rest) :
    es.foldlM Event.enter opened = .ok inner := by
  induction h with
  | here => rfl
  | event _ henter _ ih =>
    rw [List.foldlM_cons, henter]
    exact ih

/-- Inside other elements the same events are read, if their end tags name the right ones
    there. -/
theorem change_opened (h : Reads opened cs es inner rest) {opened' inner' : List (List Char)}
    (hes : es.foldlM Event.enter opened' = .ok inner') : Reads opened' cs es inner' rest := by
  induction h generalizing opened' with
  | here opened cs =>
    cases hes
    exact .here _ cs
  | @event _ _ _ _ _ _ e _ hnext _ _ ih =>
    rw [List.foldlM_cons] at hes
    cases henter : e.enter opened' with
    | error f =>
      rw [henter] at hes
      cases hes
    | ok next =>
      rw [henter] at hes
      exact .event hnext henter (ih hes)

/-- Where the last event is no running text, any other rest may follow. -/
theorem replace_rest_behind {e : Event} (h : Reads opened cs es inner rest)
    (hlast : es.getLast? = some e) (he : ∀ content, e ≠ .text content) :
    ∃ read, read ≠ [] ∧ cs = read ++ rest ∧
      ∀ rest', Reads opened (read ++ rest') es inner rest' := by
  induction h with
  | here => cases hlast
  | @event opened next inner cs cs' rest e' es hnext henter htail ih =>
    obtain ⟨read, hread, rfl, hstart, hother⟩ := Event.next_local hnext
    cases htail with
    | here =>
      obtain rfl := Option.some.inj hlast
      -- The only event is markup, so that nothing is asked of what follows.
      have hmarkup := startsMarkup_of_next hnext he
      exact ⟨read, hread, rfl, fun rest' => .event (hother rest' (.inl hmarkup)) henter
        (.here next rest')⟩
    | @event _ _ _ _ _ _ e₁ es₁ hnext₁ henter₁ htail₁ =>
      obtain ⟨read', hread', rfl, htail'⟩ := ih (by rwa [List.getLast?_cons_cons] at hlast)
      refine ⟨read ++ read', by simp [hread], (List.append_assoc ..).symm, ?_⟩
      intro rest'
      obtain ⟨c, read', rfl⟩ := List.exists_cons_of_ne_nil hread'
      rw [List.append_assoc]
      exact .event (hother _ hstart) henter (htail' rest')

end Reads

/-! ### Pieces of text -/

/-- Inside the elements `opened`, the text `cs` is read as the events `es` whatever follows it,
    and behind it the elements `inner` are open. -/
def Spells (opened : List (List Char)) (cs : List Char) (es : List Event)
    (inner : List (List Char)) : Prop :=
  ∀ rest, Reads opened (cs ++ rest) es inner rest

namespace Spells

theorem event {e : Event} (hnext : ∀ rest, Event.next (cs ++ rest) = some (.ok (e, rest)))
    (henter : e.enter opened = .ok inner) : Spells opened cs [e] inner :=
  fun rest => .event (hnext rest) henter (.here inner rest)

/-- What stands on its own is read in the same way inside any elements. -/
theorem append_opened (h : Spells opened cs es inner) (outer : List (List Char)) :
    Spells (opened ++ outer) cs es (inner ++ outer) :=
  fun rest => (h rest).append_opened outer

end Spells

/-! ### Places behind markup -/

/-- The text `before` ends with a piece of markup: by way of the events `es` the reader comes to
    the place behind it, whatever follows, and there the elements `opened` are open. -/
def Behind (before : List Char) (es : List Event) (opened : List (List Char)) : Prop :=
  ∀ cs, Arrives before es opened cs

variable {before : List Char}

/-- Every place right behind an event other than running text is a place behind markup. -/
theorem Arrives.behind {e : Event} (h : Arrives before es opened cs)
    (hlast : es.getLast? = some e) (he : ∀ content, e ≠ .text content) :
    Behind before es opened := by
  obtain ⟨read, hread, hcs, hother⟩ := Reads.replace_rest_behind h hlast he
  cases before with
  | nil =>
    -- Something has been read, so that the text before the place is not empty.
    have hlength : (withoutMark cs).length ≤ cs.length := by
      rw [withoutMark]
      split
      · rw [List.length_tail]
        exact Nat.sub_le _ _
      · exact Nat.le_refl _
    rw [List.nil_append] at hcs
    rw [hcs, List.length_append] at hlength
    have hpos := List.length_pos_iff.mpr hread
    omega
  | cons c before =>
    have hmark (ds : List Char) :
        withoutMark (c :: before ++ ds) = withoutMark (c :: before) ++ ds := by
      rw [List.cons_append, withoutMark, withoutMark, List.head?_cons, List.head?_cons]
      split <;> rfl
    rw [hmark] at hcs
    intro rest
    rw [Arrives, hmark, List.append_cancel_right hcs]
    exact hother rest

/-! ### Running text -/

/-- Text without markup and references. -/
def IsRunningText (cs : List Char) : Prop := ∀ c ∈ cs, isTextChar c

instance (cs : List Char) : Decidable (IsRunningText cs) := List.decidableBAll _ cs

theorem IsRunningText.append {cs ds : List Char} (hcs : IsRunningText cs)
    (hds : IsRunningText ds) : IsRunningText (cs ++ ds) := by
  intro c hc
  rcases List.mem_append.mp hc with hc | hc
  · exact hcs c hc
  · exact hds c hc

/-- Running text up to the next piece of markup is read as at most one event. -/
theorem IsRunningText.reads {gap : List Char} (h : IsRunningText gap) (hrest : StartsMarkup rest)
    (opened : List (List Char)) :
    ∃ ts : List Event, (∀ e ∈ ts, ∃ content, e = .text content) ∧
      Reads opened (gap ++ rest) ts opened rest := by
  cases gap with
  | nil => exact ⟨[], by simp, .here opened rest⟩
  | cons c gap =>
    exact ⟨[.text (c :: gap)], by simp, .event (next_running h hrest) rfl (.here opened rest)⟩

/-! ### Runs of content -/

/-- A text that begins and ends with markup, or is empty, and is read as the events `es`, which
    close the elements that they open and no other ones. -/
structure IsRun (core : List Char) (es : List Event) : Prop where
  spells : Spells [] core es []
  startsMarkup : StartsMarkup core

namespace IsRun

variable {core gap gap' : List Char}

/-- What is read somewhere in a text is such a run, if its end tags close its own elements. -/
theorem of_reads {e : Event} (h : Reads opened (core ++ rest) es inner rest)
    (hstart : StartsMarkup core) (hes : es.foldlM Event.enter [] = .ok [])
    (hlast : es.getLast? = some e) (he : ∀ content, e ≠ .text content) : IsRun core es := by
  obtain ⟨read, -, hcore, hread⟩ := (h.change_opened hes).replace_rest_behind hlast he
  rw [← List.append_cancel_right hcore] at hread
  exact ⟨hread, hstart⟩

/-- Behind a run the same elements are open as before it. -/
theorem openBehind_eq (h : IsRun core es) (opened : List (List Char)) :
    openBehind opened es = opened :=
  ((h.spells.append_opened opened) []).inner_eq.symm

/-- Nothing is read from an empty run. -/
theorem eq_nil (h : IsRun [] es) : es = [] := by
  cases h.spells [] with
  | here => rfl
  | event hnext => cases hnext

theorem startsMarkup_append (h : IsRun core es) (hes : es ≠ []) (rest : List Char) :
    StartsMarkup (core ++ rest) := by
  cases core with
  | nil => exact absurd h.eq_nil hes
  | cons c core => exact h.startsMarkup

/-- Between running text, a run is read as it is read on its own. -/
theorem reads_between (h : IsRun core es) (hgap : IsRunningText gap)
    (hgap' : IsRunningText gap') (hrest : StartsMarkup rest) (opened : List (List Char)) :
    ∃ ts ts' : List Event, ((∀ e ∈ ts, ∃ content, e = .text content) ∧
        ∀ e ∈ ts', ∃ content, e = .text content) ∧
      Reads opened (gap ++ (core ++ (gap' ++ rest))) (ts ++ (es ++ ts')) opened rest := by
  cases core with
  | nil =>
    -- Nothing stands between the texts, so that they are read as one.
    obtain rfl := h.eq_nil
    obtain ⟨ts, hts, hreads⟩ := (hgap.append hgap').reads hrest opened
    refine ⟨ts, [], ⟨hts, by simp⟩, ?_⟩
    rw [List.append_assoc] at hreads
    rwa [List.append_nil, List.append_nil]
  | cons c core =>
    have hcore : StartsMarkup (c :: core ++ (gap' ++ rest)) := h.startsMarkup
    obtain ⟨ts, hts, hreads⟩ := hgap.reads hcore opened
    obtain ⟨ts', hts', hreads'⟩ := hgap'.reads hrest opened
    exact ⟨ts, ts', ⟨hts, hts'⟩,
      hreads.trans (((h.spells.append_opened opened) _).trans hreads')⟩

end IsRun

/-! ### Elements -/

/-- The element can be written in two tags: its text stands in a start tag, and its name and
    blanks behind it stand in an end tag. -/
structure IsElement (content blanks : List Char) : Prop where
  text : IsTagText content
  slash : content.getLast? ≠ some '/'
  name : IsClosable (Tag.name ⟨content⟩)
  nonempty : Tag.name ⟨content⟩ ≠ []
  blanks : ∀ c ∈ blanks, isSpace c

/-- The blanks behind a name in an end tag are no part of it. -/
theorem closingName_blanks {name blanks : List Char} (hname : IsClosable name)
    (hnonempty : name ≠ []) (hblanks : ∀ c ∈ blanks, isSpace c) :
    closingName (name ++ blanks) = name := by
  obtain hnil | ⟨cs, c, rfl⟩ := List.eq_nil_or_concat name
  · exact absurd hnil hnonempty
  · have hc : isSpace c = false := (hname c (by simp)).1
    have hreverse : ∀ d ∈ blanks.reverse, isSpace d := by
      intro d hd
      exact hblanks d (List.mem_reverse.mp hd)
    rw [closingName, List.concat_eq_append, if_neg (by simp [hc]), dropTrailingSpace,
      List.reverse_append, List.dropWhile_append_of_pos hreverse]
    simp [hc]

namespace IsElement

variable {content blanks : List Char}

theorem next_endTag (h : IsElement content blanks) (rest : List Char) :
    Event.next (endTag (Tag.name ⟨content⟩ ++ blanks) ++ rest) =
      some (.ok (.close (Tag.name ⟨content⟩), rest)) := by
  have hplain : ∀ c ∈ Tag.name ⟨content⟩ ++ blanks, isQuote c = false ∧ c ≠ '>' := by
    intro c hc
    rcases List.mem_append.mp hc with hc | hc
    · exact (h.name c hc).2
    · have hspace := h.blanks c hc
      constructor
      · rw [Bool.eq_false_iff]
        intro hquote
        rw [isSpace_of_isQuote hquote] at hspace
        cases hspace
      · rintro rfl
        cases hspace
  have hend := (PassedOver.of_plain hplain).tagEnd rest
  rw [endTag, List.cons_append, List.cons_append, List.append_assoc]
  show some ((tagEnd none (Tag.name ⟨content⟩ ++ blanks ++ '>' :: rest)).map _) = _
  rw [hend]
  show some (Except.ok (Event.close (closingName (Tag.name ⟨content⟩ ++ blanks)), rest)) = _
  rw [closingName_blanks h.name h.nonempty h.blanks]

theorem spells_startTag (h : IsElement content blanks) (opened : List (List Char)) :
    Spells opened (startTag content) [.start ⟨content⟩] (Tag.name ⟨content⟩ :: opened) :=
  .event (h.text.next_startTag h.slash) rfl

theorem spells_endTag (h : IsElement content blanks) (opened : List (List Char)) :
    Spells (Tag.name ⟨content⟩ :: opened) (endTag (Tag.name ⟨content⟩ ++ blanks))
      [.close (Tag.name ⟨content⟩)] opened :=
  .event h.next_endTag (by rw [Event.enter, if_pos rfl])

/-- What is read up to the end tag on its own is read so between the two tags. -/
theorem reads_around (h : IsElement content blanks)
    (hcs : Reads [] cs es [] (endTag (Tag.name ⟨content⟩ ++ blanks) ++ rest))
    (opened : List (List Char)) :
    Reads opened (startTag content ++ cs)
      (.start ⟨content⟩ :: (es ++ [.close (Tag.name ⟨content⟩)])) opened rest :=
  (h.spells_startTag opened cs).trans ((hcs.append_opened _).trans (h.spells_endTag opened rest))

end IsElement

/-! ### Fillers -/

/-- A comment, a processing instruction, a CDATA section or an empty element. -/
inductive Filler where
  | comment (body : List Char)
  | instruction (body : List Char)
  | cdata (content : List Char)
  | element (content : List Char)
deriving Repr, DecidableEq

namespace Filler

/-- The characters of a filler. -/
def spell : Filler → List Char
  | .comment body => '<' :: '!' :: '-' :: '-' :: (body ++ ['-', '-', '>'])
  | .instruction body => '<' :: '?' :: (body ++ ['?', '>'])
  | .cdata content =>
    '<' :: '!' :: '[' :: 'C' :: 'D' :: 'A' :: 'T' :: 'A' :: '[' :: (content ++ [']', ']', '>'])
  | .element content => emptyTag content

/-- The event that a filler is read as. -/
def event : Filler → Event
  | .comment _ => .comment
  | .instruction _ => .instruction
  | .cdata content => .cdata content
  | .element content => .empty ⟨content⟩

/-- What is asked of a filler: nothing in it ends it early, and it begins as what it is. -/
def IsWritable : Filler → Prop
  | .comment body => ¬ ['-', '-', '>'] <:+: body
  | .instruction body => ¬ ['?', '>'] <:+: body ∧ body.head? ≠ some '>'
  | .cdata content => ¬ [']', ']', '>'] <:+: content
  | .element content => IsTagText content

theorem next_spell {m : Filler} (h : m.IsWritable) (rest : List Char) :
    Event.next (m.spell ++ rest) = some (.ok (m.event, rest)) := by
  cases m with
  | comment body =>
    have hsplit : splitOn? ['-', '-', '>'] (body ++ (['-', '-', '>'] ++ rest)) =
        some (body, rest) := splitOn?_written (by decide : '>' ∉ ['-', '-']) h rest
    have hspell : (comment body).spell ++ rest =
        '<' :: '!' :: '-' :: '-' :: (body ++ (['-', '-', '>'] ++ rest)) := by
      simp [spell]
    rw [hspell]
    show some (commentEnd ('-' :: '-' :: (body ++ (['-', '-', '>'] ++ rest)))) = _
    rw [commentEnd, hsplit]
    rfl
  | instruction body =>
    obtain ⟨hbody, hstart⟩ := h
    have hsplit : splitOn? ['?', '>'] (body ++ (['?', '>'] ++ rest)) = some (body, rest) :=
      splitOn?_written (by decide : '>' ∉ ['?']) hbody rest
    have hspell : (instruction body).spell ++ rest =
        '<' :: '?' :: (body ++ (['?', '>'] ++ rest)) := by
      simp [spell]
    rw [hspell]
    show some (instructionEnd (body ++ (['?', '>'] ++ rest))) = _
    unfold instructionEnd
    split
    · next tail heq =>
      -- The body does not begin with a bracket, and neither does the mark behind it.
      cases body with
      | nil => cases heq
      | cons c body => exact absurd (congrArg some (List.cons.inj heq).1) hstart
    · rw [hsplit]
      rfl
  | cdata content =>
    have hspell : (cdata content).spell ++ rest = '<' :: '!' :: '[' :: 'C' :: 'D' :: 'A' ::
        'T' :: 'A' :: '[' :: (content ++ ']' :: ']' :: '>' :: rest) := by
      simp [spell]
    rw [hspell, next_section, cdataEnd_written h]
    rfl
  | element content => exact h.next_emptyTag rest

/-- A filler opens no element. -/
theorem isFlat_event (m : Filler) : m.event.isFlat := by
  cases m <;> rfl

theorem enter_event (m : Filler) (opened : List (List Char)) :
    m.event.enter opened = .ok opened := by
  cases m <;> rfl

theorem spells {m : Filler} (h : m.IsWritable) (opened : List (List Char)) :
    Spells opened m.spell [m.event] opened :=
  .event (next_spell h) (m.enter_event opened)

theorem startsMarkup_spell (m : Filler) (rest : List Char) : StartsMarkup (m.spell ++ rest) := by
  cases m <;> exact startsMarkup_bracket _

end Filler

end TaggedUnion.Xml
