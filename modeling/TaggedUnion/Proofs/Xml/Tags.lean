import TaggedUnion.Proofs.Xml.Reads

/-! # Tags as they stand in a text

    The characters of a tag, for tags that are not known to be written in any particular way:

    * **`emptyTag`**, **`startTag`**, **`endTag`**: the three tags around a content or a name.
      **`twoTags`** is an element without content as a start tag and an end tag, and
      **`bareComment`** is a comment with nothing in it.
    * **`Event.next_startTag`**: what is read as an empty-element tag is read as a start tag
      without its slash.
    * **`IsTagText`**: a content with which both kinds of tags can be written.
    * **`Event.next_endTag`**, **`Reads.endTags`**: the end tags of names without blanks, quotes
      and brackets close the elements with these names. **`Reads.twoTags`**: a start tag and its
      end tag leave the open elements as they were.
-/

namespace TaggedUnion.Xml

/-- The characters of an empty-element tag. -/
def emptyTag (content : List Char) : List Char := '<' :: (content ++ ['/', '>'])

/-- The characters of a start tag. -/
def startTag (content : List Char) : List Char := '<' :: (content ++ ['>'])

/-- The characters of an end tag. -/
def endTag (name : List Char) : List Char := '<' :: '/' :: (name ++ ['>'])

/-- An element without content in two tags. -/
def twoTags (content : List Char) : List Char :=
  startTag content ++ endTag (Tag.name ⟨content⟩)

/-- A comment with nothing in it. -/
def bareComment : List Char := ['<', '!', '-', '-', '-', '-', '>']

theorem Event.next_bareComment (rest : List Char) :
    Event.next (bareComment ++ rest) = some (.ok (.comment, rest)) := rfl

theorem startsMarkup_emptyTag (content rest : List Char) :
    StartsMarkup (emptyTag content ++ rest) := startsMarkup_bracket _

theorem startsMarkup_startTag (content rest : List Char) :
    StartsMarkup (startTag content ++ rest) := startsMarkup_bracket _

theorem startsMarkup_twoTags (content rest : List Char) :
    StartsMarkup (twoTags content ++ rest) := startsMarkup_bracket _

theorem startsMarkup_endTag (name rest : List Char) :
    StartsMarkup (endTag name ++ rest) := startsMarkup_bracket _

/-! ### Start tags -/

/-- A quote that is open is a quote. -/
theorem isQuote_of_quoteAfter {open? : Option Char} (h : ∀ q ∈ open?, isQuote q) (c : Char) :
    ∀ q ∈ quoteAfter open? c, isQuote q := by
  intro q hq
  cases open? with
  | none =>
    by_cases hc : isQuote c
    · simp only [quoteAfter, if_pos hc, Option.mem_some_iff] at hq
      exact hq ▸ hc
    · simp [quoteAfter, hc] at hq
  | some p =>
    by_cases hc : c = p
    · simp [quoteAfter, hc] at hq
    · simp only [quoteAfter, if_neg hc, Option.mem_some_iff] at hq
      exact hq ▸ h p rfl

/-- Where a slash and a bracket end a tag, the bracket alone would end it before the slash. -/
theorem tagEnd_of_slash {open? : Option Char} (hquote : ∀ q ∈ open?, isQuote q)
    {content after : List Char}
    (h : tagEnd open? (content ++ '/' :: '>' :: after) = .ok (content ++ ['/'], after))
    (rest : List Char) : tagEnd open? (content ++ '>' :: rest) = .ok (content, rest) := by
  -- A quote may be opened and closed on the way, so the induction is for every open quote.
  induction content generalizing open? with
  | nil =>
    cases open? with
    | none => rfl
    | some q =>
      -- A slash closes no quote, and in quotes the bracket would not have ended the tag.
      have hslash : '/' ≠ q := by
        rintro rfl
        cases hquote '/' rfl
      have hafter : quoteAfter (some q) '/' = some q := by simp [quoteAfter, hslash]
      rw [List.nil_append, tagEnd, if_neg (by simp), hafter, tagEnd, if_neg (by simp)] at h
      obtain ⟨p, hp, hsame⟩ := exists_of_map_ok h
      obtain ⟨p', -, rfl⟩ := exists_of_map_ok hp
      cases hsame
  | cons c content ih =>
    rw [List.cons_append, tagEnd] at h
    by_cases hend : open? = none ∧ c = '>'
    · rw [if_pos hend] at h
      cases h
    · rw [if_neg hend] at h
      obtain ⟨q, hq, hsame⟩ := exists_of_map_ok h
      obtain ⟨hcontent, hafter⟩ := Prod.mk.inj hsame
      have hq' : q = (content ++ ['/'], after) := Prod.ext (List.cons.inj hcontent).2 hafter
      rw [List.cons_append, tagEnd, if_neg hend,
        ih (isQuote_of_quoteAfter hquote c) (hq' ▸ hq)]
      rfl

/-- What a declaration of the text's own, a comment or a section begins is no tag. -/
theorem tag?_of_mark {cs : List Char} {p : Event × List Char}
    (h : markupNext ('!' :: cs) = .ok p) : p.1.tag? = none := by
  simp only [markupNext] at h
  have hdoctype : ∀ {cs}, doctypeEvent cs = .ok p → p.1.tag? = none := by
    intro cs h
    unfold doctypeEvent at h
    split at h
    · cases h
    · split at h
      · cases h
      · split at h
        · cases h
        · cases h
          rfl
  split at h
  · unfold cdataEnd at h
    split at h
    · split at h
      · cases h
        rfl
      · cases h
    · cases h
  · unfold commentEnd at h
    split at h
    · split at h
      · cases h
        rfl
      · cases h
    · cases h
  · exact hdoctype h
  · exact hdoctype h
  · cases h

/-- An instruction is no tag. -/
theorem tag?_of_question {cs : List Char} {p : Event × List Char}
    (h : markupNext ('?' :: cs) = .ok p) : p.1.tag? = none := by
  replace h : instructionEnd cs = .ok p := h
  unfold instructionEnd at h
  split at h
  · cases h
  · split at h
    · cases h
      rfl
    · cases h

/-- An end tag begins no element. -/
theorem tag?_of_slash {cs : List Char} {p : Event × List Char}
    (h : markupNext ('/' :: cs) = .ok p) : p.1.tag? = none := by
  replace h : (tagEnd none cs).map (fun p => (Event.close (closingName p.1), p.2)) = .ok p := h
  obtain ⟨q, -, rfl⟩ := exists_of_map_ok h
  rfl

theorem ofTag_eq_empty {content content' : List Char}
    (h : Event.ofTag content' = .empty ⟨content⟩) : content' = content ++ ['/'] := by
  unfold Event.ofTag at h
  split at h
  · next shorter hreverse =>
    cases h
    rw [← List.reverse_reverse content', hreverse, List.reverse_cons]
  · cases h

/-- A content that does not end in a slash makes a start tag. -/
theorem ofTag_eq_start {content : List Char} (h : content.getLast? ≠ some '/') :
    Event.ofTag content = .start ⟨content⟩ := by
  unfold Event.ofTag
  split
  · next shorter hreverse =>
    rw [← List.head?_reverse, hreverse] at h
    exact absurd rfl h
  · rfl

/-- What is read as an empty-element tag is read as a start tag without its slash. -/
theorem Event.next_startTag {content after : List Char}
    (h : Event.next (emptyTag content ++ after) = some (.ok (.empty ⟨content⟩, after)))
    (hlast : content.getLast? ≠ some '/') (rest : List Char) :
    Event.next (startTag content ++ rest) = some (.ok (.start ⟨content⟩, rest)) := by
  have hnext : markupNext (content ++ '/' :: '>' :: after) = .ok (.empty ⟨content⟩, after) := by
    rw [emptyTag, List.cons_append, List.append_assoc] at h
    exact Option.some.inj h
  rw [startTag, List.cons_append, List.append_assoc]
  show some (markupNext (content ++ '>' :: rest)) = _
  cases content with
  | nil =>
    -- Without a content the slash begins an end tag.
    cases tag?_of_slash hnext
  | cons c content =>
    have hmark : c ≠ '!' := by
      rintro rfl
      cases tag?_of_mark hnext
    have hquestion : c ≠ '?' := by
      rintro rfl
      cases tag?_of_question hnext
    have hslash : c ≠ '/' := by
      rintro rfl
      cases tag?_of_slash hnext
    rw [List.cons_append, markupNext_of_ne hmark hquestion hslash] at hnext
    obtain ⟨p, hp, hsame⟩ := exists_of_map_ok hnext
    obtain ⟨htag, hafter⟩ := Prod.mk.inj hsame
    have hp' : p = (c :: content ++ ['/'], after) := Prod.ext (ofTag_eq_empty htag) hafter
    rw [List.cons_append, markupNext_of_ne hmark hquestion hslash, ← List.cons_append,
      tagEnd_of_slash (by simp) (hp' ▸ hp)]
    show some (Except.ok (Event.ofTag (c :: content), rest)) = _
    rw [ofTag_eq_start hlast]

/-- The text of a tag as it can be written: no bracket in it ends the tag, and its first character
    makes it neither an end tag nor another piece of markup. -/
structure IsTagText (content : List Char) : Prop where
  passedOver : PassedOver content
  start : ∃ c cs, content = c :: cs ∧ c ≠ '!' ∧ c ≠ '?' ∧ c ≠ '/'

namespace IsTagText

variable {content : List Char}

theorem next_startTag (h : IsTagText content) (hlast : content.getLast? ≠ some '/')
    (rest : List Char) :
    Event.next (startTag content ++ rest) = some (.ok (.start ⟨content⟩, rest)) := by
  obtain ⟨c, cs, rfl, hmark, hquestion, hslash⟩ := h.start
  rw [startTag, List.cons_append, List.append_assoc, List.singleton_append]
  show some (markupNext (c :: (cs ++ '>' :: rest))) = _
  rw [markupNext_of_ne hmark hquestion hslash, ← List.cons_append, h.passedOver.tagEnd]
  show some (Except.ok (Event.ofTag (c :: cs), rest)) = _
  rw [ofTag_eq_start hlast]

theorem next_emptyTag (h : IsTagText content) (rest : List Char) :
    Event.next (emptyTag content ++ rest) = some (.ok (.empty ⟨content⟩, rest)) := by
  obtain ⟨c, cs, rfl, hmark, hquestion, hslash⟩ := h.start
  -- The slash is passed over as content of the tag, and taken off afterwards.
  have hplain : PassedOver ['/'] := PassedOver.of_plain (by simp [isQuote])
  have hend := (h.passedOver.append hplain).tagEnd rest
  have hspell : emptyTag (c :: cs) ++ rest = '<' :: c :: (cs ++ ['/'] ++ '>' :: rest) := by
    simp [emptyTag]
  rw [hspell]
  show some (markupNext (c :: (cs ++ ['/'] ++ '>' :: rest))) = _
  rw [markupNext_of_ne hmark hquestion hslash, ← List.cons_append, ← List.cons_append, hend]
  show some (Except.ok (Event.ofTag (c :: cs ++ ['/']), rest)) = _
  rw [ofTag_slash]

end IsTagText

/-! ### End tags -/

/-- A name that an end tag can have: no blanks, no quotes and no brackets. -/
def IsClosable (name : List Char) : Prop :=
  ∀ c ∈ name, isSpace c = false ∧ isQuote c = false ∧ c ≠ '>'

instance (name : List Char) : Decidable (IsClosable name) := List.decidableBAll _ name

/-- A name without blanks is the name in the end tag. -/
theorem closingName_of_isClosable {name : List Char} (h : IsClosable name) :
    closingName name = name := by
  obtain rfl | ⟨cs, c, rfl⟩ := List.eq_nil_or_concat name
  · rfl
  · have hc : isSpace c = false := (h c (by simp)).1
    rw [closingName, List.concat_eq_append, if_neg (by simp [hc]), dropTrailingSpace]
    simp [hc]

theorem Event.next_endTag {name : List Char} (h : IsClosable name) (rest : List Char) :
    Event.next (endTag name ++ rest) = some (.ok (.close name, rest)) := by
  have hend := (PassedOver.of_plain fun c hc => (h c hc).2).tagEnd rest
  rw [endTag, List.cons_append, List.cons_append, List.append_assoc]
  show some ((tagEnd none (name ++ '>' :: rest)).map _) = _
  rw [hend]
  show some (Except.ok (Event.close (closingName name), rest)) = _
  rw [closingName_of_isClosable h]

/-- The end tags of all open elements close them. -/
theorem Reads.endTags {opened : List (List Char)} (h : ∀ name ∈ opened, IsClosable name) :
    Reads opened (opened.flatMap endTag) (opened.map .close) [] [] := by
  induction opened with
  | nil => exact .here [] []
  | cons name opened ih =>
    have hclose : (Event.close name).enter (name :: opened) = .ok opened := by
      rw [Event.enter, if_pos rfl]
    rw [List.flatMap_cons, List.map_cons]
    exact .event (Event.next_endTag (h name List.mem_cons_self) _) hclose
      (ih fun other hother => h other (List.mem_cons_of_mem _ hother))

/-- A start tag with its end tag opens and closes an element. -/
theorem Reads.twoTags {opened : List (List Char)} {content after : List Char}
    (htag : Event.next (emptyTag content ++ after) = some (.ok (.empty ⟨content⟩, after)))
    (hlast : content.getLast? ≠ some '/') (hname : IsClosable (Tag.name ⟨content⟩)) :
    Reads opened (twoTags content ++ after) [.start ⟨content⟩, .close (Tag.name ⟨content⟩)]
      opened after := by
  have hclose : Event.enter (Tag.name ⟨content⟩ :: opened) (.close (Tag.name ⟨content⟩)) =
      .ok opened := by
    rw [Event.enter, if_pos rfl]
  rw [Xml.twoTags, List.append_assoc]
  exact .event (Event.next_startTag htag hlast _) rfl
    (.event (Event.next_endTag hname after) hclose (.here opened after))

end TaggedUnion.Xml
