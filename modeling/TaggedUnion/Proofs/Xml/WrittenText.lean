import TaggedUnion.Proofs.Xml.WrittenTag

/-! # Texts as they are written

    A text is written as a list of lines, each a piece of markup with some running text before
    it. This module says that such a text is read as the events it was written from:

    * **`Markup`** and **`Line`**: what is written, with `spell` for the characters and `event`
      or `events` for what they are read as.
    * **`Markup.IsWritable`**: what is asked of a piece of markup.
    * **`IsContent`**: lines that are read as they are written and close every element they
      open, and no other.
    * **`Transcript.ofText_written`**: the events of a whole text.
-/

namespace TaggedUnion.Xml

/-! ### Lines -/

/-- A piece of markup. -/
inductive Markup where
  | start (name : String) (attributes : List (String × String))
  | empty (name : String) (attributes : List (String × String))
  | close (name : String)
  | cdata (content : String)
deriving Repr, DecidableEq

namespace Markup

/-- The characters of a piece of markup. -/
def spell : Markup → List Char
  | .start name attributes => '<' :: ((Tag.written name attributes).content ++ ['>'])
  | .empty name attributes => '<' :: ((Tag.written name attributes).content ++ ['/', '>'])
  | .close name => '<' :: '/' :: (name.toList ++ ['>'])
  | .cdata content =>
    '<' :: '!' :: '[' :: 'C' :: 'D' :: 'A' :: 'T' :: 'A' :: '[' ::
      (content.toList ++ [']', ']', '>'])

/-- The event that a piece of markup is read as. -/
def event : Markup → Event
  | .start name attributes => .start (Tag.written name attributes)
  | .empty name attributes => .empty (Tag.written name attributes)
  | .close name => .close name.toList
  | .cdata content => .cdata content.toList

/-- What is asked of a piece of markup. -/
def IsWritable : Markup → Prop
  | .start name attributes | .empty name attributes => IsWord name ∧ AreAttributes attributes
  | .close name => IsWord name
  | .cdata content => ¬ [']', ']', '>'] <:+: content.toList

end Markup

/-- A piece of markup with the running text before it. -/
structure Line where
  gap : String := ""
  markup : Markup
deriving Repr, DecidableEq

namespace Line

/-- The characters of a line. -/
def spell (l : Line) : List Char := l.gap.toList ++ l.markup.spell

/-- The events that a line is read as. -/
def events (l : Line) : List Event :=
  if l.gap = "" then [l.markup.event] else [.text l.gap.toList, l.markup.event]

/-- What is asked of a line: the running text has no markup of its own. -/
structure IsWritable (l : Line) : Prop where
  gap : ∀ c ∈ l.gap.toList, isTextChar c
  markup : l.markup.IsWritable

end Line

/-! ### One event -/

/-- What begins with a letter is a tag. -/
theorem markupNext_of_isAlpha {c : Char} (hc : c.isAlpha) (cs : List Char) :
    markupNext (c :: cs) = (tagEnd none (c :: cs)).map fun p => (.ofTag p.1, p.2) := by
  unfold markupNext
  split
  · next heq => exact absurd (List.cons.inj heq).1 (ne_of_isAlpha hc rfl)
  · next heq => exact absurd (List.cons.inj heq).1 (ne_of_isAlpha hc rfl)
  · next heq => exact absurd (List.cons.inj heq).1 (ne_of_isAlpha hc rfl)
  · rfl

theorem markupNext_written {name : String} (hname : IsWord name)
    (attributes : List (String × String)) (rest : List Char) :
    markupNext ((Tag.written name attributes).content ++ rest) =
      (tagEnd none ((Tag.written name attributes).content ++ rest)).map
        fun p => (.ofTag p.1, p.2) := by
  obtain ⟨c, cs, hcs⟩ := List.exists_cons_of_ne_nil hname.ne_nil
  have hc : c.isAlpha := hname.isAlpha c (hcs ▸ List.mem_cons_self)
  rw [Tag.written, hcs]
  exact markupNext_of_isAlpha hc _

/-- The last character of a written tag is a letter or a quote. -/
theorem exists_last_written {name : String} (hname : IsWord name)
    (attributes : List (String × String)) :
    ∃ cs c, (Tag.written name attributes).content = cs ++ [c] ∧ c ≠ '/' := by
  -- Without attributes the name comes last, otherwise the quote behind the last value.
  rcases List.eq_nil_or_concat attributes with rfl | ⟨as, a, rfl⟩
  · obtain hnil | ⟨cs, c, hcs⟩ := List.eq_nil_or_concat name.toList
    · exact absurd hnil hname.ne_nil
    · refine ⟨cs, c, ?_, ne_of_isAlpha (hname.isAlpha c (by simp [hcs])) rfl⟩
      simp [Tag.written, hcs]
  · refine ⟨name.toList ++ as.flatMap writtenAttribute
      ++ ' ' :: (a.1.toList ++ '=' :: '"' :: escape a.2.toList), '"', ?_, by decide⟩
    simp [Tag.written, writtenAttribute]

/-- A written tag does not end in the slash of an empty element. -/
theorem ofTag_written {name : String} (hname : IsWord name)
    (attributes : List (String × String)) :
    Event.ofTag (Tag.written name attributes).content = .start (Tag.written name attributes) := by
  obtain ⟨cs, c, hcontent, hc⟩ := exists_last_written hname attributes
  unfold Event.ofTag
  split
  · next shorter hslash =>
    rw [hcontent, List.reverse_append] at hslash
    exact absurd (List.cons.inj hslash).1 hc
  · rfl

theorem ofTag_slash (content : List Char) : Event.ofTag (content ++ ['/']) = .empty ⟨content⟩ := by
  have hreverse : (content ++ ['/']).reverse = '/' :: content.reverse := by simp
  rw [Event.ofTag, hreverse]
  simp

/-- A word is the name in the end tag that is written from it. -/
theorem closingName_word {name : String} (hname : IsWord name) :
    closingName name.toList = name.toList := by
  obtain hnil | ⟨cs, c, hcs⟩ := List.eq_nil_or_concat name.toList
  · exact absurd hnil hname.ne_nil
  · have hc : isSpace c = false := isSpace_of_isAlpha (hname.isAlpha c (by simp [hcs]))
    rw [closingName, hcs, List.concat_eq_append, if_neg (by simp [hc]), dropTrailingSpace]
    simp [hc]

/-- A run of characters that does not follow somewhere is not found there. -/
theorem after?_eq_none {mark cs : List Char} (h : ¬ mark <+: cs) : after? mark cs = none := by
  cases hafter : after? mark cs with
  | none => rfl
  | some rest => exact absurd ⟨rest, append_of_after? hafter⟩ h

theorem after?_self (mark rest : List Char) : after? mark (mark ++ rest) = some rest := by
  induction mark with
  | nil => rfl
  | cons m mark ih => rw [List.cons_append, after?, if_pos rfl, ih]

/-- The first mark behind a text without it is the one that follows the text: where no part of
    the mark is like its last character, no part of the text begins an earlier one. -/
theorem splitOn?_written {mark : List Char} {last : Char} (hlast : last ∉ mark)
    {content : List Char} (h : ¬ mark ++ [last] <:+: content) (rest : List Char) :
    splitOn? (mark ++ [last]) (content ++ ((mark ++ [last]) ++ rest)) = some (content, rest) := by
  induction content with
  | nil =>
    obtain ⟨m, ms, hmark⟩ := List.exists_cons_of_ne_nil (List.concat_ne_nil last mark)
    have hself := after?_self (mark ++ [last]) rest
    rw [hmark, List.cons_append] at hself
    rw [List.nil_append, hmark, List.cons_append, splitOn?, hself]
  | cons c cs ih =>
    have hcs : ¬ mark ++ [last] <:+: cs := fun hin => h (hin.trans (List.suffix_cons c cs).isInfix)
    have hnone : after? (mark ++ [last]) (c :: cs ++ ((mark ++ [last]) ++ rest)) = none := by
      refine after?_eq_none ?_
      intro hprefix
      rcases Nat.lt_or_ge mark.length (c :: cs).length with hlength | hlength
      · -- The mark would stand in the text.
        have hinside := List.prefix_of_prefix_length_le hprefix (List.prefix_append ..)
          (by rw [List.length_append, List.length_singleton]; exact hlength)
        exact h hinside.isInfix
      · -- Its last character would stand before the last one of the mark that follows.
        obtain ⟨tail, htail⟩ := hprefix
        have hget := congrArg (·[mark.length]?) htail
        simp only [List.append_assoc] at hget
        rw [List.getElem?_append_right (Nat.le_refl _), Nat.sub_self,
          List.getElem?_append_right hlength] at hget
        have hlt : mark.length - (c :: cs).length < mark.length := by
          rw [List.length_cons] at hlength ⊢
          omega
        rw [List.getElem?_append_left hlt] at hget
        exact hlast (List.mem_of_getElem? hget.symm)
    rw [List.cons_append] at hnone ⊢
    rw [splitOn?, hnone, ih hcs]
    rfl

theorem next_section (cs : List Char) :
    Event.next ('<' :: '!' :: '[' :: cs) = some (cdataEnd ('[' :: cs)) := rfl

/-- A section ends behind its content. -/
theorem cdataEnd_written {content : List Char} (h : ¬ [']', ']', '>'] <:+: content)
    (rest : List Char) :
    cdataEnd ('[' :: 'C' :: 'D' :: 'A' :: 'T' :: 'A' :: '[' ::
      (content ++ ']' :: ']' :: '>' :: rest)) = .ok (.cdata content, rest) := by
  have hsplit : splitOn? [']', ']', '>'] (content ++ ']' :: ']' :: '>' :: rest) =
      some (content, rest) := splitOn?_written (by decide : '>' ∉ [']', ']']) h rest
  simp only [cdataEnd, hsplit]

/-- A piece of markup is read as the event that it was written from. -/
theorem Markup.next_spell {m : Markup} (hm : m.IsWritable) (rest : List Char) :
    Event.next (m.spell ++ rest) = some (.ok (m.event, rest)) := by
  cases m with
  | start name attributes =>
    obtain ⟨hname, hattributes⟩ := hm
    -- No bracket of a value ends the tag, and no slash before the bracket makes it empty.
    have hend := (PassedOver.written hname hattributes).tagEnd rest
    have hnext := markupNext_written hname attributes ('>' :: rest)
    rw [hend] at hnext
    show Event.next ('<' :: ((Tag.written name attributes).content ++ ['>']) ++ rest) = _
    rw [List.cons_append, List.append_assoc, List.singleton_append]
    show some (markupNext _) = _
    rw [hnext]
    show some (Except.ok (Event.ofTag _, rest)) = _
    rw [ofTag_written hname]
    rfl
  | empty name attributes =>
    obtain ⟨hname, hattributes⟩ := hm
    -- The slash is passed over as content of the tag, and taken off afterwards.
    have hslash : PassedOver ['/'] := PassedOver.of_plain (by simp [isQuote])
    have hend := ((PassedOver.written hname hattributes).append hslash).tagEnd rest
    have hnext := markupNext_written hname attributes ('/' :: '>' :: rest)
    rw [List.append_assoc, List.singleton_append] at hend
    rw [hend] at hnext
    show Event.next ('<' :: ((Tag.written name attributes).content ++ ['/', '>']) ++ rest) = _
    rw [List.cons_append, List.append_assoc, List.cons_append, List.singleton_append]
    show some (markupNext _) = _
    rw [hnext]
    show some (Except.ok (Event.ofTag _, rest)) = _
    rw [ofTag_slash]
    rfl
  | close name =>
    have hend := (PassedOver.word hm).tagEnd rest
    show Event.next ('<' :: '/' :: (name.toList ++ ['>']) ++ rest) = _
    rw [List.cons_append, List.cons_append, List.append_assoc, List.singleton_append]
    show some ((tagEnd none _).map _) = _
    rw [hend]
    show some (Except.ok (Event.close (closingName name.toList), rest)) = _
    rw [closingName_word hm]
    rfl
  | cdata content =>
    have hspell : (Markup.cdata content).spell ++ rest = '<' :: '!' :: '[' :: 'C' :: 'D' :: 'A' ::
        'T' :: 'A' :: '[' :: (content.toList ++ ']' :: ']' :: '>' :: rest) := by
      simp [Markup.spell]
    rw [hspell, next_section, cdataEnd_written hm]
    rfl

/-- Every piece of markup begins with an angle bracket. -/
theorem Markup.spell_eq_cons (m : Markup) : ∃ cs, m.spell = '<' :: cs := by
  cases m <;> exact ⟨_, rfl⟩

/-- Running text is read up to the bracket that follows it. -/
theorem next_text {c : Char} {cs : List Char} (h : ∀ d ∈ c :: cs, isTextChar d)
    (rest : List Char) :
    Event.next (c :: cs ++ '<' :: rest) = some (.ok (.text (c :: cs), '<' :: rest)) := by
  have hc : isTextChar c := h c List.mem_cons_self
  have hcs : ∀ d ∈ cs, isTextChar d := fun d hd => h d (List.mem_cons_of_mem _ hd)
  have hend : isTextChar '<' = false := rfl
  rw [List.cons_append]
  unfold Event.next
  split
  · next heq => cases heq
  · next heq =>
    rw [(List.cons.inj heq).1] at hc
    cases hc
  · next heq =>
    rw [(List.cons.inj heq).1] at hc
    cases hc
  · next heq =>
    cases heq
    rw [takeWhile_word hcs hend, dropWhile_word hcs hend]

/-! ### Whole texts -/

/-- An event that is read stands at the start of the transcript. -/
theorem Transcript.within_of_next {opened inner : List (List Char)} {cs rest : List Char}
    {e : Event} (hnext : Event.next cs = some (.ok (e, rest)))
    (henter : e.enter opened = .ok inner) :
    Transcript.within opened cs = (Transcript.within inner rest).cons e := by
  rw [Transcript.within]
  split
  · next h =>
    rw [hnext] at h
    cases h
  · next h =>
    rw [hnext] at h
    cases h
  · next h =>
    rw [hnext] at h
    cases h
    simp only [henter]

/-- A line is read as its events. -/
theorem Line.within_spell {l : Line} (hl : l.IsWritable) {opened inner : List (List Char)}
    (henter : l.markup.event.enter opened = .ok inner) (rest : List Char) :
    Transcript.within opened (l.spell ++ rest) =
      ⟨l.events ++ (Transcript.within inner rest).events,
        (Transcript.within inner rest).fault⟩ := by
  have hmarkup := Transcript.within_of_next (Markup.next_spell hl.markup rest) henter
  rw [Line.spell, Line.events, List.append_assoc]
  by_cases hgap : l.gap = ""
  · rw [if_pos hgap, hgap]
    exact hmarkup
  · obtain ⟨g, gs, hgs⟩ := List.exists_cons_of_ne_nil (mt String.toList_eq_nil_iff.mp hgap)
    have hletters := hl.gap
    rw [if_neg hgap, hgs]
    rw [hgs] at hletters
    obtain ⟨cs, hcs⟩ := l.markup.spell_eq_cons
    -- Running text is read up to the bracket that the markup begins with.
    have hnext : Event.next (g :: gs ++ (l.markup.spell ++ rest)) =
        some (.ok (.text (g :: gs), l.markup.spell ++ rest)) := by
      rw [hcs]
      exact next_text hletters (cs ++ rest)
    rw [Transcript.within_of_next hnext rfl, hmarkup]
    rfl

/-- The names of the open elements behind lines. -/
def enterAll (opened : List (List Char)) (lines : List Line) : Except Fault (List (List Char)) :=
  lines.foldlM (fun opened l => l.markup.event.enter opened) opened

/-- A text is read as the events of its lines, up to its end. -/
theorem within_flatMap_spell {lines : List Line} {opened inner : List (List Char)}
    (hlines : ∀ l ∈ lines, l.IsWritable) (henter : enterAll opened lines = .ok inner) :
    Transcript.within opened (lines.flatMap Line.spell) = ⟨lines.flatMap Line.events, none⟩ := by
  -- Every line leaves other elements open, so the induction is for all open elements.
  induction lines generalizing opened with
  | nil =>
    rw [List.flatMap_nil, Transcript.within]
    rfl
  | cons l ls ih =>
    cases hl : l.markup.event.enter opened with
    | error f =>
      rw [enterAll, List.foldlM_cons, hl] at henter
      cases henter
    | ok next =>
      rw [enterAll, List.foldlM_cons, hl] at henter
      have hrest := ih (fun k hk => hlines k (List.mem_cons_of_mem _ hk)) henter
      rw [List.flatMap_cons, Line.within_spell (hlines l List.mem_cons_self) hl, hrest]
      rfl

/-! ### Content -/

/-- Lines that are read as they are written and close every element they open, and no other
    one. -/
structure IsContent (lines : List Line) : Prop where
  writable : ∀ l ∈ lines, l.IsWritable
  balanced : ∀ opened, enterAll opened lines = .ok opened

namespace IsContent

theorem nil : IsContent [] := ⟨by simp, fun _ => rfl⟩

theorem append {ks ls : List Line} (hks : IsContent ks) (hls : IsContent ls) :
    IsContent (ks ++ ls) where
  writable l hl := (List.mem_append.mp hl).elim (hks.writable l) (hls.writable l)
  balanced opened := by
    have hfirst := hks.balanced opened
    rw [enterAll] at hfirst
    rw [enterAll, List.foldlM_append, hfirst]
    exact hls.balanced opened

theorem flatMap {α : Type} {xs : List α} {f : α → List Line} (h : ∀ x ∈ xs, IsContent (f x)) :
    IsContent (xs.flatMap f) := by
  induction xs with
  | nil => exact nil
  | cons x xs ih =>
    rw [List.flatMap_cons]
    exact (h x List.mem_cons_self).append (ih fun y hy => h y (List.mem_cons_of_mem _ hy))

/-- A line that opens and closes nothing. -/
theorem singleton {l : Line} (hl : l.IsWritable)
    (henter : ∀ opened, l.markup.event.enter opened = .ok opened) : IsContent [l] where
  writable := by simpa using hl
  balanced opened := by
    rw [enterAll, List.foldlM_cons, henter]
    rfl

/-- Content between the tags of an element. -/
theorem between {gap gap' name : String} {attributes : List (String × String)}
    {content : List Line} (hgap : ∀ c ∈ gap.toList, isTextChar c)
    (hgap' : ∀ c ∈ gap'.toList, isTextChar c) (hname : IsWord name)
    (hattributes : AreAttributes attributes) (hcontent : IsContent content) :
    IsContent (⟨gap, .start name attributes⟩ :: (content ++ [⟨gap', .close name⟩])) where
  writable l hl := by
    rcases List.mem_cons.mp hl with rfl | hl
    · exact ⟨hgap, hname, hattributes⟩
    · rcases List.mem_append.mp hl with hl | hl
      · exact hcontent.writable l hl
      · rw [List.mem_singleton.mp hl]
        exact ⟨hgap', hname⟩
  balanced opened := by
    -- The first line puts the name on top of the open elements, and the last one takes it off.
    have hinner := hcontent.balanced (name.toList :: opened)
    have hstart : (Event.start (Tag.written name attributes)).enter opened =
        .ok (name.toList :: opened) := by
      rw [Event.enter, name_written hname]
    have hclose : (Event.close name.toList).enter (name.toList :: opened) = .ok opened := by
      rw [Event.enter, if_pos rfl]
    rw [enterAll] at hinner
    rw [enterAll, List.foldlM_cons]
    show (Event.start _).enter opened >>= _ = _
    rw [hstart]
    show List.foldlM _ (name.toList :: opened) (content ++ _) = _
    rw [List.foldlM_append, hinner]
    show (Event.close name.toList).enter (name.toList :: opened) >>= _ = _
    rw [hclose]
    rfl

end IsContent

/-- The lines of an element, with the same running text before both tags; without content it
    has one tag. -/
def element (gap name : String) (attributes : List (String × String)) (content : List Line) :
    List Line :=
  if content = [] then [⟨gap, .empty name attributes⟩]
  else ⟨gap, .start name attributes⟩ :: (content ++ [⟨gap, .close name⟩])

theorem IsContent.element {gap name : String} {attributes : List (String × String)}
    {content : List Line} (hgap : ∀ c ∈ gap.toList, isTextChar c) (hname : IsWord name)
    (hattributes : AreAttributes attributes) (hcontent : IsContent content) :
    IsContent (element gap name attributes content) := by
  rw [Xml.element]
  by_cases hempty : content = []
  · rw [if_pos hempty]
    exact singleton ⟨hgap, hname, hattributes⟩ fun _ => rfl
  · rw [if_neg hempty]
    exact between hgap hgap hname hattributes hcontent

/-- A whole text is read as the events of its lines. Its first line has no running text
    before it, so that no byte order mark is taken for one. -/
theorem Transcript.ofText_written {lines : List Line} (h : IsContent lines)
    (hfirst : ∃ l ls, lines = l :: ls ∧ l.gap = "") :
    Transcript.ofText (String.ofList (lines.flatMap Line.spell)) =
      ⟨lines.flatMap Line.events, none⟩ := by
  have hwithin := within_flatMap_spell h.writable (h.balanced [])
  -- The text begins with a bracket, so that nothing is dropped from its start.
  obtain ⟨l, ls, rfl, hgap⟩ := hfirst
  obtain ⟨cs, hcs⟩ := l.markup.spell_eq_cons
  have hstart : (l :: ls).flatMap Line.spell = '<' :: (cs ++ ls.flatMap Line.spell) := by
    rw [List.flatMap_cons, Line.spell, hgap, hcs]
    rfl
  rw [hstart] at hwithin ⊢
  rw [Transcript.ofText, String.toList_ofList]
  exact hwithin

end TaggedUnion.Xml
