import TaggedUnion.Proofs.Xml.WrittenText

/-! # What an event is read from

    An event is read from the characters up to its end, and what follows them does not matter:

    * **`IsLocal`**: a reader that takes a piece off the start of a text and would take the same
      piece whatever followed it.
    * **`Event.next_local`**: the event reader is local. Only running text ends where something
      else begins, so that there markup or the end of the text has to follow.
    * **`Event.next_eq_error_of_cut`**: markup that is cut anywhere in between is a fault.

    The one place where a reader looks ahead is the subset of a document type declaration, and
    there it looks no further than the next `>`, which belongs to the declaration.
-/

namespace TaggedUnion.Xml

/-! ### Splitting -/

/-- Whether a mark follows is decided by as many characters as it has. -/
theorem after?_append {mark cs : List Char} (h : mark.length ≤ cs.length) (rest : List Char) :
    after? mark (cs ++ rest) = (after? mark cs).map (· ++ rest) := by
  induction mark generalizing cs with
  | nil => rfl
  | cons m mark ih =>
    cases cs with
    | nil => simp at h
    | cons c cs =>
      rw [List.cons_append, after?, after?]
      by_cases hc : m = c
      · rw [if_pos hc, if_pos hc, ih (by simpa using h)]
      · rw [if_neg hc, if_neg hc]
        rfl

/-- The first place of a mark is the same whatever follows it. -/
theorem splitOn?_append {mark cs : List Char} {p : List Char × List Char}
    (h : splitOn? mark cs = some p) (hmark : mark ≠ []) (rest : List Char) :
    splitOn? mark (p.1 ++ mark ++ rest) = some (p.1, rest) := by
  obtain ⟨m, ms, rfl⟩ := List.exists_cons_of_ne_nil hmark
  induction cs generalizing p with
  | nil => cases h
  | cons c cs ih =>
    rw [splitOn?] at h
    cases hafter : after? (m :: ms) (c :: cs) with
    | some tail =>
      rw [hafter] at h
      obtain rfl := Option.some.inj h
      have hself : after? (m :: ms) (m :: (ms ++ rest)) = some rest :=
        after?_self (m :: ms) rest
      rw [List.nil_append, List.cons_append, splitOn?, hself]
    | none =>
      rw [hafter] at h
      obtain ⟨q, hq, rfl⟩ := Option.map_eq_some_iff.mp h
      -- The mark does not stand at the start, and what follows its first place cannot help it.
      have hlength : (m :: ms).length ≤ (c :: q.1 ++ (m :: ms)).length := by
        rw [List.length_append]
        exact Nat.le_add_left _ _
      have hstart : after? (m :: ms) (c :: q.1 ++ (m :: ms)) = none := by
        have hlonger := after?_append hlength q.2
        rw [List.cons_append, List.cons_append, ← eq_of_splitOn? hq, hafter] at hlonger
        exact Option.map_eq_none_iff.mp hlonger.symm
      have hother : after? (m :: ms) (c :: (q.1 ++ (m :: ms) ++ rest)) = none := by
        have hlonger := after?_append hlength rest
        rw [hstart] at hlonger
        exact hlonger
      show splitOn? (m :: ms) (c :: (q.1 ++ (m :: ms) ++ rest)) = _
      rw [splitOn?, hother, ih hq]
      rfl

/-! ### Local readers -/

/-- A reader takes a piece off the start of a text, and takes the same piece, with the same
    result, whatever follows it. -/
def IsLocal {α : Type} (reader : List Char → Except Fault (α × List Char)) : Prop :=
  ∀ cs p, reader cs = .ok p →
    ∃ read, cs = read ++ p.2 ∧ ∀ rest, reader (read ++ rest) = .ok (p.1, rest)

namespace IsLocal

variable {α β : Type} {reader : List Char → Except Fault (α × List Char)}

theorem map (h : IsLocal reader) (f : α → β) :
    IsLocal fun cs => (reader cs).map fun p => (f p.1, p.2) := by
  intro cs p hp
  obtain ⟨q, hq, rfl⟩ := exists_of_map_ok hp
  obtain ⟨read, hcs, hread⟩ := h cs q hq
  refine ⟨read, hcs, ?_⟩
  intro rest
  simp only [hread rest]
  rfl

/-- A local reader that finds nothing in the empty text reads the first character of a text. -/
theorem exists_cons (h : IsLocal reader) (hnil : ∀ p, reader [] ≠ .ok p) {c : Char}
    {cs : List Char} {p : α × List Char} (hp : reader (c :: cs) = .ok p) :
    ∃ read, cs = read ++ p.2 ∧ ∀ rest, reader (c :: (read ++ rest)) = .ok (p.1, rest) := by
  obtain ⟨read, hcs, hread⟩ := h (c :: cs) p hp
  cases read with
  | nil => exact absurd (hread []) (hnil _)
  | cons d read =>
    obtain ⟨rfl, rfl⟩ := List.cons.inj hcs
    exact ⟨read, rfl, hread⟩

end IsLocal

theorem isLocal_tagEnd (open? : Option Char) : IsLocal (tagEnd open?) := by
  intro cs
  -- Every character may open or close a quote, so the induction is for every open quote.
  induction cs generalizing open? with
  | nil =>
    intro p hp
    cases hp
  | cons c cs ih =>
    intro p hp
    rw [tagEnd] at hp
    by_cases hend : open? = none ∧ c = '>'
    · rw [if_pos hend] at hp
      obtain rfl := Except.ok.inj hp
      refine ⟨[c], rfl, ?_⟩
      intro rest
      rw [List.singleton_append, tagEnd, if_pos hend]
    · rw [if_neg hend] at hp
      obtain ⟨q, hq, rfl⟩ := exists_of_map_ok hp
      obtain ⟨read, rfl, hread⟩ := ih _ q hq
      refine ⟨c :: read, rfl, ?_⟩
      intro rest
      rw [List.cons_append, tagEnd, if_neg hend, hread]
      rfl

theorem isLocal_referenceNext : IsLocal referenceNext := by
  intro cs
  induction cs with
  | nil =>
    intro p hp
    cases hp
  | cons c cs ih =>
    intro p hp
    rw [referenceNext] at hp
    by_cases hend : c = ';'
    · rw [if_pos hend] at hp
      obtain rfl := Except.ok.inj hp
      refine ⟨[c], rfl, ?_⟩
      intro rest
      rw [List.singleton_append, referenceNext, if_pos hend]
    · rw [if_neg hend] at hp
      by_cases htext : isTextChar c
      · rw [if_pos htext] at hp
        obtain ⟨q, hq, rfl⟩ := exists_of_map_ok hp
        obtain ⟨read, rfl, hread⟩ := ih q hq
        refine ⟨c :: read, rfl, ?_⟩
        intro rest
        rw [List.cons_append, referenceNext, if_neg hend, if_pos htext, hread]
        rfl
      · rw [if_neg htext] at hp
        cases hp

theorem isLocal_commentEnd : IsLocal commentEnd := by
  intro cs p hp
  unfold commentEnd at hp
  split at hp
  · next tail =>
    split at hp
    · next body rest hsplit =>
      obtain rfl := Except.ok.inj hp
      refine ⟨'-' :: '-' :: (body ++ ['-', '-', '>']), ?_, ?_⟩
      · rw [eq_of_splitOn? hsplit]
        rfl
      · intro rest'
        have hother := splitOn?_append hsplit (by simp) rest'
        simp only [List.cons_append, commentEnd, hother]
    · cases hp
  · cases hp

theorem isLocal_cdataEnd : IsLocal cdataEnd := by
  intro cs p hp
  unfold cdataEnd at hp
  split at hp
  · next tail =>
    split at hp
    · next content rest hsplit =>
      obtain rfl := Except.ok.inj hp
      refine ⟨'[' :: 'C' :: 'D' :: 'A' :: 'T' :: 'A' :: '[' :: (content ++ [']', ']', '>']),
        ?_, ?_⟩
      · rw [eq_of_splitOn? hsplit]
        rfl
      · intro rest'
        have hother := splitOn?_append hsplit (by simp) rest'
        simp only [List.cons_append, cdataEnd, hother]
    · cases hp
  · cases hp

theorem isLocal_instructionEnd : IsLocal instructionEnd := by
  intro cs p hp
  unfold instructionEnd at hp
  split at hp
  · cases hp
  · next hstart =>
    split at hp
    · next content rest hsplit =>
      obtain rfl := Except.ok.inj hp
      refine ⟨content ++ ['?', '>'], eq_of_splitOn? hsplit, ?_⟩
      intro rest'
      have hother := splitOn?_append hsplit (by simp) rest'
      unfold instructionEnd
      split
      · next tail heq =>
        -- The text begins with its content or with the mark, and in neither case with a bracket.
        cases content with
        | nil => cases heq
        | cons c content =>
          obtain rfl : c = '>' := (List.cons.inj heq).1
          exact absurd (eq_of_splitOn? hsplit) (hstart _)
      · simp only [hother]
    · cases hp

/-! ### Document type declarations -/

/-- A word without `>` stands at the start of a text exactly if it stands before the first `>`. -/
theorem isPrefixOf_bracket {word : List Char} (hword : '>' ∉ word) (cs rest : List Char) :
    word.isPrefixOf (cs ++ '>' :: rest) = word.isPrefixOf cs := by
  induction word generalizing cs with
  | nil => rfl
  | cons w word ih =>
    obtain ⟨hw, hword⟩ := List.ne_and_not_mem_of_not_mem_cons hword
    cases cs with
    | nil => simp [List.isPrefixOf, hw.symm]
    | cons c cs => rw [List.cons_append, List.isPrefixOf, List.isPrefixOf, ih hword]

/-- Which markup begins in the subset is seen before the next `>`. -/
theorem DoctypePlace.after_bracket (place : DoctypePlace) (before : List Char) (c : Char)
    (cs rest : List Char) :
    place.after before c (cs ++ '>' :: rest) = place.after before c cs := by
  have hmarkup : DoctypePlace.ofMarkup (cs ++ '>' :: rest) = .ofMarkup cs := by
    rw [ofMarkup, ofMarkup]
    repeat rw [isPrefixOf_bracket (by decide)]
  cases place with
  | subset => rw [after, after, hmarkup]
  | head quote => cases quote <;> rfl
  | quoted quote => cases quote <;> rfl
  | markup => rfl
  | comment => rfl
  | instruction => rfl
  | tail => rfl

/-- A declaration ends at the same `>` whatever follows it. -/
theorem doctypeEnd_append {place : DoctypePlace} {before cs : List Char}
    {p : List Char × List Char} (h : doctypeEnd place before cs = some p) :
    cs = p.1 ++ '>' :: p.2 ∧
      ∀ rest, doctypeEnd place before (p.1 ++ '>' :: rest) = some (p.1, rest) := by
  induction cs generalizing place before p with
  | nil => cases h
  | cons c cs ih =>
    rw [doctypeEnd] at h
    by_cases hend : c = '>' ∧ (place = .head none ∨ place = .tail)
    · rw [if_pos hend] at h
      obtain rfl := Option.some.inj h
      refine ⟨by rw [hend.1]; rfl, ?_⟩
      intro rest
      rw [List.nil_append, doctypeEnd, if_pos ⟨rfl, hend.2⟩]
    · rw [if_neg hend] at h
      obtain ⟨q, hq, rfl⟩ := Option.map_eq_some_iff.mp h
      obtain ⟨rfl, hread⟩ := ih hq
      refine ⟨rfl, ?_⟩
      intro rest
      -- What the place behind the character depends on stands before the `>`.
      have hplace := (place.after_bracket before c q.1 rest).trans
        (place.after_bracket before c q.1 q.2).symm
      rw [List.cons_append, doctypeEnd, if_neg hend]
      simp only [hplace, hread rest, Option.map_some]

theorem isLocal_doctypeEvent : IsLocal doctypeEvent := by
  intro cs p hp
  unfold doctypeEvent at hp
  split at hp
  · cases hp
  · next content tail hend =>
    obtain ⟨rfl, hread⟩ := doctypeEnd_append hend
    -- Keyword and name are looked for in the content alone.
    by_cases hkeyword : (content.take 7).map Char.toUpper ≠ "DOCTYPE".toList
    · rw [if_pos hkeyword] at hp
      cases hp
    · rw [if_neg hkeyword] at hp
      by_cases hname : skipSpace (content.drop 7) = []
      · rw [if_pos hname] at hp
        cases hp
      · rw [if_neg hname] at hp
        obtain rfl := Except.ok.inj hp
        refine ⟨content ++ ['>'], by simp, ?_⟩
        intro rest
        rw [List.append_assoc, List.singleton_append]
        simp only [doctypeEvent, hread rest, if_neg hkeyword, if_neg hname]

/-! ### Events -/

/-- What does not begin with one of three characters is a tag. -/
theorem markupNext_of_ne {c : Char} (hmark : c ≠ '!') (hquestion : c ≠ '?') (hslash : c ≠ '/')
    (cs : List Char) :
    markupNext (c :: cs) = (tagEnd none (c :: cs)).map fun p => (.ofTag p.1, p.2) := by
  unfold markupNext
  split
  · next heq => exact absurd (List.cons.inj heq).1 hmark
  · next heq => exact absurd (List.cons.inj heq).1 hquestion
  · next heq => exact absurd (List.cons.inj heq).1 hslash
  · rfl

/-- Behind `<!` the next character says which reader goes on. -/
theorem isLocal_markupNext_mark : IsLocal fun cs => markupNext ('!' :: cs) := by
  intro cs p hp
  simp only [markupNext] at hp
  split at hp
  · obtain ⟨read, rfl, hread⟩ := isLocal_cdataEnd.exists_cons (fun _ h => by cases h) hp
    exact ⟨'[' :: read, rfl, hread⟩
  · obtain ⟨read, rfl, hread⟩ := isLocal_commentEnd.exists_cons (fun _ h => by cases h) hp
    exact ⟨'-' :: read, rfl, hread⟩
  · obtain ⟨read, rfl, hread⟩ := isLocal_doctypeEvent.exists_cons (fun _ h => by cases h) hp
    exact ⟨'D' :: read, rfl, hread⟩
  · obtain ⟨read, rfl, hread⟩ := isLocal_doctypeEvent.exists_cons (fun _ h => by cases h) hp
    exact ⟨'d' :: read, rfl, hread⟩
  · cases hp

/-- What follows `<` is read by its first character, and the reader that goes on is local. -/
theorem isLocal_markupNext : IsLocal markupNext := by
  intro cs p hp
  cases cs with
  | nil => cases hp
  | cons c cs =>
    by_cases hmark : c = '!'
    · subst hmark
      obtain ⟨read, rfl, hread⟩ := isLocal_markupNext_mark cs p hp
      exact ⟨'!' :: read, rfl, hread⟩
    · by_cases hquestion : c = '?'
      · subst hquestion
        obtain ⟨read, rfl, hread⟩ := isLocal_instructionEnd cs p hp
        exact ⟨'?' :: read, rfl, hread⟩
      · by_cases hslash : c = '/'
        · subst hslash
          have hlocal := (isLocal_tagEnd none).map fun content => Event.close (closingName content)
          obtain ⟨read, rfl, hread⟩ := hlocal cs p hp
          exact ⟨'/' :: read, rfl, hread⟩
        · rw [markupNext_of_ne hmark hquestion hslash] at hp
          have hlocal := (isLocal_tagEnd none).map Event.ofTag
          obtain ⟨read, rfl, hread⟩ := hlocal.exists_cons (fun _ h => by cases h) hp
          refine ⟨c :: read, rfl, ?_⟩
          intro rest
          rw [List.cons_append, markupNext_of_ne hmark hquestion hslash]
          exact hread rest

/-- The text ends, or begins with markup or a reference. -/
def StartsMarkup (cs : List Char) : Prop := ∀ c ∈ cs.head?, isTextChar c = false

theorem startsMarkup_nil : StartsMarkup [] := by simp [StartsMarkup]

theorem startsMarkup_bracket (cs : List Char) : StartsMarkup ('<' :: cs) := by
  simp [StartsMarkup, isTextChar]

/-- Only the beginning counts. -/
theorem StartsMarkup.of_append {read rest rest' : List Char} (h : StartsMarkup (read ++ rest))
    (hrest : StartsMarkup rest') : StartsMarkup (read ++ rest') := by
  cases read with
  | nil => exact hrest
  | cons c read => exact h

/-- What is left of running text begins with markup. -/
theorem startsMarkup_dropWhile (cs : List Char) : StartsMarkup (cs.dropWhile isTextChar) := by
  intro c hc
  have hstart := List.head?_dropWhile_not isTextChar cs
  rw [hc] at hstart
  exact hstart

/-- Running text is read up to where something else begins. -/
theorem next_running {c : Char} {cs : List Char} (h : ∀ d ∈ c :: cs, isTextChar d)
    {rest : List Char} (hrest : StartsMarkup rest) :
    Event.next (c :: cs ++ rest) = some (.ok (.text (c :: cs), rest)) := by
  have hc : isTextChar c := h c List.mem_cons_self
  have hcs : ∀ d ∈ cs, isTextChar d := fun d hd => h d (List.mem_cons_of_mem _ hd)
  have hspan : rest.takeWhile isTextChar = [] ∧ rest.dropWhile isTextChar = rest := by
    cases rest with
    | nil => exact ⟨rfl, rfl⟩
    | cons d rest => simp [hrest d rfl]
  rw [List.cons_append]
  unfold Event.next
  split
  · next heq => cases heq
  · next heq =>
    rw [(List.cons.inj heq).1] at hc
    cases hc
  · next heq =>
    rw [(List.cons.inj heq).1] at hc
    cases hc
  · next heq =>
    cases heq
    rw [List.takeWhile_append_of_pos hcs, List.dropWhile_append_of_pos hcs, hspan.1, hspan.2,
      List.append_nil]

/-- An event is read from the characters up to its end, whatever follows them. Only behind
    running text something else has to begin. -/
theorem Event.next_local {cs rest : List Char} {e : Event}
    (h : Event.next cs = some (.ok (e, rest))) :
    ∃ read, read ≠ [] ∧ cs = read ++ rest ∧ (StartsMarkup cs ∨ StartsMarkup rest) ∧
      ∀ rest', StartsMarkup cs ∨ StartsMarkup rest' →
        Event.next (read ++ rest') = some (.ok (e, rest')) := by
  unfold Event.next at h
  split at h
  · cases h
  · next cs =>
    obtain ⟨read, rfl, hread⟩ := isLocal_markupNext cs (e, rest) (Option.some.inj h)
    exact ⟨'<' :: read, by simp, rfl, .inl (startsMarkup_bracket _),
      fun rest' _ => congrArg some (hread rest')⟩
  · next cs =>
    have hlocal := isLocal_referenceNext.map Event.reference
    obtain ⟨read, rfl, hread⟩ := hlocal cs (e, rest) (Option.some.inj h)
    exact ⟨'&' :: read, by simp, rfl, .inl (by simp [StartsMarkup, isTextChar]),
      fun rest' _ => congrArg some (hread rest')⟩
  · next c cs hbracket hampersand =>
    simp only [Option.some.injEq, Except.ok.injEq, Prod.mk.injEq] at h
    obtain ⟨rfl, rfl⟩ := h
    have hc : isTextChar c := by simpa [isTextChar] using ⟨hbracket, hampersand⟩
    have htext : ∀ d ∈ c :: cs.takeWhile isTextChar, isTextChar d := by
      intro d hd
      rcases List.mem_cons.mp hd with rfl | hd
      · exact hc
      · exact List.all_eq_true.mp List.all_takeWhile d hd
    refine ⟨c :: cs.takeWhile isTextChar, by simp, ?_, .inr (startsMarkup_dropWhile cs), ?_⟩
    · rw [List.cons_append, List.takeWhile_append_dropWhile]
    · intro rest' hrest'
      -- The text begins with running text, so that it is what follows that starts with markup.
      have hstart : ¬ StartsMarkup (c :: cs) := fun hstart => by
        rw [hstart c rfl] at hc
        cases hc
      exact next_running htext (hrest'.resolve_left hstart)

/-- Only running text is read where no markup begins. -/
theorem startsMarkup_of_next {cs rest : List Char} {e : Event}
    (h : Event.next cs = some (.ok (e, rest))) (htext : ∀ content, e ≠ .text content) :
    StartsMarkup cs := by
  unfold Event.next at h
  split at h
  · exact startsMarkup_nil
  · exact startsMarkup_bracket _
  · simp [StartsMarkup, isTextChar]
  · cases h
    exact absurd rfl (htext _)

/-- Only the empty text has no event. -/
theorem Event.eq_nil_of_next {cs : List Char} (h : Event.next cs = none) : cs = [] := by
  unfold Event.next at h
  split at h
  · rfl
  all_goals cases h

/-- Markup or a reference that is cut anywhere in between cannot be read: what is left of it is
    no event of its own, for then the whole would be read as that event, too. -/
theorem Event.next_eq_error_of_cut {kept lost rest : List Char} {e : Event}
    (h : Event.next (kept ++ (lost ++ rest)) = some (.ok (e, rest)))
    (hmarkup : StartsMarkup (kept ++ (lost ++ rest))) (hkept : kept ≠ []) (hlost : lost ≠ []) :
    ∃ f, Event.next kept = some (.error f) := by
  cases hnext : Event.next kept with
  | none => exact absurd (Event.eq_nil_of_next hnext) hkept
  | some outcome =>
    cases outcome with
    | error f => exact ⟨f, rfl⟩
    | ok p =>
      obtain ⟨read, -, hsplit, -, hread⟩ := Event.next_local hnext
      have hstart : StartsMarkup kept := by
        obtain ⟨c, cs, rfl⟩ := List.exists_cons_of_ne_nil hkept
        exact hmarkup
      have hwhole := hread (p.2 ++ (lost ++ rest)) (.inl hstart)
      rw [← List.append_assoc, ← hsplit, h] at hwhole
      -- The whole leaves `rest`, but the event of the kept part would leave more.
      obtain ⟨-, hrest⟩ := Prod.mk.inj (Except.ok.inj (Option.some.inj hwhole))
      have hlength := congrArg List.length hrest
      have hpos : 0 < lost.length := List.length_pos_iff.mpr hlost
      simp only [List.length_append] at hlength
      omega

end TaggedUnion.Xml
