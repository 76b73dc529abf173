import TaggedUnion.Xml.Escape
import TaggedUnion.Xml.Tag

/-! # Events

    A text is read as a list of events, and reading ends at its end or at the first fault:

    * **`Event.next`** reads the event at the start of a text, by its first characters
      alone.
    * **`Event.enter`** keeps the names of the open elements: an end tag must name the
      innermost one. Elements still open at the end of the text are no fault.
    * **`Transcript`** is the list of events with the fault that ended it, if any.

    White space is kept in every text event; who reads the events decides whether it
    matters.
-/

namespace TaggedUnion.Xml

/-- One piece of marked-up text. -/
inductive Event where
  /-- A start tag: it opens an element. -/
  | start (tag : Tag)
  /-- An empty-element tag: an element without content. -/
  | empty (tag : Tag)
  /-- An end tag: it closes the innermost open element. -/
  | close (name : List Char)
  /-- Text up to the next markup or reference. -/
  | text (content : List Char)
  /-- A CDATA section. -/
  | cdata (content : List Char)
  /-- A reference in running text, by the name between `&` and `;`. -/
  | reference (name : List Char)
  /-- A comment. -/
  | comment
  /-- A processing instruction or the declaration at the head of a document. -/
  | instruction
  /-- A document type declaration. -/
  | doctype
deriving Repr, DecidableEq

/-! ### The ends of constructs -/

/-- The quote that is open behind a character. -/
def quoteAfter (open? : Option Char) (c : Char) : Option Char :=
  match open? with
  | none => if isQuote c then some c else none
  | some q => if c = q then none else some q

/-- The fault of a tag whose text ends inside the quote `open?` or outside of quotes. -/
def tagFault (open? : Option Char) : Fault :=
  match open? with
  | none => .unclosed .tag
  | some q => .unclosed (if q = '"' then .doubleQuoted else .singleQuoted)

/-- Splits the text of a tag at the `>` that ends it, one that stands in no quotes. `open?`
    is the quote that is open where the text begins. -/
def tagEnd (open? : Option Char) : List Char → Except Fault (List Char × List Char)
  | [] => .error (tagFault open?)
  | c :: cs =>
    if open? = none ∧ c = '>' then .ok ([], cs)
    else (tagEnd (quoteAfter open? c) cs).map fun p => (c :: p.1, p.2)

/-- Where a document type declaration is being read. -/
inductive DoctypePlace where
  /-- Before the internal subset, in a quote or outside of quotes. -/
  | head (quote : Option Char)
  /-- In the internal subset, between its declarations. -/
  | subset
  /-- In a declaration of the subset whose quotes count. -/
  | quoted (quote : Option Char)
  /-- In any other markup of the subset; it reaches up to the next `>`. -/
  | markup
  /-- In a comment of the subset. -/
  | comment
  /-- In a processing instruction of the subset. -/
  | instruction
  /-- Behind the internal subset. -/
  | tail
deriving Repr, DecidableEq

/-- The place that a `<` in the subset leads to, by what follows it. -/
def DoctypePlace.ofMarkup (cs : List Char) : DoctypePlace :=
  if ['!', '-', '-'].isPrefixOf cs then .comment
  else if ['?'].isPrefixOf cs then .instruction
  else if "!ENTITY".toList.isPrefixOf cs || "!ATTLIST".toList.isPrefixOf cs
      || "!NOTATION".toList.isPrefixOf cs then .quoted none
  else .markup

/-- The place behind a character `c` that does not end the declaration, where `before`
    holds the characters of the markup read before it, latest first, and `cs` follows. -/
def DoctypePlace.after (place : DoctypePlace) (before : List Char) (c : Char)
    (cs : List Char) : DoctypePlace :=
  match place with
  | .head none => if c = '[' then .subset else .head (quoteAfter none c)
  | .head q => .head (quoteAfter q c)
  | .subset => if c = ']' then .tail else if c = '<' then .ofMarkup cs else .subset
  | .quoted none => if c = '>' then .subset else .quoted (quoteAfter none c)
  | .quoted q => .quoted (quoteAfter q c)
  | .markup => if c = '>' then .subset else .markup
  | .comment =>
    if c = '>' ∧ ['-', '-'].isPrefixOf before ∧ 5 ≤ before.length then .subset else .comment
  | .instruction =>
    if c = '>' ∧ ['?'].isPrefixOf before ∧ 2 ≤ before.length then .subset else .instruction
  | .tail => .tail

/-- Splits the text of a document type declaration at the `>` that ends it. -/
def doctypeEnd (place : DoctypePlace) (before : List Char) :
    List Char → Option (List Char × List Char)
  | [] => none
  | c :: cs =>
    if c = '>' ∧ (place = .head none ∨ place = .tail) then some ([], cs)
    else
      let next := place.after before c cs
      let before := if next = .subset ∨ place = .subset then [] else c :: before
      (doctypeEnd next before cs).map fun p => (c :: p.1, p.2)

/-! ### One event -/

/-- Reads what follows `<!` up to the end of a comment. The two hyphens that begin it are
    no part of its end. -/
def commentEnd (cs : List Char) : Except Fault (Event × List Char) :=
  match cs with
  | '-' :: '-' :: cs =>
    match splitOn? ['-', '-', '>'] cs with
    | some (_, rest) => .ok (.comment, rest)
    | none => .error (.unclosed .comment)
  | _ => .error (.unclosed .comment)

/-- Reads what follows `<!` up to the end of a CDATA section. -/
def cdataEnd (cs : List Char) : Except Fault (Event × List Char) :=
  match cs with
  | '[' :: 'C' :: 'D' :: 'A' :: 'T' :: 'A' :: '[' :: cs =>
    match splitOn? [']', ']', '>'] cs with
    | some (content, rest) => .ok (.cdata content, rest)
    | none => .error (.unclosed .cdata)
  | _ => .error (.unclosed .cdata)

/-- Reads what follows `<!` up to the end of a document type declaration. Its keyword is
    read without regard to case, and a name has to follow it. -/
def doctypeEvent (cs : List Char) : Except Fault (Event × List Char) :=
  match doctypeEnd (.head none) [] cs with
  | none => .error (.unclosed .doctype)
  | some (content, rest) =>
    if (content.take 7).map Char.toUpper ≠ "DOCTYPE".toList then .error (.unclosed .doctype)
    else if skipSpace (content.drop 7) = [] then .error .missingDoctypeName
    else .ok (.doctype, rest)

/-- An instruction that begins with `xml` as a word of its own is the declaration of the
    document. -/
def isDeclaration (cs : List Char) : Bool :=
  match after? ['x', 'm', 'l'] cs with
  | some [] => true
  | some (c :: _) => isSpace c || c == '?'
  | none => false

/-- Reads what follows `<?`. -/
def instructionEnd (cs : List Char) : Except Fault (Event × List Char) :=
  match cs with
  | '>' :: _ => .error (.unclosed .instruction)
  | _ =>
    match splitOn? ['?', '>'] cs with
    | some (_, rest) => .ok (.instruction, rest)
    | none => .error (.unclosed (if isDeclaration cs then .declaration else .instruction))

/-- A list without the trailing blanks. -/
def dropTrailingSpace (cs : List Char) : List Char := (cs.reverse.dropWhile isSpace).reverse

/-- The name in an end tag with a given text: blanks behind it are no part of it, and where
    there is nothing but blanks they are the name. -/
def closingName (content : List Char) : List Char :=
  if content.all isSpace then content else dropTrailingSpace content

/-- The tag with a given text: a slash at the very end makes its element empty. -/
def Event.ofTag (content : List Char) : Event :=
  match content.reverse with
  | '/' :: shorter => .empty ⟨shorter.reverse⟩
  | _ => .start ⟨content⟩

/-- Reads what follows `<`. -/
def markupNext (cs : List Char) : Except Fault (Event × List Char) :=
  match cs with
  | '!' :: cs =>
    match cs with
    | '[' :: _ => cdataEnd cs
    | '-' :: _ => commentEnd cs
    | 'D' :: _ | 'd' :: _ => doctypeEvent cs
    | _ => .error .unknownMarkup
  | '?' :: cs => instructionEnd cs
  | '/' :: cs => (tagEnd none cs).map fun p => (.close (closingName p.1), p.2)
  | cs => (tagEnd none cs).map fun p => (.ofTag p.1, p.2)

/-- The characters of running text. -/
def isTextChar (c : Char) : Bool := c != '<' && c != '&'

/-- Splits the text behind `&` at the semicolon that ends the reference; other markup or
    another reference before it is a fault. -/
def referenceNext : List Char → Except Fault (List Char × List Char)
  | [] => .error .unclosedReference
  | c :: cs =>
    if c = ';' then .ok ([], cs)
    else if isTextChar c then (referenceNext cs).map fun p => (c :: p.1, p.2)
    else .error .unclosedReference

/-- Reads the event at the start of a text; `none` at its end. -/
def Event.next (cs : List Char) : Option (Except Fault (Event × List Char)) :=
  match cs with
  | [] => none
  | '<' :: cs => some (markupNext cs)
  | '&' :: cs => some ((referenceNext cs).map fun p => (.reference p.1, p.2))
  | c :: cs => some (.ok (.text (c :: cs.takeWhile isTextChar), cs.dropWhile isTextChar))

/-! ### Progress -/

/-- A mapped result that succeeds comes from one that succeeds. -/
theorem exists_of_map_ok {α β : Type} {x : Except Fault α} {f : α → β} {b : β}
    (h : x.map f = .ok b) : ∃ a, x = .ok a ∧ f a = b := by
  cases x with
  | error e => simp [Except.map] at h
  | ok a => exact ⟨a, rfl, by simpa [Except.map] using h⟩

theorem length_of_tagEnd {open? : Option Char} {cs : List Char} {p : List Char × List Char}
    (h : tagEnd open? cs = .ok p) : p.2.length < cs.length := by
  induction cs generalizing open? p with
  | nil => simp [tagEnd] at h
  | cons c cs ih =>
    unfold tagEnd at h
    split at h
    · simp only [Except.ok.injEq] at h
      simp [← h]
    · obtain ⟨q, hq, rfl⟩ := exists_of_map_ok h
      have := ih hq
      simp only [List.length_cons]
      omega

theorem length_of_doctypeEnd {place : DoctypePlace} {before cs : List Char}
    {p : List Char × List Char} (h : doctypeEnd place before cs = some p) :
    p.2.length < cs.length := by
  induction cs generalizing place before p with
  | nil => simp [doctypeEnd] at h
  | cons c cs ih =>
    unfold doctypeEnd at h
    split at h
    · simp only [Option.some.injEq] at h
      simp [← h]
    · simp only [Option.map_eq_some_iff] at h
      obtain ⟨q, hq, rfl⟩ := h
      have := ih hq
      simp only [List.length_cons]
      omega

theorem length_of_referenceNext {cs : List Char} {p : List Char × List Char}
    (h : referenceNext cs = .ok p) : p.2.length < cs.length := by
  induction cs generalizing p with
  | nil => simp [referenceNext] at h
  | cons c cs ih =>
    unfold referenceNext at h
    split at h
    · simp only [Except.ok.injEq] at h
      simp [← h]
    · split at h
      · obtain ⟨q, hq, rfl⟩ := exists_of_map_ok h
        have := ih hq
        simp only [List.length_cons]
        omega
      · simp at h

theorem length_of_commentEnd {cs : List Char} {p : Event × List Char}
    (h : commentEnd cs = .ok p) : p.2.length ≤ cs.length := by
  unfold commentEnd at h
  split at h
  · next tail =>
    split at h
    · next body rest hs =>
      have := length_of_splitOn? hs
      simp only [Except.ok.injEq] at h
      simp only [← h, List.length_cons] at this ⊢
      omega
    · simp at h
  · simp at h

theorem length_of_cdataEnd {cs : List Char} {p : Event × List Char}
    (h : cdataEnd cs = .ok p) : p.2.length ≤ cs.length := by
  unfold cdataEnd at h
  split at h
  · next tail =>
    split at h
    · next body rest hs =>
      have := length_of_splitOn? hs
      simp only [Except.ok.injEq] at h
      simp only [← h, List.length_cons] at this ⊢
      omega
    · simp at h
  · simp at h

theorem length_of_doctypeEvent {cs : List Char} {p : Event × List Char}
    (h : doctypeEvent cs = .ok p) : p.2.length ≤ cs.length := by
  unfold doctypeEvent at h
  split at h
  · simp at h
  · next content rest hs =>
    have := length_of_doctypeEnd hs
    split at h
    · simp at h
    · split at h
      · simp at h
      · simp only [Except.ok.injEq] at h
        simp only [← h] at this ⊢
        omega

theorem length_of_instructionEnd {cs : List Char} {p : Event × List Char}
    (h : instructionEnd cs = .ok p) : p.2.length ≤ cs.length := by
  unfold instructionEnd at h
  split at h
  · simp at h
  · split at h
    · next body rest hs =>
      have := length_of_splitOn? hs
      simp only [Except.ok.injEq] at h
      simp only [← h] at this ⊢
      exact this
    · simp at h

theorem length_of_markupNext {cs : List Char} {p : Event × List Char}
    (h : markupNext cs = .ok p) : p.2.length ≤ cs.length := by
  unfold markupNext at h
  split at h
  · split at h
    · exact Nat.le_succ_of_le (length_of_cdataEnd h)
    · exact Nat.le_succ_of_le (length_of_commentEnd h)
    · exact Nat.le_succ_of_le (length_of_doctypeEvent h)
    · exact Nat.le_succ_of_le (length_of_doctypeEvent h)
    · simp at h
  · exact Nat.le_succ_of_le (length_of_instructionEnd h)
  · obtain ⟨q, hq, rfl⟩ := exists_of_map_ok h
    exact Nat.le_of_lt (Nat.lt_succ_of_lt (length_of_tagEnd hq))
  · obtain ⟨q, hq, rfl⟩ := exists_of_map_ok h
    exact Nat.le_of_lt (length_of_tagEnd hq)

/-- Reading an event takes at least one character. -/
theorem Event.length_of_next {cs : List Char} {e : Event} {rest : List Char}
    (h : Event.next cs = some (.ok (e, rest))) : rest.length < cs.length := by
  unfold Event.next at h
  split at h
  · simp at h
  · simp only [Option.some.injEq] at h
    exact Nat.lt_succ_of_le (length_of_markupNext h)
  · next tail =>
    simp only [Option.some.injEq] at h
    obtain ⟨q, hq, hr⟩ := exists_of_map_ok h
    have := length_of_referenceNext hq
    simp only [Prod.mk.injEq] at hr
    simp only [← hr.2, List.length_cons]
    omega
  · next c tail _ _ =>
    simp only [Option.some.injEq, Except.ok.injEq, Prod.mk.injEq] at h
    have := length_dropWhile_le isTextChar tail
    simp only [← h.2, List.length_cons]
    omega

/-! ### Open elements -/

/-- The names of the open elements behind an event, innermost first, from the names before
    it. -/
def Event.enter (opened : List (List Char)) : Event → Except Fault (List (List Char))
  | .start tag => .ok (tag.name :: opened)
  | .close name =>
    match opened with
    | [] => .error (.strayEnd (String.ofList name))
    | o :: outer =>
      if o = name then .ok outer
      else .error (.wrongEnd (String.ofList o) (String.ofList name))
  | _ => .ok opened

/-! ### Whole texts -/

/-- The events of a text in order, up to its end or to the fault that stops reading. -/
structure Transcript where
  /-- The events before the end. -/
  events : List Event
  /-- What stopped reading, or `none` at the end of the text. -/
  fault : Option Fault
deriving Repr, DecidableEq

/-- A transcript with one more event before it. -/
def Transcript.cons (e : Event) (t : Transcript) : Transcript :=
  { t with events := e :: t.events }

/-- Reads the events of a text that stands inside the elements `opened`. -/
def Transcript.within (opened : List (List Char)) (cs : List Char) : Transcript :=
  match h : Event.next cs with
  | none => ⟨[], none⟩
  | some (.error f) => ⟨[], some f⟩
  | some (.ok (e, rest)) =>
    have := Event.length_of_next h
    match e.enter opened with
    | .error f => ⟨[], some f⟩
    | .ok inner => (Transcript.within inner rest).cons e
termination_by cs.length

/-- Reads the events of a whole text. One byte order mark at its very start is no part of
    it. -/
def Transcript.ofText (s : String) : Transcript :=
  match s.toList with
  | '\ufeff' :: cs => .within [] cs
  | cs => .within [] cs

end TaggedUnion.Xml
