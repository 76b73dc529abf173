import TaggedUnion.Proofs.Xml.Locality

/-! # Reading up to a place

    A text is read event by event, and what has been read does not depend on what follows:

    * **`openBehind`**: the names of the elements that are open behind events.
    * **`Reads`**: from a text inside some elements, the reader comes by way of some events to a
      rest inside others.
    * **`Reads.replace_rest`**: it comes by way of the same events to any other rest that begins
      with markup.
    * **`Transcript.exists_reads`**: a text without a fault is read up to its end.
    * **`Arrives`**: the same for a place in a whole text, with what stands before it.
-/

namespace TaggedUnion.Xml

/-! ### Open elements -/

/-- The name of a tag as text. -/
def Tag.label (t : Tag) : String := String.ofList t.name

/-- The tag that begins an element. -/
def Event.tag? : Event → Option Tag
  | .start tag | .empty tag => some tag
  | _ => none

/-- An event that opens and closes no element. -/
def Event.isFlat : Event → Bool
  | .start _ | .close _ => false
  | _ => true

/-- The names of the open elements behind an event, innermost first; an end tag closes the
    innermost one, whatever its name. -/
def Event.nest (opened : List (List Char)) : Event → List (List Char)
  | .start tag => tag.name :: opened
  | .close _ => opened.tail
  | _ => opened

/-- The names of the open elements behind events. -/
def openBehind (opened : List (List Char)) (events : List Event) : List (List Char) :=
  events.foldl Event.nest opened

theorem Event.nest_of_isFlat {e : Event} (h : e.isFlat) (opened : List (List Char)) :
    e.nest opened = opened := by
  cases e with
  | start | close => cases h
  | empty | text | cdata | reference | comment | instruction | doctype => rfl

/-- An element that no event opens has one tag. -/
theorem Event.eq_empty_of_tag? {e : Event} {tag : Tag} (h : e.isFlat) (htag : e.tag? = some tag) :
    e = .empty tag := by
  cases e with
  | empty tag' =>
    cases htag
    rfl
  | start => cases h
  | close | text | cdata | reference | comment | instruction | doctype => cases htag

/-- Where end tags have the right names, they close the element that they name. -/
theorem Event.nest_of_enter {opened inner : List (List Char)} {e : Event}
    (h : e.enter opened = .ok inner) : e.nest opened = inner := by
  cases e with
  | start tag => exact Except.ok.inj h
  | close name =>
    cases opened with
    | nil => cases h
    | cons o outer =>
      rw [Event.enter] at h
      by_cases hname : o = name
      · rw [if_pos hname] at h
        exact Except.ok.inj h
      · rw [if_neg hname] at h
        cases h
  | empty | text | cdata | reference | comment | instruction | doctype => exact Except.ok.inj h

/-! ### Reading up to a place -/

/-- Inside the elements `opened`, the reader reads `cs` as the events `es` up to `rest`, where
    the elements `inner` are open. -/
inductive Reads : List (List Char) → List Char → List Event → List (List Char) → List Char → Prop
  | here (opened : List (List Char)) (cs : List Char) : Reads opened cs [] opened cs
  | event {opened next inner : List (List Char)} {cs cs' rest : List Char} {e : Event}
      {es : List Event} (hnext : Event.next cs = some (.ok (e, cs')))
      (henter : e.enter opened = .ok next) (htail : Reads next cs' es inner rest) :
      Reads opened cs (e :: es) inner rest

namespace Reads

variable {opened inner : List (List Char)} {cs rest : List Char} {es : List Event}

theorem trans {innermost : List (List Char)} {fs : List Event} {rest' : List Char}
    (h : Reads opened cs es inner rest) (h' : Reads inner rest fs innermost rest') :
    Reads opened cs (es ++ fs) innermost rest' := by
  induction h with
  | here => exact h'
  | event hnext henter _ ih => exact .event hnext henter (ih h')

theorem inner_eq (h : Reads opened cs es inner rest) : inner = openBehind opened es := by
  induction h with
  | here => rfl
  | event _ henter _ ih => rw [ih, openBehind, openBehind, List.foldl_cons,
      Event.nest_of_enter henter]

/-- What has been read stands at the start of the transcript. -/
theorem within_eq (h : Reads opened cs es inner rest) :
    Transcript.within opened cs =
      ⟨es ++ (Transcript.within inner rest).events, (Transcript.within inner rest).fault⟩ := by
  induction h with
  | here => rfl
  | event hnext henter _ ih =>
    rw [Transcript.within_of_next hnext henter, ih]
    rfl

/-- The reader comes by way of the same events to any other rest that begins with markup. -/
theorem replace_rest (h : Reads opened cs es inner rest) :
    ∃ read, cs = read ++ rest ∧
      ∀ rest', StartsMarkup rest' → Reads opened (read ++ rest') es inner rest' := by
  induction h with
  | here opened cs => exact ⟨[], rfl, fun rest' _ => .here opened rest'⟩
  | event hnext henter _ ih =>
    obtain ⟨read, -, rfl, hstart, hread⟩ := Event.next_local hnext
    obtain ⟨read', rfl, htail⟩ := ih
    refine ⟨read ++ read', (List.append_assoc ..).symm, ?_⟩
    intro rest' hrest'
    -- Running text ends at the same character, be it read afterwards or the first of the rest.
    have hstart' := hstart.imp_right fun hstart => StartsMarkup.of_append hstart hrest'
    rw [List.append_assoc]
    exact .event (hread _ hstart') henter (htail rest' hrest')

end Reads

/-! ### Reading on -/

namespace Transcript

variable {opened : List (List Char)} {cs rest : List Char} {e : Event} {f : Fault}

theorem within_nil (opened : List (List Char)) : within opened [] = ⟨[], none⟩ := by
  rw [within]
  rfl

/-- A fault in the text ends the transcript. -/
theorem within_of_error (h : Event.next cs = some (.error f)) :
    within opened cs = ⟨[], some f⟩ := by
  rw [within]
  split
  · next heq => cases h.symm.trans heq
  · next heq => cases h.symm.trans heq; rfl
  · next heq => cases h.symm.trans heq

/-- An end tag with a wrong name ends the transcript. -/
theorem within_of_enter_error (hnext : Event.next cs = some (.ok (e, rest)))
    (henter : e.enter opened = .error f) : within opened cs = ⟨[], some f⟩ := by
  rw [within]
  split
  · next heq => cases hnext.symm.trans heq
  · next heq => cases hnext.symm.trans heq
  · next heq =>
    cases hnext.symm.trans heq
    simp only [henter]

/-- A text without a fault is read up to its end. -/
theorem exists_reads (h : (within opened cs).fault = none) :
    ∃ inner, Reads opened cs (within opened cs).events inner [] := by
  -- Every event shortens the text.
  induction hn : cs.length using Nat.strongRecOn generalizing opened cs with
  | ind n ih =>
    subst hn
    cases hnext : Event.next cs with
    | none =>
      obtain rfl := Event.eq_nil_of_next hnext
      rw [within_nil]
      exact ⟨opened, .here opened []⟩
    | some outcome =>
      cases outcome with
      | error f =>
        rw [within_of_error hnext] at h
        cases h
      | ok p =>
        cases henter : p.1.enter opened with
        | error f =>
          rw [within_of_enter_error hnext henter] at h
          cases h
        | ok next =>
          have hwithin := within_of_next hnext henter
          rw [hwithin] at h
          obtain ⟨inner, hreads⟩ := ih _ (Event.length_of_next hnext) h rfl
          rw [hwithin]
          exact ⟨inner, .event hnext henter hreads⟩

end Transcript

/-! ### Places in a whole text -/

/-- A text without the byte order mark at its start. -/
def withoutMark (cs : List Char) : List Char :=
  if cs.head? = some '\ufeff' then cs.tail else cs

theorem Transcript.ofText_ofList (cs : List Char) :
    Transcript.ofText (String.ofList cs) = .within [] (withoutMark cs) := by
  rw [ofText, String.toList_ofList]
  split
  · rfl
  · next hmark =>
    cases cs with
    | nil => rfl
    | cons c cs =>
      have hc : c ≠ '\ufeff' := fun heq => hmark cs (by rw [heq])
      simp [withoutMark, hc]

/-- A byte order mark is no markup. -/
theorem withoutMark_append {cs : List Char} (h : StartsMarkup cs) (before : List Char) :
    withoutMark (before ++ cs) = withoutMark before ++ cs := by
  cases before with
  | nil =>
    have hmark : cs.head? ≠ some '\ufeff' := fun hhead => by cases h _ hhead
    simp [withoutMark, hmark]
  | cons c before =>
    by_cases hc : c = '\ufeff'
    · simp [withoutMark, hc]
    · simp [withoutMark, hc]

/-- In the text `before ++ cs` the reader comes, by way of the events `es`, to the place where
    `cs` begins, and there the elements `opened` are open. -/
def Arrives (before : List Char) (es : List Event) (opened : List (List Char))
    (cs : List Char) : Prop :=
  Reads [] (withoutMark (before ++ cs)) es opened cs

namespace Arrives

variable {before cs : List Char} {es : List Event} {opened : List (List Char)}

/-- The reader comes to the place whatever markup begins there. -/
theorem replace_rest (h : Arrives before es opened cs) (hcs : StartsMarkup cs)
    {cs' : List Char} (hcs' : StartsMarkup cs') : Arrives before es opened cs' := by
  rw [Arrives, withoutMark_append hcs] at h
  rw [Arrives, withoutMark_append hcs']
  obtain ⟨read, hread, hother⟩ := h.replace_rest
  rw [List.append_cancel_right hread]
  exact hother cs' hcs'

theorem ofText_eq (h : Arrives before es opened cs) :
    Transcript.ofText (String.ofList (before ++ cs)) =
      ⟨es ++ (Transcript.within opened cs).events, (Transcript.within opened cs).fault⟩ := by
  rw [Transcript.ofText_ofList]
  exact Reads.within_eq h

end Arrives

end TaggedUnion.Xml
