import TaggedUnion.Proofs.Xml.Reads

/-! # Pulling events from a text

    A reader hands out the events of a text one at a time, and between two of them it can be told
    whether blanks around text matter:

    * **`Reader`**: the text that is left, the open elements, and the way text is handed out.
    * **`Reader.next`** hands out the next event. Text that is nothing but blanks is no event
      where blanks do not matter.
    * **`StaysInside`**: reading comes from one place of a text to another one and does not leave
      some elements on the way.
    * **`Pulls`**: what a pull can hand out, and what has been read behind it.
      **`Reader.pulls_of_next`**: there is nothing else that it can do.
-/

namespace TaggedUnion.Xml

/-! ### Readers -/

/-- A reader between two events of a text. -/
structure Reader where
  /-- The text that is left. -/
  rest : List Char
  /-- The names of the open elements, innermost first. -/
  opened : List (List Char)
  /-- Text is handed out without the blanks around it. -/
  trims : Bool
deriving Repr, DecidableEq

/-- The reader behind a computation, be it a success or a failure. -/
def readerBehind {ε α : Type} : EStateM.Result ε Reader α → Reader
  | .ok _ behind => behind
  | .error _ behind => behind

/-- An event without the blanks around its text; blank text is no event. -/
def Event.trimmed? : Event → Option Event
  | .text content =>
    if content.all isSpace then none else some (.text (dropTrailingSpace (skipSpace content)))
  | e => some e

namespace Reader

/-- An event as the reader hands it out, if it does. -/
def shown? (r : Reader) (e : Event) : Option Event := if r.trims then e.trimmed? else some e

/-- The next event with the reader behind it, and `none` at the end of the text. A fault leaves
    the reader where it stands. -/
def next (r : Reader) : EStateM.Result Fault Reader (Option Event) :=
  match h : Event.next r.rest with
  | none => .ok none r
  | some (.error f) => .error f r
  | some (.ok (e, rest)) =>
    have := Event.length_of_next h
    match e.enter r.opened with
    | .error f => .error f r
    | .ok opened =>
      match r.shown? e with
      | some shown => .ok (some shown) ⟨rest, opened, r.trims⟩
      | none => next ⟨rest, opened, r.trims⟩
termination_by r.rest.length

/-- Pulling an event does not change the way text is handed out. -/
theorem trims_next (r : Reader) : (readerBehind r.next).trims = r.trims := by
  fun_induction Reader.next r with
  | case1 | case2 | case3 | case4 => rfl
  | case5 r e rest hnext _ opened henter hshown ih => exact ih

/-- Only text is left out or changed, and only where trimming is on. -/
theorem shown?_cases (r : Reader) (e : Event) :
    r.shown? e = some e ∨
      r.trims = true ∧ ∃ content, e = .text content ∧
        (r.shown? e = none ∨ ∃ trimmed, r.shown? e = some (.text trimmed)) := by
  unfold shown?
  split
  · next htrims =>
    cases e with
    | text content =>
      refine .inr ⟨htrims, content, rfl, ?_⟩
      rw [Event.trimmed?]
      split
      · exact .inl rfl
      · exact .inr ⟨_, rfl⟩
    | start | empty | close | cdata | reference | comment | instruction | doctype => exact .inl rfl
  · exact .inl rfl

end Reader

/-- An end tag closes the innermost element, which has its name. -/
theorem Event.eq_cons_of_enter_close {name : List Char} {opened inner : List (List Char)}
    (h : (Event.close name).enter opened = .ok inner) : opened = name :: inner := by
  cases opened with
  | nil => cases h
  | cons o outer =>
    rw [Event.enter] at h
    by_cases hname : o = name
    · rw [if_pos hname] at h
      rw [hname, Except.ok.inj h]
    · rw [if_neg hname] at h
      cases h

/-! ### Staying inside elements -/

/-- From a text inside the elements `opened`, the reader comes to a rest inside the elements
    `inner`, and all the way the elements `base` are open. -/
inductive StaysInside (base : List (List Char)) :
    List (List Char) → List Char → List (List Char) → List Char → Prop
  | here {opened : List (List Char)} (cs : List Char) (hbase : base <:+ opened) :
      StaysInside base opened cs opened cs
  | event {opened next inner : List (List Char)} {cs cs' rest : List Char} {e : Event}
      (hbase : base <:+ opened) (hnext : Event.next cs = some (.ok (e, cs')))
      (henter : e.enter opened = .ok next) (htail : StaysInside base next cs' inner rest) :
      StaysInside base opened cs inner rest

namespace StaysInside

variable {base outer opened next inner innermost : List (List Char)} {cs cs' rest rest' : List Char}

theorem trans (h : StaysInside base opened cs inner rest)
    (h' : StaysInside base inner rest innermost rest') :
    StaysInside base opened cs innermost rest' := by
  induction h with
  | here => exact h'
  | event hbase hnext henter _ ih => exact .event hbase hnext henter (ih h')

/-- What stays inside elements stays inside those around them. -/
theorem mono (houter : outer <:+ base) (h : StaysInside base opened cs inner rest) :
    StaysInside outer opened cs inner rest := by
  induction h with
  | here cs hbase => exact .here cs (houter.trans hbase)
  | event hbase hnext henter _ ih => exact .event (houter.trans hbase) hnext henter ih

/-- The elements are open where reading has come to. -/
theorem suffix (h : StaysInside base opened cs inner rest) : base <:+ inner := by
  induction h with
  | here _ hbase => exact hbase
  | event _ _ _ _ ih => exact ih

theorem single {e : Event} (hnext : Event.next cs = some (.ok (e, rest)))
    (henter : e.enter opened = .ok inner) (hopened : base <:+ opened) (hinner : base <:+ inner) :
    StaysInside base opened cs inner rest :=
  .event hopened hnext henter (.here rest hinner)

theorem length_le (h : StaysInside base opened cs inner rest) : rest.length ≤ cs.length := by
  induction h with
  | here => exact Nat.le_refl _
  | event _ hnext _ _ ih => exact Nat.le_trans ih (Nat.le_of_lt (Event.length_of_next hnext))

end StaysInside

/-! ### What a pull reads -/

/-- What a reader can hand out, and where that leaves it. An event takes at least one
    character. -/
inductive Pulls (r r' : Reader) : Option Event → Prop
  /-- The text has ended. -/
  | atEnd (hstays : StaysInside r.opened r.opened r.rest r'.opened r'.rest) (hrest : r'.rest = [])
      (hopened : r'.opened = r.opened) : Pulls r r' none
  /-- A start tag has opened an element. -/
  | start {tag : Tag} (hlength : r'.rest.length < r.rest.length)
      (hstays : StaysInside r.opened r.opened r.rest r'.opened r'.rest)
      (hopened : r'.opened = tag.name :: r.opened) : Pulls r r' (some (.start tag))
  /-- An end tag has closed the innermost element, which has its name. -/
  | close {name cs : List Char} (hlength : r'.rest.length < r.rest.length)
      (hstays : StaysInside r.opened r.opened r.rest r.opened cs)
      (hnext : Event.next cs = some (.ok (.close name, r'.rest)))
      (hopened : r.opened = name :: r'.opened) : Pulls r r' (some (.close name))
  /-- Any other event has opened and closed nothing. -/
  | flat {e : Event} (hflat : e.isFlat) (hlength : r'.rest.length < r.rest.length)
      (hstays : StaysInside r.opened r.opened r.rest r'.opened r'.rest)
      (hopened : r'.opened = r.opened) : Pulls r r' (some e)

namespace Pulls

variable {r r' : Reader}

theorem length_lt {e? : Option Event} (h : Pulls r r' e?) (he : e?.isSome) :
    r'.rest.length < r.rest.length := by
  cases h with
  | atEnd => cases he
  | start hlength => exact hlength
  | close hlength => exact hlength
  | flat _ hlength => exact hlength

theorem of_start {tag : Tag} (h : Pulls r r' (some (.start tag))) :
    StaysInside r.opened r.opened r.rest r'.opened r'.rest ∧ r'.opened = tag.name :: r.opened := by
  cases h with
  | start _ hstays hopened => exact ⟨hstays, hopened⟩
  | flat hflat => cases hflat

theorem of_close {name : List Char} (h : Pulls r r' (some (.close name))) :
    ∃ cs, StaysInside r.opened r.opened r.rest r.opened cs ∧
      Event.next cs = some (.ok (.close name, r'.rest)) ∧ r.opened = name :: r'.opened := by
  cases h with
  | close _ hstays hnext hopened => exact ⟨_, hstays, hnext, hopened⟩
  | flat hflat => cases hflat

theorem of_flat {e : Event} (h : Pulls r r' (some e)) (hflat : e.isFlat) :
    StaysInside r.opened r.opened r.rest r'.opened r'.rest ∧ r'.opened = r.opened := by
  cases h with
  | start | close => cases hflat
  | flat _ _ hstays hopened => exact ⟨hstays, hopened⟩

end Pulls

namespace Reader

variable {r r' : Reader} {e? : Option Event} {e : Event}

/-- An event that is handed out has been read. -/
theorem pulls_of_shown {rest : List Char} {opened : List (List Char)} {shown : Event}
    (hnext : Event.next r.rest = some (.ok (e, rest))) (henter : e.enter r.opened = .ok opened)
    (hshown : r.shown? e = some shown) : Pulls r ⟨rest, opened, r.trims⟩ (some shown) := by
  have hlength := Event.length_of_next hnext
  rcases r.shown?_cases e with hsame | ⟨-, content, rfl, hnone | ⟨trimmed, htext⟩⟩
  · obtain rfl : e = shown := Option.some.inj (hsame.symm.trans hshown)
    cases e with
    | start tag =>
      cases henter
      exact .start hlength (.single hnext rfl List.suffix_rfl (List.suffix_cons ..)) rfl
    | close name =>
      have hopened := Event.eq_cons_of_enter_close henter
      exact .close hlength (.here r.rest List.suffix_rfl) hnext hopened
    | empty | text | cdata | reference | comment | instruction | doctype =>
      cases henter
      exact .flat rfl hlength (.single hnext rfl List.suffix_rfl List.suffix_rfl) rfl
  · cases hnone.symm.trans hshown
  · cases htext.symm.trans hshown
    cases henter
    exact .flat rfl hlength (.single hnext rfl List.suffix_rfl List.suffix_rfl) rfl

/-- An event that is left out is text. -/
theorem eq_text_of_left_out (h : r.shown? e = none) :
    r.trims = true ∧ ∃ content, e = .text content := by
  rcases r.shown?_cases e with hsame | ⟨htrims, content, rfl, -⟩
  · cases hsame.symm.trans h
  · exact ⟨htrims, content, rfl⟩

/-- Text that is left out lies in the same elements as the event behind it. -/
theorem pulls_of_left_out {rest content : List Char}
    (hnext : Event.next r.rest = some (.ok (.text content, rest)))
    (h : Pulls ⟨rest, r.opened, r.trims⟩ r' e?) : Pulls r r' e? := by
  have hshort := Event.length_of_next hnext
  have hstep {inner : List (List Char)} {cs : List Char}
      (h : StaysInside r.opened r.opened rest inner cs) :
      StaysInside r.opened r.opened r.rest inner cs := .event List.suffix_rfl hnext rfl h
  cases h with
  | atEnd hstays hrest hopened => exact .atEnd (hstep hstays) hrest hopened
  | start hlength hstays hopened =>
    exact .start (Nat.lt_trans hlength hshort) (hstep hstays) hopened
  | close hlength hstays hnext hopened =>
    exact .close (Nat.lt_trans hlength hshort) (hstep hstays) hnext hopened
  | flat hflat hlength hstays hopened =>
    exact .flat hflat (Nat.lt_trans hlength hshort) (hstep hstays) hopened

theorem pulls_of_next (h : r.next = .ok e? r') : Pulls r r' e? := by
  fun_induction Reader.next r with
  | case1 r hend =>
    cases h
    exact .atEnd (.here _ List.suffix_rfl) (Event.eq_nil_of_next hend) rfl
  | case2 => cases h
  | case3 => cases h
  | case4 r e rest hnext _ opened henter shown hshown =>
    cases h
    exact pulls_of_shown hnext henter hshown
  | case5 r e rest hnext _ opened henter hshown ih =>
    obtain ⟨-, content, rfl⟩ := eq_text_of_left_out hshown
    obtain rfl : r.opened = opened := Except.ok.inj henter
    exact pulls_of_left_out hnext (ih h)

end Reader

end TaggedUnion.Xml
