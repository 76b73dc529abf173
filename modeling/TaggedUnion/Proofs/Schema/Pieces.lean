import TaggedUnion.Proofs.Schema.Nesting
import TaggedUnion.Proofs.Xml.Tags

/-! # Pieces of a document

    What a piece of a text contributes to the document depends on the events that are read from
    it and on the place at which it stands, and on nothing else:

    * **`State.readOn`**: the document that is read on from a state.
    * **`State.finish_eq`**: at the end of the text the definition that is open is left, and then
      the aliases are bound.
    * **`Document.read_of_arrives`**: a document is read up to a place and from there on.
    * **`Document.read_congr`**, **`Document.read_replace`**: pieces that lead to the same outcome,
      from every state at a place, may stand for each other at that place.
    * **`Document.read_passedOver`**: a piece that leaves every state at a place as it is means
      no more there than a comment.
-/

namespace TaggedUnion.Schema

open TaggedUnion.Xml (Event Transcript Reads Arrives StartsMarkup bareComment startsMarkup_bracket)

/-- The document that is read on from a state. -/
def State.readOn (s : State) (t : Transcript) : Except Error Document := do
  let s ← t.events.foldlM State.step s
  match t.fault with
  | some f => .error (.xml f)
  | none => s.finish

/-- Events that come first are read first. -/
theorem State.readOn_append (s : State) (es : List Event) (t : Transcript) :
    s.readOn ⟨es ++ t.events, t.fault⟩ = es.foldlM State.step s >>= fun s => s.readOn t := by
  rw [readOn, List.foldlM_append, bind_assoc]
  rfl

/-- The document with aliases bound in order. -/
def Document.bindAliases (d : Document) (aliases : List (String × String)) :
    Except Error Document :=
  aliases.foldlM
    (fun d entry => do
      let (d, _) ← d.addAlias entry.1 entry.2
      return d)
    d

/-- The document of a state that has left every definition, with its aliases bound. -/
def State.bound (s : State) : Except Error Document :=
  match s.document with
  | none => .error .missingRoot
  | some d => d.bindAliases s.aliases

theorem State.finish_eq (s : State) : s.finish = s.leave >>= State.bound := rfl

/-- A comment changes nothing. -/
theorem State.step_comment (s : State) : s.step .comment = .ok s := by
  obtain ⟨document, aliases, place⟩ := s
  cases place with
  | outline | type | constructor | union => rfl
  | documentation t c d =>
    have hraw : d.raw ++ String.ofList (verbatim .comment) = d.raw := String.append_empty
    simp only [step, stepDocumentation, hraw]

namespace Document

variable {before piece piece' after cs cs' : List Char} {es ps ps' : List Event}
  {opened inner : List (List Char)}

/-- What is read without an error is the document of the state behind all events. -/
theorem exists_of_read_ok {text : String} {d : Document} (h : read text = .ok d) :
    (Transcript.ofText text).fault = none ∧
    ∃ s : State, (Transcript.ofText text).events.foldlM State.step ({} : State) = .ok s ∧
      s.finish = .ok d := by
  obtain ⟨s, hs, h⟩ := exists_of_bind_ok h
  cases hfault : (Transcript.ofText text).fault with
  | some f =>
    rw [hfault] at h
    cases h
  | none =>
    rw [hfault] at h
    exact ⟨rfl, s, hs, h⟩

/-- A document is read up to a place and from there on. -/
theorem read_of_arrives (h : Arrives before es opened cs) :
    read (String.ofList (before ++ cs)) =
      es.foldlM State.step ({} : State) >>= fun s => s.readOn (.within opened cs) := by
  rw [read, h.ofText_eq]
  exact State.readOn_append {} es (.within opened cs)

/-- A document is read up to a piece, through the piece and from there on. -/
theorem read_of_reads (h : Arrives before es opened cs) (hpiece : Reads opened cs ps inner after) :
    read (String.ofList (before ++ cs)) =
      es.foldlM State.step ({} : State) >>= fun s =>
        ps.foldlM State.step s >>= fun s => s.readOn (.within inner after) := by
  rw [read_of_arrives h, hpiece.within_eq]
  refine bind_congr fun s => ?_
  exact State.readOn_append s ps (.within inner after)

/-- Pieces that lead to the same outcome from every state at a place may stand for each other at
    that place, if the reader comes there in both texts. -/
theorem read_congr (h : Arrives before es opened cs) (h' : Arrives before es opened cs')
    (hpiece : Reads opened cs ps inner after) (hpiece' : Reads opened cs' ps' inner after)
    (hsame : ∀ s : State, s.place.Nested opened →
      ps'.foldlM State.step s = ps.foldlM State.step s) :
    read (String.ofList (before ++ cs')) = read (String.ofList (before ++ cs)) := by
  rw [read_of_reads h hpiece, read_of_reads h' hpiece']
  cases hs : es.foldlM State.step ({} : State) with
  | error e => rfl
  | ok s =>
    -- The open elements tell the place of the state behind the events before the piece.
    have hplace : s.place.Nested opened := by
      rw [h.inner_eq]
      exact Place.Nested.run_begin hs
    show (ps'.foldlM State.step s >>= _) = (ps.foldlM State.step s >>= _)
    rw [hsame s hplace]

/-- The reader comes to the place in both texts if both pieces begin with markup. -/
theorem read_replace (h : Arrives before es opened (piece ++ after))
    (hstart : StartsMarkup (piece ++ after)) (hstart' : StartsMarkup (piece' ++ after))
    (hpiece : Reads opened (piece ++ after) ps inner after)
    (hpiece' : Reads opened (piece' ++ after) ps' inner after)
    (hsame : ∀ s : State, s.place.Nested opened →
      ps'.foldlM State.step s = ps.foldlM State.step s) :
    read (String.ofList (before ++ (piece' ++ after))) =
      read (String.ofList (before ++ (piece ++ after))) :=
  read_congr h (h.replace_rest hstart hstart') hpiece hpiece' hsame

/-- A piece that leaves every state at a place as it is means no more there than a comment. -/
theorem read_passedOver (h : Arrives before es opened (piece ++ after))
    (hstart : StartsMarkup (piece ++ after))
    (hpiece : Reads opened (piece ++ after) ps opened after)
    (hpass : ∀ s : State, s.place.Nested opened → ps.foldlM State.step s = .ok s) :
    read (String.ofList (before ++ (piece ++ after))) =
      read (String.ofList (before ++ (bareComment ++ after))) := by
  have hcomment : Reads opened (bareComment ++ after) [.comment] opened after :=
    .event (Event.next_bareComment after) rfl (.here opened after)
  refine (read_replace h hstart (startsMarkup_bracket _) hpiece hcomment ?_).symm
  intro s hs
  rw [hpass s hs, List.foldlM_cons, State.step_comment]
  rfl

end Document

end TaggedUnion.Schema
