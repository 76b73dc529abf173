import Mathlib
import TaggedUnion.Proofs.Schema.Undocumented

/-! # Texts that leave elements open

    At the end of a text whatever is still open counts as complete:

    * **`State.finish_close`**: the end of the text means what the missing end tags mean, up to
      end tags that documentation keeps as text.
    * **`Document.read_completed`**: so a text that leaves elements open is read like the text
      with their end tags.
    * **`Document.read_error_iff_completed`**: it is refused exactly where the other one is, or
      where it has a fault; **`Document.fault_of_cut`**: it has one if it ends inside a piece of
      markup.
-/

namespace TaggedUnion.Schema

open TaggedUnion.Xml (Event Transcript Reads Arrives StartsMarkup IsClosable endTag openBehind
  startsMarkup_nil startsMarkup_endTag)

/-! ### End tags -/

namespace State

variable {s s' : State} {opened : List (List Char)}

/-- Outside of every definition end tags are passed over. -/
theorem close_outline (hplace : s.place = .outline) (names : List (List Char)) :
    (names.map .close).foldlM State.step s = .ok s := by
  obtain ⟨document, aliases, place⟩ := s
  cases hplace
  induction names with
  | nil => rfl
  | cons name names ih => exact ih

theorem place_closeType {symbol : TypeSymbol} (h : s.closeType symbol = .ok s') :
    s'.place = .outline := by
  obtain ⟨d, d', -, -, rfl⟩ := closeType_cases h
  rfl

theorem place_closeUnion {declaration : UnionDeclaration}
    (h : s.closeUnion declaration = .ok s') : s'.place = .outline := by
  obtain ⟨d, d', -, -, rfl⟩ := closeUnion_cases h
  rfl

/-- Behind a complete definition end tags are passed over. -/
theorem bind_close {x : Except Error State} (hplace : ∀ s, x = .ok s → s.place = .outline)
    (names : List (List Char)) :
    (x >>= fun s => (names.map .close).foldlM State.step s) = x := by
  cases x with
  | error e => rfl
  | ok s => exact close_outline (hplace s rfl) names

/-- Behind a complete definition there is nothing to leave. -/
theorem bind_finish {x : Except Error State} (hplace : ∀ s, x = .ok s → s.place = .outline) :
    x >>= State.finish = x >>= State.bound := by
  cases x with
  | error e => rfl
  | ok s =>
    have hleave : s.leave = .ok s := by rw [leave, hplace s rfl]
    show s.finish = s.bound
    rw [finish_eq, hleave]
    rfl

/-- The end tags of elements inside a definition lead back to it, where every end tag goes one
    element up. -/
theorem close_inner (place : Nat → Place)
    (hascend : ∀ (s : State) depth name,
      State.step { s with place := place (depth + 1) } (.close name) =
        .ok { s with place := place depth })
    (s : State) (inner : List (List Char)) :
    (inner.map .close).foldlM State.step { s with place := place inner.length } =
      .ok { s with place := place 0 } := by
  induction inner with
  | nil => rfl
  | cons name inner ih =>
    rw [List.map_cons, List.foldlM_cons, List.length_cons, hascend]
    exact ih

theorem close_type {t : OpenType} (h : t.Nested opened) (s : State) :
    (opened.map .close).foldlM State.step { s with place := .type t } = s.closeType t.symbol := by
  obtain ⟨outer, hinside, -⟩ := h
  obtain ⟨inner, name, rfl, hdepth⟩ := hinside.split
  obtain ⟨symbol, depth⟩ := t
  cases hdepth
  have hinner := close_inner (fun depth => .type ⟨symbol, depth⟩)
    (fun _ _ _ => rfl) s inner
  rw [List.map_append, List.foldlM_append, hinner]
  exact bind_close (fun _ => place_closeType) outer

theorem close_constructor {t : OpenType} {c : OpenConstructor} (h : c.Nested t opened)
    (s : State) :
    (opened.map .close).foldlM State.step { s with place := .constructor t c } =
      s.closeType (t.push c.constructor).symbol := by
  obtain ⟨outer, hinside, htype⟩ := h
  obtain ⟨inner, name, rfl, hdepth⟩ := hinside.split
  obtain ⟨constructor, depth⟩ := c
  cases hdepth
  have hinner := close_inner (fun depth => .constructor t ⟨constructor, depth⟩)
    (fun _ _ _ => rfl) s inner
  rw [List.map_append, List.foldlM_append, hinner]
  -- The end tag of the constructor leads back to its type, as deep in it as before.
  have hpush : (t.push constructor).Nested outer := htype
  exact close_type hpush s

/-- The end tags of elements inside documentation are part of it. -/
theorem close_inner_documentation (s : State) (t : OpenType) (c : OpenConstructor) (raw : String)
    (inner : List (List Char)) :
    ∃ raw', (inner.map .close).foldlM State.step
        { s with place := .documentation t c ⟨raw, inner.length⟩ } =
      .ok { s with place := .documentation t c ⟨raw', 0⟩ } := by
  induction inner generalizing raw with
  | nil => exact ⟨raw, rfl⟩
  | cons name inner ih => exact ih (raw ++ String.ofList (verbatim (.close name)))

theorem close_documentation {t : OpenType} {c : OpenConstructor} {d : OpenDocumentation}
    (h : d.Nested t c opened) (s : State) :
    ∃ raw, (opened.map .close).foldlM State.step { s with place := .documentation t c d } =
      s.closeType (t.push (c.document raw).constructor).symbol := by
  obtain ⟨outer, hinside, hconstructor⟩ := h
  obtain ⟨inner, name, rfl, hdepth⟩ := hinside.split
  obtain ⟨raw, depth⟩ := d
  cases hdepth
  obtain ⟨raw', hinner⟩ := close_inner_documentation s t c raw inner
  refine ⟨raw', ?_⟩
  rw [List.map_append, List.foldlM_append, hinner]
  have hdocument : (c.document raw').Nested t outer := hconstructor
  exact close_constructor hdocument s

theorem close_union {u : OpenUnion} (h : u.Nested opened) (s : State) :
    (opened.map .close).foldlM State.step { s with place := .union u } =
      s.closeUnion u.declaration := by
  obtain ⟨outer, hinside, -⟩ := h
  obtain ⟨inner, name, rfl, hdepth⟩ := hinside.split
  obtain ⟨declaration, depth⟩ := u
  cases hdepth
  have hinner := close_inner (fun depth => .union ⟨declaration, depth⟩)
    (fun _ _ _ => rfl) s inner
  rw [List.map_append, List.foldlM_append, hinner]
  exact bind_close (fun _ => place_closeUnion) outer

/-! ### The end of the text -/

/-- The end of the text means what the missing end tags mean, but for documentation. -/
theorem finish_close (h : s.place.Nested opened) :
    ((opened.map .close).foldlM State.step s >>= State.finish).map Document.undocumented =
      s.finish.map Document.undocumented := by
  obtain ⟨document, aliases, place⟩ := s
  cases place with
  | outline =>
    rw [close_outline rfl]
    rfl
  | type t =>
    rw [close_type h ⟨document, aliases, .outline⟩, bind_finish fun _ => place_closeType]
    rfl
  | constructor t c =>
    rw [close_constructor h ⟨document, aliases, .outline⟩, bind_finish fun _ => place_closeType]
    rfl
  | documentation t c d =>
    obtain ⟨raw, hclose⟩ := close_documentation h ⟨document, aliases, .outline⟩
    rw [hclose, bind_finish fun _ => place_closeType]
    refine bound_closeType _ ?_
    simp [OpenType.push, OpenConstructor.document, TypeSymbol.undocumented,
      Constructor.undocumented]
  | union u =>
    rw [close_union h ⟨document, aliases, .outline⟩, bind_finish fun _ => place_closeUnion]
    rfl

end State

/-! ### Whole texts -/

/-- The names of the elements that are open at the end of a text. -/
def openAtEnd (text : String) : List (List Char) := openBehind [] (Transcript.ofText text).events

/-- The end tags that are missing at the end of a text. -/
def missingEndTags (text : String) : String := String.ofList ((openAtEnd text).flatMap endTag)

namespace Document

variable {text : String}

/-- Outcomes that agree on a view of their values fail alike. -/
theorem error_iff_of_map_eq {α β : Type} {f : α → β} {x y : Except Error α}
    (h : x.map f = y.map f) : (∃ err, x = .error err) ↔ ∃ err, y = .error err := by
  cases x with
  | error err =>
    cases y with
    | error err' => exact ⟨fun _ => ⟨err', rfl⟩, fun _ => ⟨err, rfl⟩⟩
    | ok b => cases h
  | ok a =>
    cases y with
    | error err' => cases h
    | ok b => simp

/-- A fault in the text is an error. -/
theorem read_error_of_fault (h : (Transcript.ofText text).fault ≠ none) :
    ∃ err, read text = .error err := by
  cases hread : read text with
  | error err => exact ⟨err, rfl⟩
  | ok d => exact absurd (exists_of_read_ok hread).1 h

/-- At the end of the text nothing is read on. -/
theorem readOn_end (s : State) (opened : List (List Char)) :
    s.readOn (.within opened []) = s.finish := by
  rw [Transcript.within_nil]
  rfl

theorem startsMarkup_endTags (opened : List (List Char)) :
    StartsMarkup (opened.flatMap endTag) := by
  cases opened with
  | nil => exact startsMarkup_nil
  | cons name opened => exact startsMarkup_endTag name _

/-- A text that leaves elements open is read like the text with their end tags, but for
    documentation. -/
theorem read_completed (hfault : (Transcript.ofText text).fault = none)
    (hclosable : ∀ name ∈ openAtEnd text, IsClosable name) :
    (read (text ++ missingEndTags text)).map undocumented = (read text).map undocumented := by
  obtain ⟨cs, rfl⟩ : ∃ cs, text = String.ofList cs := ⟨text.toList, String.ofList_toList.symm⟩
  have htext := Transcript.ofText_ofList cs
  rw [htext] at hfault
  obtain ⟨opened, hreads⟩ := Transcript.exists_reads hfault
  have hopened : openAtEnd (String.ofList cs) = opened := by
    rw [openAtEnd, htext, hreads.inner_eq]
  rw [missingEndTags, hopened]
  rw [hopened] at hclosable
  generalize (Transcript.within [] (Xml.withoutMark cs)).events = es at hreads
  have hend : Arrives cs es opened [] := by
    rw [Arrives, List.append_nil]
    exact hreads
  have htags : Arrives cs es opened (opened.flatMap endTag ++ []) := by
    rw [List.append_nil]
    exact hend.replace_rest startsMarkup_nil (startsMarkup_endTags opened)
  have hclose : Reads opened (opened.flatMap endTag ++ []) (opened.map .close) [] [] := by
    rw [List.append_nil]
    exact .endTags hclosable
  have hcompleted : String.ofList cs ++ String.ofList (opened.flatMap endTag) =
      String.ofList (cs ++ (opened.flatMap endTag ++ [])) := by
    rw [List.append_nil, String.ofList_append]
  have hwhole : String.ofList cs = String.ofList (cs ++ []) := by rw [List.append_nil]
  rw [hcompleted, read_of_reads htags hclose, hwhole, read_of_arrives hend]
  cases hs : es.foldlM State.step ({} : State) with
  | error e => rfl
  | ok s =>
    have hnested : s.place.Nested opened := by
      rw [hreads.inner_eq]
      exact Place.Nested.run_begin hs
    show ((opened.map .close).foldlM State.step s >>= _).map _ = (s.readOn _).map _
    simp only [readOn_end]
    exact State.finish_close hnested

/-- A text that leaves elements open is refused exactly where it has a fault or where the text
    with their end tags is refused. -/
theorem read_error_iff_completed (hclosable : ∀ name ∈ openAtEnd text, IsClosable name) :
    (∃ err, read text = .error err) ↔
      (Transcript.ofText text).fault ≠ none ∨
      ∃ err, read (text ++ missingEndTags text) = .error err := by
  by_cases hfault : (Transcript.ofText text).fault = none
  · have hsame := error_iff_of_map_eq (read_completed hfault hclosable)
    constructor
    · intro herror
      exact .inr (hsame.mpr herror)
    · rintro (hfault' | herror)
      · exact absurd hfault hfault'
      · exact hsame.mp herror
  · exact ⟨fun _ => .inl hfault, fun _ => read_error_of_fault hfault⟩

/-- The same for a text that ends before the target of an alias. -/
theorem read_error_unclosed_alias :
    let text := "<unions><alias name=\"B\" target=\"A\"/>"
    openAtEnd text = ["unions".toList] ∧ ∃ err, read text = .error err := by
  intro text
  have hopen : openAtEnd text = ["unions".toList] := by cbv
  have hclosable : ∀ name ∈ openAtEnd text, IsClosable name := by
    rw [hopen]
    decide
  have hcompleted : read (text ++ missingEndTags text) = .error (.unknownTarget "B" "A") := by cbv
  exact ⟨hopen, (read_error_iff_completed hclosable).mpr (.inr ⟨_, hcompleted⟩)⟩

/-- Not every text that leaves an element open is refused. -/
theorem not_forall_read_unclosed :
    ¬ ∀ text : String, openAtEnd text ≠ [] → ∃ err, read text = .error err := by
  intro hall
  let text := "<unions><type name=\"A\"/>"
  have hopen : openAtEnd text = ["unions".toList] := by cbv
  have hread : (read text).map (fun d => d.types.map (·.name)) = .ok ["Any", "A"] := by cbv
  obtain ⟨err, herr⟩ := hall text (by simp [hopen])
  rw [herr] at hread
  cases hread

/-- A text is refused where it ends inside a piece of markup or inside a reference. -/
theorem read_error_of_cut {before kept lost after : List Char} {es : List Event}
    {opened : List (List Char)} {e : Event}
    (h : Arrives before es opened (kept ++ (lost ++ after)))
    (hpiece : Event.next (kept ++ (lost ++ after)) = some (.ok (e, after)))
    (hmarkup : StartsMarkup (kept ++ (lost ++ after))) (hkept : kept ≠ []) (hlost : lost ≠ []) :
    ∃ err, read (String.ofList (before ++ kept)) = .error err := by
  obtain ⟨f, hf⟩ := Event.next_eq_error_of_cut hpiece hmarkup hkept hlost
  have hstart : StartsMarkup kept := by
    obtain ⟨c, cs, rfl⟩ := List.exists_cons_of_ne_nil hkept
    exact hmarkup
  have hcut := h.replace_rest hmarkup hstart
  refine read_error_of_fault ?_
  rw [hcut.ofText_eq, Transcript.within_of_error hf]
  exact Option.some_ne_none f

end Document

end TaggedUnion.Schema
