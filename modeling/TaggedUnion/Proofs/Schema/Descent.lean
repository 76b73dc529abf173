import TaggedUnion.Proofs.Schema.Pieces
import TaggedUnion.Proofs.Xml.Pulling

/-! # Reading a document by descent

    A document can also be read by one function for the content of each kind of element. Such a
    function is called behind the start tag, counts the elements that are open in the content,
    and returns at the end tag that it finds at depth zero. It hands an element with a content of
    its own to another function, which reads the end tag of that element:

    * **`Loop`**: turns that pull events until one of them is the last. **`Loop.Reaches`**: what
      some turns lead to.
    * **`Body`**: what happens to the events in the content of an element.
    * **`LeavesElement`**: a success leaves the reader behind the end tag of the element that it
      was called in, or at the end of the text.
    * **`Body.within_of_reaches`**, **`Body.read_leaves`**: the counter is the number of elements
      that were opened and are still open, and so every body leaves its element.
    * **`Document.descend`**: the descent through a whole document.
-/

namespace TaggedUnion.Schema

open TaggedUnion.Xml (Event Tag Reader Pulls StaysInside withoutMark)

/-! ### Computations that pull events -/

/-- A computation that pulls events from a reader. A failure leaves the reader where it
    happened. -/
abbrev Reading (α : Type) := EStateM Error Reader α

namespace Reading

variable {α β γ : Type}

/-- The next event; `none` at the end of the text. -/
def pull : Reading (Option Event) := fun r =>
  match r.next with
  | .ok e? behind => .ok e? behind
  | .error f behind => .error (.xml f) behind

/-- A computation that pulls no event. -/
def ofResult (x : Except Error α) : Reading α := fun r =>
  match x with
  | .ok a => .ok a r
  | .error e => .error e r

/-- A computation to which blanks around text matter. They do not matter behind it, be it a
    success or a failure. -/
def untrimmed (x : Reading α) : Reading α := fun r =>
  match x { r with trims := false } with
  | .ok a behind => .ok a { behind with trims := true }
  | .error e behind => .error e { behind with trims := true }

/-- What becomes of a computation where `next` comes behind it. -/
def into (x : Reading α) (next : α → Reader → Except Error γ) (r : Reader) : Except Error γ :=
  match x r with
  | .ok a behind => next a behind
  | .error e _ => .error e

theorem pulls_of_pull {r r' : Reader} {e? : Option Event} (h : pull r = .ok e? r') :
    Pulls r r' e? := by
  unfold pull at h
  split at h
  · next hnext =>
    cases h
    exact Xml.Reader.pulls_of_next hnext
  · cases h

/-- A success of two computations in a row is a success of both. -/
theorem exists_of_both_ok {x : Reading α} {f : α → Reading β} {b : β} {r r'' : Reader}
    (h : (x >>= f) r = .ok b r'') : ∃ a r', x r = .ok a r' ∧ f a r' = .ok b r'' := by
  change EStateM.bind x f r = .ok b r'' at h
  unfold EStateM.bind at h
  split at h
  · next a r' hx => exact ⟨a, r', hx, h⟩
  · cases h

theorem ofResult_eq_ok {x : Except Error α} {a : α} {r r' : Reader}
    (h : ofResult x r = .ok a r') : x = .ok a ∧ r' = r := by
  cases x with
  | error e => cases h
  | ok a' =>
    cases h
    exact ⟨rfl, rfl⟩

end Reading

open Reading (pull ofResult untrimmed exists_of_both_ok ofResult_eq_ok pulls_of_pull)

/-! ### Loops -/

/-- A loop whose turns pull events. A turn behind which it goes on has read something. -/
structure Loop (τ : Type) where
  /-- One turn. -/
  turn : τ → Reading (ForInStep τ)
  shortens {t t' : τ} {r r' : Reader} (h : turn t r = .ok (.yield t') r') :
    r'.rest.length < r.rest.length

namespace Loop

variable {τ : Type} {loop : Loop τ} {t t' t'' : τ} {r r' r'' : Reader}

/-- Turn after turn from a reader, up to the last one. -/
def runFrom (loop : Loop τ) (t : τ) (r : Reader) : EStateM.Result Error Reader τ :=
  match h : loop.turn t r with
  | .error e behind => .error e behind
  | .ok (.done last) behind => .ok last behind
  | .ok (.yield next) behind =>
    have := loop.shortens h
    loop.runFrom next behind
termination_by r.rest.length

/-- Turn after turn, up to the last one. -/
def run (loop : Loop τ) (t : τ) : Reading τ := fun r => loop.runFrom t r

/-- Some turns of a loop lead from one state and reader to others. -/
inductive Reaches (loop : Loop τ) (t : τ) (r : Reader) : τ → Reader → Prop
  | here : Reaches loop t r t r
  | turn {t' t'' : τ} {r' r'' : Reader} (h : Reaches loop t r t' r')
      (hturn : loop.turn t' r' = .ok (.yield t'') r'') : Reaches loop t r t'' r''

theorem Reaches.head (hturn : loop.turn t r = .ok (.yield t') r')
    (h : loop.Reaches t' r' t'' r'') : loop.Reaches t r t'' r'' := by
  induction h with
  | here => exact .turn .here hturn
  | turn _ hlast ih => exact .turn ih hlast

/-- What every turn keeps, some turns keep. -/
theorem Reaches.keeps {P : τ → Reader → Prop}
    (hkeep : ∀ {t t' : τ} {r r' : Reader}, P t r → loop.turn t r = .ok (.yield t') r' → P t' r')
    (h : loop.Reaches t r t' r') (hbegin : P t r) : P t' r' := by
  induction h with
  | here => exact hbegin
  | turn _ hturn ih => exact hkeep ih hturn

/-- A loop succeeds by a last turn. -/
theorem exists_of_run_ok (h : loop.run t r = .ok t' r') :
    ∃ t₀ r₀, loop.Reaches t r t₀ r₀ ∧ loop.turn t₀ r₀ = .ok (.done t') r' := by
  unfold run at h
  fun_induction runFrom loop t r with
  | case1 => cases h
  | case2 t r last behind hturn =>
    cases h
    exact ⟨t, r, .here, hturn⟩
  | case3 t r next behind hturn _ ih =>
    obtain ⟨t₀, r₀, hreaches, hlast⟩ := ih h
    exact ⟨t₀, r₀, hreaches.head hturn, hlast⟩

end Loop

/-! ### The end of an element -/

/-- Where reading the content `cs` of the element `name`, which stands inside the elements
    `outer`, may have come to when it is complete. -/
inductive Leaves (name : List Char) (outer : List (List Char)) (cs : List Char) (r : Reader) : Prop
  /-- The text has ended inside the element. -/
  | atEnd (hstays : StaysInside (name :: outer) (name :: outer) cs r.opened r.rest)
      (hrest : r.rest = [])
  /-- The reader stands behind the end tag of the element: that tag comes where no other element
      is open in the content, and the element was not left before. -/
  | atEndTag {cs' : List Char}
      (hstays : StaysInside (name :: outer) (name :: outer) cs (name :: outer) cs')
      (hnext : Event.next cs' = some (.ok (.close name, r.rest))) (hopened : r.opened = outer)

/-- A computation that reads the content of an element, and no more than its end tag behind it. -/
def LeavesElement {α : Type} (x : Reading α) : Prop :=
  ∀ ⦃name : List Char⦄ ⦃outer : List (List Char)⦄ ⦃r r' : Reader⦄ ⦃a : α⦄,
    r.opened = name :: outer → x r = .ok a r' → Leaves name outer r.rest r'

namespace Leaves

variable {name : List Char} {outer : List (List Char)} {cs : List Char} {r : Reader}

theorem staysInside (h : Leaves name outer cs r) :
    StaysInside outer (name :: outer) cs r.opened r.rest := by
  cases h with
  | atEnd hstays => exact hstays.mono (List.suffix_cons name outer)
  | atEndTag hstays hnext hopened =>
    rw [hopened]
    have henter : (Event.close name).enter (name :: outer) = .ok outer := if_pos rfl
    exact (hstays.mono (List.suffix_cons name outer)).trans
      (.single hnext henter (List.suffix_cons name outer) List.suffix_rfl)

theorem length_le (h : Leaves name outer cs r) : r.rest.length ≤ cs.length :=
  h.staysInside.length_le

end Leaves

/-! ### Bodies -/

/-- What happens to the events in the content of an element, of which a `σ` is built. -/
structure Body (σ : Type) where
  /-- The reader of the content of an element that begins with a tag, where it has one of its
      own. That element is not counted. -/
  nested? : Tag → Option (σ → Reading σ)
  /-- What is built behind any other event. -/
  inner : Event → σ → Except Error σ
  leaves {tag : Tag} {read : σ → Reading σ} (h : nested? tag = some read) (built : σ) :
    LeavesElement (read built)

/-- What has been built of the content of an element, and the number of elements that are open
    in it. -/
structure Content (σ : Type) where
  built : σ
  depth : Nat := 0

namespace Body

variable {σ : Type} {b : Body σ} {c c' : Content σ} {r r' : Reader}

/-- One turn of the loop over the content of an element. -/
def turn (b : Body σ) (c : Content σ) : Reading (ForInStep (Content σ)) := do
  match ← pull with
  | none => return .done c
  | some (.start tag) =>
    match b.nested? tag with
    | some read =>
      let built ← read c.built
      return .yield ⟨built, c.depth⟩
    | none =>
      let built ← ofResult (b.inner (.start tag) c.built)
      return .yield ⟨built, c.depth + 1⟩
  | some (.close name) =>
    if c.depth = 0 then return .done c
    else
      let built ← ofResult (b.inner (.close name) c.built)
      return .yield ⟨built, c.depth - 1⟩
  | some e =>
    let built ← ofResult (b.inner e c.built)
    return .yield ⟨built, c.depth⟩

/-- What a turn can do. -/
inductive Turns (b : Body σ) (c : Content σ) (r r' : Reader) : ForInStep (Content σ) → Prop
  /-- The text has ended. -/
  | atEnd (hpull : Pulls r r' none) : Turns b c r r' (.done c)
  /-- An element has been handed to its reader. -/
  | nested {tag : Tag} {read : σ → Reading σ} {inside : Reader} {built : σ}
      (hpull : Pulls r inside (some (.start tag))) (hnested : b.nested? tag = some read)
      (hread : read c.built inside = .ok built r') : Turns b c r r' (.yield ⟨built, c.depth⟩)
  /-- An element has been opened. -/
  | descend {tag : Tag} {built : σ} (hpull : Pulls r r' (some (.start tag))) :
      Turns b c r r' (.yield ⟨built, c.depth + 1⟩)
  /-- An element that was opened before has been closed. -/
  | ascend {name : List Char} {built : σ} {depth : Nat}
      (hpull : Pulls r r' (some (.close name))) (hdepth : c.depth = depth + 1) :
      Turns b c r r' (.yield ⟨built, depth⟩)
  /-- The end tag of the element itself. -/
  | leave {name : List Char} (hpull : Pulls r r' (some (.close name))) (hdepth : c.depth = 0) :
      Turns b c r r' (.done c)
  /-- Any other event. -/
  | flat {e : Event} {built : σ} (hflat : e.isFlat) (hpull : Pulls r r' (some e)) :
      Turns b c r r' (.yield ⟨built, c.depth⟩)

theorem turns_of_turn {step : ForInStep (Content σ)} (h : b.turn c r = .ok step r') :
    b.Turns c r r' step := by
  obtain ⟨e?, behind, hpull, h⟩ := exists_of_both_ok h
  replace hpull := pulls_of_pull hpull
  cases e? with
  | none =>
    cases h
    exact .atEnd hpull
  | some e =>
    cases e with
    | start tag =>
      cases hnested : b.nested? tag with
      | some read =>
        simp only [hnested] at h
        obtain ⟨built, r'', hread, h⟩ := exists_of_both_ok h
        cases h
        exact .nested hpull hnested hread
      | none =>
        simp only [hnested] at h
        obtain ⟨built, r'', hinner, h⟩ := exists_of_both_ok h
        cases h
        obtain ⟨-, rfl⟩ := ofResult_eq_ok hinner
        exact .descend hpull
    | close name =>
      by_cases hdepth : c.depth = 0
      · simp only [hdepth, if_true] at h
        cases h
        exact .leave hpull hdepth
      · simp only [hdepth, if_false] at h
        obtain ⟨built, r'', hinner, h⟩ := exists_of_both_ok h
        cases h
        obtain ⟨-, rfl⟩ := ofResult_eq_ok hinner
        exact .ascend hpull (Nat.succ_pred_eq_of_ne_zero hdepth).symm
    | empty | text | cdata | reference | comment | instruction | doctype =>
      obtain ⟨built, r'', hinner, h⟩ := exists_of_both_ok h
      cases h
      obtain ⟨-, rfl⟩ := ofResult_eq_ok hinner
      exact .flat rfl hpull

/-- How the counter of a body and the elements that are open in the content of `name` go
    together between two turns. -/
inductive Counts (b : Body σ) (name : List Char) (outer : List (List Char)) (depth : Nat)
    (r : Reader) : Prop
  /-- The counter is the number of the open elements. -/
  | told {inner : List (List Char)} (hopened : r.opened = inner ++ name :: outer)
      (hdepth : inner.length = depth)
  /-- The text has ended in an element that was handed to its reader. The counter is the number
      of the elements that were open before its start tag; that element and those in it, which
      its reader did not see closed, are not told. -/
  | cutOff {before inside : Reader} {tag : Tag} {read : σ → Reading σ} {built built' : σ}
      {inner unread : List (List Char)} (hbefore : before.opened = inner ++ name :: outer)
      (hdepth : inner.length = depth) (hpull : Pulls before inside (some (.start tag)))
      (hnested : b.nested? tag = some read) (hread : read built inside = .ok built' r)
      (hopened : r.opened = unread ++ tag.name :: before.opened) (hrest : r.rest = [])

/-- Where the loop over the content `cs` of the element `name` may be between two turns, with
    `depth` as its counter. -/
structure Within (b : Body σ) (name : List Char) (outer : List (List Char)) (cs : List Char)
    (depth : Nat) (r : Reader) : Prop where
  /-- The element has not been left. -/
  stays : StaysInside (name :: outer) (name :: outer) cs r.opened r.rest
  /-- The counter tells the elements that the loop has opened and that are still open. -/
  counts : b.Counts name outer depth r

section within

variable {name : List Char} {outer : List (List Char)} {cs : List Char} {depth : Nat}

/-- Where text is left to be read, every element that is open in the content counts. -/
theorem Counts.exists_inner (h : b.Counts name outer depth r)
    (hlength : r'.rest.length < r.rest.length) :
    ∃ inner, r.opened = inner ++ name :: outer ∧ inner.length = depth := by
  cases h with
  | told hopened hdepth => exact ⟨_, hopened, hdepth⟩
  | cutOff _ _ _ _ _ _ hrest =>
    rw [hrest] at hlength
    exact absurd hlength (Nat.not_lt_zero _)

/-- Where no element is handed on, every element that is open in the content counts, also where
    the text has ended. -/
theorem Counts.exists_inner_of_whole (h : b.Counts name outer depth r)
    (hwhole : ∀ tag, b.nested? tag = none) :
    ∃ inner, r.opened = inner ++ name :: outer ∧ inner.length = depth := by
  cases h with
  | told hopened hdepth => exact ⟨_, hopened, hdepth⟩
  | cutOff _ _ _ hnested =>
    -- Only an element that was handed on can be cut off.
    cases (hwhole _).symm.trans hnested

namespace Within

theorem begin (h : r.opened = name :: outer) : b.Within name outer r.rest 0 r where
  stays := h ▸ .here r.rest List.suffix_rfl
  counts := .told (show r.opened = [] ++ name :: outer from h) rfl

/-- Reading on inside the element, up to a place where every open element counts. -/
theorem advance {depth' : Nat} {inner : List (List Char)} (h : b.Within name outer cs depth r)
    (hstays : StaysInside (name :: outer) r.opened r.rest r'.opened r'.rest)
    (hopened : r'.opened = inner ++ name :: outer) (hdepth : inner.length = depth') :
    b.Within name outer cs depth' r' where
  stays := h.stays.trans hstays
  counts := .told hopened hdepth

/-- Behind an element that was handed to its reader the counter is what it was before. -/
theorem behind_nested {tag : Tag} {inside : Reader} {read : σ → Reading σ} {built built' : σ}
    (h : b.Within name outer cs depth r) (hpull : Pulls r inside (some (.start tag)))
    (hnested : b.nested? tag = some read) (hread : read built inside = .ok built' r') :
    b.Within name outer cs depth r' := by
  have hbase := h.stays.suffix
  obtain ⟨inner, hinner, hdepth⟩ := h.counts.exists_inner (hpull.length_lt rfl)
  obtain ⟨hstart, hopened⟩ := hpull.of_start
  have hleaves := b.leaves hnested built hopened hread
  rw [hopened] at hstart
  have hstays : StaysInside (name :: outer) r.opened r.rest r'.opened r'.rest :=
    (hstart.mono hbase).trans (hleaves.staysInside.mono hbase)
  cases hleaves with
  | atEndTag _ _ hclosed => exact h.advance hstays (hclosed.trans hinner) hdepth
  | atEnd hinside hrest =>
    -- The element and what is open in it stay open, and no counter has them.
    obtain ⟨unread, hunread⟩ := hinside.suffix
    exact ⟨h.stays.trans hstays,
      .cutOff hinner hdepth hpull hnested hread hunread.symm hrest⟩

end Within

end within

section ends

variable {name : List Char} {outer : List (List Char)} {cs : List Char}

/-- Behind a turn the counter is right again. -/
theorem within_of_turns (h : b.Within name outer cs c.depth r)
    (hturns : b.Turns c r r' (.yield c')) : b.Within name outer cs c'.depth r' := by
  have hbase := h.stays.suffix
  cases hturns with
  | nested hpull hnested hread => exact h.behind_nested hpull hnested hread
  | @descend tag built hpull =>
    obtain ⟨inner, hinner, hdepth⟩ := h.counts.exists_inner (hpull.length_lt rfl)
    obtain ⟨hstays, hopened⟩ := hpull.of_start
    have hinside : r'.opened = (tag.name :: inner) ++ name :: outer := by
      rw [hopened, hinner, List.cons_append]
    exact h.advance (hstays.mono hbase) hinside (congrArg (· + 1) hdepth)
  | @ascend closed built depth hpull hpositive =>
    obtain ⟨inner, hinner, hdepth⟩ := h.counts.exists_inner (hpull.length_lt rfl)
    obtain ⟨before, hstays, hnext, hopened⟩ := hpull.of_close
    -- The counter is positive, so the element that the tag closes was opened in the content.
    obtain ⟨o, inner, rfl⟩ := List.exists_cons_of_length_eq_add_one (hdepth.trans hpositive)
    rw [hopened, List.cons_append, List.cons.injEq] at hinner
    obtain ⟨rfl, hinner⟩ := hinner
    have henter : (Event.close closed).enter r.opened = .ok r'.opened := by
      rw [hopened]
      exact if_pos rfl
    have hinside := (hstays.mono hbase).trans (.single hnext henter hbase ⟨inner, hinner.symm⟩)
    exact h.advance hinside hinner (Nat.succ.inj (hdepth.trans hpositive))
  | flat hflat hpull =>
    obtain ⟨inner, hinner, hdepth⟩ := h.counts.exists_inner (hpull.length_lt rfl)
    obtain ⟨hstays, hopened⟩ := hpull.of_flat hflat
    exact h.advance (hstays.mono hbase) (hopened.trans hinner) hdepth

/-- The last turn leaves the element. -/
theorem leaves_of_turns (h : b.Within name outer cs c.depth r)
    (hturns : b.Turns c r r' (.done c')) : Leaves name outer cs r' := by
  have hbase := h.stays.suffix
  cases hturns with
  | atEnd hpull =>
    cases hpull with
    | atEnd hstays hrest => exact .atEnd (h.stays.trans (hstays.mono hbase)) hrest
  | leave hpull hzero =>
    obtain ⟨inner, hinner, hdepth⟩ := h.counts.exists_inner (hpull.length_lt rfl)
    obtain ⟨before, hstays, hnext, hopened⟩ := hpull.of_close
    -- The counter is zero, so the element that the tag closes is the one whose content it is.
    obtain rfl : inner = [] := List.eq_nil_of_length_eq_zero (hdepth.trans hzero)
    rw [List.nil_append] at hinner
    obtain ⟨rfl, rfl⟩ : _ = name ∧ r'.opened = outer := List.cons.inj (hopened.symm.trans hinner)
    have hinside := h.stays.trans (hstays.mono hbase)
    rw [hopened] at hinside
    exact .atEndTag hinside hnext rfl

end ends

/-- Behind a turn that is not the last one, text has been read. -/
theorem length_of_turn (h : b.turn c r = .ok (.yield c') r') : r'.rest.length < r.rest.length := by
  cases turns_of_turn h with
  | nested hpull hnested hread =>
    have hleaves := b.leaves hnested c.built hpull.of_start.2 hread
    exact Nat.lt_of_le_of_lt hleaves.length_le (hpull.length_lt rfl)
  | descend hpull | ascend hpull | flat _ hpull => exact hpull.length_lt rfl

/-- The loop over the content of an element. -/
def loop (b : Body σ) : Loop (Content σ) where
  turn := b.turn
  shortens := length_of_turn

/-- Reads the content of an element and its end tag, from behind its start tag on. -/
def read (b : Body σ) (built : σ) : Reading σ := do
  let c ← b.loop.run { built := built }
  return c.built

/-- Between two turns, the counter is the number of open elements in the content. -/
theorem within_of_reaches {name : List Char} {outer : List (List Char)} {built : σ}
    (hopened : r.opened = name :: outer) (h : b.loop.Reaches { built := built } r c r') :
    b.Within name outer r.rest c.depth r' :=
  h.keeps (P := fun c r' => b.Within name outer r.rest c.depth r')
    (fun hwithin hturn => within_of_turns hwithin (turns_of_turn hturn)) (.begin hopened)

/-- Every body leaves its element. -/
theorem read_leaves (b : Body σ) (built : σ) : LeavesElement (b.read built) := by
  intro name outer r r' built' hopened h
  obtain ⟨c, r'', hrun, h⟩ := exists_of_both_ok h
  cases h
  obtain ⟨c₀, r₀, hreaches, hlast⟩ := Loop.exists_of_run_ok hrun
  exact leaves_of_turns (within_of_reaches hopened hreaches) (turns_of_turn hlast)

end Body

/-! ### The bodies of a document -/

namespace LeavesElement

variable {α β : Type}

/-- What comes before reading and pulls no event makes no difference. -/
theorem after (x : Except Error α) {f : α → Reading β} (h : ∀ a, LeavesElement (f a)) :
    LeavesElement (ofResult x >>= f) := by
  intro name outer r r'' b hopened hread
  obtain ⟨a, r', hx, hfa⟩ := exists_of_both_ok hread
  obtain ⟨-, rfl⟩ := ofResult_eq_ok hx
  exact h a hopened hfa

/-- What comes behind reading and pulls no event makes no difference. -/
theorem before {x : Reading α} (h : LeavesElement x) (f : α → Except Error β) :
    LeavesElement (x >>= fun a => ofResult (f a)) := by
  intro name outer r r'' b hopened hread
  obtain ⟨a, r', hx, hfa⟩ := exists_of_both_ok hread
  obtain ⟨-, rfl⟩ := ofResult_eq_ok hfa
  exact h hopened hx

theorem map {x : Reading α} (h : LeavesElement x) (f : α → β) :
    LeavesElement (x >>= fun a => pure (f a)) := h.before fun a => .ok (f a)

/-- Blanks around text are no part of any element's end. -/
theorem untrimmed {x : Reading α} (h : LeavesElement x) : LeavesElement (untrimmed x) := by
  intro name outer r r' a hopened ha
  unfold Reading.untrimmed at ha
  split at ha
  · next a' behind hx =>
    cases ha
    cases h (r := { r with trims := false }) hopened hx with
    | atEnd hstays hrest => exact .atEnd hstays hrest
    | atEndTag hstays hnext hclosed => exact .atEndTag hstays hnext hclosed
  · cases ha

end LeavesElement

/-- What is built behind an event where the tags of one kind of element each declare a part. -/
def addPart {σ α : Type} (label : String) (declared : Tag → Except Error α) (add : σ → α → σ)
    (e : Event) (built : σ) : Except Error σ :=
  match e.tag? with
  | none => .ok built
  | some tag =>
    if tag.label = label then do
      let part ← declared tag
      return add built part
    else .ok built

/-- The content of documentation: every event is kept. -/
def documentationBody : Body String where
  nested? _ := none
  inner e raw := .ok (raw ++ String.ofList (verbatim e))
  leaves h := nomatch h

/-- Reads documentation, in which blanks matter. -/
def readDocumentation : Reading String := untrimmed do
  let raw ← documentationBody.read ""
  return Text.trim raw

/-- The constructor with its documentation read. -/
def readDocumented (c : Constructor) : Reading Constructor := do
  let raw ← readDocumentation
  return { c with documentation := some raw }

theorem readDocumentation_leaves : LeavesElement readDocumentation :=
  LeavesElement.untrimmed ((documentationBody.read_leaves "").map Text.trim)

/-- The content of a constructor. -/
def constructorBody : Body Constructor where
  nested? tag := if tag.label = "doc" then some readDocumented else none
  inner := addPart "param" parameterOf fun c p => { c with parameters := c.parameters ++ [p] }
  leaves h c := by
    obtain ⟨-, ⟨⟩⟩ := Option.ite_none_right_eq_some.mp h
    exact readDocumentation_leaves.map fun raw => { c with documentation := some raw }

/-- The type with one more constructor, which a tag begins. -/
def readConstructor (tag : Tag) (t : TypeSymbol) : Reading TypeSymbol := do
  let c ← ofResult (constructorOf tag)
  let c ← constructorBody.read c
  return { t with constructors := t.constructors ++ [c] }

/-- The content of a type. -/
def typeBody : Body TypeSymbol where
  nested? tag := if tag.label = "constructor" then some (readConstructor tag) else none
  inner := addPart "constructor" constructorOf fun t c =>
    { t with constructors := t.constructors ++ [c] }
  leaves {tag} _ h t := by
    obtain ⟨-, ⟨⟩⟩ := Option.ite_none_right_eq_some.mp h
    exact LeavesElement.after (constructorOf tag) fun c =>
      (constructorBody.read_leaves c).map fun c =>
        { t with constructors := t.constructors ++ [c] }

/-- The content of a union. -/
def unionBody : Body UnionDeclaration where
  nested? _ := none
  inner := addPart "case" caseOf fun u reference => { u with cases := u.cases ++ [reference] }
  leaves h := nomatch h

/-! ### Whole documents -/

namespace State

variable {s s' : State} {tag : Tag}

/-- The state behind a type that a tag begins. -/
def readType (s : State) (tag : Tag) : Reading State := do
  let _ ← ofResult (s.root "type")
  let symbol ← ofResult (typeOf tag)
  let symbol ← typeBody.read symbol
  ofResult (s.closeType symbol)

/-- The state behind a union that a tag begins. -/
def readUnion (s : State) (tag : Tag) : Reading State := do
  let d ← ofResult (s.root "union")
  let declaration ← ofResult (unionOf tag d.scope)
  let declaration ← unionBody.read declaration
  ofResult (s.closeUnion declaration)

theorem readType_leaves (s : State) (tag : Tag) : LeavesElement (s.readType tag) :=
  LeavesElement.after (s.root "type") fun _ =>
    LeavesElement.after (typeOf tag) fun symbol =>
      (typeBody.read_leaves symbol).before s.closeType

theorem readUnion_leaves (s : State) (tag : Tag) : LeavesElement (s.readUnion tag) :=
  LeavesElement.after (s.root "union") fun d =>
    LeavesElement.after (unionOf tag d.scope) fun declaration =>
      (unionBody.read_leaves declaration).before s.closeUnion

/-- The state behind a definition that a start tag begins, or behind any other start tag outside
    of definitions. -/
def readElement (s : State) (tag : Tag) : Reading State :=
  if tag.label = "type" then s.readType tag
  else if tag.label = "union" then s.readUnion tag
  else ofResult (s.stepOutline (.start tag))

theorem length_of_readElement {r r' : Reader} {name : List Char} {outer : List (List Char)}
    (hopened : r.opened = name :: outer) (h : s.readElement tag r = .ok s' r') :
    r'.rest.length ≤ r.rest.length := by
  unfold readElement at h
  split at h
  · exact (readType_leaves s tag hopened h).length_le
  · split at h
    · exact (readUnion_leaves s tag hopened h).length_le
    · obtain ⟨-, rfl⟩ := ofResult_eq_ok h
      exact Nat.le_refl _

/-- One turn of the loop over the events outside of definitions. -/
def turn (s : State) : Reading (ForInStep State) := do
  match ← pull with
  | none => return .done s
  | some (.start tag) =>
    let s ← s.readElement tag
    return .yield s
  | some e =>
    let s ← ofResult (s.stepOutline e)
    return .yield s

theorem length_of_turn {r r' : Reader} (h : s.turn r = .ok (.yield s') r') :
    r'.rest.length < r.rest.length := by
  obtain ⟨e?, behind, hpull, h⟩ := exists_of_both_ok h
  replace hpull := pulls_of_pull hpull
  cases e? with
  | none => cases h
  | some e =>
    cases e with
    | start tag =>
      obtain ⟨s₁, r₁, hread, h⟩ := exists_of_both_ok h
      cases h
      have hle := length_of_readElement hpull.of_start.2 hread
      exact Nat.lt_of_le_of_lt hle (hpull.length_lt rfl)
    | close | empty | text | cdata | reference | comment | instruction | doctype =>
      obtain ⟨s₁, r₁, hstep, h⟩ := exists_of_both_ok h
      cases h
      obtain ⟨-, rfl⟩ := ofResult_eq_ok hstep
      exact hpull.length_lt rfl

/-- The loop over the events outside of definitions. -/
def outline : Loop State where
  turn := turn
  shortens := length_of_turn

end State

/-- The reader at the start of a text. -/
def readerOf (text : String) : Reader := ⟨withoutMark text.toList, [], true⟩

/-- Reads a schema document by descent. -/
def Document.descend (text : String) : Except Error Document :=
  Reading.into (State.outline.run {}) (fun s _ => s.bound) (readerOf text)

end TaggedUnion.Schema
