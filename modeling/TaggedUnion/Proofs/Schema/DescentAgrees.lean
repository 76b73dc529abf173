import TaggedUnion.Proofs.Schema.Descent
import TaggedUnion.Proofs.Schema.Unclosed

/-! # The descent reads what the steps read

    The steps of the reader take each event at the place that it stands at. The descent takes the
    same events, and where it is in its calls tells that place:

    * **`KeepsTrims`**: a computation leaves trimming as it found it, also where it fails. So do
      all readers but the one of documentation, which turns it off and on again.
    * **`State.readFrom_eq_into_pull`**: one step of the reader is one pull, wherever the text that
      the pull leaves out does not count.
    * **`Loop.into_run`**: what one turn does, the loop does.
    * **`Body.Follows`**: what a body does to each event is what the steps do at its place.
      **`Body.Follows.readFrom_eq`**: so the body is the stretch of steps up to its end.
    * **`Document.read_eq_descend`**: the descent reads every text as the steps do.
-/

namespace TaggedUnion.Schema

open TaggedUnion.Xml (Event Tag Reader Pulls Transcript readerBehind)
open Reading (pull ofResult untrimmed exists_of_both_ok ofResult_eq_ok pulls_of_pull)

/-! ### What becomes of a computation -/

namespace Reading

variable {α β γ : Type} {next next' : α → Reader → Except Error γ} {r : Reader}

theorem into_congr {x : Reading α}
    (h : ∀ a behind, x r = .ok a behind → next a behind = next' a behind) :
    into x next r = into x next' r := by
  unfold into
  split
  · next a behind hx => exact h a behind hx
  · rfl

theorem into_bind (x : Reading α) (f : α → Reading β) (next : β → Reader → Except Error γ)
    (r : Reader) : into (x >>= f) next r = into x (fun a => into (f a) next) r := by
  show into (EStateM.bind x f) next r = _
  unfold into EStateM.bind
  cases x r <;> rfl

theorem into_ofResult (x : Except Error α) (next : α → Reader → Except Error γ) (r : Reader) :
    into (ofResult x) next r = x >>= fun a => next a r := by
  cases x <;> rfl

theorem into_untrimmed (x : Reading α) (next : α → Reader → Except Error γ) (r : Reader) :
    into (untrimmed x) next r =
      into x (fun a behind => next a { behind with trims := true }) { r with trims := false } := by
  unfold into untrimmed
  cases x { r with trims := false } <;> rfl

end Reading

open Reading (into into_congr into_bind into_ofResult into_untrimmed)

/-! ### Trimming -/

/-- Where trimming is as `trims` says, it is so behind the computation, also where that fails. -/
def KeepsTrims {α : Type} (trims : Bool) (x : Reading α) : Prop :=
  ∀ ⦃r : Reader⦄, r.trims = trims → (readerBehind (x r)).trims = trims

namespace KeepsTrims

variable {α β : Type} {trims : Bool}

theorem of_ok {x : Reading α} (h : KeepsTrims trims x) {r r' : Reader} {a : α}
    (hr : r.trims = trims) (hx : x r = .ok a r') : r'.trims = trims := by
  have hbehind := h hr
  rwa [hx] at hbehind

theorem bind {x : Reading α} {f : α → Reading β} (hx : KeepsTrims trims x)
    (hf : ∀ a, KeepsTrims trims (f a)) : KeepsTrims trims (x >>= f) := by
  intro r hr
  have hbehind := hx hr
  show (readerBehind (EStateM.bind x f r)).trims = trims
  unfold EStateM.bind
  cases hrun : x r with
  | ok a r' => exact hf a (hx.of_ok hr hrun)
  | error e r' =>
    rw [hrun] at hbehind
    exact hbehind

theorem pure (a : α) : KeepsTrims trims (Pure.pure a : Reading α) := fun _ hr => hr

theorem ofResult (x : Except Error α) : KeepsTrims trims (ofResult x) := by
  intro r hr
  cases x <;> exact hr

theorem pull : KeepsTrims trims pull := by
  intro r hr
  have hnext := r.trims_next.trans hr
  unfold Reading.pull
  cases hrun : r.next with
  | ok e? behind | error f behind =>
    rw [hrun] at hnext
    exact hnext

/-- Trimming is on behind a computation to which blanks matter. -/
theorem trims_untrimmed (x : Reading α) (r : Reader) :
    (readerBehind (untrimmed x r)).trims = true := by
  unfold untrimmed
  cases x { r with trims := false } <;> rfl

theorem run {τ : Type} (loop : Loop τ) (h : ∀ t, KeepsTrims trims (loop.turn t)) (t : τ) :
    KeepsTrims trims (loop.run t) := by
  intro r hr
  unfold Loop.run
  fun_induction Loop.runFrom loop t r with
  | case1 t r e behind hturn | case2 t r last behind hturn =>
    have hbehind := h t hr
    rw [hturn] at hbehind
    exact hbehind
  | case3 t r next behind hturn _ ih => exact ih ((h t).of_ok hr hturn)

section body

variable {σ : Type} {b : Body σ}
  (h : ∀ {tag read}, b.nested? tag = some read → ∀ built, KeepsTrims trims (read built))

include h

/-- A turn of a body keeps trimming if those readers do that it hands elements to. -/
theorem turn (c : Content σ) : KeepsTrims trims (b.turn c) := by
  refine .bind .pull fun e? => ?_
  cases e? with
  | none => exact .pure _
  | some e =>
    cases e with
    | start tag =>
      cases hnested : b.nested? tag with
      | some read =>
        simp only [hnested]
        exact .bind (h hnested c.built) fun _ => .pure _
      | none =>
        simp only [hnested]
        exact .bind (.ofResult _) fun _ => .pure _
    | close name =>
      by_cases hdepth : c.depth = 0
      · simp only [hdepth, if_true]
        exact .pure _
      · simp only [hdepth, if_false]
        exact .bind (.ofResult _) fun _ => .pure _
    | empty | text | cdata | reference | comment | instruction | doctype =>
      exact .bind (.ofResult _) fun _ => .pure _

theorem read (built : σ) : KeepsTrims trims (b.read built) :=
  .bind (run b.loop (turn h) _) fun c => .pure c.built

end body

end KeepsTrims

theorem keepsTrims_readDocumented (c : Constructor) : KeepsTrims true (readDocumented c) :=
  KeepsTrims.bind (fun r _ => KeepsTrims.trims_untrimmed _ r) fun _ => .pure _

theorem keepsTrims_constructorBody (c : Constructor) :
    KeepsTrims true (constructorBody.read c) := by
  refine KeepsTrims.read (fun h built => ?_) c
  obtain ⟨-, ⟨⟩⟩ := Option.ite_none_right_eq_some.mp h
  exact keepsTrims_readDocumented built

theorem keepsTrims_readConstructor (tag : Tag) (t : TypeSymbol) :
    KeepsTrims true (readConstructor tag t) :=
  KeepsTrims.bind (.ofResult _) fun c => .bind (keepsTrims_constructorBody c) fun _ => .pure _

theorem keepsTrims_typeBody (t : TypeSymbol) : KeepsTrims true (typeBody.read t) := by
  refine KeepsTrims.read (fun h built => ?_) t
  obtain ⟨-, ⟨⟩⟩ := Option.ite_none_right_eq_some.mp h
  exact keepsTrims_readConstructor _ built

theorem keepsTrims_unionBody (u : UnionDeclaration) : KeepsTrims true (unionBody.read u) :=
  KeepsTrims.read (fun h => by cases h) u

/-! ### Pulls and steps -/

namespace State

/-- The document that is read on from a reader. -/
def readFrom (s : State) (r : Reader) : Except Error Document := s.readOn (.within r.opened r.rest)

/-- The state behind a pull. -/
def advance (s : State) : Option Event → Except Error State
  | none => .ok s
  | some e => s.step e

variable {s : State} {r : Reader}

theorem readOn_cons (s : State) (e : Event) (t : Transcript) :
    s.readOn (t.cons e) = s.step e >>= fun s => s.readOn t := by
  show List.foldlM State.step s (e :: t.events) >>= _ = _
  rw [List.foldlM_cons, bind_assoc]
  rfl

/-- At the end of the text nothing is read on. -/
theorem readFrom_end (s : State) (h : r.rest = []) : s.readFrom r = s.finish := by
  rw [readFrom, h]
  exact Document.readOn_end s r.opened

/-- Reading on is a pull and a step, where text does not count or is handed out as it is. -/
theorem readFrom_eq_into_pull (htext : r.trims = true → ∀ cs, s.step (.text cs) = .ok s) :
    s.readFrom r = into pull (fun e? behind => s.advance e? >>= fun s => s.readFrom behind) r := by
  unfold into pull readFrom
  fun_induction Xml.Reader.next r with
  | case1 r hend => rfl
  | case2 r f hfault =>
    rw [Transcript.within_of_error hfault]
    rfl
  | case3 r e rest hnext _ f henter =>
    rw [Transcript.within_of_enter_error hnext henter]
    rfl
  | case4 r e rest hnext _ opened henter shown hshown =>
    rw [Transcript.within_of_next hnext henter, readOn_cons]
    -- An event that is handed out otherwise than it stands there is text, which does not count.
    have hsame : s.step e = s.step shown := by
      rcases r.shown?_cases e with hsame | ⟨htrims, content, rfl, hnone | ⟨trimmed, htrimmed⟩⟩
      · rw [Option.some.inj (hsame.symm.trans hshown)]
      · cases hnone.symm.trans hshown
      · cases htrimmed.symm.trans hshown
        rw [htext htrims, htext htrims]
    rw [hsame]
    rfl
  | case5 r e rest hnext _ opened henter hshown ih =>
    -- The steps see the text that the pull leaves out, and pass over it.
    obtain ⟨htrims, content, rfl⟩ := Xml.Reader.eq_text_of_left_out hshown
    rw [Transcript.within_of_next hnext henter, readOn_cons, htext htrims]
    exact ih htext

end State

/-! ### Loops and steps -/

/-- What becomes of a turn: behind the last one comes `last`, behind any other one `next`. -/
def Loop.resume {τ γ : Type} (last next : τ → Reader → Except Error γ) :
    ForInStep τ → Reader → Except Error γ
  | .done t => last t
  | .yield t => next t

/-- What one turn does to every state that the loop comes to, the loop does. -/
theorem Loop.into_run {τ γ : Type} (loop : Loop τ) (meaning : τ → Reader → Except Error γ)
    {last : τ → Reader → Except Error γ} {P : τ → Reader → Prop}
    (hkeep : ∀ {t t' : τ} {r r' : Reader}, P t r → loop.turn t r = .ok (.yield t') r' → P t' r')
    (hturn : ∀ {t : τ} {r : Reader}, P t r →
      meaning t r = into (loop.turn t) (resume last meaning) r)
    {t : τ} {r : Reader} (h : P t r) : meaning t r = into (loop.run t) last r := by
  unfold into Loop.run
  fun_induction Loop.runFrom loop t r with
  | case1 t r e behind hrun => rw [hturn h, into, hrun]
  | case2 t r final behind hrun =>
    rw [hturn h, into, hrun]
    rfl
  | case3 t r next behind hrun _ ih =>
    rw [hturn h, into, hrun]
    exact ih (hkeep h hrun)

/-- What a body does to each event is what the steps do at the place where `state` puts them.
    Behind the end of the element the steps go on from `leave`. -/
structure Body.Follows {σ : Type} (b : Body σ) (state : Content σ → State)
    (leave : σ → Except Error State) (trims : Bool) : Prop where
  keeps {tag : Tag} {read : σ → Reading σ} (h : b.nested? tag = some read) (built : σ) :
    KeepsTrims trims (read built)
  /-- Where trimming is on, text does not count. -/
  text (h : trims = true) (cs : List Char) (built : σ) : b.inner (.text cs) built = .ok built
  /-- An element that is handed to its reader is read by the steps up to its end. -/
  nested {tag : Tag} {read : σ → Reading σ} (h : b.nested? tag = some read) (c : Content σ)
    {r : Reader} (hr : r.trims = trims) :
    ((state c).step (.start tag) >>= fun s => s.readFrom r) =
      into (read c.built) (fun built => (state ⟨built, c.depth⟩).readFrom) r
  descend {tag : Tag} (h : b.nested? tag = none) (c : Content σ) :
    (state c).step (.start tag) =
      b.inner (.start tag) c.built >>= fun built => .ok (state ⟨built, c.depth + 1⟩)
  ascend (name : List Char) (built : σ) (depth : Nat) :
    (state ⟨built, depth + 1⟩).step (.close name) =
      b.inner (.close name) built >>= fun built => .ok (state ⟨built, depth⟩)
  flat {e : Event} (h : e.isFlat) (c : Content σ) :
    (state c).step e = b.inner e c.built >>= fun built => .ok (state ⟨built, c.depth⟩)
  close (name : List Char) (built : σ) : (state ⟨built, 0⟩).step (.close name) = leave built
  /-- The end of the text leaves the element. -/
  finish (c : Content σ) : (state c).finish = leave c.built >>= State.finish

namespace Body.Follows

variable {σ : Type} {b : Body σ} {state : Content σ → State} {leave : σ → Except Error State}
  {trims : Bool} {c : Content σ} {r : Reader}

/-- One turn is what the steps do. -/
theorem readFrom_eq_into_turn (h : b.Follows state leave trims) (hr : r.trims = trims) :
    (state c).readFrom r =
      into (b.turn c)
        (Loop.resume (fun c behind => leave c.built >>= fun s => s.readFrom behind)
          fun c => (state c).readFrom) r := by
  have htext : r.trims = true → ∀ cs, (state c).step (.text cs) = .ok (state c) := by
    intro htrims cs
    rw [h.flat rfl, h.text (hr.symm.trans htrims)]
    rfl
  rw [State.readFrom_eq_into_pull htext, turn, into_bind]
  refine into_congr fun e? behind hpull => ?_
  have hbehind := KeepsTrims.pull.of_ok hr hpull
  replace hpull := pulls_of_pull hpull
  cases e? with
  | none =>
    cases hpull with
    | atEnd _ hrest =>
      -- Nothing is left, so the steps finish alike in the element and behind it.
      show (state c).readFrom behind = leave c.built >>= fun s => s.readFrom behind
      rw [State.readFrom_end _ hrest, h.finish]
      exact bind_congr fun s => (s.readFrom_end hrest).symm
  | some e =>
    show (state c).step e >>= _ = _
    cases e with
    | start tag =>
      cases hnested : b.nested? tag with
      | some read =>
        simp only [hnested]
        rw [h.nested hnested c hbehind, into_bind]
        rfl
      | none =>
        simp only [hnested]
        rw [h.descend hnested, into_bind, into_ofResult, bind_assoc]
        rfl
    | close name =>
      obtain ⟨built, depth⟩ := c
      cases depth with
      | zero =>
        rw [h.close]
        rfl
      | succ depth =>
        rw [h.ascend]
        simp only [Nat.add_one_ne_zero, if_false]
        rw [into_bind, into_ofResult, bind_assoc]
        rfl
    | empty | text | cdata | reference | comment | instruction | doctype =>
      rw [h.flat rfl]
      simp only
      rw [into_bind, into_ofResult, bind_assoc]
      rfl

/-- The body is the stretch of steps up to the end of its element. -/
theorem readFrom_eq (h : b.Follows state leave trims) (hr : r.trims = trims) (built : σ) :
    (state { built := built }).readFrom r =
      into (b.read built) (fun built behind => leave built >>= fun s => s.readFrom behind) r := by
  rw [read, into_bind]
  exact b.loop.into_run (fun c => (state c).readFrom) (P := fun _ r => r.trims = trims)
    (fun hr hturn => (KeepsTrims.turn h.keeps _).of_ok hr hturn) h.readFrom_eq_into_turn hr

end Body.Follows

/-! ### The bodies of a document and the steps -/

/-- A tag declares a part or changes nothing. -/
theorem Body.inner_bind {σ α : Type} {b : Body σ} {label : String}
    {declared : Tag → Except Error α} {add : σ → α → σ} (hb : b.inner = addPart label declared add)
    {e : Event} {tag : Tag} (h : e.tag? = some tag) (built : σ) (f : σ → State) :
    (b.inner e built >>= fun built => .ok (f built)) =
      if tag.label = label then declared tag >>= fun part => .ok (f (add built part))
      else .ok (f built) := by
  rw [hb, addPart, h]
  by_cases hlabel : tag.label = label
  · simp only [if_pos hlabel]
    rw [bind_assoc]
    rfl
  · simp only [if_neg hlabel]
    rfl

section bodies

variable (s : State)

theorem follows_documentationBody (t : OpenType) (c : OpenConstructor) :
    documentationBody.Follows (fun d => { s with place := .documentation t c ⟨d.built, d.depth⟩ })
      (fun raw => .ok { s with place := .constructor t (c.document raw) }) false where
  keeps h := by cases h
  text h := by cases h
  nested h := by cases h
  descend _ _ := rfl
  ascend _ _ _ := rfl
  flat {e} h d := by
    cases e with
    | start | close => cases h
    | empty | text | cdata | reference | comment | instruction | doctype => rfl
  close _ _ := rfl
  finish _ := rfl

theorem follows_constructorBody (t : OpenType) :
    constructorBody.Follows (fun c => { s with place := .constructor t ⟨c.built, c.depth⟩ })
      (fun c => .ok { s with place := .type (t.push c) }) true where
  keeps h := by
    obtain ⟨-, ⟨⟩⟩ := Option.ite_none_right_eq_some.mp h
    exact keepsTrims_readDocumented
  text _ _ _ := rfl
  nested {tag _} h c r _ := by
    obtain ⟨hlabel, ⟨⟩⟩ := Option.ite_none_right_eq_some.mp h
    replace hlabel : String.ofList tag.name = "doc" := hlabel
    simp only [State.step, State.stepConstructor, hlabel]
    -- Trimming is off in the documentation, whatever it is around it.
    rw [readDocumented, readDocumentation, into_bind, into_untrimmed, into_bind]
    exact (follows_documentationBody s t ⟨c.built, c.depth⟩).readFrom_eq
      (r := { r with trims := false }) rfl ""
  descend {tag} h c := by
    have hlabel : String.ofList tag.name ≠ "doc" := fun heq => by
      cases (if_pos heq).symm.trans h
    refine Eq.trans ?_ (Body.inner_bind rfl rfl c.built _).symm
    by_cases hparam : String.ofList tag.name = "param"
    · rw [Tag.label, if_pos hparam]
      simp only [State.step, State.stepConstructor, hparam]
      rfl
    · -- The tag has neither name, so the step comes down to its last arm.
      rw [Tag.label, if_neg hparam]
      simp only [State.step, State.stepConstructor]
  ascend _ _ _ := rfl
  flat {e} h c := by
    cases e with
    | start | close => cases h
    | empty tag =>
      refine Eq.trans ?_ (Body.inner_bind rfl rfl c.built _).symm
      rfl
    | text | cdata | reference | comment | instruction | doctype => rfl
  close _ _ := rfl
  finish _ := rfl

theorem follows_typeBody :
    typeBody.Follows (fun t => { s with place := .type ⟨t.built, t.depth⟩ }) s.closeType true where
  keeps h := by
    obtain ⟨-, ⟨⟩⟩ := Option.ite_none_right_eq_some.mp h
    exact keepsTrims_readConstructor _
  text _ _ _ := rfl
  nested {tag _} h t r hr := by
    obtain ⟨hlabel, ⟨⟩⟩ := Option.ite_none_right_eq_some.mp h
    let outer : OpenType := ⟨t.built, t.depth⟩
    have hstep : State.step { s with place := .type outer } (.start tag) = constructorOf tag >>=
        fun c => .ok { s with place := .constructor outer { constructor := c } } := if_pos hlabel
    rw [hstep, readConstructor, into_bind, into_ofResult, bind_assoc]
    refine bind_congr fun c => ?_
    rw [into_bind]
    exact (follows_constructorBody s outer).readFrom_eq hr c
  descend {tag} h t := by
    have hlabel : tag.label ≠ "constructor" := fun heq => by
      cases (if_pos heq).symm.trans h
    refine Eq.trans ?_ (Body.inner_bind rfl rfl t.built _).symm
    rw [if_neg hlabel]
    exact if_neg hlabel
  ascend _ _ _ := rfl
  flat {e} h t := by
    cases e with
    | start | close => cases h
    | empty tag =>
      refine Eq.trans ?_ (Body.inner_bind rfl rfl t.built _).symm
      rfl
    | text | cdata | reference | comment | instruction | doctype => rfl
  close _ _ := rfl
  finish _ := (State.bind_finish fun _ => State.place_closeType).symm

theorem follows_unionBody :
    unionBody.Follows (fun u => { s with place := .union ⟨u.built, u.depth⟩ }) s.closeUnion
      true where
  keeps h := by cases h
  text _ _ _ := rfl
  nested h := by cases h
  descend _ u := by
    refine Eq.trans ?_ (Body.inner_bind rfl rfl u.built _).symm
    rfl
  ascend _ _ _ := rfl
  flat {e} h u := by
    cases e with
    | start | close => cases h
    | empty tag =>
      refine Eq.trans ?_ (Body.inner_bind rfl rfl u.built _).symm
      rfl
    | text | cdata | reference | comment | instruction | doctype => rfl
  close _ _ := rfl
  finish _ := (State.bind_finish fun _ => State.place_closeUnion).symm

end bodies

/-! ### Whole documents -/

namespace State

variable {s s' : State} {tag : Tag} {e : Event} {r r' : Reader}

theorem keepsTrims_readElement (s : State) (tag : Tag) : KeepsTrims true (s.readElement tag) := by
  unfold readElement
  split
  · exact .bind (.ofResult _) fun _ => .bind (.ofResult _) fun _ =>
      .bind (keepsTrims_typeBody _) fun _ => .ofResult _
  · split
    · exact .bind (.ofResult _) fun _ => .bind (.ofResult _) fun _ =>
        .bind (keepsTrims_unionBody _) fun _ => .ofResult _
    · exact .ofResult _

theorem keepsTrims_turn (s : State) : KeepsTrims true s.turn := by
  refine .bind .pull fun e? => ?_
  cases e? with
  | none => exact .pure _
  | some e =>
    cases e with
    | start tag => exact .bind (s.keepsTrims_readElement tag) fun _ => .pure _
    | close | empty | text | cdata | reference | comment | instruction | doctype =>
      exact .bind (.ofResult _) fun _ => .pure _

/-- An event that begins no definition leaves the reader outside of definitions. -/
theorem place_stepOutline (hplace : s.place = .outline)
    (he : ∀ tag, e = .start tag → tag.label ≠ "type" ∧ tag.label ≠ "union")
    (h : s.stepOutline e = .ok s') : s'.place = .outline := by
  cases outlineMove_of_step h with
  | openType hlabel => exact absurd hlabel (he _ rfl).1
  | openUnion hlabel => exact absurd hlabel (he _ rfl).2
  | wholeType _ _ hclose => exact place_closeType hclose
  | wholeUnion _ _ _ hclose => exact place_closeUnion hclose
  | root | wholeAlias | pass => exact hplace

/-- Behind a whole element the reader is outside of definitions again. -/
theorem place_readElement (hplace : s.place = .outline) (h : s.readElement tag r = .ok s' r') :
    s'.place = .outline := by
  unfold readElement at h
  split at h
  · obtain ⟨_, _, -, h⟩ := exists_of_both_ok h
    obtain ⟨_, _, -, h⟩ := exists_of_both_ok h
    obtain ⟨_, _, -, h⟩ := exists_of_both_ok h
    exact place_closeType (ofResult_eq_ok h).1
  · next htype =>
    split at h
    · obtain ⟨_, _, -, h⟩ := exists_of_both_ok h
      obtain ⟨_, _, -, h⟩ := exists_of_both_ok h
      obtain ⟨_, _, -, h⟩ := exists_of_both_ok h
      exact place_closeUnion (ofResult_eq_ok h).1
    · next hunion =>
      refine place_stepOutline hplace ?_ (ofResult_eq_ok h).1
      rintro _ ⟨⟩
      exact ⟨htype, hunion⟩

theorem place_turn (hplace : s.place = .outline) (h : s.turn r = .ok (.yield s') r') :
    s'.place = .outline := by
  obtain ⟨e?, behind, hpull, h⟩ := exists_of_both_ok h
  cases e? with
  | none => cases h
  | some e =>
    cases e with
    | start tag =>
      obtain ⟨s₁, r₁, hread, h⟩ := exists_of_both_ok h
      cases h
      exact place_readElement hplace hread
    | close | empty | text | cdata | reference | comment | instruction | doctype =>
      obtain ⟨s₁, r₁, hstep, h⟩ := exists_of_both_ok h
      cases h
      exact place_stepOutline hplace (by simp) (ofResult_eq_ok hstep).1

/-- A start tag outside of definitions, with the definition that it begins. -/
theorem readFrom_eq_into_readElement (hplace : s.place = .outline) (hr : r.trims = true) :
    (s.step (.start tag) >>= fun s => s.readFrom r) =
      into (s.readElement tag) (fun s => s.readFrom) r := by
  have hstep : s.step (.start tag) = s.stepOutline (.start tag) := by rw [step, hplace]
  rw [hstep, readElement, Tag.label]
  by_cases htype : String.ofList tag.name = "type"
  · have htypeStep : s.stepOutline (.start tag) = s.root "type" >>= fun _ => typeOf tag >>=
        fun symbol => .ok { s with place := .type { symbol := symbol } } := by
      simp only [stepOutline, htype]
      rfl
    rw [htypeStep, if_pos htype, readType, into_bind, into_ofResult, bind_assoc]
    refine bind_congr fun _ => ?_
    rw [into_bind, into_ofResult, bind_assoc]
    refine bind_congr fun symbol => ?_
    rw [into_bind]
    refine ((follows_typeBody s).readFrom_eq hr symbol).trans ?_
    exact into_congr fun _ _ _ => (into_ofResult ..).symm
  · by_cases hunion : String.ofList tag.name = "union"
    · have hunionStep : s.stepOutline (.start tag) = s.root "union" >>= fun d =>
          unionOf tag d.scope >>= fun declaration =>
            .ok { s with place := .union { declaration := declaration } } := by
        simp only [stepOutline, hunion]
        rfl
      rw [hunionStep, if_neg htype, if_pos hunion, readUnion, into_bind, into_ofResult, bind_assoc]
      refine bind_congr fun d => ?_
      rw [into_bind, into_ofResult, bind_assoc]
      refine bind_congr fun declaration => ?_
      rw [into_bind]
      refine ((follows_unionBody s).readFrom_eq hr declaration).trans ?_
      exact into_congr fun _ _ _ => (into_ofResult ..).symm
    · rw [if_neg htype, if_neg hunion, into_ofResult]

theorem readFrom_eq_into_turn (hplace : s.place = .outline) (hr : r.trims = true) :
    s.readFrom r =
      into s.turn (Loop.resume (fun s _ => s.bound) fun s => s.readFrom) r := by
  have htext : r.trims = true → ∀ cs, s.step (.text cs) = .ok s := by
    intro _ cs
    rw [step, hplace]
    rfl
  rw [readFrom_eq_into_pull htext, turn, into_bind]
  refine into_congr fun e? behind hpull => ?_
  have hbehind := KeepsTrims.pull.of_ok hr hpull
  replace hpull := pulls_of_pull hpull
  cases e? with
  | none =>
    cases hpull with
    | atEnd _ hrest =>
      show s.readFrom behind = s.bound
      rw [readFrom_end _ hrest, finish_eq, leave, hplace]
      rfl
  | some e =>
    show s.step e >>= _ = _
    cases e with
    | start tag =>
      rw [readFrom_eq_into_readElement hplace hbehind]
      simp only
      rw [into_bind]
      rfl
    | close | empty | text | cdata | reference | comment | instruction | doctype =>
      simp only
      rw [into_bind, into_ofResult, step, hplace]
      rfl

end State

/-- The descent reads every text as the steps do. -/
theorem Document.read_eq_descend (text : String) : read text = descend text := by
  have hbegin : read text = State.readFrom {} (readerOf text) := by
    rw [read, ← String.ofList_toList (s := text), Transcript.ofText_ofList]
    rw [readerOf, String.toList_ofList]
    rfl
  rw [hbegin]
  exact State.outline.into_run State.readFrom
    (P := fun s r => s.place = .outline ∧ r.trims = true)
    (fun h hturn => ⟨State.place_turn h.1 hturn, (State.keepsTrims_turn _).of_ok h.2 hturn⟩)
    (fun h => State.readFrom_eq_into_turn h.1 h.2) ⟨rfl, rfl⟩

end TaggedUnion.Schema
