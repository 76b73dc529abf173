import TaggedUnion.Proofs.Schema.Bindings
import TaggedUnion.Proofs.Schema.Padding
import TaggedUnion.Proofs.Schema.Roots

/-! # Aliases at other places

    Where among the children of a root an alias stands does not matter, except that it must stand
    behind an alias that it targets:

    * **`State.step_prepend`**: no step looks at the aliases that have been read, and new ones are
      put behind them. So a run that starts with more aliases ends with more aliases, and
      **`State.run_swap`**: an alias before a run of content and behind it leads to states that
      differ in the order of their aliases at most, or to an error both times.
    * **`Moved`**: texts that differ in the places of aliases, and in the running text around them.
    * **`Document.read_moved`**: where one of them is accepted, the other one is accepted exactly
      if in it no alias stands before one that it targets, and with the same meaning.
      **`Document.not_forall_read_moved`**: the order of the aliases among each other decides this.
-/

namespace TaggedUnion.Schema

open TaggedUnion.Xml (Event Tag Transcript Reads Arrives Behind StartsMarkup IsRunningText IsRun
  openBehind startsMarkup_bracket)

/-! ### Earlier aliases -/

/-- The state with aliases that were read before all others. -/
def State.prepend (aliases : List (String × String)) (s : State) : State :=
  { s with aliases := aliases ++ s.aliases }

namespace State

variable {s s' : State} {e : Event} {es : List Event} (aliases : List (String × String))

/-- What is done in two parts commutes with a change of the state if the second part does. -/
theorem bind_eq_map {α : Type} {f : State → State} {x : Except Error α}
    {g g' : α → Except Error State} (h : ∀ a, g' a = (g a).map f) :
    x >>= g' = (x >>= g).map f := by
  cases x with
  | error err => rfl
  | ok a => exact h a

theorem closeType_prepend (s : State) (symbol : TypeSymbol) :
    (s.prepend aliases).closeType symbol = (s.closeType symbol).map (prepend aliases) :=
  bind_eq_map fun _ => bind_eq_map fun _ => rfl

theorem closeUnion_prepend (s : State) (declaration : UnionDeclaration) :
    (s.prepend aliases).closeUnion declaration =
      (s.closeUnion declaration).map (prepend aliases) :=
  bind_eq_map fun _ => bind_eq_map fun _ => rfl

theorem stepOutline_prepend (s : State) (e : Event) :
    (s.prepend aliases).stepOutline e = (s.stepOutline e).map (prepend aliases) := by
  cases e with
  | start tag =>
    simp only [stepOutline]
    split
    · exact bind_eq_map fun _ => rfl
    · exact bind_eq_map fun _ => bind_eq_map fun _ => rfl
    · exact bind_eq_map fun _ => bind_eq_map fun _ => rfl
    · rfl
  | empty tag =>
    simp only [stepOutline]
    split
    · exact bind_eq_map fun _ => rfl
    · exact bind_eq_map fun _ => bind_eq_map fun symbol => closeType_prepend aliases s symbol
    · refine bind_eq_map fun _ => bind_eq_map fun entry => ?_
      -- A new alias is put behind the earlier ones.
      show Except.ok (State.mk s.document (aliases ++ s.aliases ++ [entry]) s.place) =
        Except.ok (State.mk s.document (aliases ++ (s.aliases ++ [entry])) s.place)
      rw [List.append_assoc]
    · exact bind_eq_map fun _ => bind_eq_map fun declaration =>
        closeUnion_prepend aliases s declaration
    · rfl
  | close | text | cdata | reference | comment | instruction | doctype => rfl

theorem stepType_prepend (s : State) (t : OpenType) (e : Event) :
    (s.prepend aliases).stepType t e = (s.stepType t e).map (prepend aliases) := by
  cases e with
  | start tag | empty tag =>
    simp only [stepType]
    split
    · exact bind_eq_map fun _ => rfl
    · rfl
  | close name =>
    simp only [stepType]
    split
    · exact closeType_prepend aliases s t.symbol
    · rfl
  | text | cdata | reference | comment | instruction | doctype => rfl

theorem stepConstructor_prepend (s : State) (t : OpenType) (c : OpenConstructor) (e : Event) :
    (s.prepend aliases).stepConstructor t c e =
      (s.stepConstructor t c e).map (prepend aliases) := by
  cases e with
  | start tag =>
    simp only [stepConstructor]
    split
    · rfl
    · exact bind_eq_map fun _ => rfl
    · rfl
  | empty tag =>
    simp only [stepConstructor]
    split
    · exact bind_eq_map fun _ => rfl
    · rfl
  | close name =>
    simp only [stepConstructor]
    split <;> rfl
  | text | cdata | reference | comment | instruction | doctype => rfl

theorem stepUnion_prepend (s : State) (u : OpenUnion) (e : Event) :
    (s.prepend aliases).stepUnion u e = (s.stepUnion u e).map (prepend aliases) := by
  cases e with
  | start tag | empty tag =>
    simp only [stepUnion]
    split
    · exact bind_eq_map fun _ => rfl
    · rfl
  | close name =>
    simp only [stepUnion]
    split
    · exact closeUnion_prepend aliases s u.declaration
    · rfl
  | text | cdata | reference | comment | instruction | doctype => rfl

/-- No step looks at the aliases that have been read, and new ones are put behind them. -/
theorem step_prepend (s : State) (e : Event) :
    (s.prepend aliases).step e = (s.step e).map (prepend aliases) := by
  have hplace : (s.prepend aliases).place = s.place := rfl
  rw [step, step, hplace]
  cases s.place with
  | outline => exact stepOutline_prepend aliases s e
  | type t => exact stepType_prepend aliases s t e
  | constructor t c => exact stepConstructor_prepend aliases s t c e
  | documentation t c d =>
    cases e with
    | close name =>
      simp only [stepDocumentation]
      split <;> rfl
    | start | empty | text | cdata | reference | comment | instruction | doctype => rfl
  | union u => exact stepUnion_prepend aliases s u e

theorem run_prepend (s : State) (es : List Event) :
    es.foldlM step (s.prepend aliases) = (es.foldlM step s).map (prepend aliases) := by
  induction es generalizing s with
  | nil => rfl
  | cons e es ih =>
    rw [List.foldlM_cons, List.foldlM_cons, step_prepend]
    cases s.step e with
    | error err => rfl
    | ok s₁ => exact ih s₁

theorem leave_prepend (s : State) :
    (s.prepend aliases).leave = s.leave.map (prepend aliases) := by
  have hplace : (s.prepend aliases).place = s.place := rfl
  rw [leave, leave, hplace]
  cases s.place with
  | outline => rfl
  | type | constructor | documentation => exact closeType_prepend aliases s _
  | union => exact closeUnion_prepend aliases s _

/-! ### Aliases in another order -/

/-- The state without its aliases. -/
def bare (s : State) : State := { s with aliases := [] }

theorem eq_prepend_bare (s : State) : s = s.bare.prepend s.aliases := by
  rw [prepend, bare, List.append_nil]

/-- The states differ at most in the order of their aliases. -/
structure Shuffled (s s' : State) : Prop where
  document : s'.document = s.document
  place : s'.place = s.place
  aliases : s.aliases.Perm s'.aliases

/-- The outcomes are states that differ at most in the order of their aliases, or both are
    errors. -/
inductive SameOutcome : Except Error State → Except Error State → Prop
  | ok {s s' : State} (h : s.Shuffled s') : SameOutcome (.ok s) (.ok s')
  | error (err err' : Error) : SameOutcome (.error err) (.error err')

namespace Shuffled

theorem refl (s : State) : s.Shuffled s := ⟨rfl, rfl, .refl _⟩

theorem symm (h : s.Shuffled s') : s'.Shuffled s := ⟨h.document.symm, h.place.symm, h.aliases.symm⟩

theorem trans {s'' : State} (h : s.Shuffled s') (h' : s'.Shuffled s'') : s.Shuffled s'' :=
  ⟨h'.document.trans h.document, h'.place.trans h.place, h.aliases.trans h'.aliases⟩

/-- What is done without looking at the aliases does not depend on their order. -/
theorem sameOutcome {f : State → Except Error State} (hf : ∀ aliases s,
      f (s.prepend aliases) = (f s).map (State.prepend aliases)) (h : s.Shuffled s') :
    SameOutcome (f s) (f s') := by
  have hbare : s'.bare = s.bare := by rw [bare, bare, h.document, h.place]
  rw [eq_prepend_bare s, eq_prepend_bare s', hbare, hf, hf]
  cases f s.bare with
  | error err => exact .error err err
  | ok t => exact .ok ⟨rfl, rfl, h.aliases.append_right t.aliases⟩

end Shuffled

namespace SameOutcome

variable {x x' x'' : Except Error State}

theorem refl (x : Except Error State) : SameOutcome x x := by
  cases x with
  | error err => exact .error err err
  | ok s => exact .ok (.refl s)

theorem symm (h : SameOutcome x x') : SameOutcome x' x := by
  cases h with
  | error err err' => exact .error err' err
  | ok h => exact .ok h.symm

theorem trans (h : SameOutcome x x') (h' : SameOutcome x' x'') : SameOutcome x x'' := by
  cases h with
  | error err err' =>
    cases h' with
    | error err₁ err'' => exact .error err err''
  | ok h =>
    cases h' with
    | ok h' => exact .ok (h.trans h')

theorem bind {f f' : State → Except Error State} (h : SameOutcome x x')
    (hf : ∀ s s', s.Shuffled s' → SameOutcome (f s) (f' s')) :
    SameOutcome (x >>= f) (x' >>= f') := by
  cases h with
  | error err err' => exact .error err err'
  | ok h => exact hf _ _ h

end SameOutcome

/-! ### An alias behind a run of content -/

variable {tag : Tag} {opened : List (List Char)}

/-- An alias among the definitions is put behind the others. -/
theorem step_alias (hplace : s.place = .outline) (hsome : s.document.isSome)
    (hlabel : tag.label = "alias") :
    s.step (.empty tag) =
      (aliasOf tag).map fun entry => { s with aliases := s.aliases ++ [entry] } := by
  obtain ⟨document, aliases, place⟩ := s
  cases hplace
  replace hlabel : String.ofList tag.name = "alias" := hlabel
  simp only [step, stepOutline, hlabel]
  cases document with
  | none => cases hsome
  | some d => cases aliasOf tag <;> rfl

/-- Whether an alias stands before or behind a run of content makes no difference but for the
    order of the aliases. -/
theorem run_swap (hsome : s.document.isSome) (hs : s.place.Nested opened)
    (hnone : NoDefinition opened) (hlabel : tag.label = "alias")
    (hopened : openBehind opened es = opened) :
    SameOutcome ((Event.empty tag :: es).foldlM step s)
      ((es ++ [Event.empty tag]).foldlM step s) := by
  have hbefore := step_alias (hs.eq_outline_iff.mpr hnone) hsome hlabel
  have hbehind (t : State) (ht : es.foldlM step s = .ok t) := by
    have hplace := hs.run ht
    rw [hopened] at hplace
    exact step_alias (hplace.eq_outline_iff.mpr hnone) (isSome_document_run hsome ht) hlabel
  rw [List.foldlM_cons, List.foldlM_append, hbefore]
  cases halias : aliasOf tag with
  | error err =>
    cases ht : es.foldlM step s with
    | error err' => exact .error err err'
    | ok t =>
      show SameOutcome (.error err) (t.step (.empty tag) >>= pure)
      rw [hbehind t ht, halias]
      exact .error err err
  | ok entry =>
    show SameOutcome (es.foldlM step { s with aliases := s.aliases ++ [entry] }) _
    have hnew : { s with aliases := s.aliases ++ [entry] } =
        s.bare.prepend (s.aliases ++ [entry]) := by
      rw [prepend, bare, List.append_nil]
    rw [hnew, run_prepend]
    have hold := run_prepend s.aliases s.bare es
    rw [← eq_prepend_bare] at hold
    cases ht : es.foldlM step s.bare with
    | error err =>
      rw [hold, ht]
      exact .error err err
    | ok t =>
      rw [ht] at hold
      have hstep := hbehind _ hold
      rw [halias] at hstep
      rw [hold]
      show SameOutcome (.ok (t.prepend (s.aliases ++ [entry])))
        ((t.prepend s.aliases).step (.empty tag) >>= pure)
      rw [hstep]
      -- Before the aliases of the run or behind them, the alias is one of all aliases.
      refine .ok ⟨rfl, rfl, ?_⟩
      show (s.aliases ++ [entry] ++ t.aliases).Perm (s.aliases ++ t.aliases ++ [entry])
      rw [List.append_assoc, List.append_assoc]
      exact List.perm_append_comm.append_left s.aliases

/-- What does the same at every state at a place does the same behind a run of content there. -/
theorem run_append_congr (hs : s.place.Nested opened) (hopened : openBehind opened es = opened)
    {fs fs' : List Event}
    (h : ∀ t : State, t.place.Nested opened → fs.foldlM step t = fs'.foldlM step t) :
    (es ++ fs).foldlM step s = (es ++ fs').foldlM step s := by
  rw [List.foldlM_append, List.foldlM_append]
  cases ht : es.foldlM step s with
  | error err => rfl
  | ok t =>
    have hnested := hs.run ht
    rw [hopened] at hnested
    exact h t hnested

/-- The same with running text around the alias and around the run. -/
theorem run_moved (hsome : s.document.isSome) (hs : s.place.Nested opened)
    (hnone : NoDefinition opened) (hlabel : tag.label = "alias")
    (hopened : openBehind opened es = opened) {ts₁ ts₂ ts₃ ts₁' ts₂' ts₃' : List Event}
    (hts₁ : ∀ e ∈ ts₁, IsIdle e) (hts₂ : ∀ e ∈ ts₂, IsIdle e) (hts₃ : ∀ e ∈ ts₃, IsIdle e)
    (hts₁' : ∀ e ∈ ts₁', IsIdle e) (hts₂' : ∀ e ∈ ts₂', IsIdle e)
    (hts₃' : ∀ e ∈ ts₃', IsIdle e) :
    SameOutcome ((ts₁ ++ ([Event.empty tag] ++ (ts₂ ++ (es ++ ts₃)))).foldlM step s)
      (((ts₁' ++ (es ++ ts₂')) ++ ([Event.empty tag] ++ ts₃')).foldlM step s) := by
  have hplace (place : Place) (h : place.Nested opened) :
      ∀ t c d, place ≠ .documentation t c d := by
    obtain rfl := h.eq_outline_iff.mpr hnone
    intro t c d heq
    cases heq
  have hrun (t : State) (ht : t.place.Nested opened) :
      (ts₂ ++ (es ++ ts₃)).foldlM step t = es.foldlM step t :=
    run_between ht hplace hopened hts₂ hts₃
  have halias (t : State) (ht : t.place.Nested opened) :
      ([Event.empty tag] ++ ts₃').foldlM step t = [Event.empty tag].foldlM step t := by
    have hnothing : ∀ e ∈ ([] : List Event), IsIdle e := by simp
    have hopened' : openBehind opened [Event.empty tag] = opened := rfl
    exact run_between ht hplace hopened' hnothing hts₃'
  have hfirst : (ts₁ ++ ([Event.empty tag] ++ (ts₂ ++ (es ++ ts₃)))).foldlM step s =
      ([Event.empty tag] ++ es).foldlM step s := by
    rw [List.foldlM_append, run_idle hts₁ (hplace s.place hs)]
    exact run_append_congr hs rfl hrun
  have hsecond : ((ts₁' ++ (es ++ ts₂')) ++ ([Event.empty tag] ++ ts₃')).foldlM step s =
      (es ++ [Event.empty tag]).foldlM step s := by
    rw [List.foldlM_append, run_between hs hplace hopened hts₁' hts₂', ← List.foldlM_append]
    exact run_append_congr hs hopened halias
  rw [hfirst, hsecond]
  exact run_swap hsome hs hnone hlabel hopened

/-! ### Inside a root -/

/-- If a root is open that stands in no definition, the reader has a document. -/
def HasRootDocument (opened : List (List Char)) (s : State) : Prop :=
  ∀ root outer, root :: outer <:+ opened → String.ofList root = "unions" → NoDefinition outer →
    s.document.isSome

theorem HasRootDocument.step (h : HasRootDocument opened s) (hnested : s.place.Nested opened)
    (hs : s.step e = .ok s') : HasRootDocument (e.nest opened) s' := by
  intro root outer hsuffix hroot hnone
  cases e with
  | start tag =>
    rcases List.suffix_cons_iff.mp hsuffix with hbegin | hsuffix
    · -- The root begins here, where no definition is open.
      obtain ⟨rfl, rfl⟩ := List.cons.inj hbegin
      exact isSome_document_root (hnested.eq_outline_iff.mpr hnone) ⟨tag, rfl, hroot⟩ hs
    · exact isSome_document_step (h root outer hsuffix hroot hnone) hs
  | close name =>
    have hsuffix' := hsuffix.trans (List.tail_suffix opened)
    exact isSome_document_step (h root outer hsuffix' hroot hnone) hs
  | empty | text | cdata | reference | comment | instruction | doctype =>
    exact isSome_document_step (h root outer hsuffix hroot hnone) hs

theorem HasRootDocument.run (h : HasRootDocument opened s) (hnested : s.place.Nested opened)
    (hs : es.foldlM State.step s = .ok s') : HasRootDocument (openBehind opened es) s' := by
  -- A step keeps it only where the place and the open elements agree, so both are kept together.
  have hboth := run_keeps (P := fun opened s => s.place.Nested opened ∧ HasRootDocument opened s)
    (fun h hs => ⟨h.1.step hs, h.2.step h.1 hs⟩) opened ⟨hnested, h⟩ hs
  exact hboth.2

end State

/-! ### Whole texts -/

/-- The state that is read on from a state, as it is at the end of the text. -/
def State.runOn (s : State) (t : Transcript) : Except Error State := do
  let s ← t.events.foldlM State.step s
  match t.fault with
  | some f => .error (.xml f)
  | none => .ok s

/-- The state at the end of a text, with every definition complete and no alias bound. -/
def State.ofText (text : String) : Except Error State :=
  ({} : State).runOn (Transcript.ofText text) >>= State.leave

/-- The aliases that are declared in a text, in order, with their targets. -/
def declaredAliases (text : String) : List (String × String) :=
  match State.ofText text with
  | .ok s => s.aliases
  | .error _ => []

theorem State.runOn_append (s : State) (es : List Event) (t : Transcript) :
    s.runOn ⟨es ++ t.events, t.fault⟩ = es.foldlM State.step s >>= fun s => s.runOn t := by
  rw [runOn, List.foldlM_append, bind_assoc]
  rfl

theorem Document.read_eq_ofText (text : String) :
    read text = State.ofText text >>= State.bound := by
  rw [State.ofText, State.runOn, bind_assoc, bind_assoc]
  show ((Transcript.ofText text).events.foldlM State.step {} >>= _) = _
  refine bind_congr fun s => ?_
  cases (Transcript.ofText text).fault <;> rfl

/-- The second text is the first one with aliases moved to other places among the children of a
    root, one after the other, and with other running text around them. Everything else stays in
    its order. -/
inductive Moved : List Char → List Char → Prop
  | refl (text : List Char) : Moved text text
  | symm {text text' : List Char} (h : Moved text text') : Moved text' text
  | trans {text text' text'' : List Char} (h : Moved text text') (h' : Moved text' text'') :
      Moved text text''
  /-- An alias is moved from a place behind `before` to a place behind the run of content `core`. -/
  | later {before gap₁ gap₂ gap₃ gap₁' gap₂' gap₃' element core after root : List Char}
      {outer : List (List Char)} {es ps : List Event} {tag : Tag}
      (hbefore : Behind before es (root :: outer)) (hroot : String.ofList root = "unions")
      (houter : NoDefinition outer) (helement : IsRun element [.empty tag])
      (hlabel : tag.label = "alias") (hcore : IsRun core ps) (hgap₁ : IsRunningText gap₁)
      (hgap₂ : IsRunningText gap₂) (hgap₃ : IsRunningText gap₃) (hgap₁' : IsRunningText gap₁')
      (hgap₂' : IsRunningText gap₂') (hgap₃' : IsRunningText gap₃') (hafter : StartsMarkup after) :
      Moved (before ++ (gap₁ ++ (element ++ (gap₂ ++ (core ++ (gap₃ ++ after))))))
        (before ++ (gap₁' ++ (core ++ (gap₂' ++ (element ++ (gap₃' ++ after))))))

namespace State

variable {before after cs cs' : List Char} {opened inner : List (List Char)}
  {es ps ps' : List Event}

/-- A text is read up to a piece, through the piece and from there on. -/
theorem ofText_of_reads (hbefore : Behind before es opened)
    (hreads : Reads opened cs ps inner after) :
    ofText (String.ofList (before ++ cs)) = es.foldlM step {} >>= fun s =>
      ps.foldlM step s >>= fun s => s.runOn (.within inner after) >>= leave := by
  rw [ofText, (hbefore cs).ofText_eq, runOn_append, hreads.within_eq, bind_assoc]
  refine bind_congr fun s => ?_
  rw [runOn_append, bind_assoc]

/-- Reading on does not depend on the order of the aliases. -/
theorem runOn_prepend (t : Transcript) (aliases : List (String × String)) (s : State) :
    (s.prepend aliases).runOn t = (s.runOn t).map (prepend aliases) := by
  rw [runOn, runOn, run_prepend]
  cases t.events.foldlM step s with
  | error err => rfl
  | ok s' =>
    cases t.fault with
    | none => rfl
    | some f => rfl

/-- Pieces with the same outcome from every state at a place lead to the same outcome of the
    text. -/
theorem sameOutcome_ofText (hbefore : Behind before es opened)
    (hreads : Reads opened cs ps inner after) (hreads' : Reads opened cs' ps' inner after)
    (hsame : ∀ s, s.place.Nested opened → HasRootDocument opened s →
      SameOutcome (ps.foldlM step s) (ps'.foldlM step s)) :
    SameOutcome (ofText (String.ofList (before ++ cs)))
      (ofText (String.ofList (before ++ cs'))) := by
  rw [ofText_of_reads hbefore hreads, ofText_of_reads hbefore hreads']
  cases hs : es.foldlM step ({} : State) with
  | error err => exact .refl _
  | ok s =>
    have hopened : openBehind [] es = opened := ((hbefore []).inner_eq).symm
    have hnested := Place.Nested.run_begin hs
    have hdocument : HasRootDocument [] ({} : State) := by
      intro root outer hsuffix
      cases List.suffix_nil.mp hsuffix
    have hdocument := hdocument.run (by simp [Place.Nested, NoDefinition]) hs
    rw [hopened] at hnested hdocument
    refine (hsame s hnested hdocument).bind fun s₁ s₂ h => ?_
    have hrest : SameOutcome (s₁.runOn (.within inner after)) (s₂.runOn (.within inner after)) :=
      h.sameOutcome (f := (·.runOn (.within inner after))) (runOn_prepend _)
    exact hrest.bind fun s₁ s₂ h => h.sameOutcome leave_prepend

end State

namespace Moved

/-- An alias and a run of content right behind it change places. -/
theorem swap {before element core after root : List Char} {outer : List (List Char)}
    {es ps : List Event} {tag : Tag} (hbefore : Behind before es (root :: outer))
    (hroot : String.ofList root = "unions") (houter : NoDefinition outer)
    (helement : IsRun element [.empty tag]) (hlabel : tag.label = "alias") (hcore : IsRun core ps)
    (hafter : StartsMarkup after) :
    Moved (before ++ (element ++ (core ++ after))) (before ++ (core ++ (element ++ after))) := by
  have hnothing : IsRunningText [] := by decide
  exact .later hbefore hroot houter helement hlabel hcore hnothing hnothing hnothing hnothing
    hnothing hnothing hafter

variable {text text' : List Char}

/-- Texts that differ in the places of aliases only lead to states that differ in the order of
    their aliases only. -/
theorem sameOutcome (h : Moved text text') :
    State.SameOutcome (State.ofText (String.ofList text)) (State.ofText (String.ofList text')) := by
  induction h with
  | refl => exact .refl _
  | symm _ ih => exact ih.symm
  | trans _ _ ih ih' => exact ih.trans ih'
  | @later before gap₁ gap₂ gap₃ gap₁' gap₂' gap₃' element core after root outer es ps tag hbefore
      hroot houter helement hlabel hcore hgap₁ hgap₂ hgap₃ hgap₁' hgap₂' hgap₃' hafter =>
    have hnone : NoDefinition (root :: outer) := by
      intro name hname
      rcases List.mem_cons.mp hname with rfl | hname
      · rw [IsDefinition, hroot]
        decide
      · exact houter name hname
    have helement' := helement.spells.append_opened (root :: outer)
    have hmarkup := helement.startsMarkup_append (List.cons_ne_nil _ _)
    obtain ⟨ts₁, hts₁, hbegin⟩ := hgap₁.reads (hmarkup _) (root :: outer)
    obtain ⟨ts₂, ts₃, hts, hrun⟩ := hcore.reads_between hgap₂ hgap₃ hafter (root :: outer)
    obtain ⟨qs₁, qs₂, hqs, hrun'⟩ := hcore.reads_between hgap₁' hgap₂' (hmarkup _) (root :: outer)
    obtain ⟨qs₃, hqs₃, hend⟩ := hgap₃'.reads hafter (root :: outer)
    have hreads := hbegin.trans ((helement' _).trans hrun)
    have hreads' := hrun'.trans ((helement' _).trans hend)
    refine State.sameOutcome_ofText hbefore hreads hreads' ?_
    intro s hs hdocument
    have hsome := hdocument root outer (List.suffix_refl _) hroot houter
    have hopened := hcore.openBehind_eq (root :: outer)
    exact State.run_moved hsome hs hnone hlabel hopened (isIdle_of_text hts₁)
      (isIdle_of_text hts.1) (isIdle_of_text hts.2) (isIdle_of_text hqs.1)
      (isIdle_of_text hqs.2) (isIdle_of_text hqs₃)

end Moved

namespace Document

variable {text text' : List Char} {d d' : Document}

theorem exists_of_isOk {x : Except Error Document} (h : x.isOk) : ∃ d, x = .ok d := by
  cases x with
  | error err => cases h
  | ok d => exact ⟨d, rfl⟩

/-- What is read is the document at the end of the text with its aliases bound. -/
theorem exists_ofText_of_read {text : String} (h : read text = .ok d) :
    ∃ (s : State) (bare : Document), State.ofText text = .ok s ∧ s.document = some bare ∧
      bare.bindAliases s.aliases = .ok d := by
  rw [read_eq_ofText] at h
  obtain ⟨s, hs, h⟩ := exists_of_bind_ok h
  rw [State.bound] at h
  cases hdocument : s.document with
  | none =>
    rw [hdocument] at h
    cases h
  | some bare =>
    rw [hdocument] at h
    exact ⟨s, bare, hs, hdocument, h⟩

/-- Where aliases are moved in a text, it is accepted exactly if no alias stands before one that it
    targets, and then its types, its unions and the meaning of every name are what they were. -/
theorem read_moved (hmoved : Moved text text') (h : read (String.ofList text) = .ok d) :
    ((∃ d', read (String.ofList text') = .ok d') ↔
      TargetsFirst (declaredAliases (String.ofList text'))) ∧
    ∀ d', read (String.ofList text') = .ok d' → d.SameAnswers d' := by
  obtain ⟨s, bare, hs, hdocument, hbind⟩ := exists_ofText_of_read h
  have hsame := hmoved.sameOutcome
  rw [hs] at hsame
  cases hs' : State.ofText (String.ofList text') with
  | error err =>
    rw [hs'] at hsame
    cases hsame
  | ok s' =>
    rw [hs'] at hsame
    obtain ⟨hdocument', -, hperm⟩ : s.Shuffled s' := by
      cases hsame with
      | ok h => exact h
    have hread : read (String.ofList text') = bare.bindAliases s'.aliases := by
      rw [read_eq_ofText, hs']
      show s'.bound = _
      rw [State.bound, hdocument', hdocument]
    have hdeclared : declaredAliases (String.ofList text') = s'.aliases := by
      rw [declaredAliases, hs']
    rw [hread, hdeclared]
    exact ⟨exists_bindAliases_iff hperm hbind, fun d' hd' => sameAnswers_of_perm hperm hbind hd'⟩

/-- The same for an alias that is moved before the type that it targets. -/
theorem read_moved_before_type :
    ∃ d d', read "<unions><type name=\"A\"/><alias name=\"B\" target=\"A\"/></unions>" = .ok d ∧
      read "<unions><alias name=\"B\" target=\"A\"/><type name=\"A\"/></unions>" = .ok d' ∧
      d.SameAnswers d' := by
  let aliasTag : Tag := ⟨"alias name=\"B\" target=\"A\"".toList⟩
  let typeTag : Tag := ⟨"type name=\"A\"".toList⟩
  have harrives : Arrives "<unions>".toList [.start ⟨"unions".toList⟩] ["unions".toList]
      "</unions>".toList := .event rfl rfl (.here _ _)
  have hend : StartsMarkup "</unions>".toList := startsMarkup_bracket _
  have halias : Reads [] ("<alias name=\"B\" target=\"A\"/>".toList ++ "</unions>".toList)
      [.empty aliasTag] [] "</unions>".toList := .event rfl rfl (.here _ _)
  have htype : Reads [] ("<type name=\"A\"/>".toList ++ "</unions>".toList)
      [.empty typeTag] [] "</unions>".toList := .event rfl rfl (.here _ _)
  have hmoved := Moved.swap (harrives.behind rfl (by simp)) rfl (by simp [NoDefinition])
    (.of_reads halias (startsMarkup_bracket _) rfl rfl (by simp)) (by decide)
    (.of_reads htype (startsMarkup_bracket _) rfl rfl (by simp)) hend
  have hok : (read "<unions><type name=\"A\"/><alias name=\"B\" target=\"A\"/></unions>").isOk := by
    cbv
  have haliases : declaredAliases
      "<unions><alias name=\"B\" target=\"A\"/><type name=\"A\"/></unions>" = [("B", "A")] := by
    cbv
  obtain ⟨d, hread⟩ := exists_of_isOk hok
  obtain ⟨hiff, hanswers⟩ := read_moved hmoved.symm hread
  obtain ⟨d', hd'⟩ := hiff.mpr (haliases ▸ by decide)
  exact ⟨d, d', hread, hd', hanswers d' hd'⟩

/-- In another order aliases need not be accepted: here one is moved before the alias that it
    targets. -/
theorem not_forall_read_moved :
    ¬ ∀ (text text' : List Char) (d : Document), Moved text text' →
        read (String.ofList text) = .ok d →
        ∃ d', read (String.ofList text') = .ok d' ∧ d.SameAnswers d' := by
  intro hforall
  let first : Tag := ⟨"alias name=\"B\" target=\"A\"".toList⟩
  let second : Tag := ⟨"alias name=\"C\" target=\"B\"".toList⟩
  have harrives : Arrives "<unions><type name=\"A\"/>".toList
      [.start ⟨"unions".toList⟩, .empty ⟨"type name=\"A\"".toList⟩] ["unions".toList]
      "</unions>".toList := .event rfl rfl (.event rfl rfl (.here _ _))
  have hend : StartsMarkup "</unions>".toList := startsMarkup_bracket _
  have hfirst : Reads [] ("<alias name=\"B\" target=\"A\"/>".toList ++ "</unions>".toList)
      [.empty first] [] "</unions>".toList := .event rfl rfl (.here _ _)
  have hsecond : Reads [] ("<alias name=\"C\" target=\"B\"/>".toList ++ "</unions>".toList)
      [.empty second] [] "</unions>".toList := .event rfl rfl (.here _ _)
  have hmoved := Moved.swap (harrives.behind rfl (by simp)) rfl (by simp [NoDefinition])
    (.of_reads hfirst (startsMarkup_bracket _) rfl rfl (by simp)) (by decide)
    (.of_reads hsecond (startsMarkup_bracket _) rfl rfl (by simp)) hend
  have hok : (read (String.ofList ("<unions><type name=\"A\"/>".toList ++
      ("<alias name=\"B\" target=\"A\"/>".toList ++
        ("<alias name=\"C\" target=\"B\"/>".toList ++ "</unions>".toList))))).isOk := by
    cbv
  have hrefused : read (String.ofList ("<unions><type name=\"A\"/>".toList ++
      ("<alias name=\"C\" target=\"B\"/>".toList ++
        ("<alias name=\"B\" target=\"A\"/>".toList ++ "</unions>".toList)))) =
      .error (.unknownTarget "C" "B") := by
    cbv
  obtain ⟨d, hread⟩ := exists_of_isOk hok
  obtain ⟨d', hd', -⟩ := hforall _ _ d hmoved hread
  rw [hrefused] at hd'
  cases hd'

end Document

end TaggedUnion.Schema
