import TaggedUnion.Proofs.Schema.Store
import TaggedUnion.Proofs.Schema.Writer

/-! # Reading what was written

    A written document is read as the document that its types, unions and aliases make when they
    are added one by one, or is refused for the cause for which one of them is refused:

    * **`State.runLines`**: the state behind lines. Running text before a piece of markup
      changes nothing, except inside documentation (`runLines_cons`).
    * **`runLines_collect`**: a list of elements is collected in order, be it parameters,
      constructors, cases or aliases.
    * **`runLines_type`**, **`runLines_union`**: a whole definition is one operation on the
      document, with the outcome that this operation has.
    * **`read_write`**: the whole document.
-/

namespace TaggedUnion.Schema

open TaggedUnion.Xml (Tag Event Line Markup IsWord)

/-! ### States behind lines -/

/-- The state behind the events of lines. -/
def State.runLines (s : State) (lines : List Line) : Except Error State :=
  (lines.flatMap Line.events).foldlM State.step s

namespace State

theorem runLines_nil (s : State) : s.runLines [] = .ok s := rfl

theorem runLines_append (s : State) (ks ls : List Line) :
    s.runLines (ks ++ ls) = (s.runLines ks).bind (·.runLines ls) := by
  rw [runLines, List.flatMap_append, List.foldlM_append]
  rfl

/-- Where running text changes nothing, or where there is none, only the markup of a line
    counts. -/
theorem runLines_cons {s : State} {l : Line}
    (h : l.gap = "" ∨ ∀ cs, s.step (.text cs) = .ok s) (ls : List Line) :
    s.runLines (l :: ls) = (s.step l.markup.event).bind (·.runLines ls) := by
  have hline : l.events.foldlM State.step s = s.step l.markup.event := by
    rw [Line.events]
    by_cases hgap : l.gap = ""
    · rw [if_pos hgap, List.foldlM_cons]
      cases s.step l.markup.event <;> rfl
    · rw [if_neg hgap, List.foldlM_cons, h.resolve_left hgap]
      show List.foldlM State.step s [l.markup.event] = _
      rw [List.foldlM_cons]
      cases s.step l.markup.event <;> rfl
  rw [runLines, List.flatMap_cons, List.foldlM_append, hline]
  rfl

/-- What is collected element by element is in the end the whole list. -/
theorem runLines_collect {α : Type} {lines : α → List Line} (state : List α → State)
    {xs : List α} (h : ∀ x ∈ xs, ∀ ys, (state ys).runLines (lines x) = .ok (state (ys ++ [x])))
    (ys : List α) : (state ys).runLines (xs.flatMap lines) = .ok (state (ys ++ xs)) := by
  induction xs generalizing ys with
  | nil => rw [List.append_nil, List.flatMap_nil, runLines_nil]
  | cons x xs ih =>
    have hrest := ih (fun z hz => h z (List.mem_cons_of_mem _ hz)) (ys ++ [x])
    rw [List.flatMap_cons, runLines_append, h x List.mem_cons_self]
    show (state (ys ++ [x])).runLines _ = _
    rw [hrest, List.append_assoc, List.singleton_append]

end State

/-- The name of a written tag decides how it is read. -/
theorem ofList_name_written {name : String} (h : IsWord name)
    (attributes : List (String × String)) :
    String.ofList (Tag.written name attributes).name = name := by
  rw [Xml.name_written h, String.ofList_toList]

section places

variable (document : Option Document) (aliases : List (String × String))

theorem step_outline (e : Event) :
    State.step ⟨document, aliases, .outline⟩ e =
      State.stepOutline ⟨document, aliases, .outline⟩ e := rfl

theorem step_type (t : OpenType) (e : Event) :
    State.step ⟨document, aliases, .type t⟩ e =
      State.stepType ⟨document, aliases, .type t⟩ t e := rfl

theorem step_constructor (t : OpenType) (c : OpenConstructor) (e : Event) :
    State.step ⟨document, aliases, .constructor t c⟩ e =
      State.stepConstructor ⟨document, aliases, .constructor t c⟩ t c e := rfl

theorem step_documentation (t : OpenType) (c : OpenConstructor) (d : OpenDocumentation)
    (e : Event) :
    State.step ⟨document, aliases, .documentation t c d⟩ e =
      .ok (State.stepDocumentation ⟨document, aliases, .documentation t c d⟩ t c d e) := rfl

theorem step_union (u : OpenUnion) (e : Event) :
    State.step ⟨document, aliases, .union u⟩ e =
      State.stepUnion ⟨document, aliases, .union u⟩ u e := rfl

end places

/-! ### Elements -/

section elements

variable {gap name : String} {attributes : List (String × String)} {s s₁ s₂ : State}

/-- An element without content is its one tag. -/
theorem runLines_element_nil (htext : ∀ cs, s.step (.text cs) = .ok s) :
    s.runLines (Xml.element gap name attributes []) =
      s.step (.empty (Tag.written name attributes)) := by
  rw [Xml.element, if_pos rfl, State.runLines_cons (.inr htext), Markup.event]
  cases s.step (.empty (Tag.written name attributes)) <;> rfl

/-- An element has the outcome of its end tag. Where it is written as one tag, nothing happens
    between its tags, and that one tag has to have the same outcome. -/
theorem runLines_element {content : List Line} {outcome : Except Error State}
    (htext : ∀ cs, s.step (.text cs) = .ok s) (htext₂ : ∀ cs, s₂.step (.text cs) = .ok s₂)
    (hstart : s.step (.start (Tag.written name attributes)) = .ok s₁)
    (hcontent : s₁.runLines content = .ok s₂)
    (hclose : s₂.step (.close name.toList) = outcome)
    (hempty : s₁ = s₂ → s.step (.empty (Tag.written name attributes)) = outcome) :
    s.runLines (Xml.element gap name attributes content) = outcome := by
  -- Without content the start tag and the end tag are one, and so are the states behind them.
  by_cases hnil : content = []
  · rw [hnil, State.runLines_nil] at hcontent
    rw [hnil, runLines_element_nil htext, hempty (Except.ok.inj hcontent)]
  · rw [Xml.element, if_neg hnil, State.runLines_cons (.inr htext), Markup.event, hstart]
    show s₁.runLines _ = _
    rw [State.runLines_append, hcontent]
    show s₂.runLines _ = _
    rw [State.runLines_cons (.inr htext₂), Markup.event, hclose]
    cases outcome <;> rfl

end elements

/-! ### Constructors -/

section constructors

variable (gap : Nat → String) (document : Option Document) (aliases : List (String × String))
  (t : OpenType)

theorem runLines_parameter (c : OpenConstructor) (p : Parameter) :
    State.runLines ⟨document, aliases, .constructor t c⟩ (p.lines gap) =
      .ok ⟨document, aliases, .constructor t (c.push p)⟩ := by
  rw [Parameter.lines, runLines_element_nil fun _ => rfl, step_constructor,
    State.stepConstructor, if_pos (ofList_name_written (by decide) _), parameterOf_written]
  rfl

theorem runLines_documentation (c : OpenConstructor) {text : String} (h : IsDocumentation text) :
    State.runLines ⟨document, aliases, .constructor t c⟩ (documentationLines gap (some text)) =
      .ok ⟨document, aliases, .constructor t
        { c with constructor := { c.constructor with documentation := some text } }⟩ := by
  have hraw : "" ++ String.ofList (verbatim (.cdata text.toList)) = text := by
    simp [verbatim]
  rw [documentationLines, State.runLines_cons (.inr fun _ => rfl), step_constructor,
    Markup.event, State.stepConstructor, ofList_name_written (by decide)]
  -- Everything up to the end tag is documentation, so only the section may stand there.
  show State.runLines ⟨document, aliases, .documentation t c {}⟩ _ = _
  rw [State.runLines_cons (.inl rfl), step_documentation, Markup.event]
  show State.runLines ⟨document, aliases, .documentation t c ⟨"" ++ _, 0⟩⟩ _ = _
  rw [hraw, State.runLines_cons (.inl rfl), step_documentation, Markup.event]
  show State.runLines ⟨document, aliases, .constructor t (c.document text)⟩ [] = _
  rw [State.runLines_nil, OpenConstructor.document, h.trim_eq]

/-- The lines inside a constructor complete what its tag has begun. -/
theorem runLines_constructorBody (c : Constructor)
    (h : ∀ text ∈ c.documentation, IsDocumentation text) :
    State.runLines
        ⟨document, aliases, .constructor t ⟨{ c with parameters := [], documentation := none }, 0⟩⟩
        (documentationLines gap c.documentation ++ c.parameters.flatMap (·.lines gap)) =
      .ok ⟨document, aliases, .constructor t ⟨c, 0⟩⟩ := by
  -- The documentation is set before the first parameter is collected.
  have hparameters := State.runLines_collect
    (fun ps => ⟨document, aliases, .constructor t ⟨{ c with parameters := ps }, 0⟩⟩)
    (fun p (_ : p ∈ c.parameters) ps => runLines_parameter gap document aliases t _ p) []
  obtain ⟨name, visibility, implicit, parameters, documentation⟩ := c
  rw [State.runLines_append]
  cases documentation with
  | none => exact hparameters
  | some text =>
    rw [runLines_documentation gap document aliases t _ (h text rfl)]
    exact hparameters

theorem runLines_constructor (c : Constructor)
    (h : ∀ text ∈ c.documentation, IsDocumentation text) :
    State.runLines ⟨document, aliases, .type t⟩ (c.lines gap) =
      .ok ⟨document, aliases, .type (t.push c)⟩ := by
  refine runLines_element (fun _ => rfl) (fun _ => rfl) ?_
    (runLines_constructorBody gap document aliases t c h) ?_ ?_
  · rw [step_type, State.stepType, if_pos (ofList_name_written (by decide) _),
      constructorOf_written]
    rfl
  · rw [step_constructor, State.stepConstructor, if_pos rfl]
  · intro hsame
    simp only [State.mk.injEq, Place.constructor.injEq, OpenConstructor.mk.injEq] at hsame
    obtain ⟨-, -, -, hc, -⟩ := hsame
    rw [step_type, State.stepType, if_pos (ofList_name_written (by decide) _),
      constructorOf_written, hc]
    rfl

end constructors

/-! ### Definitions -/

section definitions

variable (gap : Nat → String) (aliases : List (String × String)) (d : Document)

theorem closeType_eq (place : Place) (symbol : TypeSymbol) :
    State.closeType ⟨some d, aliases, place⟩ { symbol with id := 0 } =
      (d.perform (.addType symbol)).map fun d' => ⟨some d', aliases, .outline⟩ := by
  rw [Document.perform_addType]
  show (d.addType symbol).bind _ = _
  cases d.addType symbol <;> rfl

theorem closeUnion_eq (place : Place) (declaration : UnionDeclaration) :
    State.closeUnion ⟨some d, aliases, place⟩ declaration =
      (d.perform (.addUnion declaration)).map fun d' => ⟨some d', aliases, .outline⟩ := by
  rw [Document.perform_addUnion]
  show (d.addUnion declaration).bind _ = _
  cases d.addUnion declaration <;> rfl

/-- A type is one operation on the document, with its outcome. -/
theorem runLines_type {symbol : TypeSymbol} (h : symbol.IsWritable) :
    State.runLines ⟨some d, aliases, .outline⟩ (symbol.lines gap) =
      (d.perform (.addType symbol)).map fun d' => ⟨some d', aliases, .outline⟩ := by
  have htag := typeOf_written h.toHasWrittenTag
  have hbody := State.runLines_collect
    (fun cs => ⟨some d, aliases, .type ⟨{ symbol with id := 0, constructors := cs }, 0⟩⟩)
    (fun c hc cs => runLines_constructor gap (some d) aliases _ c (h.documentation c hc)) []
  refine runLines_element (fun _ => rfl) (fun _ => rfl) ?_ hbody ?_ ?_
  · rw [step_outline, State.stepOutline, ofList_name_written (by decide)]
    show (typeOf _).bind _ = _
    rw [htag]
    rfl
  · rw [step_type, State.stepType, if_pos rfl]
    exact closeType_eq aliases d _ symbol
  · intro hsame
    simp only [State.mk.injEq, Place.type.injEq, OpenType.mk.injEq] at hsame
    obtain ⟨-, -, hsymbol, -⟩ := hsame
    rw [step_outline, State.stepOutline, ofList_name_written (by decide)]
    show (typeOf _).bind _ = _
    rw [htag, hsymbol]
    exact closeType_eq aliases d _ symbol

theorem runLines_case (document : Option Document) (u : OpenUnion) (reference : String) :
    State.runLines ⟨document, aliases, .union u⟩ (caseLines gap reference) =
      .ok ⟨document, aliases, .union (u.push reference)⟩ := by
  rw [caseLines, runLines_element_nil fun _ => rfl, step_union, State.stepUnion,
    if_pos (ofList_name_written (by decide) _), caseOf_written]
  rfl

/-- A union of the namespace is one operation on the document, with its outcome. -/
theorem runLines_union {declaration : UnionDeclaration} (h : declaration.scope = d.scope) :
    State.runLines ⟨some d, aliases, .outline⟩ (declaration.lines gap) =
      (d.perform (.addUnion declaration)).map fun d' => ⟨some d', aliases, .outline⟩ := by
  have htag : unionOf (Tag.written "union" declaration.attributes) d.scope =
      .ok { declaration with cases := [] } := by
    rw [← h]
    exact unionOf_written declaration
  have hbody := State.runLines_collect
    (fun cs => ⟨some d, aliases, .union ⟨{ declaration with cases := cs }, 0⟩⟩)
    (fun reference (_ : reference ∈ declaration.cases) cs =>
      runLines_case gap aliases (some d) _ reference) []
  refine runLines_element (fun _ => rfl) (fun _ => rfl) ?_ hbody ?_ ?_
  · rw [step_outline, State.stepOutline, ofList_name_written (by decide)]
    show (unionOf _ d.scope).bind _ = _
    rw [htag]
    rfl
  · rw [step_union, State.stepUnion, if_pos rfl]
    exact closeUnion_eq aliases d _ declaration
  · intro hsame
    simp only [State.mk.injEq, Place.union.injEq, OpenUnion.mk.injEq] at hsame
    obtain ⟨-, -, hdeclaration, -⟩ := hsame
    rw [step_outline, State.stepOutline, ofList_name_written (by decide)]
    show (unionOf _ d.scope).bind _ = _
    rw [htag, hdeclaration]
    exact closeUnion_eq aliases d _ declaration

theorem runLines_alias (entry : String × String) :
    State.runLines ⟨some d, aliases, .outline⟩ (aliasLines gap entry) =
      .ok ⟨some d, aliases ++ [entry], .outline⟩ := by
  rw [aliasLines, runLines_element_nil fun _ => rfl, step_outline, State.stepOutline,
    ofList_name_written (by decide)]
  show (aliasOf _).bind _ = _
  rw [aliasOf_written]
  rfl

end definitions

/-! ### Documents -/

/-- No operation changes the namespace. -/
theorem scope_of_perform {d d' : Document} {op : Document.Operation}
    (h : d.perform op = .ok d') : d'.scope = d.scope := by
  obtain ⟨symbol, -, -, rfl⟩ | ⟨name, target, id, -, -, -, rfl⟩ | ⟨declaration, -, -, rfl⟩ :=
    Document.perform_cases h <;> rfl

/-- Definitions that are one operation each are all their operations, up to the first one that
    is refused. -/
theorem runLines_definitions {α : Type} {lines : α → List Line} {op : α → Document.Operation}
    {scope : String} {aliases : List (String × String)} {xs : List α}
    (h : ∀ x ∈ xs, ∀ d : Document, d.scope = scope →
      State.runLines ⟨some d, aliases, .outline⟩ (lines x) =
        (d.perform (op x)).map fun d' => ⟨some d', aliases, .outline⟩)
    (d : Document) (hd : d.scope = scope) :
    State.runLines ⟨some d, aliases, .outline⟩ (xs.flatMap lines) =
      ((xs.map op).foldlM Document.perform d).map fun d' => ⟨some d', aliases, .outline⟩ := by
  -- A refused definition ends both sides with its cause.
  induction xs generalizing d with
  | nil => rfl
  | cons x xs ih =>
    rw [List.flatMap_cons, State.runLines_append, h x List.mem_cons_self d hd, List.map_cons,
      List.foldlM_cons]
    cases hop : d.perform (op x) with
    | error e => rfl
    | ok d' =>
      have hd' : d'.scope = scope := (scope_of_perform hop).trans hd
      exact ih (fun y hy => h y (List.mem_cons_of_mem _ hy)) d' hd'

theorem scope_of_foldlM_perform {ops : List Document.Operation} {d d' : Document}
    (h : ops.foldlM Document.perform d = .ok d') : d'.scope = d.scope := by
  induction ops generalizing d with
  | nil => exact congrArg Document.scope (Except.ok.inj h).symm
  | cons op ops ih =>
    rw [List.foldlM_cons] at h
    cases hop : d.perform op with
    | error e =>
      rw [hop] at h
      cases h
    | ok next =>
      rw [hop] at h
      exact (ih h).trans (scope_of_perform hop)

/-- The types and unions that a document is written from, as operations. -/
def definitionOperations (types : List TypeSymbol) (unions : List UnionDeclaration) :
    List Document.Operation :=
  types.map .addType ++ unions.map .addUnion

/-- The aliases that a document is written from, as operations. -/
def aliasOperations (aliases : List (String × String)) : List Document.Operation :=
  aliases.map fun entry => .addAlias entry.1 entry.2

/-- At the end of the text the aliases are bound, one operation each. -/
theorem finish_eq (d : Document) (aliases : List (String × String)) :
    State.finish ⟨some d, aliases, .outline⟩ =
      (aliasOperations aliases).foldlM Document.perform d := by
  have hstep : (fun (d : Document) (entry : String × String) =>
      d.perform (.addAlias entry.1 entry.2)) =
      fun d entry => (d.addAlias entry.1 entry.2).bind fun p => .ok p.1 := by
    funext d entry
    rw [Document.perform_addAlias]
    cases d.addAlias entry.1 entry.2 <;> rfl
  rw [aliasOperations, List.foldlM_map, hstep]
  rfl

/-- The lines between the tags of the root element. -/
theorem runLines_rootBody (gap : Nat → String) {scope : String} {types : List TypeSymbol}
    (htypes : ∀ t ∈ types, t.IsWritable) {unions : List UnionDeclaration}
    (hunions : ∀ u ∈ unions, u.scope = scope) (aliases : List (String × String)) :
    State.runLines ⟨some (.empty scope), [], .outline⟩
        (types.flatMap (·.lines gap) ++ unions.flatMap (·.lines gap)
          ++ aliases.flatMap (aliasLines gap)) =
      ((definitionOperations types unions).foldlM Document.perform (.empty scope)).map
        fun d => ⟨some d, aliases, .outline⟩ := by
  have htypesRun := runLines_definitions
    (fun t ht d (_ : d.scope = scope) => runLines_type gap [] d (htypes t ht)) (.empty scope) rfl
  rw [State.runLines_append, State.runLines_append, htypesRun, definitionOperations,
    List.foldlM_append]
  -- The unions are read in the namespace that the types were added to, and the aliases are only
  -- collected.
  cases htypesDone : (types.map .addType).foldlM Document.perform (Document.empty scope) with
  | error e => rfl
  | ok d =>
    have hd : d.scope = scope := scope_of_foldlM_perform htypesDone
    have hunionsRun := runLines_definitions
      (fun u hu d (hscope : d.scope = scope) =>
        runLines_union gap [] d ((hunions u hu).trans hscope.symm)) d hd
    show ((State.runLines ⟨some d, [], .outline⟩ _).bind _) = _
    rw [hunionsRun]
    show _ = Except.map _ ((unions.map .addUnion).foldlM Document.perform d)
    cases (unions.map .addUnion).foldlM Document.perform d with
    | error e => rfl
    | ok d' =>
      exact State.runLines_collect (fun entries => ⟨some d', entries, .outline⟩)
        (fun entry (_ : entry ∈ aliases) entries => runLines_alias gap entries d' entry) []

/-- Reading a written document gives what the operations give that it was written from: the same
    document, or the cause for which the first of them is refused. Any running text may stand
    between the elements. -/
theorem read_write {gap : Nat → String} (hgap : IsGap gap) (scope : String)
    {types : List TypeSymbol} (htypes : ∀ t ∈ types, t.IsWritable)
    {unions : List UnionDeclaration} (hunions : ∀ u ∈ unions, u.scope = scope)
    (aliases : List (String × String)) :
    Document.read (write gap scope types unions aliases) =
      (definitionOperations types unions ++ aliasOperations aliases).foldlM
        Document.perform (.empty scope) := by
  have hbody := runLines_rootBody gap htypes hunions aliases
  have hread : Document.read (write gap scope types unions aliases) =
      (State.runLines {} (documentLines gap scope types unions aliases)).bind State.finish := by
    rw [Document.read, ofText_write hgap scope htypes unions aliases]
    rfl
  have hlines : State.runLines {} (documentLines gap scope types unions aliases) =
      ((definitionOperations types unions).foldlM Document.perform (.empty scope)).map
        fun d => ⟨some d, aliases, .outline⟩ := by
    rw [documentLines, State.runLines_cons (.inl rfl), step_outline, Markup.event,
      State.stepOutline, ofList_name_written (by decide)]
    show ((rootOf _).bind _).bind _ = _
    rw [rootOf_written]
    show State.runLines ⟨some (.empty scope), [], .outline⟩ _ = _
    rw [State.runLines_append, hbody]
    cases (definitionOperations types unions).foldlM Document.perform (Document.empty scope) with
    | error e => rfl
    | ok d =>
      show State.runLines ⟨some d, aliases, .outline⟩ _ = _
      rw [State.runLines_cons (.inr fun _ => rfl), step_outline]
      rfl
  -- The aliases come last in either way.
  rw [hread, hlines, List.foldlM_append]
  cases (definitionOperations types unions).foldlM Document.perform (Document.empty scope) with
  | error e => rfl
  | ok d => exact finish_eq d aliases

/-- Four spaces on a line of their own for every depth. -/
def indentation (depth : Nat) : String :=
  String.ofList ('\n' :: List.replicate (4 * depth) ' ')

theorem isGap_indentation : IsGap indentation := by
  intro n c hc
  rw [indentation, String.toList_ofList] at hc
  rcases List.mem_cons.mp hc with rfl | hc
  · rfl
  · rw [(List.mem_replicate.mp hc).2]
    rfl

example :
    write indentation "demo"
      [{ name := "A<T>", constructors := [{ documentation := some "a < b" }] }] [] [] =
    "<unions namespace=\"demo\">\n" ++
    "    <type name=\"A&lt;T>\" kind=\"struct\" abstract=\"false\">\n" ++
    "        <constructor name=\"new\" visibility=\"public\" implicit=\"false\">\n" ++
    "            <doc><![CDATA[a < b]]></doc>\n" ++
    "        </constructor>\n" ++
    "    </type>\n" ++
    "</unions>" := by
  decide +kernel

/-- Types with markup in their names and in their documentation. -/
def awkwardTypes : List TypeSymbol :=
  [{ name := "Less<\"&\">", kind := .trait, isAbstract := true, typeParameters := ["T", "U <: V"],
      containingType := some "", modulePath := some "a > b" },
    { name := "\nPlain", kind := .record, constructors :=
      [{ visibility := .hidden, documentation := some "<b>]] > ]</b>]" },
        { name := "", implicit := true, parameters := [⟨"x", "Vec<&str>"⟩, ⟨"x", ""⟩],
          documentation := some "" }] }]

theorem isWritable_awkwardTypes : ∀ t ∈ awkwardTypes, t.IsWritable := by
  have hT : IsListed "T" := ⟨by decide, by decide, by decide⟩
  have hU : IsListed "U <: V" := ⟨by decide, by decide, by decide⟩
  have htext : IsDocumentation "<b>]] > ]</b>]" :=
    ⟨by decide, by simp [List.infix_cons_iff]⟩
  have hempty : IsDocumentation "" := ⟨by decide, by simp⟩
  intro t ht
  rcases List.mem_cons.mp ht with rfl | ht
  · exact ⟨⟨by decide, by simp [hT, hU]⟩, by simp⟩
  · rw [List.mem_singleton.mp ht]
    exact ⟨⟨by decide, by simp⟩, by simp [htext, hempty]⟩

theorem read_write_awkwardTypes :
    Document.read (write indentation "demo" awkwardTypes
      [⟨"demo", "&amp;", true, ["Less", "Later"]⟩] [("Later", "\nPlain"), ("Less", "Later")]) =
    .ok ⟨"demo", { id := 0, name := "Any", kind := .top }
      :: awkwardTypes.mapIdx (fun i t => { t with id := i + 1 }),
      [⟨"demo", "&amp;", true, ["Less", "Later"]⟩],
      [("Any", 0), ("Less<\"&\">", 1), ("\nPlain", 2), ("Later", 2), ("Less", 2)]⟩ := by
  refine (read_write isGap_indentation "demo" isWritable_awkwardTypes (by simp) _).trans ?_
  rfl

end TaggedUnion.Schema
