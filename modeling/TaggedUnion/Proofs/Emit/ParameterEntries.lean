import Mathlib
import TaggedUnion.Proofs.Emit.Lines
import TaggedUnion.Proofs.Schema.Descriptions
import TaggedUnion.Proofs.Schema.Gate
import TaggedUnion.Proofs.Schema.Store

/-! # The documentation of arguments

    A function that builds a case documents each of its arguments by an entry: the name of the
    argument and the text that documents the parameter. An entry is meant for one line, behind
    the mark of a comment.

    * **`CaseParameter.mem_entry_iff`**: a line break in an entry comes from the name of the
      parameter, or from its type where nothing is said about it. What the documentation says is
      collapsed, so that it brings none along.
    * **`entries_of_generate`**: the same for all entries of an emitted file, together with where
      they stand in it: an entry is cut at its line feeds, and only its first line stands behind
      the mark of a comment.
    * **`not_forall_entry_one_line`**: a type may be written on two lines, and then its entry is.
-/

namespace TaggedUnion

open Schema (CaseParameter Case Constructor Document UnionDeclaration)

/-- The characters that end a line. -/
def lineBreaks : List Char :=
  ['\n', '\x0b', '\x0c', '\r', '\u0085', '\u2028', '\u2029']

/-- A line break is a blank other than the space, and no letter. -/
theorem of_mem_lineBreaks {b : Char} (hb : b ∈ lineBreaks) :
    b.isAlpha = false ∧ Text.isBlank b = true ∧ b ≠ ' ' := by
  have hall : lineBreaks.all (fun b => !b.isAlpha && Text.isBlank b && b != ' ') := by decide
  simpa [and_assoc] using List.all_eq_true.mp hall b hb

theorem lineBreak_not_mem {b : Char} (hb : b ∈ lineBreaks) (text : String)
    (h : lineBreaks.all (!text.toList.contains ·) = true) : b ∉ text.toList := by
  simpa using List.all_eq_true.mp h b hb

/-! ### Names -/

/-- A letter does not become anything but a letter in small form, and all else stays. -/
theorem toLower_eq_iff {b c : Char} (hb : b.isAlpha = false) : c.toLower = b ↔ c = b := by
  have hne {x : Char} (hx : x.isAlpha = true) : x ≠ b := by
    intro h
    rw [h, hb] at hx
    cases hx
  cases hupper : c.isUpper with
  | true =>
    have hc : c.isAlpha = true := by simp [Char.isAlpha, hupper]
    exact iff_of_false (hne (by rwa [Char.isAlpha_toLower_eq_isAlpha])) (hne hc)
  | false => rw [Char.toLower_eq_of_not_isUpper (by simp [hupper])]

namespace Name

/-- Snake case brings no character along but small letters and underscores. -/
theorem mem_snakeFrom_iff {b : Char} (halpha : b.isAlpha = false) (hmark : b ≠ '_')
    (afterSmall : Bool) (cs : List Char) : b ∈ snakeFrom afterSmall cs ↔ b ∈ cs := by
  induction cs generalizing afterSmall with
  | nil => rfl
  | cons c cs ih =>
    have hlower (rest : Bool) : b ∈ c.toLower :: snakeFrom rest cs ↔ b ∈ c :: cs := by
      rw [List.mem_cons, List.mem_cons, ih rest, eq_comm, toLower_eq_iff halpha, eq_comm]
    rw [snakeFrom]
    split
    · split
      · rw [List.mem_cons, hlower]
        exact or_iff_right hmark
      · exact hlower false
    · rw [List.mem_cons, List.mem_cons, ih]

theorem mem_identifier_iff {b : Char} (hb : b ∈ lineBreaks) (name : String) :
    b ∈ (identifier name).toList ↔ b ∈ name.toList := by
  rw [identifier]
  split
  · rw [String.toList_append, List.mem_append]
    exact or_iff_left (lineBreak_not_mem hb "_" (by decide))
  · split
    · rw [String.toList_append, List.mem_append]
      exact or_iff_right (lineBreak_not_mem hb "r#" (by decide))
    · exact Iff.rfl

end Name

/-! ### Entries -/

namespace Schema

/-- A collapsed text stands on one line. -/
theorem lineBreak_not_mem_collapse {b : Char} (hb : b ∈ lineBreaks) (raw : String) :
    b ∉ (Text.collapse raw).toList := by
  obtain ⟨-, hblank, hspace⟩ := of_mem_lineBreaks hb
  exact fun h => hspace (Text.eq_space_of_mem_collapse h hblank)

namespace CaseParameter

/-- The entry that documents the argument for a parameter. -/
def entry (p : CaseParameter) : String := "* `" ++ p.argumentName ++ "` - " ++ p.displayText

/-- What is said about a parameter is a collapsed text. -/
def IsCollapsed (p : CaseParameter) : Prop := ∀ d ∈ p.description, ∃ raw, d = Text.collapse raw

theorem mem_argumentName_iff (p : CaseParameter) {b : Char} (hb : b ∈ lineBreaks) :
    b ∈ p.argumentName.toList ↔ b ∈ p.name.toList := by
  have hmark : b ≠ '_' := List.ne_of_not_mem_cons (lineBreak_not_mem hb "_" (by decide))
  rw [argumentName, Name.mem_identifier_iff hb, Name.snake, String.toList_ofList,
    Name.mem_snakeFrom_iff (of_mem_lineBreaks hb).1 hmark]

/-- What is said about a parameter brings no line breaks along, and what stands for it may. -/
theorem mem_displayText_iff {p : CaseParameter} (h : p.IsCollapsed) {b : Char}
    (hb : b ∈ lineBreaks) : b ∈ p.displayText.toList ↔
      p.description = none ∧ (b ∈ p.name.toList ∨ b ∈ p.typeName.toList) := by
  cases hdescription : p.description with
  | none =>
    have hopen : b ∉ " (".toList := lineBreak_not_mem hb _ (by decide)
    have hclose : b ∉ ")".toList := lineBreak_not_mem hb _ (by decide)
    simp only [displayText, hdescription, String.toList_append, List.mem_append, hopen, hclose,
      or_false, true_and]
  | some d =>
    obtain ⟨raw, rfl⟩ := h d hdescription
    simp only [displayText, hdescription, lineBreak_not_mem_collapse hb raw, reduceCtorEq,
      false_and]

/-- A line break in an entry comes from the name of the parameter, or from its type where nothing
    is said about it. -/
theorem mem_entry_iff {p : CaseParameter} (h : p.IsCollapsed) {b : Char} (hb : b ∈ lineBreaks) :
    b ∈ p.entry.toList ↔ b ∈ p.name.toList ∨ p.description = none ∧ b ∈ p.typeName.toList := by
  have hmark : b ∉ "* `".toList := lineBreak_not_mem hb _ (by decide)
  have hdash : b ∉ "` - ".toList := lineBreak_not_mem hb _ (by decide)
  simp only [entry, String.toList_append, List.mem_append, p.mem_argumentName_iff hb, hmark, hdash,
    false_or, or_false, mem_displayText_iff h hb]
  tauto

end CaseParameter

/-- A constructor says collapsed texts about its parameters. -/
theorem Constructor.isCollapsed_caseParameters (c : Constructor) :
    ∀ p ∈ c.caseParameters, p.IsCollapsed := by
  intro p hp d hd
  obtain ⟨parameter, -, rfl⟩ := List.mem_map.mp hp
  -- The description is found in what the documentation says, if it can be read at all.
  obtain ⟨before, after, hsplit, -⟩ := List.lookup_eq_some_iff.mp hd
  have hmem : (parameter.name, d) ∈ c.descriptions := by simp [hsplit]
  rw [descriptions] at hmem
  cases hread : c.documentation.bind Descriptions.read with
  | none =>
    rw [hread] at hmem
    cases hmem
  | some ds =>
    rw [hread] at hmem
    obtain ⟨text, -, hread⟩ := Option.bind_eq_some_iff.mp hread
    exact collapsed_of_read hread _ hmem

/-! ### Where parameters come from -/

theorem TypeSymbol.mem_constructors_of_select {t : TypeSymbol} {k : Constructor}
    (h : t.selectConstructor = some k) : k ∈ t.constructors := by
  have hcandidate : k ∈ t.publicConstructors.filter (!·.parameters.isEmpty) := by
    rcases Option.or_eq_some_iff.mp h with h | ⟨-, h⟩
    · exact List.mem_of_find?_eq_some h
    · exact List.mem_of_head? h
  exact List.mem_of_mem_filter (List.mem_of_mem_filter hcandidate)

/-- The parameters of a populated case are those of a constructor of its type. -/
theorem Case.exists_of_mem_populate {c : Case} (h : c.parameters = []) {p : CaseParameter}
    (hp : p ∈ c.populate.parameters) :
    ∃ t k, c.symbol = some t ∧ k ∈ t.constructors ∧ p ∈ k.caseParameters := by
  cases hsymbol : c.symbol with
  | none => simp [populate, hsymbol, h] at hp
  | some t =>
    cases hchosen : t.selectConstructor with
    | none => simp [populate, hsymbol, hchosen] at hp
    | some k =>
      refine ⟨t, k, rfl, TypeSymbol.mem_constructors_of_select hchosen, ?_⟩
      simpa [populate, hsymbol, hchosen] using hp

/-- The parameters in the shape of a declared union are those of constructors of its document. -/
theorem UnionDeclaration.exists_of_mem_parameters {declaration : UnionDeclaration} {d : Document}
    {path : String} {c : ShapeCase}
    (hc : c ∈ (Shape.named (declaration.resolveIn d).populate path).cases) {p : CaseParameter}
    (hp : p ∈ c.parameters) : ∃ t ∈ d.types, ∃ k ∈ t.constructors, p ∈ k.caseParameters := by
  obtain ⟨u, hu, rfl⟩ := List.mem_map.mp hc
  obtain ⟨resolved, hresolved, rfl⟩ := List.mem_map.mp hu
  obtain ⟨i, reference, rfl⟩ := List.mem_mapIdx.mp hresolved
  obtain ⟨t, k, hsymbol, hk, hp⟩ := Case.exists_of_mem_populate rfl hp
  obtain ⟨id, -, hid⟩ := Option.bind_eq_some_iff.mp hsymbol
  exact ⟨t, List.mem_of_getElem? hid, k, hk, hp⟩

end Schema

/-! ### Entries of an emitted file -/

namespace Emit

/-- A function that builds a case has one entry for each parameter, in order. -/
theorem docs_newFunction {s : Shape} {c : ShapeCase} {f : Code.Function}
    (h : newFunction s c = some f) :
    f.docs = ["Creates a `" ++ s.name ++ "` holding a new `" ++ c.typeName ++ "`.", "",
      "# Arguments"] ++ c.parameters.map CaseParameter.entry := by
  rw [newFunction] at h
  split at h
  · cases h
  · split at h
    · cases h
    · cases h
      rfl

theorem newFunction_mem_coreFunctions {s : Shape} {c : ShapeCase} {f : Code.Function}
    (hc : c ∈ s.cases) (h : newFunction s c = some f) : f ∈ coreFunctions s := by
  refine List.mem_append_left _ (List.mem_append_left _ (List.mem_flatMap.mpr ⟨c, hc, ?_⟩))
  rw [h]
  exact List.mem_cons_of_mem _ List.mem_cons_self

/-- The functions of the type, as they are implemented. -/
def inherent (s : Shape) : Code.Implementation where
  typeParameters := s.typeParameters
  target := s.selfType
  functions := coreFunctions s
  openEnd := true

theorem body_docLine_entry (p : CaseParameter) :
    (Code.docLine p.entry).nest.body = "    /// ".toList ++ p.entry.toList := by
  have hnonempty : p.entry ≠ "" := by
    intro hempty
    have := congrArg String.toList hempty
    simp [CaseParameter.entry] at this
  rw [Code.docLine, if_neg hnonempty, Code.line, Code.Line.nest, Code.Line.body,
    String.toList_append, String.toList_append]
  rfl

/-- The line of code with an entry stands in the file of the type. -/
theorem parts_entry_infix {s : Shape} {c : ShapeCase} {f : Code.Function} (hc : c ∈ s.cases)
    (h : newFunction s c = some f) {p : CaseParameter} (hp : p ∈ c.parameters) :
    Text.parts '\n' ("    /// ".toList ++ p.entry.toList) <:+:
      Text.parts '\n' (Artifact.ofShape s .core).contents.toList := by
  have hdoc : p.entry ∈ f.docs := by
    rw [docs_newFunction h]
    exact List.mem_append_right _ (List.mem_map_of_mem hp)
  have hline : (Code.docLine p.entry).nest ∈ (core s).flatMap Code.Item.lines := by
    have hnested := Code.nest_mem_lines (i := inherent s) rfl
      (newFunction_mem_coreFunctions hc h) (Code.docLine_mem_lines hdoc)
    refine List.mem_flatMap.mpr ⟨.implementation (inherent s), ?_, List.mem_append_left _ hnested⟩
    simp [core, inherent]
  have hparts := Code.parts_body_infix hline
  rw [body_docLine_entry] at hparts
  rw [Artifact.ofShape, Artifact.parts_contents]
  exact hparts.trans (List.suffix_append _ _).isInfix

/-- An entry is cut at its line feeds. Its first line stands behind the mark of a comment; if
    there are others, they stand behind nothing. -/
theorem exists_lines_of_entry {s : Shape} {c : ShapeCase} {f : Code.Function} (hc : c ∈ s.cases)
    (h : newFunction s c = some f) {p : CaseParameter} (hp : p ∈ c.parameters) :
    ∃ first others, Text.parts '\n' p.entry.toList = first :: others ∧
      ("    /// ".toList ++ first) :: others <:+:
        Text.parts '\n' (Artifact.ofShape s .core).contents.toList ∧
      (others = [] ↔ '\n' ∉ p.entry.toList) := by
  obtain ⟨first, others, hparts⟩ :=
    List.exists_cons_of_ne_nil (Text.parts_ne_nil '\n' p.entry.toList)
  refine ⟨first, others, hparts, ?_, Text.parts_eq_singleton_iff hparts⟩
  have hinfix := parts_entry_infix hc h hp
  rwa [Text.parts_append_of_not_mem (by decide) hparts] at hinfix

end Emit

/-- Where code is emitted for a union of a document, the file of the type documents the arguments
    of a function that builds a case by one entry each. A line break in an entry comes from the
    name of the parameter, or from its type where nothing is said about it; and exactly if it is
    a line feed, a part of the entry stands on a line of its own, in no comment. -/
theorem entries_of_generate {d : Document} {name path : String} {g : Generated}
    (h : generate d name path = .ok g) :
    ∃ declaration, d.union? name = some declaration ∧
      let s := Shape.named (declaration.resolveIn d).populate path
      Artifact.ofShape s .core ∈ g.artifacts ∧
      ∀ c ∈ s.cases, ∀ f, Emit.newFunction s c = some f →
        f ∈ Emit.coreFunctions s ∧ f.docs.drop 3 = c.parameters.map CaseParameter.entry ∧
        ∀ p ∈ c.parameters,
          (∀ b ∈ lineBreaks, b ∈ p.entry.toList ↔
            b ∈ p.name.toList ∨ p.description = none ∧ b ∈ p.typeName.toList) ∧
          ∃ first others, Text.parts '\n' p.entry.toList = first :: others ∧
            ("    /// ".toList ++ first) :: others <:+:
              Text.parts '\n' (Artifact.ofShape s .core).contents.toList ∧
            (others = [] ↔ '\n' ∉ p.entry.toList) := by
  obtain ⟨declaration, hdeclared, -, rfl⟩ := exists_of_generate_ok h
  refine ⟨declaration, hdeclared, List.mem_map_of_mem List.mem_cons_self, ?_⟩
  intro c hc f hf
  refine ⟨Emit.newFunction_mem_coreFunctions hc hf, ?_, ?_⟩
  · rw [Emit.docs_newFunction hf]
    rfl
  · intro p hp
    obtain ⟨-, -, k, -, hk⟩ := UnionDeclaration.exists_of_mem_parameters hc hp
    have hcollapsed := k.isCollapsed_caseParameters p hk
    exact ⟨fun b hb => p.mem_entry_iff hcollapsed hb, Emit.exists_lines_of_entry hc hf hp⟩

/-- A document with a parameter that is described on two lines, and one that is not described
    and whose type is written on two lines. -/
def documented : Document :=
  (Document.empty "demo").run
    [.addType {
        name := "Run"
        kind := .record
        constructors := [{
          parameters := [⟨"type", "u8"⟩, ⟨"lastOutcome", "Result<u8,\n String>"⟩]
          documentation := some "<param name=\"type\">How\n to run</param>" }] },
      .addType { name := "Stop", kind := .record },
      .addUnion { scope := "demo", name := "Job", cases := ["Run", "Stop"] }]

theorem entries_of_documented :
    ∃ g declaration, generate documented "Job" defaultRuntimePath = .ok g ∧
      documented.union? "Job" = some declaration ∧
      let s := Shape.named (declaration.resolveIn documented).populate defaultRuntimePath
      ∃ c ∈ s.cases, c.parameters.map CaseParameter.entry =
          ["* `r#type` - How to run", "* `last_outcome` - lastOutcome (Result<u8,\n String>)"] ∧
        ["    /// ".toList ++ "* `last_outcome` - lastOutcome (Result<u8,".toList,
            " String>)".toList] <:+:
          Text.parts '\n' (Artifact.ofShape s .core).contents.toList := by
  have hjob : documented.union? "Job" = some ⟨"demo", "Job", true, ["Run", "Stop"]⟩ := rfl
  have hgenerate := generate_of_union? hjob defaultRuntimePath
  obtain ⟨declaration, hdeclared, -, hentries⟩ := entries_of_generate hgenerate
  obtain rfl := Option.some.inj hdeclared
  let s := Shape.named ((⟨"demo", "Job", true, ["Run", "Stop"]⟩ : UnionDeclaration).resolveIn
    documented).populate defaultRuntimePath
  obtain ⟨c, hc, hconstructor, hparameters⟩ : ∃ c ∈ s.cases, c.constructor = some ⟨"new", false⟩ ∧
      c.parameters = [⟨"u8", "type", some "How to run"⟩,
        ⟨"Result<u8,\n String>", "lastOutcome", none⟩] :=
    ⟨_, List.mem_cons_self, rfl, by cbv⟩
  obtain ⟨f, hf⟩ : ∃ f, Emit.newFunction s c = some f := by
    simp [Emit.newFunction, hconstructor, hparameters]
  obtain ⟨-, -, hentry⟩ := hentries c hc f hf
  obtain ⟨-, first, others, hparts, hinfix, -⟩ :=
    hentry ⟨"Result<u8,\n String>", "lastOutcome", none⟩ (by simp [hparameters])
  obtain ⟨rfl, rfl⟩ : "* `last_outcome` - lastOutcome (Result<u8,".toList = first ∧
      [" String>)".toList] = others := List.cons.inj (Eq.trans (by decide) hparts)
  exact ⟨_, _, hgenerate, hdeclared, c, hc, by rw [hparameters]; decide, hinfix⟩

/-- A text with a parameter whose type is written on two lines. -/
def brokenType : String :=
  "<unions><type name=\"A\"><constructor><param name=\"p\" type=\"(u8,\n u8)\"/></constructor>"
    ++ "</type><type name=\"B\"/>"
    ++ "<union name=\"U\" partial=\"true\"><case type=\"A\"/><case type=\"B\"/></union></unions>"

/-- The document of that text. -/
def brokenTypeDocument : Document :=
  (Document.empty "").run
    [.addType { name := "A", constructors := [{ parameters := [⟨"p", "(u8,\n u8)"⟩] }] },
      .addType { name := "B" },
      .addUnion { scope := "", name := "U", cases := ["A", "B"] }]

theorem read_brokenType : Document.read brokenType = .ok brokenTypeDocument := by cbv

/-- Entries do not always stand on one line: the type of a parameter may be written on two. -/
theorem not_forall_entry_one_line :
    ¬ ∀ {text name path : String} {d : Document} {declaration : UnionDeclaration} {g : Generated},
      Document.read text = .ok d → d.union? name = some declaration →
      generate d name path = .ok g →
      let s := Shape.named (declaration.resolveIn d).populate path
      ∀ c ∈ s.cases, ∀ f, Emit.newFunction s c = some f →
        ∀ p ∈ c.parameters, ∀ b ∈ lineBreaks, b ∉ p.entry.toList := by
  intro h
  have hdeclared : brokenTypeDocument.union? "U" = some ⟨"", "U", true, ["A", "B"]⟩ := rfl
  have hgenerate := generate_of_union? hdeclared defaultRuntimePath
  have hentry := h read_brokenType hdeclared hgenerate _ List.mem_cons_self _ rfl
    ⟨"(u8,\n u8)", "p", none⟩ List.mem_cons_self '\n' List.mem_cons_self
  revert hentry
  decide

end TaggedUnion
