import TaggedUnion.Artifact
import TaggedUnion.Proofs.Text.Lines

/-! # The lines of an emitted file

    An emitted file is laid out in lines of code, and read as lines of text. The two differ where
    a line of code holds a line feed of its own:

    * **`Code.parts_renderLines`**: the lines of the text are those of the lines of code, one line
      of code after the other.
    * **`Artifact.parts_contents`**: the lines of a file are two for the header and those of its
      code.
    * **`Code.remainingLines`**: the lines of a text that do not begin as the documentation of an
      argument does. Which lines of code are dropped with them is told by **`Code.Line.isEntry`**,
      and **`Code.remainingLines_renderLines`** says that nothing else hangs on these.
-/

namespace TaggedUnion.Code

/-! ### Lines of code and lines of text -/

/-- The characters of a line of code, without its end. -/
def Line.body : Line → List Char
  | .blank => []
  | .code depth text => (indentation depth ++ text).toList

theorem Line.toList_render (l : Line) : l.render.toList = l.body ++ ['\n'] := by
  cases l with
  | blank => rfl
  | code depth text => simp [render, body]

/-- The lines of a text are those of its lines of code, and nothing behind the last one. -/
theorem parts_renderLines (ls : List Line) :
    Text.parts '\n' (renderLines ls).toList =
      ls.flatMap (fun l => Text.parts '\n' l.body) ++ [[]] := by
  induction ls with
  | nil => rfl
  | cons l ls ih =>
    have hcons : (renderLines (l :: ls)).toList = l.body ++ '\n' :: (renderLines ls).toList := by
      rw [renderLines, List.map_cons, String.join_cons, String.toList_append, l.toList_render,
        List.append_assoc]
      rfl
    rw [hcons, Text.parts_append_mark, ih, List.flatMap_cons, List.append_assoc]

/-- The lines of a line of code follow each other in the text. -/
theorem parts_body_infix {ls : List Line} {l : Line} (hl : l ∈ ls) :
    Text.parts '\n' l.body <:+: Text.parts '\n' (renderLines ls).toList := by
  obtain ⟨before, after, rfl⟩ := List.append_of_mem hl
  rw [parts_renderLines, List.flatMap_append, List.flatMap_cons]
  exact ⟨before.flatMap fun l => Text.parts '\n' l.body,
    (after.flatMap fun l => Text.parts '\n' l.body) ++ [[]], by simp⟩

/-! ### Blocks and functions -/

/-- One of the texts stands as a whole in the texts with a separator between neighbours. -/
theorem infix_intercalate {α : Type} {sep xs : List α} {xss : List (List α)} (h : xs ∈ xss) :
    xs <:+: sep.intercalate xss := by
  induction xss with
  | nil => cases h
  | cons ys xss ih =>
    cases xss with
    | nil =>
      obtain rfl := List.mem_singleton.mp h
      exact ⟨[], [], by simp⟩
    | cons zs xss =>
      rw [List.intercalate_cons_cons]
      rcases List.mem_cons.mp h with rfl | h
      · exact ((List.prefix_append xs sep).trans (List.prefix_append _ _)).isInfix
      · exact (ih h).trans (List.suffix_append _ _).isInfix

theorem map_intercalate {α β : Type} (f : α → β) (sep : List α) (xss : List (List α)) :
    (sep.intercalate xss).map f = (sep.map f).intercalate (xss.map (List.map f)) := by
  induction xss with
  | nil => rfl
  | cons xs xss ih =>
    cases xss with
    | nil => simp
    | cons ys xss =>
      rw [List.intercalate_cons_cons, List.map_append, List.map_append, ih]
      simp only [List.map_cons, List.intercalate_cons_cons]

theorem filter_intercalate {α : Type} (p : α → Bool) (sep : List α) (xss : List (List α)) :
    (sep.intercalate xss).filter p = (sep.filter p).intercalate (xss.map (List.filter p)) := by
  induction xss with
  | nil => rfl
  | cons xs xss ih =>
    cases xss with
    | nil => simp
    | cons ys xss =>
      rw [List.intercalate_cons_cons, List.filter_append, List.filter_append, ih]
      simp only [List.map_cons, List.intercalate_cons_cons]

/-- A line of a function of the type itself stands in the implementation, one block further in. -/
theorem nest_mem_lines {i : Implementation} (hbounds : i.bounds = none) {f : Function}
    (hf : f ∈ i.functions) {l : Line} (hl : l ∈ f.lines) : l.nest ∈ i.lines := by
  have hfunctions : l ∈ functionLines i.functions :=
    (infix_intercalate (List.mem_map_of_mem hf)).subset hl
  rw [Implementation.lines, hbounds]
  refine List.mem_append_left _ (List.mem_cons_of_mem _ (List.mem_map_of_mem ?_))
  exact List.mem_append_left _ (List.mem_append_right _ hfunctions)

/-- Documentation of a function is a line of it. -/
theorem docLine_mem_lines {f : Function} {doc : String} (h : doc ∈ f.docs) :
    docLine doc ∈ f.lines :=
  List.mem_append_left _ (List.mem_append_left _ (List.mem_map_of_mem h))

/-! ### Lines that are not the documentation of an argument -/

/-- What the documentation of an argument begins with, in a function of a type. -/
def entryMark : List Char := "    /// * ".toList

/-- The lines of a text that do not begin as the documentation of an argument does. -/
def remainingLines (text : String) : List (List Char) :=
  (Text.parts '\n' text.toList).filter (!entryMark.isPrefixOf ·)

/-- A text without the lines that begin as the documentation of an argument does. -/
def withoutEntries (text : String) : String :=
  String.ofList (['\n'].intercalate (remainingLines text))

/-- A line of code that is one line of text and begins as the documentation of an argument
    does. -/
def Line.isEntry (l : Line) : Bool := entryMark.isPrefixOf l.body && !l.body.contains '\n'

/-- Nothing is left of a line of code that documents an argument. -/
theorem filter_parts_of_isEntry {l : Line} (h : l.isEntry) :
    (Text.parts '\n' l.body).filter (!entryMark.isPrefixOf ·) = [] := by
  rw [Line.isEntry, Bool.and_eq_true, Bool.not_eq_true', List.contains_eq_mem,
    decide_eq_false_iff_not] at h
  rw [Text.parts_of_not_mem h.2]
  simp [h.1]

/-- Lines of code that document arguments may be left out. -/
theorem remainingLines_renderLines (ls : List Line) :
    remainingLines (renderLines ls) = remainingLines (renderLines (ls.filter (!·.isEntry))) := by
  rw [remainingLines, remainingLines, parts_renderLines, parts_renderLines, List.filter_append,
    List.filter_append, List.filter_flatMap, List.filter_flatMap]
  congr 1
  induction ls with
  | nil => rfl
  | cons l ls ih =>
    by_cases hl : l.isEntry
    · rw [List.filter_cons_of_neg (by simp [hl]), List.flatMap_cons, filter_parts_of_isEntry hl, ih,
        List.nil_append]
    · rw [List.filter_cons_of_pos (by simp [hl]), List.flatMap_cons, List.flatMap_cons, ih]

/-- The lines of a function in a block, without those that document arguments. -/
def Function.otherLines (f : Function) : List Line := (nest f.lines).filter (!·.isEntry)

/-- Documentation that documents arguments may be left out. -/
theorem Function.otherLines_eq {f : Function} {docs entries : List String}
    (hdocs : f.docs = docs ++ entries) (h : ∀ entry ∈ entries, (docLine entry).nest.isEntry) :
    f.otherLines = ({ f with docs := docs } : Function).otherLines := by
  have hlines (docs : List String) : ({ f with docs := docs } : Function).lines =
      docs.map docLine ++ ({ f with docs := [] } : Function).lines := by
    rw [lines, leadLines, List.append_assoc]
    rfl
  have hnone : (nest (entries.map docLine)).filter (!·.isEntry) = [] := by
    refine List.filter_eq_nil_iff.mpr ?_
    intro l hl
    obtain ⟨line, hline, rfl⟩ := List.mem_map.mp hl
    obtain ⟨entry, hentry, rfl⟩ := List.mem_map.mp hline
    simp [h entry hentry]
  have hall : f.lines = docs.map docLine ++ entries.map docLine ++
      ({ f with docs := [] } : Function).lines := by
    rw [← List.map_append, ← hdocs]
    exact hlines f.docs
  rw [otherLines, otherLines, hall, hlines docs]
  unfold nest at hnone ⊢
  rw [List.map_append, List.map_append, List.map_append, List.filter_append, List.filter_append,
    List.filter_append, hnone, List.append_nil]

/-- Between functions stands a blank line, whatever documents their arguments. -/
theorem filter_nest_functionLines (fs : List Function) :
    (nest (functionLines fs)).filter (!·.isEntry) =
      [Line.blank].intercalate (fs.map Function.otherLines) := by
  rw [nest, functionLines, map_intercalate, filter_intercalate, List.map_map, List.map_map]
  rfl

/-- The lines of an implementation that document no arguments hang on such lines of its
    functions. -/
theorem Implementation.filter_lines_congr {i : Implementation} (hbounds : i.bounds = none)
    {fs : List Function} (h : i.functions.map Function.otherLines = fs.map Function.otherLines) :
    i.lines.filter (!·.isEntry) =
      ({ i with functions := fs } : Implementation).lines.filter (!·.isEntry) := by
  have hbody : (nest (functionLines i.functions)).filter (!·.isEntry) =
      (nest (functionLines fs)).filter (!·.isEntry) := by
    rw [filter_nest_functionLines, h, filter_nest_functionLines]
  unfold nest at hbody
  simp only [lines, hbounds, boundedBlock, block, nest, List.map_append, List.cons_append,
    List.filter_cons, List.filter_append, hbody]

end TaggedUnion.Code

namespace TaggedUnion.Artifact

/-- The lines of a file are two for the header and those of its code. -/
theorem parts_contents (family : Family) (path body : String) :
    Text.parts '\n' (ofBody family path body).contents.toList =
      ["// @generated by unionforge. Do not edit.".toList, []] ++
        Text.parts '\n' body.toList := by
  have hsplit : (ofBody family path body).contents.toList =
      "// @generated by unionforge. Do not edit.".toList ++
        '\n' :: ([] ++ '\n' :: body.toList) := by
    simp [ofBody, generatedHeader]
  rw [hsplit, Text.parts_append (by decide), Text.parts_append List.not_mem_nil]
  rfl

/-- The header of a file does not document an argument. -/
theorem remainingLines_contents (family : Family) (path body : String) :
    Code.remainingLines (ofBody family path body).contents =
      ["// @generated by unionforge. Do not edit.".toList, []] ++ Code.remainingLines body := by
  rw [Code.remainingLines, parts_contents, List.filter_append]
  rfl

end TaggedUnion.Artifact
