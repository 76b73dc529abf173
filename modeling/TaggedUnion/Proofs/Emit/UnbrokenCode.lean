import TaggedUnion.Proofs.Emit.Bracketing

/-! # Code on unbroken lines

    A line of code is one line of text unless one of its texts holds a line feed. This module says
    where line feeds come from, and how lines begin:

    * **`Text.IsUnbroken`**, **`AreUnbroken`**: a text without a line feed, and lines of code that
      are one line of text each.
    * **`Function.IsUnbroken`** and others: the texts of a piece of code are unbroken. Its lines are
      unbroken exactly if they are (**`Item.areUnbroken_lines_iff`**).
    * **`useLines`**: the lines of a text that bring a path into scope.
    * **`useLines_render`**: in unbroken code these are the lines of imports. In every other item a
      line is in a block, where it begins with a space, or has a beginning of its own.
-/

namespace TaggedUnion

/-- The text has no line feed. -/
@[simp] abbrev Text.IsUnbroken (text : String) : Prop := '\n' ∉ text.toList

namespace Code

open Text

/-! ### Lists of lines -/

/-- Each line of code is one line of text. -/
def AreUnbroken (ls : List Line) : Prop := ∀ l ∈ ls, '\n' ∉ l.body

@[simp] theorem body_blank : Line.blank.body = [] := rfl

attribute [simp] body_line

@[simp] theorem areUnbroken_nil : AreUnbroken [] := by
  intro l hl
  cases hl

@[simp] theorem areUnbroken_cons {l : Line} {ls : List Line} :
    AreUnbroken (l :: ls) ↔ '\n' ∉ l.body ∧ AreUnbroken ls := List.forall_mem_cons

@[simp] theorem areUnbroken_append {ls ms : List Line} :
    AreUnbroken (ls ++ ms) ↔ AreUnbroken ls ∧ AreUnbroken ms := List.forall_mem_append

@[simp] theorem areUnbroken_map {α : Type} {f : α → Line} {xs : List α} :
    AreUnbroken (xs.map f) ↔ ∀ x ∈ xs, '\n' ∉ (f x).body := List.forall_mem_map

@[simp] theorem areUnbroken_flatMap {α : Type} {f : α → List Line} {xs : List α} :
    AreUnbroken (xs.flatMap f) ↔ ∀ x ∈ xs, AreUnbroken (f x) := List.forall_mem_flatMap

/-- The spaces of a block do not break a line. -/
@[simp] theorem areUnbroken_nest {ls : List Line} : AreUnbroken (nest ls) ↔ AreUnbroken ls := by
  rw [nest, areUnbroken_map]
  refine forall₂_congr ?_
  intro l _
  rcases l.body_nest with hbody | hbody <;> simp [hbody]

/-! ### Texts -/

/-- A literal text, by its characters. -/
theorem isUnbroken_literal {cs : List Char} (h : '\n' ∉ cs) : IsUnbroken (String.ofList cs) := by
  rwa [IsUnbroken, String.toList_ofList]

/-- A text between literal ones. -/
theorem isUnbroken_within {x : String} (h : IsUnbroken x) {cs ds : List Char}
    (hliteral : '\n' ∉ cs ++ ds) : IsUnbroken (String.ofList cs ++ x ++ String.ofList ds) := by
  rw [List.mem_append, not_or] at hliteral
  simpa [hliteral] using h

theorem isUnbroken_of_mem_literal {cs : List Char} (h : '\n' ∉ cs) :
    ∀ x ∈ [String.ofList cs], IsUnbroken x :=
  List.forall_mem_singleton.mpr (isUnbroken_literal h)

/-- A title with an empty line behind it. -/
theorem isUnbroken_title {title : String} (h : IsUnbroken title) :
    ∀ doc ∈ [title, ""], IsUnbroken doc :=
  List.forall_mem_cons.mpr ⟨h, isUnbroken_of_mem_literal List.not_mem_nil⟩

/-- A title with a section of one line behind an empty line. -/
theorem isUnbroken_section {title : String} (htitle : IsUnbroken title) {heading last : List Char}
    (hsection : '\n' ∉ heading ++ last) :
    ∀ doc ∈ [title, "", String.ofList heading, String.ofList last], IsUnbroken doc := by
  rw [List.mem_append, not_or] at hsection
  exact List.forall_mem_append.mpr ⟨isUnbroken_title htitle, List.forall_mem_cons.mpr
    ⟨isUnbroken_literal hsection.1, isUnbroken_of_mem_literal hsection.2⟩⟩

@[simp] theorem lineFeed_mem_commaSeparated {xs : List String} :
    '\n' ∈ (commaSeparated xs).toList ↔ ∃ x ∈ xs, '\n' ∈ x.toList := by
  rw [commaSeparated, String.toList_intercalate]
  constructor
  · intro h
    rcases mem_intercalate h with hcomma | ⟨cs, hcs, hfeed⟩
    · simp at hcomma
    · obtain ⟨x, hx, rfl⟩ := List.mem_map.mp hcs
      exact ⟨x, hx, hfeed⟩
  · rintro ⟨x, hx, hfeed⟩
    exact (infix_intercalate (List.mem_map_of_mem hx)).subset hfeed

@[simp] theorem lineFeed_mem_typeParameters {groups : TypeParameters} :
    '\n' ∈ groups.text.toList ↔ ∃ group ∈ groups, ∃ x ∈ group, '\n' ∈ x.toList := by
  cases groups <;> simp [TypeParameters.text]

@[simp] theorem lineFeed_mem_fieldText {field : String × String} :
    '\n' ∈ (fieldText field).toList ↔ '\n' ∈ field.1.toList ∨ '\n' ∈ field.2.toList := by
  unfold fieldText
  split <;> simp_all

/-! ### Blocks -/

@[simp] theorem areUnbroken_leadLines {docs attributes : List String} :
    AreUnbroken (leadLines docs attributes) ↔
      (∀ d ∈ docs, IsUnbroken d) ∧ ∀ a ∈ attributes, IsUnbroken a := by
  have hdoc (d : String) : '\n' ∈ (docLine d).body ↔ '\n' ∈ d.toList := by
    unfold docLine
    split <;> simp_all
  simp [leadLines, attributeLine, hdoc]

@[simp] theorem areUnbroken_block {head : String} {body : List Line} :
    AreUnbroken (block head body) ↔ IsUnbroken head ∧ AreUnbroken body := by
  simp [block]

@[simp] theorem areUnbroken_boundedBlock {head : String} {bounds : Option (List Bound)}
    {body : List Line} : AreUnbroken (boundedBlock head bounds body) ↔
      IsUnbroken head ∧ (∀ bs ∈ bounds, ∀ b ∈ bs, IsUnbroken b.text) ∧ AreUnbroken body := by
  cases bounds <;> simp [boundedBlock, boundLines]

@[simp] theorem areUnbroken_declaredBounds {bs : List Bound} :
    AreUnbroken (declaredBounds bs) ↔ ∀ b ∈ bs, IsUnbroken b.text := by
  fun_induction declaredBounds bs <;> simp_all

@[simp] theorem areUnbroken_declarationLines {head : String} {bounds : Option (List Bound)} :
    AreUnbroken (declarationLines head bounds) ↔
      IsUnbroken head ∧ ∀ bs ∈ bounds, ∀ b ∈ bs, IsUnbroken b.text := by
  cases bounds <;> simp [declarationLines]

/-! ### Expressions and statements -/

section expressions

variable (e : Expr) (function : String) (arguments : List String)

@[simp] theorem lineFeed_mem_name (text : String) :
    '\n' ∈ (Expr.name text).text.toList ↔ '\n' ∈ text.toList := Iff.rfl

@[simp] theorem lineFeed_mem_call : '\n' ∈ (Expr.call function arguments).text.toList ↔
    '\n' ∈ function.toList ∨ ∃ x ∈ arguments, '\n' ∈ x.toList := by
  show '\n' ∈ (function ++ "(" ++ commaSeparated arguments ++ ")").toList ↔ _
  simp

@[simp] theorem lineFeed_mem_wrap : '\n' ∈ (Expr.wrap function e).text.toList ↔
    '\n' ∈ function.toList ∨ '\n' ∈ e.text.toList := by
  show '\n' ∈ (function ++ "(" ++ e.text ++ ")").toList ↔ _
  simp

@[simp] theorem lineFeed_mem_record (type : String) (fields : List (String × String)) :
    '\n' ∈ (Expr.record type fields).text.toList ↔
      '\n' ∈ type.toList ∨ ∃ field ∈ fields, '\n' ∈ (fieldText field).toList := by
  show '\n' ∈ (type ++ " \x7b " ++ commaSeparated (fields.map fieldText) ++ " \x7d").toList ↔ _
  simp

@[simp] theorem lineFeed_mem_method : '\n' ∈ (Expr.method e function arguments).text.toList ↔
    '\n' ∈ e.text.toList ∨ '\n' ∈ function.toList ∨ ∃ x ∈ arguments, '\n' ∈ x.toList := by
  show '\n' ∈ (e.text ++ "." ++ function ++ "(" ++ commaSeparated arguments ++ ")").toList ↔ _
  simp

@[simp] theorem lineFeed_mem_await :
    '\n' ∈ (Expr.await e).text.toList ↔ '\n' ∈ e.text.toList := by
  show '\n' ∈ (e.text ++ ".await").toList ↔ _
  simp

@[simp] theorem lineFeed_mem_deferred :
    '\n' ∈ (Expr.deferred e).text.toList ↔ '\n' ∈ e.text.toList := by
  show '\n' ∈ ("async move \x7b " ++ e.text ++ " \x7d").toList ↔ _
  simp

@[simp] theorem lineFeed_mem_held (variant binding : String) :
    '\n' ∈ (Pattern.held variant binding).text.toList ↔
      '\n' ∈ variant.toList ∨ '\n' ∈ binding.toList := by
  show '\n' ∈ ("Self::" ++ variant ++ "(" ++ binding ++ ")").toList ↔ _
  simp

@[simp] theorem lineFeed_mem_other (binding : String) :
    '\n' ∈ (Pattern.other binding).text.toList ↔ '\n' ∈ binding.toList := Iff.rfl

@[simp] theorem lineFeed_mem_arm (a : Arm) :
    '\n' ∈ a.text.toList ↔ '\n' ∈ a.pattern.text.toList ∨ '\n' ∈ a.value.text.toList := by
  unfold Arm.text
  simp

@[simp] theorem lineFeed_mem_ifHeld (variant binding union : String) :
    '\n' ∈ (BlockHead.ifHeld variant binding union).text.toList ↔
      ('\n' ∈ variant.toList ∨ '\n' ∈ binding.toList) ∨ '\n' ∈ union.toList := by
  show '\n' ∈ ("if let " ++ (Pattern.held variant binding).text ++ " = &" ++ union).toList ↔ _
  simp

@[simp] theorem lineFeed_mem_ifDifferent (x y : String) :
    '\n' ∈ (BlockHead.ifDifferent x y).text.toList ↔ '\n' ∈ x.toList ∨ '\n' ∈ y.toList := by
  show '\n' ∈ ("if " ++ x ++ " != " ++ y).toList ↔ _
  simp

@[simp] theorem lineFeed_mem_forEach (x y : String) :
    '\n' ∈ (BlockHead.forEach x y).text.toList ↔ '\n' ∈ x.toList ∨ '\n' ∈ y.toList := by
  show '\n' ∈ ("for " ++ x ++ " in " ++ y).toList ↔ _
  simp

@[simp] theorem areUnbroken_value : AreUnbroken (Statement.value e).lines ↔ IsUnbroken e.text := by
  show AreUnbroken [line e.text] ↔ _
  simp

@[simp] theorem areUnbroken_run : AreUnbroken (Statement.run e).lines ↔ IsUnbroken e.text := by
  show AreUnbroken [line (e.text ++ ";")] ↔ _
  simp

@[simp] theorem areUnbroken_bind (name : String) :
    AreUnbroken (Statement.bind name e).lines ↔ IsUnbroken name ∧ IsUnbroken e.text := by
  show AreUnbroken [line ("let " ++ name ++ " = " ++ e.text ++ ";")] ↔ _
  simp

@[simp] theorem areUnbroken_dispatch (scrutinee : String) (arms : List Arm) :
    AreUnbroken (Statement.dispatch scrutinee arms).lines ↔
      IsUnbroken scrutinee ∧ ∀ a ∈ arms, IsUnbroken a.text := by
  show AreUnbroken (block ("match " ++ scrutinee) (arms.map fun a => line a.text)) ↔ _
  simp

@[simp] theorem areUnbroken_within (head : BlockHead) (body : Statement) :
    AreUnbroken (Statement.within head body).lines ↔
      IsUnbroken head.text ∧ AreUnbroken body.lines := by
  show AreUnbroken (block head.text body.lines) ↔ _
  simp

end expressions

@[simp] theorem lineFeed_mem_bound (b : Bound) :
    '\n' ∈ b.text.toList ↔ '\n' ∈ b.parameter.toList ∨ '\n' ∈ b.constraint.toList := by
  unfold Bound.text
  simp

/-! ### Functions and items -/

/-- No text in a function has a line feed. -/
@[mk_iff]
structure Function.IsUnbroken (f : Function) : Prop where
  docs : ∀ doc ∈ f.docs, Text.IsUnbroken doc
  attributes : ∀ x ∈ f.attributes, Text.IsUnbroken x
  name : Text.IsUnbroken f.name
  typeParameters : ∀ group ∈ f.typeParameters, ∀ x ∈ group, Text.IsUnbroken x
  receiver : ∀ x ∈ f.receiver, Text.IsUnbroken x
  parameters : ∀ p ∈ f.parameters, Text.IsUnbroken p.1 ∧ Text.IsUnbroken p.2
  result : ∀ x ∈ f.result, Text.IsUnbroken x
  bounds : ∀ bs ∈ f.bounds, ∀ b ∈ bs, Text.IsUnbroken b.text
  body : ∀ body ∈ f.body, ∀ st ∈ body, AreUnbroken st.lines

/-- The lines of a function are unbroken exactly if its texts are. -/
theorem Function.areUnbroken_lines_iff {f : Function} :
    AreUnbroken f.lines ↔ f.IsUnbroken := by
  have hopening : '\n' ∈ f.opening.toList ↔ '\n' ∈ f.name.toList ∨
      ∃ group ∈ f.typeParameters, ∃ x ∈ group, '\n' ∈ x.toList := by
    unfold Function.opening
    cases f.isPublic <;> cases f.isConst <;> cases f.isAsync <;> simp
  have hclosing : '\n' ∈ f.closing.toList ↔ ∃ r ∈ f.result, '\n' ∈ r.toList := by
    unfold Function.closing
    cases f.result <;> simp
  have hparameters : (∀ x ∈ f.parameterTexts, Text.IsUnbroken x) ↔
      (∀ x ∈ f.receiver, Text.IsUnbroken x) ∧
        ∀ p ∈ f.parameters, Text.IsUnbroken p.1 ∧ Text.IsUnbroken p.2 := by
    rw [Function.parameterTexts, List.forall_mem_append, List.forall_mem_map]
    simp
  -- Whether the parameters stand on lines of their own does not matter.
  have hlines : AreUnbroken f.lines ↔ AreUnbroken (leadLines f.docs f.attributes) ∧
      Text.IsUnbroken f.opening ∧ (∀ x ∈ f.parameterTexts, Text.IsUnbroken x) ∧
      Text.IsUnbroken f.closing ∧ (∀ bs ∈ f.bounds, ∀ b ∈ bs, Text.IsUnbroken b.text) ∧
      ∀ body ∈ f.body, ∀ st ∈ body, AreUnbroken st.lines := by
    unfold Function.lines
    cases f.spread <;> cases f.body <;> simp [and_assoc]
  rw [Function.isUnbroken_iff, hlines, hparameters, areUnbroken_leadLines, Text.IsUnbroken,
    hopening, Text.IsUnbroken, hclosing]
  simp only [not_or, not_exists, not_and, and_assoc]

@[simp] theorem areUnbroken_functionLines {fs : List Function} :
    AreUnbroken (functionLines fs) ↔ ∀ f ∈ fs, f.IsUnbroken := by
  have hall : (∀ f ∈ fs, f.IsUnbroken) ↔ ∀ ls ∈ fs.map Function.lines, AreUnbroken ls := by
    rw [List.forall_mem_map]
    exact forall₂_congr fun _ _ => Function.areUnbroken_lines_iff.symm
  rw [hall, functionLines]
  constructor
  · intro h ls hls l hl
    exact h l ((infix_intercalate hls).subset hl)
  · intro h l hl
    rcases mem_intercalate hl with hblank | ⟨ls, hls, hl⟩
    · rw [List.mem_singleton.mp hblank]
      exact List.not_mem_nil
    · exact h ls hls l hl

/-- No text in the definition of a type has a line feed. -/
@[mk_iff]
structure Enum.IsUnbroken (e : Enum) : Prop where
  docs : ∀ doc ∈ e.docs, Text.IsUnbroken doc
  attributes : ∀ x ∈ e.attributes, Text.IsUnbroken x
  name : Text.IsUnbroken e.name
  typeParameters : ∀ group ∈ e.typeParameters, ∀ x ∈ group, Text.IsUnbroken x
  variants : ∀ v ∈ e.variants, (∀ doc ∈ v.docs, Text.IsUnbroken doc) ∧ Text.IsUnbroken v.name ∧
    Text.IsUnbroken v.payload

theorem Enum.areUnbroken_lines_iff {e : Enum} : AreUnbroken e.lines ↔ e.IsUnbroken := by
  simp [Enum.isUnbroken_iff, Enum.lines, Variant.lines, and_assoc]

/-- No text in a trait has a line feed. -/
@[mk_iff]
structure Trait.IsUnbroken (t : Trait) : Prop where
  docs : ∀ doc ∈ t.docs, Text.IsUnbroken doc
  name : Text.IsUnbroken t.name
  typeParameters : ∀ group ∈ t.typeParameters, ∀ x ∈ group, Text.IsUnbroken x
  supertraits : ∀ x ∈ t.supertraits, Text.IsUnbroken x
  functions : ∀ f ∈ t.functions, f.IsUnbroken

theorem Trait.areUnbroken_lines_iff {t : Trait} : AreUnbroken t.lines ↔ t.IsUnbroken := by
  cases hs : t.supertraits <;> simp [Trait.isUnbroken_iff, Trait.lines, hs, and_assoc]

/-- No text in an implementation has a line feed. -/
@[mk_iff]
structure Implementation.IsUnbroken (i : Implementation) : Prop where
  typeParameters : ∀ group ∈ i.typeParameters, ∀ x ∈ group, Text.IsUnbroken x
  trait : ∀ x ∈ i.trait, Text.IsUnbroken x
  target : Text.IsUnbroken i.target
  bounds : ∀ bs ∈ i.bounds, ∀ b ∈ bs, Text.IsUnbroken b.text
  constants : ∀ x ∈ i.constants, Text.IsUnbroken x
  functions : ∀ f ∈ i.functions, f.IsUnbroken

theorem Implementation.areUnbroken_lines_iff {i : Implementation} :
    AreUnbroken i.lines ↔ i.IsUnbroken := by
  have hend : AreUnbroken (if i.openEnd then [Line.blank] else []) := by
    split <;> simp
  cases ht : i.trait <;>
    simp [Implementation.isUnbroken_iff, Implementation.lines, ht, hend, and_assoc]

/-- No text in an item has a line feed. -/
def Item.IsUnbroken : Item → Prop
  | .imports paths => ∀ path ∈ paths, Text.IsUnbroken path
  | .enum e => e.IsUnbroken
  | .trait t => t.IsUnbroken
  | .implementation i => i.IsUnbroken

theorem Item.areUnbroken_lines_iff {item : Item} : AreUnbroken item.lines ↔ item.IsUnbroken := by
  cases item with
  | imports paths => cases paths <;> simp [Item.lines, Item.IsUnbroken]
  | enum e => simp [Item.lines, Item.IsUnbroken, Enum.areUnbroken_lines_iff]
  | trait t => simp [Item.lines, Item.IsUnbroken, Trait.areUnbroken_lines_iff]
  | implementation i => simp [Item.lines, Item.IsUnbroken, Implementation.areUnbroken_lines_iff]

/-! ### Lines that bring a path into scope -/

/-- What a line that brings a path into scope begins with. -/
def useMark : List Char := "use ".toList

/-- A line of code that begins as one that brings a path into scope. -/
def Line.isUse (l : Line) : Bool := useMark.isPrefixOf l.body

/-- None of the lines brings a path into scope. -/
def HaveNoUse (ls : List Line) : Prop := ∀ l ∈ ls, l.isUse = false

@[simp] theorem haveNoUse_cons {l : Line} {ls : List Line} :
    HaveNoUse (l :: ls) ↔ l.isUse = false ∧ HaveNoUse ls := List.forall_mem_cons

@[simp] theorem haveNoUse_append {ls ms : List Line} :
    HaveNoUse (ls ++ ms) ↔ HaveNoUse ls ∧ HaveNoUse ms := List.forall_mem_append

@[simp] theorem haveNoUse_nil : HaveNoUse [] := by
  intro l hl
  cases hl

@[simp] theorem isUse_blank : Line.blank.isUse = false := rfl

/-- A line outside of every block is told by its first characters. -/
@[simp] theorem isUse_line (text : String) :
    (line text).isUse = useMark.isPrefixOf text.toList := by
  rw [Line.isUse, body_line]

/-- A line in a block begins with a space, unless it is blank. -/
theorem isUse_nest (l : Line) : l.nest.isUse = false := by
  cases l with
  | blank => rfl
  | code depth text =>
    have hspaces : 4 * (depth + 1) = 4 * depth + 3 + 1 := by omega
    simp [Line.isUse, Line.nest, Line.body, indentation, hspaces, List.replicate_succ, useMark,
      List.isPrefixOf]

@[simp] theorem haveNoUse_nest (ls : List Line) : HaveNoUse (nest ls) :=
  List.forall_mem_map.mpr fun l _ => isUse_nest l

@[simp] theorem haveNoUse_leadLines (docs attributes : List String) :
    HaveNoUse (leadLines docs attributes) := by
  refine List.forall_mem_append.mpr ⟨List.forall_mem_map.mpr ?_, List.forall_mem_map.mpr ?_⟩
  · intro d _
    unfold docLine
    split <;> simp [useMark, List.isPrefixOf]
  · intro a _
    simp [attributeLine, useMark, List.isPrefixOf]

theorem Enum.haveNoUse_lines (e : Enum) : HaveNoUse e.lines := by
  simp [Enum.lines, block, useMark, List.isPrefixOf]

theorem Trait.haveNoUse_lines (t : Trait) : HaveNoUse t.lines := by
  cases hs : t.supertraits <;> simp [Trait.lines, hs, block, useMark, List.isPrefixOf]

theorem Implementation.haveNoUse_lines (i : Implementation) : HaveNoUse i.lines := by
  cases hb : i.bounds <;>
    simp [Implementation.lines, hb, boundedBlock, boundLines, block, useMark, List.isPrefixOf]

/-- The paths that an item brings into scope. -/
def Item.paths : Item → List String
  | .imports paths => paths
  | _ => []

/-- The line that brings a path into scope. -/
def useLine (path : String) : String := "use " ++ path ++ ";"

/-- The lines that bring paths into scope are those of imports. -/
theorem Item.filter_isUse_lines (item : Item) :
    item.lines.filter (·.isUse) = item.paths.map fun path => line (useLine path) := by
  have hnone {ls : List Line} (h : HaveNoUse ls) :
      (ls ++ [Line.blank]).filter (·.isUse) = [] := by
    refine List.filter_eq_nil_iff.mpr ?_
    intro l hl
    simpa using (haveNoUse_append.mpr ⟨h, by simp⟩ : HaveNoUse (ls ++ [Line.blank])) l hl
  cases item with
  | imports paths =>
    cases paths with
    | nil => rfl
    | cons path paths =>
      have hall : ∀ l ∈ (path :: paths).map fun path => line (useLine path), l.isUse = true := by
        refine List.forall_mem_map.mpr ?_
        intro path _
        simp [useLine, useMark, List.isPrefixOf]
      show (((path :: paths).map fun path => line (useLine path)) ++ [Line.blank]).filter _ = _
      rw [List.filter_append, List.filter_eq_self.mpr hall]
      exact List.append_nil _
  | enum e => exact hnone e.haveNoUse_lines
  | trait t => exact hnone t.haveNoUse_lines
  | implementation i => exact hnone i.haveNoUse_lines

/-! ### The lines of a text -/

/-- The lines of a text that bring a path into scope. -/
def useLines (text : String) : List String :=
  (Text.lines text).filter fun l => useMark.isPrefixOf l.toList

/-- A carriage return at the end of a line makes no difference to its beginning. -/
theorem isPrefixOf_dropReturn (cs : List Char) :
    useMark.isPrefixOf (dropReturn cs) = useMark.isPrefixOf cs := by
  unfold dropReturn
  split
  · next shorter hreverse =>
    have hcs : cs = shorter.reverse ++ ['\r'] := by
      rw [← List.reverse_reverse cs, hreverse, List.reverse_cons]
    have hne : useMark ≠ shorter.reverse ++ ['\r'] := by
      intro h
      have hlast := congrArg List.getLast? h
      rw [List.getLast?_concat] at hlast
      revert hlast
      decide
    rw [Bool.eq_iff_iff, List.isPrefixOf_iff_prefix, List.isPrefixOf_iff_prefix, hcs,
      List.prefix_concat_iff]
    exact ⟨.inr, fun h => h.resolve_left hne⟩
  · rfl

/-- These lines are found before the carriage returns are taken off. -/
theorem useLines_eq (text : String) :
    useLines text = ((Text.parts '\n' text.toList).filter useMark.isPrefixOf).map
      (String.ofList ∘ dropReturn) := by
  have hbegins : (fun l : String => useMark.isPrefixOf l.toList) ∘ String.ofList ∘ dropReturn =
      useMark.isPrefixOf := by
    funext cs
    simp [isPrefixOf_dropReturn]
  rw [useLines, Text.lines, List.filter_map, hbegins]

theorem dropReturn_useLine (path : String) :
    dropReturn (useLine path).toList = (useLine path).toList := by
  simp [dropReturn, useLine]

/-- The lines of unbroken code that bring paths into scope are those of its imports. -/
theorem useLines_render {items : List Item} (h : ∀ item ∈ items, item.IsUnbroken) :
    useLines (render items) = (items.flatMap Item.paths).map useLine := by
  have hall : AreUnbroken (items.flatMap Item.lines) :=
    areUnbroken_flatMap.mpr fun item hitem => Item.areUnbroken_lines_iff.mpr (h item hitem)
  have hparts : Text.parts '\n' (render items).toList =
      (items.flatMap Item.lines).map Line.body ++ [[]] := by
    rw [render, parts_renderLines, List.map_eq_flatMap]
    congr 1
    refine List.flatMap_congr ?_
    intro l hl
    exact parts_of_not_mem (hall l hl)
  -- The last line of a text is empty.
  have hfilter : (Text.parts '\n' (render items).toList).filter useMark.isPrefixOf =
      ((items.flatMap Item.lines).filter (·.isUse)).map Line.body := by
    rw [hparts, List.filter_append, List.filter_map]
    exact List.append_nil _
  have hpath : (String.ofList ∘ dropReturn) ∘ Line.body ∘ (fun path => line (useLine path)) =
      useLine := by
    funext path
    simp [dropReturn_useLine]
  rw [useLines_eq, hfilter, List.filter_flatMap, List.map_flatMap, List.map_flatMap,
    List.map_flatMap]
  simp only [Item.filter_isUse_lines, List.map_map, hpath]

end Code

/-- The header of a file brings nothing into scope. -/
theorem Artifact.useLines_contents (family : Family) (path body : String) :
    Code.useLines (ofBody family path body).contents = Code.useLines body := by
  rw [Code.useLines_eq, Code.useLines_eq, parts_contents, List.filter_append]
  rfl

end TaggedUnion
