import Mathlib.Data.List.Basic
import TaggedUnion.Proofs.Emit.Lines
import TaggedUnion.Proofs.Text.Brackets

/-! # Brackets in the layout of code

    Code is well bracketed if the texts in it are. Documentation may say anything, since it is laid
    out in comments:

    * **`withoutComments`**: a text without the lines that begin as a comment does.
    * **`LinesReadTo`**, **`AreNested`**: lines of code, each one line of text, and the brackets
      awaited behind them. A block is nested if its head and its body are, and the head of a
      function with one parameter a line is closed behind the parameters.
    * **`Expr.IsNeat`** to **`Item.IsNeat`**: the texts in a piece of code are neat, one predicate
      for each kind of syntax.
    * **`isNested_render`**: neat items are laid out as a nested text.
-/

namespace TaggedUnion.Code

open Text

/-! ### Comment lines -/

/-- A line that begins as a comment does, after spaces. -/
def isComment (text : List Char) : Bool := ['/', '/'].isPrefixOf (text.dropWhile (· = ' '))

/-- A text without its comment lines. -/
def withoutComments (text : String) : List Char :=
  ['\n'].intercalate ((Text.parts '\n' text.toList).filter (!isComment ·))

/-- What is left of a line of code that is one line of text. -/
def Line.shown (l : Line) : List Char := if isComment l.body then [] else l.body

theorem nil_intercalate {α : Type} (xss : List (List α)) :
    ([] : List α).intercalate xss = xss.flatten := by
  induction xss with
  | nil => rfl
  | cons xs xss ih =>
    cases xss with
    | nil => simp
    | cons ys xss =>
      rw [List.intercalate_cons_cons, List.append_nil, ih]
      rfl

/-- The lines that are left are read one after the other. -/
theorem awaitedAfter_withoutComments {ls : List Line} (h : ∀ l ∈ ls, '\n' ∉ l.body)
    (a : List Char) : awaitedAfter a (withoutComments (renderLines ls)) =
      awaitedAfter a (ls.flatMap Line.shown) := by
  have hparts : Text.parts '\n' (renderLines ls).toList = ls.map Line.body ++ [[]] := by
    rw [parts_renderLines, List.flatMap_congr fun l hl => Text.parts_of_not_mem (h l hl),
      ← List.map_eq_flatMap]
  have hfeed : ['\n'].filter (· ∈ brackets) = [] := by decide
  refine awaitedAfter_congr ?_ a
  -- Line feeds are no brackets, so that neither they nor the comments between them count.
  rw [withoutComments, hparts, filter_intercalate, hfeed, nil_intercalate]
  clear h hparts
  induction ls with
  | nil => rfl
  | cons l ls ih =>
    rw [List.map_cons, List.cons_append, List.flatMap_cons, List.filter_append, ← ih]
    by_cases hl : isComment l.body
    · rw [List.filter_cons_of_neg (by simp [hl]), Line.shown, if_pos hl, List.filter_nil,
        List.nil_append]
    · rw [List.filter_cons_of_pos (by simp [hl]), Line.shown, if_neg hl, List.map_cons,
        List.flatten_cons]

/-! ### Lines that are read -/

/-- Lines of code, each one line of text, behind which `b` is awaited if `a` is awaited before
    them. -/
structure LinesReadTo (ls : List Line) (a b : List Char) : Prop where
  oneLine : ∀ l ∈ ls, '\n' ∉ l.body
  reads : awaitedAfter a (ls.flatMap Line.shown) = some b

/-- Lines whose brackets are closed in them. -/
abbrev AreNested (ls : List Line) : Prop := LinesReadTo ls [] []

variable {ls ms : List Line} {a b c : List Char} {text : String}

/-- Nested lines are laid out as a nested text. -/
theorem isNested_renderLines (h : AreNested ls) :
    IsNested (withoutComments (renderLines ls)) :=
  (awaitedAfter_withoutComments h.oneLine []).trans h.reads

theorem areNested_nil : AreNested [] := ⟨fun _ h => absurd h List.not_mem_nil, rfl⟩

theorem LinesReadTo.append (hls : LinesReadTo ls a b) (hms : LinesReadTo ms b c) :
    LinesReadTo (ls ++ ms) a c where
  oneLine l hl := (List.mem_append.mp hl).elim (hls.oneLine l) (hms.oneLine l)
  reads := by
    rw [List.flatMap_append, awaitedAfter_append, hls.reads]
    exact hms.reads

theorem LinesReadTo.cons {l : Line} (hl : LinesReadTo [l] a b) (hls : LinesReadTo ls b c) :
    LinesReadTo (l :: ls) a c :=
  hl.append hls

/-- What is awaited around nested lines stays awaited. -/
theorem LinesReadTo.around (h : AreNested ls) (a : List Char) : LinesReadTo ls a a :=
  ⟨h.oneLine, awaitedAfter_frame h.reads a⟩

theorem areNested_flatMap {α : Type} {xs : List α} {f : α → List Line}
    (h : ∀ x ∈ xs, AreNested (f x)) : AreNested (xs.flatMap f) := by
  induction xs with
  | nil => exact areNested_nil
  | cons x xs ih =>
    rw [List.flatMap_cons]
    exact (h x List.mem_cons_self).append (ih fun y hy => h y (List.mem_cons_of_mem x hy))

theorem areNested_map {α : Type} {xs : List α} {f : α → Line}
    (h : ∀ x ∈ xs, AreNested [f x]) : AreNested (xs.map f) := by
  rw [List.map_eq_flatMap]
  exact areNested_flatMap h

/-- One block further in, a line has four spaces more. -/
theorem Line.body_nest (l : Line) :
    l.nest.body = l.body ∨ l.nest.body = [' ', ' ', ' ', ' '] ++ l.body := by
  cases l with
  | blank => exact .inl rfl
  | code depth text =>
    right
    have hspaces : 4 * (depth + 1) = 4 + 4 * depth := by omega
    simp only [nest, body, indentation, String.toList_append, String.toList_ofList, hspaces,
      List.replicate_add, List.append_assoc]
    rfl

/-- Spaces before a line do not count. -/
theorem LinesReadTo.nest (h : LinesReadTo ls a b) : LinesReadTo (nest ls) a b where
  oneLine := by
    refine List.forall_mem_map.mpr ?_
    intro l hl
    rcases l.body_nest with hbody | hbody
    · rw [hbody]
      exact h.oneLine l hl
    · have hspaces : '\n' ∉ [' ', ' ', ' ', ' '] := by decide
      rw [hbody, List.mem_append]
      exact not_or.mpr ⟨hspaces, h.oneLine l hl⟩
  reads := by
    have hshown (l : Line) :
        l.nest.shown.filter (· ∈ brackets) = l.shown.filter (· ∈ brackets) := by
      rcases l.body_nest with hbody | hbody
      · rw [Line.shown, hbody, ← Line.shown]
      · have hcomment : isComment l.nest.body = isComment l.body := by
          rw [hbody]
          rfl
        rw [Line.shown, Line.shown, hcomment, hbody]
        split
        · rfl
        · rfl
    refine Eq.trans (awaitedAfter_congr ?_ a) h.reads
    rw [List.filter_flatMap, List.filter_flatMap, Code.nest, List.flatMap_map]
    exact List.flatMap_congr fun l _ => hshown l

/-! ### Lines with a text -/

theorem body_line (text : String) : (line text).body = text.toList := by
  show (indentation 0 ++ text).toList = text.toList
  rw [String.toList_append]
  rfl

/-- A text that begins neither with a space nor as a comment does. -/
def IsShown (text : String) : Prop := text.toList.head?.any (fun c => c ≠ ' ' && c ≠ '/') = true

instance (text : String) : Decidable (IsShown text) :=
  inferInstanceAs (Decidable (_ = true))

theorem isShown_literal {cs : List Char}
    (h : cs.head?.any (fun c => c ≠ ' ' && c ≠ '/') = true) :
    IsShown (String.ofList cs) := by
  rwa [IsShown, String.toList_ofList]

theorem IsShown.append (h : IsShown text) (more : String) : IsShown (text ++ more) := by
  unfold IsShown at h ⊢
  rw [String.toList_append]
  cases hcs : text.toList with
  | nil => rw [hcs] at h; cases h
  | cons c cs =>
    rw [hcs] at h
    exact h

theorem IsShown.not_isComment (h : IsShown text) : isComment text.toList = false := by
  unfold IsShown at h
  cases hcs : text.toList with
  | nil => rw [hcs] at h; cases h
  | cons c cs =>
    rw [hcs] at h
    obtain ⟨hspace, hslash⟩ : c ≠ ' ' ∧ c ≠ '/' := by simpa using h
    rw [isComment, List.dropWhile_cons_of_neg (by simpa using hspace)]
    simp [List.isPrefixOf, hslash.symm]

/-- A line that is no comment is read as its text. -/
theorem linesReadTo_line (h : ReadsTo text a b) (hshown : IsShown text) :
    LinesReadTo [line text] a b where
  oneLine l hl := by
    rw [List.mem_singleton.mp hl, body_line]
    exact h.oneLine
  reads := by
    rw [List.flatMap_singleton, Line.shown, body_line, hshown.not_isComment]
    exact h.reads

/-- A neat line is nested, whether it is a comment or not. -/
theorem areNested_line (h : IsNeat text) : AreNested [line text] where
  oneLine l hl := by
    rw [List.mem_singleton.mp hl, body_line]
    exact h.oneLine
  reads := by
    rw [List.flatMap_singleton, Line.shown, body_line]
    split
    · rfl
    · exact h.reads

theorem areNested_blank : AreNested [Line.blank] := by
  refine ⟨?_, by decide⟩
  intro l hl
  rw [List.mem_singleton.mp hl]
  exact List.not_mem_nil

/-- A line of documentation is a comment. -/
theorem areNested_docLine {doc : String} (h : '\n' ∉ doc.toList) : AreNested [docLine doc] := by
  have hmark : '\n' ∉ "/// ".toList := by decide
  by_cases hdoc : doc = ""
  · rw [docLine, if_pos hdoc]
    exact areNested_line (readsTo_literal (by decide))
  · rw [docLine, if_neg hdoc]
    refine ⟨?_, ?_⟩
    · intro l hl
      rw [List.mem_singleton.mp hl, body_line, String.toList_append, List.mem_append]
      exact not_or.mpr ⟨hmark, h⟩
    · rw [List.flatMap_singleton, Line.shown, body_line, String.toList_append]
      rfl

/-! ### Blocks -/

/-- A head that may close what is awaited before it, the bounds, and the block. -/
theorem linesReadTo_boundedBlock {head : String} {bounds : Option (List Bound)}
    (hhead : ReadsTo head a []) (hshown : IsShown head)
    (hbounds : ∀ bs ∈ bounds, ∀ bound ∈ bs, IsNeat bound.text) (hbody : AreNested ls) :
    LinesReadTo (boundedBlock head bounds ls) a [] := by
  have hclose : LinesReadTo [line "\x7d"] ['\x7d'] [] :=
    linesReadTo_line (readsTo_literal (by decide)) (isShown_literal (by decide))
  have hinside := (hbody.nest.around ['\x7d']).append hclose
  cases bounds with
  | none =>
    have hopen : LinesReadTo [line (head ++ " \x7b")] a ['\x7d'] :=
      linesReadTo_line (hhead.before (by decide)) (hshown.append _)
    exact hopen.append hinside
  | some bs =>
    have hopen : LinesReadTo [line "\x7b"] [] ['\x7d'] :=
      linesReadTo_line (readsTo_literal (by decide)) (isShown_literal (by decide))
    have hclause : AreNested (boundLines bs) := by
      refine LinesReadTo.append (areNested_line (readsTo_literal (by decide))) (LinesReadTo.nest ?_)
      refine areNested_map ?_
      intro bound hbound
      exact areNested_line ((hbounds bs rfl bound hbound).before (by decide))
    have hlines := ((linesReadTo_line hhead hshown).append hclause).append (hopen.append hinside)
    simpa [boundedBlock] using hlines

theorem areNested_block {head : String} (hhead : IsNeat head) (hshown : IsShown head)
    (hbody : AreNested ls) : AreNested (block head ls) := by
  show LinesReadTo (boundedBlock head none ls) [] []
  exact linesReadTo_boundedBlock hhead hshown (fun _ h => by cases h) hbody

theorem areNested_intercalate {xss : List (List Line)} (h : ∀ xs ∈ xss, AreNested xs) :
    AreNested ([Line.blank].intercalate xss) := by
  induction xss with
  | nil => exact areNested_nil
  | cons xs xss ih =>
    have hxs := h xs List.mem_cons_self
    cases xss with
    | nil =>
      rw [List.intercalate_singleton]
      exact hxs
    | cons ys xss =>
      rw [List.intercalate_cons_cons]
      exact (hxs.append areNested_blank).append
        (ih fun zs hzs => h zs (List.mem_cons_of_mem xs hzs))

theorem areNested_declaredBounds {bounds : List Bound} (h : ∀ bound ∈ bounds, IsNeat bound.text) :
    AreNested (declaredBounds bounds) := by
  induction bounds with
  | nil => exact areNested_nil
  | cons bound bounds ih =>
    have hbound := h bound List.mem_cons_self
    cases bounds with
    | nil => exact areNested_line (hbound.before (by decide))
    | cons other bounds =>
      exact LinesReadTo.cons (areNested_line (hbound.before (by decide)))
        (ih fun d hd => h d (List.mem_cons_of_mem bound hd))

/-! ### Neat bodies -/

theorem isNeat_commaSeparated {xs : List String} (h : ∀ x ∈ xs, IsNeat x) :
    IsNeat (commaSeparated xs) := by
  have hcomma : IsNeat ", " := readsTo_literal (by decide)
  exact isNeat_intercalate hcomma h

/-- A name with texts in round brackets behind it. -/
theorem isNeat_applied {function arguments : String} (hfunction : IsNeat function)
    (harguments : IsNeat arguments) : IsNeat (function ++ "(" ++ arguments ++ ")") :=
  harguments.between (a := [')']) (hfunction.before (by decide)) (readsTo_literal (by decide))

/-- The texts in an expression are neat. -/
def Expr.IsNeat : Expr → Prop
  | .name text => Text.IsNeat text
  | .call function arguments => Text.IsNeat function ∧ ∀ x ∈ arguments, Text.IsNeat x
  | .wrap function argument => Text.IsNeat function ∧ argument.IsNeat
  | .record type fields =>
    Text.IsNeat type ∧ ∀ field ∈ fields, Text.IsNeat field.1 ∧ Text.IsNeat field.2
  | .method receiver function arguments =>
    receiver.IsNeat ∧ Text.IsNeat function ∧ ∀ x ∈ arguments, Text.IsNeat x
  | .await future => future.IsNeat
  | .deferred body => body.IsNeat

theorem Expr.isNeat_text {e : Expr} (h : e.IsNeat) : Text.IsNeat e.text := by
  induction e with
  | name t => exact h
  | call f xs => exact isNeat_applied h.1 (isNeat_commaSeparated h.2)
  | wrap f e ih => exact isNeat_applied h.1 (ih h.2)
  | record t fields =>
    have hfields : Text.IsNeat (commaSeparated (fields.map fieldText)) := by
      refine isNeat_commaSeparated (List.forall_mem_map.mpr ?_)
      intro field hfield
      obtain ⟨hname, hvalue⟩ := h.2 field hfield
      rw [fieldText]
      split
      · exact hname
      · exact (hname.before (by decide)).append hvalue
    exact hfields.between (a := ['\x7d']) (h.1.before (by decide)) (readsTo_literal (by decide))
  | method e f xs ih =>
    obtain ⟨he, hf, hxs⟩ := h
    exact isNeat_applied (((ih he).before (by decide)).append hf) (isNeat_commaSeparated hxs)
  | await e ih => exact (ih h).before (by decide)
  | deferred e ih => exact (ih h).within (by decide)

def Pattern.IsNeat : Pattern → Prop
  | .held variant binding => Text.IsNeat variant ∧ Text.IsNeat binding
  | .other binding => Text.IsNeat binding

theorem Pattern.isNeat_text {p : Pattern} (h : p.IsNeat) : Text.IsNeat p.text := by
  cases p with
  | held variant binding => exact isNeat_applied (h.1.behind (by decide)) h.2
  | other binding => exact h

def Arm.IsNeat (a : Arm) : Prop := a.pattern.IsNeat ∧ a.value.IsNeat

theorem Arm.isNeat_text {a : Arm} (h : a.IsNeat) : Text.IsNeat a.text :=
  (((Pattern.isNeat_text h.1).before (by decide)).append (Expr.isNeat_text h.2)).before (by decide)

def BlockHead.IsNeat : BlockHead → Prop
  | .ifHeld variant binding union =>
    Text.IsNeat variant ∧ Text.IsNeat binding ∧ Text.IsNeat union
  | .ifDifferent x y | .forEach x y => Text.IsNeat x ∧ Text.IsNeat y

theorem BlockHead.isNeat_text {head : BlockHead} (h : head.IsNeat) : Text.IsNeat head.text := by
  cases head with
  | ifHeld variant binding union =>
    have hpattern : Text.IsNeat (Pattern.held variant binding).text :=
      Pattern.isNeat_text ⟨h.1, h.2.1⟩
    exact (hpattern.within (by decide)).append h.2.2
  | ifDifferent x y => exact (h.1.within (by decide)).append h.2
  | forEach x y => exact (h.1.within (by decide)).append h.2

/-- The head of a block is no comment. -/
theorem BlockHead.isShown_text (head : BlockHead) : IsShown head.text := by
  have hword {cs : List Char} (hcs : cs.head?.any (fun c => c ≠ ' ' && c ≠ '/') = true)
      (x y z : String) : IsShown (String.ofList cs ++ x ++ y ++ z) :=
    ((IsShown.append (isShown_literal hcs) x).append y).append z
  cases head with
  | ifHeld variant binding union => exact hword (by decide) _ _ _
  | ifDifferent x y => exact hword (by decide) _ _ _
  | forEach x y => exact hword (by decide) _ _ _

/-- The texts in a statement are neat. -/
def Statement.IsNeat : Statement → Prop
  | .value e | .run e => e.IsNeat
  | .bind name e => Text.IsNeat name ∧ e.IsNeat
  | .dispatch scrutinee arms => Text.IsNeat scrutinee ∧ ∀ a ∈ arms, a.IsNeat
  | .within head body => head.IsNeat ∧ body.IsNeat

theorem Statement.areNested_lines {s : Statement} (h : s.IsNeat) : AreNested s.lines := by
  induction s with
  | value e => exact areNested_line (Expr.isNeat_text h)
  | run e => exact areNested_line ((Expr.isNeat_text h).before (by decide))
  | bind x e =>
    have hhead : Text.IsNeat ("let " ++ x ++ " = ") :=
      h.1.within (by decide)
    exact areNested_line ((hhead.append (Expr.isNeat_text h.2)).before (by decide))
  | dispatch x arms =>
    have harms : AreNested (arms.map fun a => line a.text) :=
      areNested_map fun a ha => areNested_line (Arm.isNeat_text (h.2 a ha))
    have hshown : IsShown ("match " ++ x) := IsShown.append (isShown_literal (by decide)) x
    exact areNested_block (h.1.behind (by decide)) hshown harms
  | within head body ih =>
    exact areNested_block (BlockHead.isNeat_text h.1) head.isShown_text (ih h.2)

/-! ### Neat functions -/

def Bound.IsNeat (b : Bound) : Prop := Text.IsNeat b.parameter ∧ Text.IsNeat b.constraint

theorem Bound.isNeat_text {b : Bound} (h : b.IsNeat) : Text.IsNeat b.text :=
  (h.1.before (by decide)).append h.2

/-- The names in a list of type parameters are neat. -/
def TypeParameters.AreNeat (groups : TypeParameters) : Prop :=
  ∀ group ∈ groups, ∀ name ∈ group, IsNeat name

theorem TypeParameters.isNeat_text {groups : TypeParameters} (h : groups.AreNeat) :
    IsNeat groups.text := by
  have hgroups : IsNeat (commaSeparated (groups.map commaSeparated)) :=
    isNeat_commaSeparated (List.forall_mem_map.mpr fun g hg => isNeat_commaSeparated (h g hg))
  rw [TypeParameters.text]
  split
  · exact readsTo_literal (by decide)
  · exact hgroups.within (by decide)

/-- Documentation on one line each, and neat attributes. -/
theorem areNested_leadLines {docs attributes : List String}
    (hdocs : ∀ doc ∈ docs, '\n' ∉ doc.toList) (hattributes : ∀ x ∈ attributes, IsNeat x) :
    AreNested (leadLines docs attributes) := by
  refine (areNested_map fun doc hdoc => areNested_docLine (hdocs doc hdoc)).append
    (areNested_map fun x hx => areNested_line ?_)
  exact (hattributes x hx).within (by decide)

/-- The texts in a function are neat, and its documentation is one line each. -/
structure Function.IsNeat (f : Function) : Prop where
  docs : ∀ doc ∈ f.docs, '\n' ∉ doc.toList
  attributes : ∀ x ∈ f.attributes, Text.IsNeat x
  name : Text.IsNeat f.name
  typeParameters : TypeParameters.AreNeat f.typeParameters
  receiver : ∀ x ∈ f.receiver, Text.IsNeat x
  parameters : ∀ p ∈ f.parameters, Text.IsNeat p.1 ∧ Text.IsNeat p.2
  result : ∀ x ∈ f.result, Text.IsNeat x
  bounds : ∀ bs ∈ f.bounds, ∀ bound ∈ bs, bound.IsNeat
  body : ∀ body ∈ f.body, ∀ s ∈ body, s.IsNeat

theorem forall_mem_some {α : Type} {p : α → Prop} {x : α} (h : p x) : ∀ y ∈ some x, p y := by
  rintro _ ⟨⟩
  exact h

/-- Parts that a function does not have need no proof. -/
theorem Function.isNeat_bare : ({ name := "" } : Function).IsNeat where
  docs := by rintro _ ⟨⟩
  attributes := by rintro _ ⟨⟩
  name := readsTo_literal (by decide)
  typeParameters := by rintro _ ⟨⟩
  receiver := by rintro _ ⟨⟩
  parameters := by rintro _ ⟨⟩
  result := by rintro _ ⟨⟩
  bounds := by rintro _ ⟨⟩
  body := by rintro _ ⟨⟩

theorem Function.isNeat_method (receiver : String) (h : Text.IsNeat receiver) :
    ({ name := "", receiver := some receiver } : Function).IsNeat where
  __ := isNeat_bare
  receiver := forall_mem_some h

namespace Function.IsNeat

variable {f : Function}

/-- The bracket before the parameters is open behind the name. -/
theorem readsTo_opening (h : f.IsNeat) : ReadsTo f.opening [] [')'] := by
  have hmark (b : Bool) {mark : List Char} (h : CharsReadTo mark [] []) :
      Text.IsNeat (if b then String.ofList mark else "") :=
    isNeat_ite (readsTo_literal h) (readsTo_literal (by decide))
  have hmarks : Text.IsNeat ((if f.isPublic then "pub " else "") ++
      (if f.isConst then "const " else "") ++ (if f.isAsync then "async " else "")) :=
    ((hmark f.isPublic (by decide)).append (hmark f.isConst (by decide))).append
      (hmark f.isAsync (by decide))
  exact (((hmarks.before (by decide)).append h.name).append
    (TypeParameters.isNeat_text h.typeParameters)).before (by decide)

theorem isShown_opening (f : Function) : IsShown f.opening := by
  have hmarks : IsShown ((if f.isPublic then "pub " else "") ++
      (if f.isConst then "const " else "") ++ (if f.isAsync then "async " else "") ++ "fn ") := by
    cases f.isPublic <;> cases f.isConst <;> cases f.isAsync <;> decide
  exact ((hmarks.append _).append _).append _

/-- It is closed in front of the result. -/
theorem readsTo_closing (h : f.IsNeat) : ReadsTo f.closing [')'] [] := by
  unfold closing
  split
  · next r hr => exact (h.result r hr).behind (by decide)
  · exact readsTo_literal (by decide)

theorem isShown_closing (f : Function) : IsShown f.closing := by
  unfold closing
  split
  · exact IsShown.append (isShown_literal (by decide)) _
  · exact isShown_literal (by decide)

theorem isNeat_parameterTexts (h : f.IsNeat) : ∀ x ∈ f.parameterTexts, Text.IsNeat x := by
  intro x hx
  rcases List.mem_append.mp hx with hx | hx
  · exact h.receiver x (Option.mem_toList.mp hx)
  · obtain ⟨p, hp, rfl⟩ := List.mem_map.mp hx
    exact ((h.parameters p hp).1.before (by decide)).append (h.parameters p hp).2

/-- What stands behind a head, which may close the bracket before the parameters. -/
theorem linesReadTo_tail (h : f.IsNeat) {head : String} (hhead : ReadsTo head a [])
    (hshown : IsShown head) :
    LinesReadTo (match f.body with
      | some body => boundedBlock head f.bounds (body.flatMap Statement.lines)
      | none => declarationLines head f.bounds) a [] := by
  have hbounds : ∀ bs ∈ f.bounds, ∀ bound ∈ bs, Text.IsNeat bound.text :=
    fun bs hbs bound hbound => Bound.isNeat_text (h.bounds bs hbs bound hbound)
  split
  · next body hbody =>
    refine linesReadTo_boundedBlock hhead hshown hbounds (areNested_flatMap ?_)
    exact fun s hs => Statement.areNested_lines (h.body body hbody s hs)
  · unfold declarationLines
    split
    · exact linesReadTo_line (hhead.before (by decide)) (hshown.append _)
    · next bs hbs =>
      have hclause : AreNested (line "where" :: nest (declaredBounds bs)) :=
        LinesReadTo.cons (areNested_line (readsTo_literal (by decide)))
          (areNested_declaredBounds (hbounds bs hbs)).nest
      exact (linesReadTo_line hhead hshown).append hclause

theorem areNested_lines (h : f.IsNeat) : AreNested f.lines := by
  have hlead := areNested_leadLines h.docs h.attributes
  have hparameters := h.isNeat_parameterTexts
  unfold lines
  refine hlead.append ?_
  cases f.spread with
  | true =>
    have hlines : AreNested (nest (f.parameterTexts.map fun p => line (p ++ ","))) :=
      (areNested_map fun p hp => areNested_line ((hparameters p hp).before (by decide))).nest
    have hopening := linesReadTo_line h.readsTo_opening (isShown_opening f)
    exact (hopening.append (hlines.around _)).append
      (h.linesReadTo_tail h.readsTo_closing (isShown_closing f))
  | false =>
    have hall := (isNeat_commaSeparated hparameters).between h.readsTo_opening h.readsTo_closing
    exact h.linesReadTo_tail hall (((isShown_opening f).append _).append _)

end Function.IsNeat

theorem areNested_functionLines {fs : List Function} (h : ∀ f ∈ fs, f.IsNeat) :
    AreNested (functionLines fs) :=
  areNested_intercalate (List.forall_mem_map.mpr fun f hf => (h f hf).areNested_lines)

/-! ### Neat items -/

structure Variant.IsNeat (v : Variant) : Prop where
  docs : ∀ doc ∈ v.docs, '\n' ∉ doc.toList
  name : Text.IsNeat v.name
  payload : Text.IsNeat v.payload

theorem Variant.areNested_lines {v : Variant} (h : v.IsNeat) : AreNested v.lines := by
  have htext : Text.IsNeat (v.name ++ "(" ++ v.payload ++ "),") :=
    h.payload.between (a := [')']) (h.name.before (by decide)) (readsTo_literal (by decide))
  exact (areNested_leadLines h.docs (fun _ h => absurd h List.not_mem_nil)).append
    (areNested_line htext)

structure Enum.IsNeat (e : Enum) : Prop where
  docs : ∀ doc ∈ e.docs, '\n' ∉ doc.toList
  attributes : ∀ x ∈ e.attributes, Text.IsNeat x
  name : Text.IsNeat e.name
  typeParameters : TypeParameters.AreNeat e.typeParameters
  variants : ∀ v ∈ e.variants, v.IsNeat

theorem Enum.areNested_lines {e : Enum} (h : e.IsNeat) : AreNested e.lines := by
  have hhead : Text.IsNeat ("pub enum " ++ e.name ++ e.typeParameters.text) :=
    (h.name.behind (by decide)).append (TypeParameters.isNeat_text h.typeParameters)
  have hshown : IsShown ("pub enum " ++ e.name ++ e.typeParameters.text) :=
    (IsShown.append (isShown_literal (by decide)) _).append _
  exact (areNested_leadLines h.docs h.attributes).append
    (areNested_block hhead hshown
      (areNested_flatMap fun v hv => Variant.areNested_lines (h.variants v hv)))

structure Trait.IsNeat (t : Trait) : Prop where
  docs : ∀ doc ∈ t.docs, '\n' ∉ doc.toList
  name : Text.IsNeat t.name
  typeParameters : TypeParameters.AreNeat t.typeParameters
  supertraits : ∀ x ∈ t.supertraits, Text.IsNeat x
  functions : ∀ f ∈ t.functions, f.IsNeat

theorem Trait.areNested_lines {t : Trait} (h : t.IsNeat) : AreNested t.lines := by
  have hhead : Text.IsNeat ("pub trait " ++ t.name ++ t.typeParameters.text) :=
    (h.name.behind (by decide)).append (TypeParameters.isNeat_text h.typeParameters)
  have hshown : IsShown ("pub trait " ++ t.name ++ t.typeParameters.text) :=
    (IsShown.append (isShown_literal (by decide)) _).append _
  refine (areNested_leadLines h.docs (fun _ h => absurd h List.not_mem_nil)).append ?_
  have hfunctions := areNested_functionLines h.functions
  split
  · next s hs =>
    exact areNested_block ((hhead.before (by decide)).append (h.supertraits s hs))
      ((hshown.append _).append _) hfunctions
  · exact areNested_block hhead hshown hfunctions

structure Implementation.IsNeat (i : Implementation) : Prop where
  typeParameters : TypeParameters.AreNeat i.typeParameters
  trait : ∀ x ∈ i.trait, Text.IsNeat x
  target : Text.IsNeat i.target
  bounds : ∀ bs ∈ i.bounds, ∀ bound ∈ bs, bound.IsNeat
  constants : ∀ x ∈ i.constants, Text.IsNeat x
  functions : ∀ f ∈ i.functions, f.IsNeat

/-- Parts that an implementation does not have need no proof. -/
theorem Implementation.isNeat_bare :
    ({ typeParameters := [], target := "", functions := [] } : Implementation).IsNeat where
  typeParameters := by rintro _ ⟨⟩
  trait := by rintro _ ⟨⟩
  target := readsTo_literal (by decide)
  bounds := by rintro _ ⟨⟩
  constants := by rintro _ ⟨⟩
  functions := by rintro _ ⟨⟩

theorem Implementation.areNested_lines {i : Implementation} (h : i.IsNeat) :
    AreNested i.lines := by
  have hhead : Text.IsNeat ("impl" ++ i.typeParameters.text ++ " ") :=
    (TypeParameters.isNeat_text h.typeParameters).within (by decide)
  have hconstants : AreNested (i.constants.flatMap fun c =>
      [line ("const " ++ c ++ ";"), Line.blank]) := by
    refine areNested_flatMap fun c hc => ?_
    exact LinesReadTo.cons (areNested_line ((h.constants c hc).within (by decide)))
      areNested_blank
  have hend : AreNested (if i.openEnd then [Line.blank] else []) := by
    split
    · exact areNested_blank
    · exact areNested_nil
  unfold lines
  refine linesReadTo_boundedBlock (hhead.append ?_)
    (((IsShown.append (isShown_literal (by decide)) _).append _).append _)
    (fun bs hbs bound hbound => Bound.isNeat_text (h.bounds bs hbs bound hbound))
    ((hconstants.append (areNested_functionLines h.functions)).append hend)
  -- What is implemented, and for what.
  split
  · next t ht => exact ((h.trait t ht).before (by decide)).append h.target
  · exact h.target

/-- The texts in an item are neat. -/
def Item.IsNeat : Item → Prop
  | .imports paths => ∀ p ∈ paths, Text.IsNeat p
  | .enum e => e.IsNeat
  | .trait t => t.IsNeat
  | .implementation i => i.IsNeat

theorem Item.areNested_lines {item : Item} (h : item.IsNeat) : AreNested item.lines := by
  cases item with
  | imports paths =>
    cases paths with
    | nil => exact areNested_nil
    | cons p ps =>
      refine (areNested_map fun q hq => areNested_line ?_).append areNested_blank
      exact (h q hq).within (by decide)
  | enum e => exact (Enum.areNested_lines h).append areNested_blank
  | trait t => exact (Trait.areNested_lines h).append areNested_blank
  | implementation i => exact (Implementation.areNested_lines h).append areNested_blank

/-- Neat items are laid out as a text that is nested up to its comments. -/
theorem isNested_render {items : List Item} (h : ∀ item ∈ items, item.IsNeat) :
    IsNested (withoutComments (render items)) :=
  isNested_renderLines (areNested_flatMap fun item hitem => Item.areNested_lines (h item hitem))

end TaggedUnion.Code
