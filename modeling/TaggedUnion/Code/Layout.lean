import TaggedUnion.Code.Syntax

/-! # The text of emitted code

    Code is laid out in lines, each with the number of blocks that it stands in, and a block
    indents by four spaces. Every item ends with a blank line.
-/

namespace TaggedUnion.Code

/-- Text in angle, round or curly brackets. -/
def commaSeparated (xs : List String) : String := ", ".intercalate xs

/-- A list of type parameters as written behind a name. -/
def TypeParameters.text (groups : TypeParameters) : String :=
  if groups.isEmpty then "" else "<" ++ commaSeparated (groups.map commaSeparated) ++ ">"

/-! ### Lines -/

/-- A line of code. -/
inductive Line where
  /-- A line without text, which is not indented. -/
  | blank
  /-- A line of text, with the number of blocks around it. -/
  | code (depth : Nat) (text : String)
deriving Repr, DecidableEq

/-- The line with a text outside of every block. -/
def line (text : String) : Line := .code 0 text

/-- A line in one more block. -/
def Line.nest : Line → Line
  | .blank => .blank
  | .code depth text => .code (depth + 1) text

/-- Lines inside one more block. -/
def nest (ls : List Line) : List Line := ls.map Line.nest

/-- The spaces that indent a line. -/
def indentation (depth : Nat) : String := String.ofList (List.replicate (4 * depth) ' ')

/-- A line as written, with its end. -/
def Line.render : Line → String
  | .blank => "\n"
  | .code depth text => indentation depth ++ text ++ "\n"

/-- Lines as written. -/
def renderLines (ls : List Line) : String := String.join (ls.map Line.render)

/-! ### Bodies -/

/-- A field set from a name; a field set from its own name is written once. -/
def fieldText (field : String × String) : String :=
  if field.1 = field.2 then field.1 else field.1 ++ ": " ++ field.2

/-- The text of an expression. -/
def Expr.text : Expr → String
  | .name text => text
  | .call function arguments => function ++ "(" ++ commaSeparated arguments ++ ")"
  | .wrap function argument => function ++ "(" ++ argument.text ++ ")"
  | .record type fields =>
    type ++ " \x7b " ++ commaSeparated (fields.map fieldText) ++ " \x7d"
  | .method receiver function arguments =>
    receiver.text ++ "." ++ function ++ "(" ++ commaSeparated arguments ++ ")"
  | .await future => future.text ++ ".await"
  | .deferred body => "async move \x7b " ++ body.text ++ " \x7d"

/-- The text of a pattern. -/
def Pattern.text : Pattern → String
  | .held variant binding => "Self::" ++ variant ++ "(" ++ binding ++ ")"
  | .other binding => binding

/-- An arm as written, with the comma behind it. -/
def Arm.text (a : Arm) : String := a.pattern.text ++ " => " ++ a.value.text ++ ","

/-- A block with a head. -/
def block (head : String) (body : List Line) : List Line :=
  line (head ++ " \x7b") :: nest body ++ [line "\x7d"]

/-- The text of the head of a block. -/
def BlockHead.text : BlockHead → String
  | .ifHeld variant binding union =>
    "if let " ++ (Pattern.held variant binding).text ++ " = &" ++ union
  | .ifDifferent left right => "if " ++ left ++ " != " ++ right
  | .forEach member list => "for " ++ member ++ " in " ++ list

/-- The lines of a statement. -/
def Statement.lines : Statement → List Line
  | .value e => [line e.text]
  | .run e => [line (e.text ++ ";")]
  | .bind name e => [line ("let " ++ name ++ " = " ++ e.text ++ ";")]
  | .dispatch scrutinee arms =>
    block ("match " ++ scrutinee) (arms.map fun a => line a.text)
  | .within head body => block head.text body.lines

/-! ### Functions -/

/-- A line of documentation. -/
def docLine (text : String) : Line := line (if text = "" then "///" else "/// " ++ text)

/-- An attribute on a line of its own. -/
def attributeLine (text : String) : Line := line ("#[" ++ text ++ "]")

/-- What stands before an item. -/
def leadLines (docs attributes : List String) : List Line :=
  docs.map docLine ++ attributes.map attributeLine

/-- A bound as written. -/
def Bound.text (b : Bound) : String := b.parameter ++ ": " ++ b.constraint

/-- The clause that lists bounds in front of a block. -/
def boundLines (bounds : List Bound) : List Line :=
  line "where" :: nest (bounds.map fun b => line (b.text ++ ","))

/-- A head followed by a block, with the bounds between them. -/
def boundedBlock (head : String) (bounds : Option (List Bound)) (body : List Line) : List Line :=
  match bounds with
  | none => block head body
  | some bs => line head :: boundLines bs ++ line "\x7b" :: nest body ++ [line "\x7d"]

/-- Bounds at the end of a declaration: the last one ends it. -/
def declaredBounds : List Bound → List Line
  | [] => []
  | [b] => [line (b.text ++ ";")]
  | b :: bs => line (b.text ++ ",") :: declaredBounds bs

/-- A head that is only declared, with the bounds behind it. -/
def declarationLines (head : String) (bounds : Option (List Bound)) : List Line :=
  match bounds with
  | none => [line (head ++ ";")]
  | some bs => line head :: line "where" :: nest (declaredBounds bs)

namespace Function

/-- What stands in front of the parameters of a function. -/
def opening (f : Function) : String :=
  (if f.isPublic then "pub " else "") ++ (if f.isConst then "const " else "")
    ++ (if f.isAsync then "async " else "") ++ "fn " ++ f.name ++ f.typeParameters.text ++ "("

/-- The parameters as written, the receiver first. -/
def parameterTexts (f : Function) : List String :=
  f.receiver.toList ++ f.parameters.map fun p => p.1 ++ ": " ++ p.2

/-- What stands behind the parameters. -/
def closing (f : Function) : String :=
  match f.result with
  | some r => ") -> " ++ r
  | none => ")"

/-- The lines of a function. -/
def lines (f : Function) : List Line :=
  let tail (head : String) : List Line :=
    match f.body with
    | some body => boundedBlock head f.bounds (body.flatMap Statement.lines)
    | none => declarationLines head f.bounds
  leadLines f.docs f.attributes
    ++ (if f.spread then
          line f.opening :: nest (f.parameterTexts.map fun p => line (p ++ ","))
            ++ tail f.closing
        else tail (f.opening ++ commaSeparated f.parameterTexts ++ f.closing))

end Function

/-- Functions with a blank line between neighbours. -/
def functionLines (fs : List Function) : List Line :=
  [Line.blank].intercalate (fs.map Function.lines)

/-! ### Items -/

/-- The lines of a variant. -/
def Variant.lines (v : Variant) : List Line :=
  leadLines v.docs [] ++ [line (v.name ++ "(" ++ v.payload ++ "),")]

/-- The lines of a type definition. -/
def Enum.lines (e : Enum) : List Line :=
  leadLines e.docs e.attributes
    ++ block ("pub enum " ++ e.name ++ e.typeParameters.text) (e.variants.flatMap Variant.lines)

/-- The lines of a trait. -/
def Trait.lines (t : Trait) : List Line :=
  let head := "pub trait " ++ t.name ++ t.typeParameters.text
  leadLines t.docs []
    ++ block (match t.supertraits with | some s => head ++ ": " ++ s | none => head)
        (functionLines t.functions)

/-- The lines of an implementation. -/
def Implementation.lines (i : Implementation) : List Line :=
  let subject := match i.trait with | some t => t ++ " for " ++ i.target | none => i.target
  boundedBlock ("impl" ++ i.typeParameters.text ++ " " ++ subject) i.bounds
    (i.constants.flatMap (fun c => [line ("const " ++ c ++ ";"), Line.blank])
      ++ functionLines i.functions ++ (if i.openEnd then [Line.blank] else []))

/-- The lines of an item with the blank line behind it; an empty list of imports has no
    lines. -/
def Item.lines : Item → List Line
  | .imports [] => []
  | .imports paths => paths.map (fun p => line ("use " ++ p ++ ";")) ++ [Line.blank]
  | .enum e => e.lines ++ [Line.blank]
  | .trait t => t.lines ++ [Line.blank]
  | .implementation i => i.lines ++ [Line.blank]

/-- The text of a list of items. -/
def render (items : List Item) : String := renderLines (items.flatMap Item.lines)

end TaggedUnion.Code
