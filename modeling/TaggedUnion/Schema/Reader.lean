import TaggedUnion.Schema.Document
import TaggedUnion.Text.Blank
import TaggedUnion.Text.Parts
import TaggedUnion.Xml.Event

/-! # Reading a schema document

    A document is read by one step per event from a state that knows the place in the
    document:

    * **Attributes**: an attribute that is not well formed is passed over; the value of
      every other one is resolved, in order, before it is looked at.
    * **`Place`**: outside of every definition, or inside a type, a constructor, its
      documentation, or a union, each with the number of elements opened in it since.
    * **`State.step`** moves from place to place; an end tag at depth zero leaves the place.
    * **`Document.read`** runs the steps over the events of a text. At the end of the text
      every open place is left, and only then the aliases are bound, so that they may stand
      before their targets.
-/

namespace TaggedUnion.Schema

open TaggedUnion.Xml (Event Tag Transcript)

/-! ### Attributes -/

/-- The text that a written attribute value means. -/
def attributeValue (a : Xml.Attribute) : Except Error String :=
  match Xml.unescape a.value with
  | .ok cs => .ok (String.ofList cs)
  | .error f => .error (.xml (.escape f))

/-- Goes through the well-formed attributes of a tag with their keys and values. -/
def foldAttributes {σ : Type} (tag : Tag) (s : σ)
    (step : σ → String → String → Except Error σ) : Except Error σ :=
  tag.attributes.foldlM
    (fun s a =>
      match a with
      | none => .ok s
      | some a => do
        let value ← attributeValue a
        step s (String.ofList a.key) value)
    s

/-- The value of an attribute that must be there. -/
def required (element key : String) (value : Option String) : Except Error String :=
  match value with
  | some v => .ok v
  | none => .error (.missingAttribute element key)

/-- Reads a truth value. -/
def flag (element key value : String) : Except Error Bool :=
  match value with
  | "true" | "1" | "yes" => .ok true
  | "false" | "0" | "no" => .ok false
  | _ => .error (.invalidAttribute element key value)

/-- The parts of a text between commas, without the blanks around them; empty parts are no
    parts. -/
def commaList (s : String) : List String :=
  ((Text.parts ',' s.toList).map (Text.trim ∘ String.ofList)).filter (· ≠ "")

/-- The empty document that a root tag begins. -/
def rootOf (tag : Tag) : Except Error Document := do
  let scope ← foldAttributes tag "" fun scope key value =>
    .ok (if key = "namespace" then value else scope)
  return .empty scope

/-- The type that a tag declares, without constructors. -/
def typeOf (tag : Tag) : Except Error TypeSymbol := do
  let (name, symbol) ← foldAttributes tag ((none : Option String), ({ name := "" } : TypeSymbol))
    fun (name, symbol) key value =>
      match key with
      | "name" => .ok (some value, symbol)
      | "kind" =>
        match TypeKind.ofString? value with
        | some kind => .ok (name, { symbol with kind := kind })
        | none => .error (.invalidAttribute "type" "kind" value)
      | "abstract" => do
        let b ← flag "type" "abstract" value
        return (name, { symbol with isAbstract := b })
      | "typeParameters" => .ok (name, { symbol with typeParameters := commaList value })
      | "nestedIn" => .ok (name, { symbol with containingType := some value })
      | "module" => .ok (name, { symbol with modulePath := some value })
      | _ => .ok (name, symbol)
  let name ← required "type" "name" name
  return { symbol with name := name }

/-- The constructor that a tag declares, without parameters. -/
def constructorOf (tag : Tag) : Except Error Constructor :=
  foldAttributes tag {} fun c key value =>
    match key with
    | "name" => .ok { c with name := value }
    | "visibility" =>
      match Visibility.ofString? value with
      | some v => .ok { c with visibility := v }
      | none => .error (.invalidAttribute "constructor" "visibility" value)
    | "implicit" => do
      let b ← flag "constructor" "implicit" value
      return { c with implicit := b }
    | _ => .ok c

/-- The values of two attributes of a tag, each where it is given. -/
def attributePair (tag : Tag) (first second : String) :
    Except Error (Option String × Option String) :=
  foldAttributes tag (none, none) fun p key value =>
    .ok (if key = first then (some value, p.2)
      else if key = second then (p.1, some value) else p)

/-- The parameter that a tag declares. -/
def parameterOf (tag : Tag) : Except Error Parameter := do
  let (name, typeName) ← attributePair tag "name" "type"
  let name ← required "param" "name" name
  let typeName ← required "param" "type" typeName
  return { name := name, typeName := typeName }

/-- The alias that a tag declares, with its target. -/
def aliasOf (tag : Tag) : Except Error (String × String) := do
  let (name, target) ← attributePair tag "name" "target"
  let name ← required "alias" "name" name
  let target ← required "alias" "target" target
  return (name, target)

/-- The union that a tag declares, without cases. -/
def unionOf (tag : Tag) (scope : String) : Except Error UnionDeclaration := do
  let (name, isPartial) ← foldAttributes tag ((none : Option String), false)
    fun (name, isPartial) key value =>
      match key with
      | "name" => .ok (some value, isPartial)
      | "partial" => do
        let b ← flag "union" "partial" value
        return (name, b)
      | _ => .ok (name, isPartial)
  let name ← required "union" "name" name
  return { scope := scope, name := name, isPartial := isPartial }

/-- The type reference of a case tag. No other attribute is looked at. -/
def caseOf (tag : Tag) : Except Error String :=
  match (tag.attributes.filterMap id).find? (·.key = ['t', 'y', 'p', 'e']) with
  | some a => attributeValue a
  | none => .error (.missingAttribute "case" "type")

/-! ### Places -/

/-- A type that is being read, and the elements opened in it that are not constructors. -/
structure OpenType where
  symbol : TypeSymbol
  depth : Nat := 0
deriving Repr, DecidableEq

/-- A constructor that is being read, and the elements opened in it since. -/
structure OpenConstructor where
  constructor : Constructor
  depth : Nat := 0
deriving Repr, DecidableEq

/-- Documentation that is being read, and the elements opened in it since. -/
structure OpenDocumentation where
  raw : String := ""
  depth : Nat := 0
deriving Repr, DecidableEq

/-- A union that is being read, and the elements opened in it since. -/
structure OpenUnion where
  declaration : UnionDeclaration
  depth : Nat := 0
deriving Repr, DecidableEq

/-- The place in a document at which the next event stands. -/
inductive Place where
  /-- Outside of every definition. -/
  | outline
  | type (t : OpenType)
  | constructor (t : OpenType) (c : OpenConstructor)
  | documentation (t : OpenType) (c : OpenConstructor) (d : OpenDocumentation)
  | union (u : OpenUnion)
deriving Repr, DecidableEq

/-- What has been read of a document. -/
structure State where
  /-- The document begun by the latest root element. -/
  document : Option Document := none
  /-- The aliases read so far, with their targets. -/
  aliases : List (String × String) := []
  place : Place := .outline
deriving Repr, DecidableEq

/-! ### Steps -/

/-- The document being read; a definition needs one. -/
def State.root (s : State) (element : String) : Except Error Document :=
  match s.document with
  | some d => .ok d
  | none => .error (.outsideRoot element)

/-- The state behind a complete type. -/
def State.closeType (s : State) (symbol : TypeSymbol) : Except Error State := do
  let d ← s.root "type"
  let (d, _) ← d.addType symbol
  return { s with document := some d, place := .outline }

/-- The state behind a complete union. -/
def State.closeUnion (s : State) (declaration : UnionDeclaration) : Except Error State := do
  let d ← s.root "union"
  let d ← d.addUnion declaration
  return { s with document := some d, place := .outline }

/-- The type with one more constructor. -/
def OpenType.push (t : OpenType) (c : Constructor) : OpenType :=
  { t with symbol := { t.symbol with constructors := t.symbol.constructors ++ [c] } }

/-- The constructor with one more parameter. -/
def OpenConstructor.push (c : OpenConstructor) (p : Parameter) : OpenConstructor :=
  { c with constructor := { c.constructor with parameters := c.constructor.parameters ++ [p] } }

/-- The constructor with its documentation; what was read of one before is replaced. -/
def OpenConstructor.document (c : OpenConstructor) (raw : String) : OpenConstructor :=
  { c with constructor := { c.constructor with documentation := some (Text.trim raw) } }

/-- The union with one more case. -/
def OpenUnion.push (u : OpenUnion) (reference : String) : OpenUnion :=
  { u with declaration := { u.declaration with cases := u.declaration.cases ++ [reference] } }

/-- An event as documentation keeps it: tags, text and references as written, the content
    of a CDATA section, and nothing of a comment, an instruction or a document type. -/
def verbatim : Event → List Char
  | .start tag => '<' :: tag.content ++ ['>']
  | .empty tag => '<' :: tag.content ++ ['/', '>']
  | .close name => '<' :: '/' :: name ++ ['>']
  | .text content => content
  | .cdata content => content
  | .reference name => '&' :: name ++ [';']
  | .comment | .instruction | .doctype => []

/-- A step outside of every definition. Of the elements it does not know it passes over the
    tags only. An alias is an element without content. -/
def State.stepOutline (s : State) : Event → Except Error State
  | .start tag =>
    match String.ofList tag.name with
    | "unions" => do
      let d ← rootOf tag
      return { s with document := some d }
    | "type" => do
      let _ ← s.root "type"
      let symbol ← typeOf tag
      return { s with place := .type { symbol := symbol } }
    | "union" => do
      let d ← s.root "union"
      let declaration ← unionOf tag d.scope
      return { s with place := .union { declaration := declaration } }
    | _ => .ok s
  | .empty tag =>
    match String.ofList tag.name with
    | "unions" => do
      let d ← rootOf tag
      return { s with document := some d }
    | "type" => do
      let _ ← s.root "type"
      let symbol ← typeOf tag
      s.closeType symbol
    | "alias" => do
      let _ ← s.root "alias"
      let entry ← aliasOf tag
      return { s with aliases := s.aliases ++ [entry] }
    | "union" => do
      let d ← s.root "union"
      let declaration ← unionOf tag d.scope
      s.closeUnion declaration
    | _ => .ok s
  | _ => .ok s

/-- A step inside a type. Constructors count at any depth. -/
def State.stepType (s : State) (t : OpenType) : Event → Except Error State
  | .start tag =>
    if String.ofList tag.name = "constructor" then do
      let c ← constructorOf tag
      return { s with place := .constructor t { constructor := c } }
    else .ok { s with place := .type { t with depth := t.depth + 1 } }
  | .empty tag =>
    if String.ofList tag.name = "constructor" then do
      let c ← constructorOf tag
      return { s with place := .type (t.push c) }
    else .ok s
  | .close _ =>
    if t.depth = 0 then s.closeType t.symbol
    else .ok { s with place := .type { t with depth := t.depth - 1 } }
  | _ => .ok s

/-- A step inside a constructor. Parameters and documentation count at any depth. -/
def State.stepConstructor (s : State) (t : OpenType) (c : OpenConstructor) :
    Event → Except Error State
  | .start tag =>
    match String.ofList tag.name with
    | "doc" => .ok { s with place := .documentation t c {} }
    | "param" => do
      let p ← parameterOf tag
      let c := c.push p
      return { s with place := .constructor t { c with depth := c.depth + 1 } }
    | _ => .ok { s with place := .constructor t { c with depth := c.depth + 1 } }
  | .empty tag =>
    if String.ofList tag.name = "param" then do
      let p ← parameterOf tag
      return { s with place := .constructor t (c.push p) }
    else .ok s
  | .close _ =>
    if c.depth = 0 then .ok { s with place := .type (t.push c.constructor) }
    else .ok { s with place := .constructor t { c with depth := c.depth - 1 } }
  | _ => .ok s

/-- A step inside documentation: every event up to the matching end tag is kept. -/
def State.stepDocumentation (s : State) (t : OpenType) (c : OpenConstructor)
    (d : OpenDocumentation) (e : Event) : State :=
  let raw := d.raw ++ String.ofList (verbatim e)
  match e with
  | .start _ => { s with place := .documentation t c ⟨raw, d.depth + 1⟩ }
  | .close _ =>
    if d.depth = 0 then { s with place := .constructor t (c.document d.raw) }
    else { s with place := .documentation t c ⟨raw, d.depth - 1⟩ }
  | _ => { s with place := .documentation t c ⟨raw, d.depth⟩ }

/-- A step inside a union. Cases count at any depth. -/
def State.stepUnion (s : State) (u : OpenUnion) : Event → Except Error State
  | .start tag => do
    let u := { u with depth := u.depth + 1 }
    if String.ofList tag.name = "case" then
      let reference ← caseOf tag
      return { s with place := .union (u.push reference) }
    else return { s with place := .union u }
  | .empty tag =>
    if String.ofList tag.name = "case" then do
      let reference ← caseOf tag
      return { s with place := .union (u.push reference) }
    else .ok s
  | .close _ =>
    if u.depth = 0 then s.closeUnion u.declaration
    else .ok { s with place := .union { u with depth := u.depth - 1 } }
  | _ => .ok s

/-- The state behind an event. -/
def State.step (s : State) (e : Event) : Except Error State :=
  match s.place with
  | .outline => s.stepOutline e
  | .type t => s.stepType t e
  | .constructor t c => s.stepConstructor t c e
  | .documentation t c d => .ok (s.stepDocumentation t c d e)
  | .union u => s.stepUnion u e

/-! ### Whole documents -/

/-- The state at the end of the text: whatever is still open is complete. -/
def State.leave (s : State) : Except Error State :=
  match s.place with
  | .outline => .ok s
  | .type t => s.closeType t.symbol
  | .constructor t c => s.closeType (t.push c.constructor).symbol
  | .documentation t c d => s.closeType (t.push (c.document d.raw).constructor).symbol
  | .union u => s.closeUnion u.declaration

/-- The document that was read, with its aliases bound in order. -/
def State.finish (s : State) : Except Error Document := do
  let s ← s.leave
  match s.document with
  | none => .error .missingRoot
  | some d =>
    s.aliases.foldlM
      (fun d entry => do
        let (d, _) ← d.addAlias entry.1 entry.2
        return d)
      d

/-- The document that a transcript describes. A fault counts only behind the events before
    it. -/
def Document.ofTranscript (t : Transcript) : Except Error Document := do
  let s ← t.events.foldlM State.step ({} : State)
  match t.fault with
  | some f => .error (.xml f)
  | none => s.finish

/-- Reads a schema document. -/
def Document.read (text : String) : Except Error Document :=
  Document.ofTranscript (Transcript.ofText text)

end TaggedUnion.Schema
