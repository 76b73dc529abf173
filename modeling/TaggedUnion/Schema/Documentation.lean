import TaggedUnion.Text.Blank
import TaggedUnion.Xml.Event

/-! # Documentation of parameters

    The documentation of a constructor is a fragment of marked-up text. Each `param`
    element with a `name` that stands in no other `param` element describes the parameter
    of that name: its description is the text below it, with references resolved and blanks
    collapsed. A later description of a name replaces an earlier one.

    A fragment that cannot be read to its end, that leaves an element open, or whose `param`
    tags have attributes that cannot be read, says nothing.
-/

namespace TaggedUnion.Schema

open TaggedUnion.Xml (Event Tag Transcript)

/-- Descriptions by parameter name; every name occurs at most once. -/
abbrev Descriptions := List (String × String)

/-- The descriptions with one set. -/
def Descriptions.insert (ds : Descriptions) (name text : String) : Descriptions :=
  (name, text) :: List.filter (fun d => d.1 ≠ name) ds

/-- A `param` element that is being read. -/
structure OpenDescription where
  /-- The parameter that it describes; without one its text is dropped. -/
  name : Option String
  /-- The number of open elements, this one included. -/
  depth : Nat
  text : String := ""
deriving Repr, DecidableEq

/-- What has been read of a fragment. -/
structure DocumentationState where
  /-- The number of open elements. -/
  depth : Nat := 0
  /-- The `param` element that is being read. -/
  current : Option OpenDescription := none
  found : Descriptions := []
deriving Repr, DecidableEq

/-- The name that a `param` tag gives; `none` if an attribute is not well formed or the
    name cannot be resolved. Other values are not looked at. -/
def describedName (tag : Tag) : Option (Option String) :=
  tag.attributes.foldlM
    (fun name a =>
      match a with
      | none => none
      | some a =>
        if a.key = ['n', 'a', 'm', 'e'] then
          match Xml.unescape a.value with
          | .ok cs => some (some (String.ofList cs))
          | .error _ => none
        else some name)
    none

namespace DocumentationState

/-- The state with text added to the description that is being read. -/
def add (s : DocumentationState) (cs : List Char) : DocumentationState :=
  { s with current := s.current.map fun o => { o with text := o.text ++ String.ofList cs } }

/-- The state behind a start tag. -/
def openTag (s : DocumentationState) (tag : Tag) : Option DocumentationState :=
  let s := { s with depth := s.depth + 1 }
  if s.current.isNone ∧ tag.name = ['p', 'a', 'r', 'a', 'm'] then
    (describedName tag).map fun name => { s with current := some ⟨name, s.depth, ""⟩ }
  else some s

/-- The state behind an end tag: it ends the description that was opened at this depth. -/
def closeTag (s : DocumentationState) : DocumentationState :=
  let outer := { s with depth := s.depth - 1 }
  match s.current with
  | none => outer
  | some o =>
    if o.depth = s.depth then
      match o.name with
      | some name =>
        { outer with current := none, found := s.found.insert name (Text.collapse o.text) }
      | none => { outer with current := none }
    else outer

/-- The state behind an event; `none` if the fragment says nothing. A reference without a
    meaning adds nothing. -/
def step (s : DocumentationState) : Event → Option DocumentationState
  | .start tag => s.openTag tag
  | .close _ => some s.closeTag
  | .text content => some (s.add content)
  | .cdata content => some (s.add content)
  | .reference name => some (s.add (Xml.resolve? name).toList)
  | .empty _ | .comment | .instruction | .doctype => some s

end DocumentationState

/-- The descriptions in the fragment that a transcript was read from. -/
def Descriptions.ofTranscript (t : Transcript) : Option Descriptions := do
  let s ← t.events.foldlM DocumentationState.step ({} : DocumentationState)
  if t.fault.isNone ∧ s.depth = 0 then some s.found else none

/-- The descriptions in a fragment. -/
def Descriptions.read (text : String) : Option Descriptions :=
  Descriptions.ofTranscript (Transcript.ofText text)

end TaggedUnion.Schema
