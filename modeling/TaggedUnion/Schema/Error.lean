import TaggedUnion.Xml.Fault

/-! # What can be wrong with a schema

    The causes for which a schema document is refused, with one wording each, and the one
    cause for which a union of an accepted document cannot be looked at: it is not there.
-/

namespace TaggedUnion.Schema

/-- What a document defines under a name. -/
inductive Definition where
  | type
  | union
  | aliasName
deriving Repr, DecidableEq

/-- What a definition is called. -/
def Definition.label : Definition → String
  | .type => "type"
  | .union => "union"
  | .aliasName => "alias"

/-- A cause for which a schema document is refused. -/
inductive Error where
  /-- The text cannot be read as markup. -/
  | xml (fault : Xml.Fault)
  /-- An element lacks an attribute that it must have. -/
  | missingAttribute (element key : String)
  /-- An attribute has a value that means nothing. -/
  | invalidAttribute (element key value : String)
  /-- A name is defined again. -/
  | duplicate (definition : Definition) (name : String)
  /-- An alias names a type that the document does not have. -/
  | unknownTarget (name target : String)
  /-- A definition stands before the root element. -/
  | outsideRoot (element : String)
  /-- The document has no root element. -/
  | missingRoot
deriving Repr, DecidableEq

/-- The wording of a cause. -/
def Error.message : Error → String
  | .xml f => "XML parsing error: " ++ f.message
  | .missingAttribute e a => s!"missing required attribute '{a}' on element '{e}'"
  | .invalidAttribute e a v => s!"invalid value '{v}' for attribute '{a}' on element '{e}'"
  | .duplicate d name => s!"duplicate {d.label} definition: '{name}'"
  | .unknownTarget a t => s!"alias '{a}' targets unknown type '{t}'"
  | .outsideRoot e =>
    s!"invalid schema structure: element '{e}' outside of unions element"
  | .missingRoot => "invalid schema structure: No unions element found"

/-- The texts of a cause and of what caused it, outermost first. -/
def Error.trail : Error → List String
  | .xml f => (Error.xml f).message :: f.trail
  | e => [e.message]

/-- No union of the document has the name asked for. -/
structure UnionNotFound where
  name : String
deriving Repr, DecidableEq

/-- The wording for a union that is not there. -/
def UnionNotFound.message (e : UnionNotFound) : String := s!"union '{e.name}' not found"

end TaggedUnion.Schema
