/-! # Faults of marked-up text

    Every way in which reading marked-up text ends before its end, with one wording each:

    * **`Construct`**: what was begun and never closed.
    * **`NumberFault`**, **`EscapeFault`**: what is wrong with a reference in a value.
    * **`Fault`**: what stops the event reader. Its `trail` lists the texts from the
      outermost to the innermost cause.
-/

namespace TaggedUnion.Xml

/-- A construct that has an end of its own. -/
inductive Construct where
  | comment
  | cdata
  | doctype
  | instruction
  | declaration
  | tag
  | singleQuoted
  | doubleQuoted
deriving Repr, DecidableEq

/-- What a construct is called. -/
def Construct.label : Construct → String
  | .comment => "comment"
  | .cdata => "CDATA"
  | .doctype => "DOCTYPE"
  | .instruction => "processing instruction"
  | .declaration => "XML declaration"
  | .tag => "tag"
  | .singleQuoted | .doubleQuoted => "attribute value"

/-- What a construct ends with. -/
def Construct.terminator : Construct → String
  | .comment => "-->"
  | .cdata => "]]>"
  | .instruction | .declaration => "?>"
  | .doctype | .tag => ">"
  | .singleQuoted => "'"
  | .doubleQuoted => "\""

/-- What is wrong with the number of a character. -/
inductive NumberFault where
  /-- A sign stands before the digits. -/
  | unexpectedSign
  /-- There are no digits. -/
  | noDigits
  /-- A character is no digit of the radix. -/
  | badDigit
  /-- The number does not fit in 32 bits. -/
  | tooLarge
  /-- The number is zero. -/
  | null
  /-- No character has this number. -/
  | noCharacter (code : Nat)
deriving Repr, DecidableEq

/-- The wording of a fault in a number. -/
def NumberFault.message : NumberFault → String
  | .unexpectedSign => "unexpected number sign"
  | .noDigits => "cannot parse integer from empty string"
  | .badDigit => "invalid digit found in string"
  | .tooLarge => "number too large to fit in target type"
  | .null => "0x0 character is not permitted in XML"
  | .noCharacter code => "`" ++ toString code ++ "` is not a valid codepoint"

/-- The texts of a fault in a number and of its cause, outermost first: that the digits do
    not form a number is a cause of its own, with the same text. -/
def NumberFault.trail (f : NumberFault) : List String :=
  match f with
  | .noDigits | .badDigit | .tooLarge => [f.message, f.message]
  | .unexpectedSign | .null | .noCharacter _ => [f.message]

/-- What is wrong with a reference inside an attribute value. Positions count the bytes
    before them. -/
inductive EscapeFault where
  /-- The reference that begins at `start` has no semicolon; `stop` is the value's end. -/
  | unterminated (start stop : Nat)
  /-- The number of a character reference is wrong. -/
  | badNumber (fault : NumberFault)
  /-- No entity has the name between `start` and `stop`. -/
  | unknownEntity (start stop : Nat) (name : String)
deriving Repr, DecidableEq

/-- The wording of a fault in a reference. -/
def EscapeFault.message : EscapeFault → String
  | .unterminated start stop =>
    s!"Error while escaping character at range {start}..{stop}: Cannot find ';' after '&'"
  | .badNumber f => "invalid character reference: " ++ f.message
  | .unknownEntity start stop name =>
    s!"at {start}..{stop}: unrecognized entity `{name}`"

/-- The texts of a fault in a reference and of its causes, outermost first. -/
def EscapeFault.trail : EscapeFault → List String
  | .badNumber f => (EscapeFault.badNumber f).message :: f.trail
  | f => [f.message]

/-- What stops the event reader. -/
inductive Fault where
  /-- After `<!` stands neither a comment, nor CDATA, nor a document type. -/
  | unknownMarkup
  /-- The input ends inside a construct. -/
  | unclosed (construct : Construct)
  /-- A reference in the text has no semicolon. -/
  | unclosedReference
  /-- A document type declaration has no name. -/
  | missingDoctypeName
  /-- An end tag names another element than the innermost open one. -/
  | wrongEnd (expected found : String)
  /-- An end tag stands where no element is open. -/
  | strayEnd (found : String)
  /-- A reference in an attribute value is wrong. -/
  | escape (fault : EscapeFault)
deriving Repr, DecidableEq

/-- The wording of the innermost cause of a fault. -/
def Fault.detail : Fault → String
  | .unknownMarkup => "unknown or missed symbol in markup"
  | .unclosed c => s!"{c.label} not closed: `{c.terminator}` not found before end of input"
  | .unclosedReference =>
    "entity or character reference not closed: `;` not found before end of input"
  | .missingDoctypeName =>
    "`<!DOCTYPE>` declaration does not contain a name of a document type"
  | .wrongEnd expected found => s!"expected `</{expected}>`, but `</{found}>` was found"
  | .strayEnd found => s!"close tag `</{found}>` does not match any open tag"
  | .escape f => f.message

/-- The wording of a fault, with its class before the detail. -/
def Fault.message (f : Fault) : String :=
  match f with
  | .unknownMarkup | .unclosed _ => "syntax error: " ++ f.detail
  | .unclosedReference | .missingDoctypeName | .wrongEnd .. | .strayEnd _ =>
    "ill-formed document: " ++ f.detail
  | .escape _ => f.detail

/-- The texts of a fault and of its causes, outermost first. -/
def Fault.trail (f : Fault) : List String :=
  match f with
  | .escape e => f.message :: e.trail
  | f => [f.message, f.detail]

end TaggedUnion.Xml
