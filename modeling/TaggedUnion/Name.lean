import TaggedUnion.Text.LetterCase

/-! # Names in emitted code

    How a name of the schema becomes a name of the emitted code:

    * **`snake`** sets an underscore before every capital that follows a small letter or a
      digit, and writes the capitals `A` to `Z` small.
    * **`pascal`** drops hyphens and underscores and writes the letter behind each one, and
      the first letter, as a capital.
    * **`identifier`** sets a name apart from the keywords of the language.
-/

namespace TaggedUnion.Name

/-! ### Letter case -/

/-- The characters of a name in snake case; `afterSmall` tells whether a small letter or a
    digit stands before them. -/
def snakeFrom (afterSmall : Bool) : List Char → List Char
  | [] => []
  | c :: cs =>
    if Text.isUppercase c then
      if afterSmall then '_' :: c.toLower :: snakeFrom false cs
      else c.toLower :: snakeFrom false cs
    else c :: snakeFrom (Text.isLowercase c || c.isDigit) cs

/-- A name in snake case. -/
def snake (name : String) : String := String.ofList (snakeFrom false name.toList)

/-- The characters of a name in pascal case; `atStart` tells whether a part begins with
    them. -/
def pascalFrom (atStart : Bool) : List Char → List Char
  | [] => []
  | c :: cs =>
    if c = '_' ∨ c = '-' then pascalFrom true cs
    else (if atStart then c.toUpper else c) :: pascalFrom false cs

/-- A name in pascal case. -/
def pascal (name : String) : String := String.ofList (pascalFrom true name.toList)

/-! ### Keywords -/

/-- The keywords of the emitted language, reserved ones included. -/
def keywords : List String :=
  ["abstract", "as", "async", "await", "become", "box", "break", "const", "continue", "crate",
   "do", "dyn", "else", "enum", "extern", "false", "final", "fn", "for", "gen", "if", "impl",
   "in", "let", "loop", "macro", "match", "mod", "move", "mut", "override", "priv", "pub",
   "ref", "return", "self", "Self", "static", "struct", "super", "trait", "true", "try", "type",
   "typeof", "unsafe", "unsized", "use", "virtual", "where", "while", "yield"]

/-- The keywords that have no raw form. -/
def rawlessKeywords : List String := ["crate", "self", "Self", "super"]

/-- A name that is no keyword: a keyword is written in its raw form, or with an underscore
    behind it where it has none. -/
def identifier (name : String) : String :=
  if name ∈ rawlessKeywords then name ++ "_"
  else if name ∈ keywords then "r#" ++ name
  else name

end TaggedUnion.Name
