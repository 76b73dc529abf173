import TaggedUnion.Text.Glyphless

/-! # Quoted text

    The form in which a text is shown inside a message: in double quotes, with a backslash
    before a quote or a backslash, short names for the usual controls, and the code point
    of every other character without a glyph of its own.
-/

namespace TaggedUnion.Text

/-- The code point of a character in lower-case hexadecimal digits, in braces. -/
def codeEscape (c : Char) : List Char :=
  ['\\', 'u', '\x7b'] ++ Nat.toDigits 16 c.toNat ++ ['\x7d']

/-- How a character stands between the quotes. -/
def quoteChar (c : Char) : List Char :=
  match c with
  | '"' => ['\\', '"']
  | '\\' => ['\\', '\\']
  | '\n' => ['\\', 'n']
  | '\r' => ['\\', 'r']
  | '\t' => ['\\', 't']
  | '\x00' => ['\\', '0']
  | c => if isGlyphless c then codeEscape c else [c]

/-- A text in double quotes, readable on one line. -/
def quote (s : String) : String :=
  String.ofList ('"' :: s.toList.flatMap quoteChar ++ ['"'])

end TaggedUnion.Text
