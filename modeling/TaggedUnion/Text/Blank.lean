import TaggedUnion.Text.CodePoints

/-! # White space

    The characters with the Unicode property `White_Space`, and what is done with them:

    * **`trim`** drops them from both ends of a text.
    * **`words`** are the longest runs of other characters.
    * **`collapse`** writes the words with one space between neighbours.

    The event reader of marked-up text has a smaller class of its own.
-/

namespace TaggedUnion.Text

/-- The code points with the property `White_Space`. -/
def blankRuns : List Run :=
  [⟨0x9, 0xd, 1⟩, ⟨0x20, 0x20, 1⟩, ⟨0x85, 0x85, 1⟩, ⟨0xa0, 0xa0, 1⟩, ⟨0x1680, 0x1680, 1⟩,
   ⟨0x2000, 0x200a, 1⟩, ⟨0x2028, 0x2029, 1⟩, ⟨0x202f, 0x202f, 1⟩, ⟨0x205f, 0x205f, 1⟩,
   ⟨0x3000, 0x3000, 1⟩]

/-- A blank is a character with the property `White_Space`. -/
def isBlank (c : Char) : Bool := inRuns blankRuns c

/-! ### Trimming -/

/-- A list without the leading elements that satisfy `p`, and without the trailing ones. -/
def strip (p : Char → Bool) (cs : List Char) : List Char :=
  ((cs.dropWhile p).reverse.dropWhile p).reverse

/-- A text without the blanks at its two ends. -/
def trim (s : String) : String := String.ofList (strip isBlank s.toList)

/-! ### Words -/

/-- The words of a text whose first word begins with the characters read so far. -/
def wordsFrom (word : List Char) : List Char → List (List Char)
  | [] => if word.isEmpty then [] else [word]
  | c :: cs =>
    if isBlank c then
      if word.isEmpty then wordsFrom [] cs else word :: wordsFrom [] cs
    else wordsFrom (word ++ [c]) cs

/-- The longest runs of characters that are not blank, in order. -/
def words (s : String) : List String := (wordsFrom [] s.toList).map String.ofList

/-- The words of a text with one space between neighbours. -/
def collapse (s : String) : String := " ".intercalate (words s)

end TaggedUnion.Text
