/-! # Parts and lines

    A text is cut at every occurrence of a mark. Lines are the parts at line feeds; a
    carriage return before a feed belongs to the end of the line.
-/

namespace TaggedUnion.Text

/-- The parts of a text between the occurrences of `mark`; there is one more of them than
    there are marks. -/
def parts (mark : Char) : List Char → List (List Char)
  | [] => [[]]
  | c :: cs =>
    if c = mark then [] :: parts mark cs
    else
      match parts mark cs with
      | [] => [[c]]
      | p :: ps => (c :: p) :: ps

/-- A line without the carriage return that belongs to its end. -/
def dropReturn (line : List Char) : List Char :=
  match line.reverse with
  | '\r' :: shorter => shorter.reverse
  | _ => line

/-- The lines that a text makes where a line feed is set behind it. -/
def lines (s : String) : List String :=
  (parts '\n' s.toList).map (String.ofList ∘ dropReturn)

end TaggedUnion.Text
