/-! # Unsigned numbers as text

    A number is read from decimal digits, with at most one plus sign before them; leading
    zeros are allowed, anything else is refused, and so is a value that does not fit in 64 bits.
-/

namespace TaggedUnion.Text

/-- The least number that is too large to be read. -/
def naturalBound : Nat := 18446744073709551616

/-- The value of a list of decimal digits, continuing a value read before them. -/
def digitsValue (value : Nat) : List Char → Option Nat
  | [] => some value
  | c :: cs => if c.isDigit then digitsValue (value * 10 + (c.toNat - '0'.toNat)) cs else none

/-- Reads a non-empty list of decimal digits. -/
def digits? (cs : List Char) : Option Nat :=
  if cs.isEmpty then none else (digitsValue 0 cs).filter (· < naturalBound)

/-- Reads an unsigned number, a plus sign before it allowed. -/
def natural? (s : String) : Option Nat :=
  match s.toList with
  | '+' :: cs => digits? cs
  | cs => digits? cs

end TaggedUnion.Text
