import TaggedUnion.Xml.Fault
import TaggedUnion.Xml.Blank

/-! # References

    A reference stands for a character and is written between `&` and `;`:

    * **`predefined?`**: the five names that always have a meaning.
    * **`character`**: a decimal number, or a hexadecimal one after `x`.
    * **`unescape`**: a value with its references resolved; the first fault ends it.
    * **`resolve?`**: the character of one reference, where a fault is passed over.
-/

namespace TaggedUnion.Xml

/-! ### Names -/

/-- The character that a predefined entity stands for. -/
def predefined? (name : List Char) : Option Char :=
  if name = ['l', 't'] then some '<'
  else if name = ['g', 't'] then some '>'
  else if name = ['a', 'm', 'p'] then some '&'
  else if name = ['a', 'p', 'o', 's'] then some '\''
  else if name = ['q', 'u', 'o', 't'] then some '"'
  else none

/-! ### Numbers -/

/-- The value of a digit, letters of either case continuing after nine. -/
def digitValue (c : Char) : Option Nat :=
  if '0' ≤ c ∧ c ≤ '9' then some (c.toNat - '0'.toNat)
  else if 'a' ≤ c ∧ c ≤ 'f' then some (c.toNat - 'a'.toNat + 10)
  else if 'A' ≤ c ∧ c ≤ 'F' then some (c.toNat - 'A'.toNat + 10)
  else none

/-- The value of a digit in a radix. -/
def digit? (radix : Nat) (c : Char) : Option Nat := (digitValue c).filter (· < radix)

/-- The number that digits continue from the value before them. They are read from the
    left: the first bad digit, or the first value that does not fit, decides. -/
def codeFrom (radix value : Nat) : List Char → Except NumberFault Nat
  | [] => .ok value
  | c :: cs =>
    match digit? radix c with
    | none => .error .badDigit
    | some d =>
      if value * radix + d < 4294967296 then codeFrom radix (value * radix + d) cs
      else .error .tooLarge

/-- The number that a list of digits writes in a radix; a sign is no part of it. -/
def code (radix : Nat) : List Char → Except NumberFault Nat
  | [] => .error .noDigits
  | c :: cs => if c = '+' ∨ c = '-' then .error .unexpectedSign else codeFrom radix 0 (c :: cs)

/-- The character with the number written after `#`. -/
def character (number : List Char) : Except NumberFault Char := do
  let n ← match number with
    | 'x' :: hex => code 16 hex
    | decimal => code 10 decimal
  if n = 0 then .error .null
  else if n.isValidChar then .ok (Char.ofNat n)
  else .error (.noCharacter n)

/-! ### Values -/

/-- The number of bytes that characters take. -/
def byteLength : List Char → Nat
  | [] => 0
  | c :: cs => c.utf8Size + byteLength cs

/-- Splits the text after `&` at the semicolon that ends the reference; another `&` before
    it ends the search. -/
def referenceEnd? : List Char → Option (List Char × List Char)
  | [] => none
  | c :: cs =>
    if c = ';' then some ([], cs)
    else if c = '&' then none
    else (referenceEnd? cs).map fun p => (c :: p.1, p.2)

theorem length_of_referenceEnd? {cs : List Char} {p : List Char × List Char}
    (h : referenceEnd? cs = some p) : p.2.length < cs.length := by
  induction cs generalizing p with
  | nil => simp [referenceEnd?] at h
  | cons c cs ih =>
    unfold referenceEnd? at h
    split at h
    · simp only [Option.some.injEq] at h
      subst h
      simp
    · split at h
      · simp at h
      · simp only [Option.map_eq_some_iff] at h
        obtain ⟨q, hq, rfl⟩ := h
        have := ih hq
        simp only [List.length_cons]
        omega

/-- The character that the reference `name` stands for, where `start` is the position of
    the name. -/
def resolveAt (start : Nat) (name : List Char) : Except EscapeFault Char :=
  match name with
  | '#' :: number => (character number).mapError .badNumber
  | _ =>
    match predefined? name with
    | some c => .ok c
    | none => .error (.unknownEntity start (start + byteLength name) (String.ofList name))

/-- Resolves the references of what follows the position `start` in a value that is
    `total` bytes long. -/
def unescapeFrom (total start : Nat) (cs : List Char) : Except EscapeFault (List Char) :=
  match cs with
  | [] => .ok []
  | c :: cs =>
    if c = '&' then
      match h : referenceEnd? cs with
      | none => .error (.unterminated start total)
      | some (name, rest) => do
        have : rest.length < cs.length := length_of_referenceEnd? h
        let resolved ← resolveAt (start + 1) name
        let others ← unescapeFrom total (start + byteLength name + 2) rest
        return resolved :: others
    else do
      let others ← unescapeFrom total (start + c.utf8Size) cs
      return c :: others
termination_by cs.length

/-- The text that a written value means. -/
def unescape (value : List Char) : Except EscapeFault (List Char) :=
  unescapeFrom (byteLength value) 0 value

/-! ### References in running text -/

/-- The character that a reference in running text stands for, if it has a meaning. -/
def resolve? (name : List Char) : Option Char :=
  match resolveAt 0 name with
  | .ok c => some c
  | .error _ => none

end TaggedUnion.Xml
