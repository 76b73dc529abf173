import TaggedUnion.Xml.Blank

/-! # Tags and their attributes

    A tag is known by the text between its angle brackets. The name ends at the first
    blank; what follows it is read as a list of attributes.

    Attributes are read leniently: one that is not well formed leaves a gap in the list
    (`none`) and reading goes on behind it, so that every reader of the list decides what
    a gap means. `attributeStep` reads one attribute and always gets closer to the end.
-/

namespace TaggedUnion.Xml

/-- A well-formed attribute, with its value as written. -/
structure Attribute where
  /-- What stands before the equals sign. -/
  key : List Char
  /-- What stands between the quotes, references unresolved. -/
  value : List Char
deriving Repr, DecidableEq

/-- What reading one attribute leaves. -/
structure AttributeStep where
  /-- The attribute read, or a gap where it is not well formed. -/
  found : Option Attribute
  /-- The keys that have been given a value so far. -/
  keys : List (List Char)
  /-- What is still to be read. -/
  rest : List Char
deriving Repr, DecidableEq

/-- The characters that a key is made of after its first one. -/
def isKeyChar (c : Char) : Bool := c != '=' && !isSpace c

/-- A value stands between two quotes of one kind. -/
def isQuote (c : Char) : Bool := c == '"' || c == '\''

/-- Where reading goes on behind the equals sign of a key that was given before: at the next
    blank, wherever it stands. -/
def skipRepeated (cs : List Char) : List Char := cs.dropWhile (!isSpace ·)

/-- Reads the value behind the equals sign of a new key. -/
def valueStep (keys : List (List Char)) (key cs : List Char) : AttributeStep :=
  match skipSpace cs with
  | [] => ⟨none, keys, []⟩
  | q :: body =>
    if isQuote q then
      match splitAt? q body with
      | some (value, rest) => ⟨some ⟨key, value⟩, key :: keys, rest⟩
      | none => ⟨none, keys, []⟩
    else ⟨none, key :: keys, body.dropWhile (!isSpace ·)⟩

/-- Reads one attribute; `none` if only blanks are left. A key whose equals sign was found
    may not be given again, even where its value is not well formed. -/
def attributeStep (keys : List (List Char)) (cs : List Char) : Option AttributeStep :=
  match skipSpace cs with
  | [] => none
  | c :: cs =>
    let key := c :: cs.takeWhile isKeyChar
    match skipSpace (cs.dropWhile isKeyChar) with
    | [] => some ⟨none, keys, []⟩
    | d :: rest =>
      if d ≠ '=' then some ⟨none, keys, d :: rest⟩
      else if key ∈ keys then some ⟨none, keys, skipRepeated rest⟩
      else some (valueStep keys key rest)

/-! ### Progress -/

theorem length_skipRepeated_le (cs : List Char) : (skipRepeated cs).length ≤ cs.length :=
  length_dropWhile_le (!isSpace ·) cs

theorem length_valueStep_le (keys : List (List Char)) (key cs : List Char) :
    (valueStep keys key cs).rest.length ≤ cs.length := by
  have h := length_skipSpace_le cs
  unfold valueStep
  split
  · simp
  · next q body hq =>
    rw [hq, List.length_cons] at h
    split
    · split
      · next value rest hs =>
        have := length_of_splitAt? hs
        simp only at this ⊢
        omega
      · simp
    · have := length_dropWhile_le (!isSpace ·) body
      simp only
      omega

/-- Reading an attribute takes at least one character. -/
theorem length_of_attributeStep {keys : List (List Char)} {cs : List Char} {s : AttributeStep}
    (h : attributeStep keys cs = some s) : s.rest.length < cs.length := by
  have h₀ := length_skipSpace_le cs
  unfold attributeStep at h
  split at h
  · simp at h
  · next c tail hc =>
    rw [hc, List.length_cons] at h₀
    have h₁ := length_dropWhile_le isKeyChar tail
    have h₂ := length_skipSpace_le (tail.dropWhile isKeyChar)
    simp only at h
    split at h
    · simp only [Option.some.injEq] at h
      subst h
      simp only [List.length_nil]
      omega
    · next d rest hd =>
      rw [hd, List.length_cons] at h₂
      split at h
      · simp only [Option.some.injEq] at h
        subst h
        simp only [List.length_cons]
        omega
      · split at h
        · simp only [Option.some.injEq] at h
          subst h
          have := length_skipRepeated_le rest
          simp only
          omega
        · simp only [Option.some.injEq] at h
          subst h
          have := length_valueStep_le keys (c :: tail.takeWhile isKeyChar) rest
          omega

/-- The attributes in a text, given the keys that stand before it. -/
def attributesFrom (keys : List (List Char)) (cs : List Char) : List (Option Attribute) :=
  match h : attributeStep keys cs with
  | none => []
  | some s =>
    have := length_of_attributeStep h
    s.found :: attributesFrom s.keys s.rest
termination_by cs.length

/-! ### Tags -/

/-- A start tag or an empty-element tag. -/
structure Tag where
  /-- The text between the angle brackets, without the slash of an empty element. -/
  content : List Char
deriving Repr, DecidableEq

/-- The name of a tag reaches up to the first blank; it may be empty. -/
def Tag.name (t : Tag) : List Char := t.content.takeWhile (!isSpace ·)

/-- The attributes of a tag in order, with a gap for each one that is not well formed. -/
def Tag.attributes (t : Tag) : List (Option Attribute) :=
  attributesFrom [] (t.content.dropWhile (!isSpace ·))

end TaggedUnion.Xml
