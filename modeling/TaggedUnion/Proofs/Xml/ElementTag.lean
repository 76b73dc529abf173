import TaggedUnion.Proofs.Xml.Tags
import TaggedUnion.Text.CodePoints

/-! # Tags of documents that are well formed

    What the grammar of marked-up text asks of names, references, values and tags, and what the
    reader makes of them:

    * **`IsName`**: a name begins with one class of characters and goes on with a larger one. No
      character that means something to the reader is in either.
    * **`IsReference`** and **`meaning?`**: a reference is a number that is a character, or a name.
      **`resolve?_eq`**: it is resolved to what it means.
    * **`Glyph`**: one character of a value, as itself or as a reference. **`unescape_spell`**: a
      value is resolved to what its glyphs mean.
    * **`ElementTag`**: a tag written from a name and attributes, with **`ElementTag.tag_name`** and
      **`ElementTag.tag_attributes`** for what it is read as.
-/

namespace TaggedUnion.Xml

/-! ### Names -/

/-- The code points that a name begins with. -/
def nameStartRuns : List Text.Run :=
  [⟨0x3a, 0x3a, 1⟩, ⟨0x41, 0x5a, 1⟩, ⟨0x5f, 0x5f, 1⟩, ⟨0x61, 0x7a, 1⟩, ⟨0xc0, 0xd6, 1⟩,
   ⟨0xd8, 0xf6, 1⟩, ⟨0xf8, 0x2ff, 1⟩, ⟨0x370, 0x37d, 1⟩, ⟨0x37f, 0x1fff, 1⟩, ⟨0x200c, 0x200d, 1⟩,
   ⟨0x2070, 0x218f, 1⟩, ⟨0x2c00, 0x2fef, 1⟩, ⟨0x3001, 0xd7ff, 1⟩, ⟨0xf900, 0xfdcf, 1⟩,
   ⟨0xfdf0, 0xfffd, 1⟩, ⟨0x10000, 0xeffff, 1⟩]

/-- The code points that a name goes on with and does not begin with. -/
def nameMoreRuns : List Text.Run :=
  [⟨0x2d, 0x2e, 1⟩, ⟨0x30, 0x39, 1⟩, ⟨0xb7, 0xb7, 1⟩, ⟨0x300, 0x36f, 1⟩, ⟨0x203f, 0x2040, 1⟩]

/-- The characters that a name begins with. -/
def isNameStart (c : Char) : Bool := Text.inRuns nameStartRuns c

/-- The characters that a name goes on with. -/
def isNameChar (c : Char) : Bool := isNameStart c || Text.inRuns nameMoreRuns c

/-- The names of elements, attributes and entities. -/
def IsName : List Char → Prop
  | [] => False
  | c :: cs => isNameStart c ∧ ∀ d ∈ cs, isNameChar d

instance : DecidablePred IsName
  | [] => inferInstanceAs (Decidable False)
  | _ :: cs =>
    have : Decidable (∀ d ∈ cs, isNameChar d) := List.decidableBAll _ cs
    inferInstanceAs (Decidable (_ ∧ _))

/-- The characters that mean something to the reader of a tag or of a reference. -/
def delimiters : List Char :=
  [' ', '\t', '\r', '\n', '"', '\'', '<', '>', '=', '/', '!', '?', '&', '#', ';']

/-- A character that means nothing of its own to the reader. -/
def IsPlain (c : Char) : Prop := c ∉ delimiters

instance : DecidablePred IsPlain := fun c => inferInstanceAs (Decidable (c ∉ delimiters))

theorem IsPlain.ne {c d : Char} (h : IsPlain c) (hd : d ∈ delimiters) : c ≠ d := by
  rintro rfl
  exact h hd

theorem IsPlain.isSpace {c : Char} (h : IsPlain c) : isSpace c = false := by
  simp [Xml.isSpace, h.ne (d := ' ') (by decide), h.ne (d := '\t') (by decide),
    h.ne (d := '\r') (by decide), h.ne (d := '\n') (by decide)]

theorem IsPlain.isQuote {c : Char} (h : IsPlain c) : isQuote c = false := by
  simp [Xml.isQuote, h.ne (d := '"') (by decide), h.ne (d := '\'') (by decide)]

theorem IsPlain.isKeyChar {c : Char} (h : IsPlain c) : isKeyChar c := by
  simp [Xml.isKeyChar, h.isSpace, h.ne (d := '=') (by decide)]

theorem IsPlain.isTextChar {c : Char} (h : IsPlain c) : isTextChar c := by
  simp [Xml.isTextChar, h.ne (d := '<') (by decide), h.ne (d := '&') (by decide)]

theorem IsPlain.of_isNameChar {c : Char} (h : isNameChar c) : IsPlain c := by
  have hnone : delimiters.all (!isNameChar ·) := by decide
  intro hmem
  simpa [h] using List.all_eq_true.mp hnone c hmem

namespace IsName

variable {name : List Char}

theorem isPlain (h : IsName name) : ∀ c ∈ name, IsPlain c := by
  cases name with
  | nil => cases h
  | cons c cs =>
    intro d hd
    rcases List.mem_cons.mp hd with rfl | hd
    · exact .of_isNameChar (by rw [isNameChar, h.1, Bool.true_or])
    · exact .of_isNameChar (h.2 d hd)

theorem exists_cons (h : IsName name) : ∃ c cs, name = c :: cs := by
  cases name with
  | nil => cases h
  | cons c cs => exact ⟨c, cs, rfl⟩

theorem isClosable (h : IsName name) : IsClosable name :=
  fun c hc => ⟨(h.isPlain c hc).isSpace, (h.isPlain c hc).isQuote,
    (h.isPlain c hc).ne (by decide)⟩

end IsName

/-! ### References -/

/-- The number that digits write in a radix. -/
def number (radix : Nat) (digits : List Char) : Nat :=
  digits.foldl (fun value d => value * radix + (digitValue d).getD 0) 0

/-- Digits whose number is that of a character other than the null character. -/
structure IsNumeral (radix : Nat) (digits : List Char) : Prop where
  nonempty : digits ≠ []
  areDigits : ∀ d ∈ digits, (digit? radix d).isSome
  positive : number radix digits ≠ 0
  valid : (number radix digits).isValidChar

instance (radix : Nat) (digits : List Char) : Decidable (IsNumeral radix digits) :=
  have : Decidable (∀ d ∈ digits, (digit? radix d).isSome) := List.decidableBAll _ digits
  decidable_of_iff (digits ≠ [] ∧ (∀ d ∈ digits, (digit? radix d).isSome) ∧
      number radix digits ≠ 0 ∧ (number radix digits).isValidChar)
    ⟨fun ⟨h₁, h₂, h₃, h₄⟩ => ⟨h₁, h₂, h₃, h₄⟩, fun h => ⟨h.1, h.2, h.3, h.4⟩⟩

/-- What stands between `&` and `;`: a hexadecimal number, a decimal one, or a name. -/
def IsReference : List Char → Prop
  | '#' :: 'x' :: digits => IsNumeral 16 digits
  | '#' :: digits => IsNumeral 10 digits
  | name => IsName name

/-- The character that a reference means; an entity that is not predefined means none. -/
def meaning? : List Char → Option Char
  | '#' :: 'x' :: digits => some (Char.ofNat (number 16 digits))
  | '#' :: digits => some (Char.ofNat (number 10 digits))
  | name => predefined? name

/-- The three forms of a reference, with the meaning of each. -/
theorem IsReference.cases {name : List Char} (h : IsReference name) :
    (∃ digits, name = '#' :: 'x' :: digits ∧ IsNumeral 16 digits ∧
        meaning? name = some (Char.ofNat (number 16 digits))) ∨
      (∃ digits, name = '#' :: digits ∧ digits.head? ≠ some 'x' ∧ IsNumeral 10 digits ∧
        meaning? name = some (Char.ofNat (number 10 digits))) ∨
      IsName name ∧ meaning? name = predefined? name := by
  unfold IsReference at h
  split at h
  · next digits => exact .inl ⟨digits, rfl, h, rfl⟩
  · next digits hx =>
    refine .inr (.inl ⟨digits, rfl, ?_, h, ?_⟩)
    · intro hhead
      obtain ⟨tail, rfl⟩ := List.head?_eq_some_iff.mp hhead
      exact hx tail rfl
    · unfold meaning?
      split
      · next tail heq => exact absurd (List.cons.inj heq).2 (hx tail)
      · next heq => rw [(List.cons.inj heq).2]
      · next hhash => exact absurd rfl (hhash digits)
  · next hhex hhash =>
    refine .inr (.inr ⟨h, ?_⟩)
    unfold meaning?
    split
    · next tail => exact absurd rfl (hhex tail)
    · next tail _ => exact absurd rfl (hhash tail)
    · rfl

instance : DecidablePred IsReference := fun name => by
  unfold IsReference
  split <;> infer_instance

/-! ### What references are resolved to -/

/-- A digit has a value below the radix. -/
theorem exists_digitValue {radix : Nat} {d : Char} (h : (digit? radix d).isSome) :
    ∃ n, digit? radix d = some n ∧ digitValue d = some n := by
  obtain ⟨n, hn⟩ := Option.isSome_iff_exists.mp h
  exact ⟨n, hn, (Option.filter_eq_some_iff.mp hn).1⟩

/-- More digits do not make a number smaller. -/
theorem le_foldl_digits {radix : Nat} (hradix : 0 < radix) (digits : List Char) (value : Nat) :
    value ≤ digits.foldl (fun value d => value * radix + (digitValue d).getD 0) value := by
  induction digits generalizing value with
  | nil => exact Nat.le_refl value
  | cons d ds ih =>
    rw [List.foldl_cons]
    calc value ≤ value * radix := Nat.le_mul_of_pos_right value hradix
      _ ≤ value * radix + (digitValue d).getD 0 := Nat.le_add_right ..
      _ ≤ _ := ih _

/-- Digits are read to their number where it fits. -/
theorem codeFrom_eq {radix value : Nat} (hradix : 0 < radix) {digits : List Char}
    (hdigits : ∀ d ∈ digits, (digit? radix d).isSome)
    (hfits : digits.foldl (fun value d => value * radix + (digitValue d).getD 0) value <
      4294967296) :
    codeFrom radix value digits =
      .ok (digits.foldl (fun value d => value * radix + (digitValue d).getD 0) value) := by
  induction digits generalizing value with
  | nil => rfl
  | cons d ds ih =>
    obtain ⟨n, hdigit, hvalue⟩ := exists_digitValue (hdigits d List.mem_cons_self)
    rw [List.foldl_cons, hvalue, Option.getD_some] at hfits ⊢
    -- A number on the way is no larger than the last one.
    have hsmall : value * radix + n < 4294967296 :=
      Nat.lt_of_le_of_lt (le_foldl_digits hradix ds _) hfits
    simp only [codeFrom, hdigit, if_pos hsmall]
    exact ih (fun e he => hdigits e (List.mem_cons_of_mem _ he)) hfits

theorem IsNumeral.code_eq {radix : Nat} (hradix : 0 < radix) {digits : List Char}
    (h : IsNumeral radix digits) : code radix digits = .ok (number radix digits) := by
  have hfits : number radix digits < 4294967296 := by
    rcases h.valid with hlow | ⟨-, hhigh⟩ <;> omega
  cases digits with
  | nil => exact absurd rfl h.nonempty
  | cons d ds =>
    have hsign : ¬ (d = '+' ∨ d = '-') := by
      obtain ⟨n, -, hvalue⟩ := exists_digitValue (h.areDigits d List.mem_cons_self)
      rintro (rfl | rfl) <;> cases hvalue
    rw [code, if_neg hsign]
    exact codeFrom_eq hradix h.areDigits hfits

/-- A number with a code point is read as the character with this code point. -/
theorem character_of_code (cs : List Char) {n : Nat}
    (hcode : (match cs with
      | 'x' :: hex => code 16 hex
      | decimal => code 10 decimal) = .ok n)
    (hpositive : n ≠ 0) (hvalid : n.isValidChar) : character cs = .ok (Char.ofNat n) := by
  unfold character
  split at hcode
  · simp only [hcode, bind, Except.bind, if_neg hpositive, if_pos hvalid]
  · simp only [hcode, bind, Except.bind, if_neg hpositive, if_pos hvalid]

/-- A reference that means a character is resolved to it. -/
theorem resolveAt_of_meaning? {name : List Char} (h : IsReference name) {c : Char}
    (hc : meaning? name = some c) (start : Nat) : resolveAt start name = .ok c := by
  obtain ⟨digits, rfl, hdigits, hmeaning⟩ | ⟨digits, rfl, hhead, hdigits, hmeaning⟩ |
    ⟨hname, hmeaning⟩ := h.cases
  · cases hmeaning.symm.trans hc
    have hcharacter := character_of_code ('x' :: digits) (hdigits.code_eq (by decide))
      hdigits.positive hdigits.valid
    simp only [resolveAt, hcharacter]
    rfl
  · cases hmeaning.symm.trans hc
    have hcode : (match digits with
        | 'x' :: hex => code 16 hex
        | decimal => code 10 decimal) = .ok (number 10 digits) := by
      split
      · exact absurd rfl hhead
      · exact hdigits.code_eq (by decide)
    have hcharacter := character_of_code digits hcode hdigits.positive hdigits.valid
    simp only [resolveAt, hcharacter]
    rfl
  · rw [hmeaning] at hc
    unfold resolveAt
    split
    · next number => cases hname.1
    · simp only [hc]

/-- A reference in running text is resolved to what it means. -/
theorem resolve?_eq {name : List Char} (h : IsReference name) : resolve? name = meaning? name := by
  cases hmeaning : meaning? name with
  | some c => rw [resolve?, resolveAt_of_meaning? h hmeaning]
  | none =>
    -- Numbers mean a character, so that this is a name without one.
    obtain ⟨_, _, _, hsome⟩ | ⟨_, _, _, _, hsome⟩ | ⟨hname, hnone⟩ := h.cases
    · cases hmeaning.symm.trans hsome
    · cases hmeaning.symm.trans hsome
    · have herror : resolveAt 0 name =
          .error (.unknownEntity 0 (0 + byteLength name) (String.ofList name)) := by
        unfold resolveAt
        split
        · cases hname.1
        · rw [← hnone, hmeaning]
      rw [resolve?, herror]

/-- The characters between `&` and `;` end neither the reference nor the value around it. -/
def IsEntityText (name : List Char) : Prop := ∀ c ∈ name, isTextChar c ∧ c ≠ ';'

instance (name : List Char) : Decidable (IsEntityText name) := List.decidableBAll _ name

theorem IsReference.chars {name : List Char} (h : IsReference name) :
    ∀ c ∈ name, c = '#' ∨ IsPlain c := by
  have hdigit {radix : Nat} {digits : List Char} (hnumeral : IsNumeral radix digits) :
      ∀ c ∈ digits, IsPlain c := by
    have hnone : delimiters.all (digitValue · |>.isNone) := by decide
    intro c hc hmem
    obtain ⟨n, -, hvalue⟩ := exists_digitValue (hnumeral.areDigits c hc)
    simpa [hvalue] using List.all_eq_true.mp hnone c hmem
  obtain ⟨digits, rfl, hdigits, -⟩ | ⟨digits, rfl, -, hdigits, -⟩ | ⟨hname, -⟩ := h.cases
  · intro c hc
    rcases List.mem_cons.mp hc with rfl | hc
    · exact .inl rfl
    · rcases List.mem_cons.mp hc with rfl | hc
      · exact .inr (by decide)
      · exact .inr (hdigit hdigits c hc)
  · intro c hc
    rcases List.mem_cons.mp hc with rfl | hc
    · exact .inl rfl
    · exact .inr (hdigit hdigits c hc)
  · exact fun c hc => .inr (hname.isPlain c hc)

theorem IsReference.isEntityText {name : List Char} (h : IsReference name) :
    IsEntityText name := by
  intro c hc
  rcases h.chars c hc with rfl | hplain
  · decide
  · exact ⟨hplain.isTextChar, hplain.ne (by decide)⟩

theorem IsEntityText.referenceNext_eq {name : List Char} (h : IsEntityText name)
    (rest : List Char) : referenceNext (name ++ ';' :: rest) = .ok (name, rest) := by
  induction name with
  | nil => rfl
  | cons c cs ih =>
    obtain ⟨htext, hsemicolon⟩ := h c List.mem_cons_self
    rw [List.cons_append, referenceNext, if_neg hsemicolon, if_pos htext,
      ih fun d hd => h d (List.mem_cons_of_mem _ hd)]
    rfl

theorem IsEntityText.referenceEnd?_eq {name : List Char} (h : IsEntityText name)
    (rest : List Char) : referenceEnd? (name ++ ';' :: rest) = some (name, rest) := by
  induction name with
  | nil => rfl
  | cons c cs ih =>
    obtain ⟨htext, hsemicolon⟩ := h c List.mem_cons_self
    have hampersand : c ≠ '&' := by
      rintro rfl
      cases htext
    rw [List.cons_append, referenceEnd?, if_neg hsemicolon, if_neg hampersand,
      ih fun d hd => h d (List.mem_cons_of_mem _ hd)]
    rfl

/-! ### Values -/

/-- A character of a value, as itself or as a reference. -/
inductive Glyph where
  | plain (c : Char)
  | reference (name : List Char)
deriving Repr, DecidableEq

namespace Glyph

/-- The characters of a glyph. -/
def spell : Glyph → List Char
  | plain c => [c]
  | reference name => '&' :: (name ++ [';'])

/-- What a glyph means. -/
def meaning : Glyph → List Char
  | plain c => [c]
  | reference name => (meaning? name).toList

/-- What is asked of a glyph: a character by itself is neither the quote nor the beginning of a
    reference, and a reference has a meaning. -/
def IsEscaped : Glyph → Prop
  | plain c => c ≠ '&' ∧ c ≠ '"'
  | reference name => IsReference name ∧ (meaning? name).isSome

instance : DecidablePred IsEscaped
  | plain _ => inferInstanceAs (Decidable (_ ∧ _))
  | reference _ => inferInstanceAs (Decidable (_ ∧ _))

end Glyph

/-- The characters of a value. -/
def spellValue (value : List Glyph) : List Char := value.flatMap Glyph.spell

/-- What a value means. -/
def valueMeaning (value : List Glyph) : List Char := value.flatMap Glyph.meaning

theorem unescapeFrom_spell {value : List Glyph} (h : ∀ g ∈ value, g.IsEscaped)
    (total start : Nat) :
    unescapeFrom total start (spellValue value) = .ok (valueMeaning value) := by
  induction value generalizing start with
  | nil =>
    show unescapeFrom total start [] = .ok []
    rw [unescapeFrom]
  | cons g gs ih =>
    have hg := h g List.mem_cons_self
    have hgs := ih fun g' hg' => h g' (List.mem_cons_of_mem _ hg')
    cases g with
    | plain c =>
      show unescapeFrom total start (c :: spellValue gs) = .ok (c :: valueMeaning gs)
      rw [unescapeFrom_cons hg.1, hgs]
      rfl
    | reference name =>
      obtain ⟨hreference, hsome⟩ := hg
      obtain ⟨c, hc⟩ := Option.isSome_iff_exists.mp hsome
      have hspell : spellValue (.reference name :: gs) = '&' :: (name ++ ';' :: spellValue gs) := by
        simp [spellValue, Glyph.spell]
      have hmeaning : valueMeaning (.reference name :: gs) = c :: valueMeaning gs := by
        simp [valueMeaning, Glyph.meaning, hc]
      rw [hspell, hmeaning, unescapeFrom_reference
        (hreference.isEntityText.referenceEnd?_eq _) (resolveAt_of_meaning? hreference hc _), hgs]
      rfl

/-- A value is resolved to what it means. -/
theorem unescape_spell {value : List Glyph} (h : ∀ g ∈ value, g.IsEscaped) :
    unescape (spellValue value) = .ok (valueMeaning value) :=
  unescapeFrom_spell h _ _

/-- A value does not hold the quote that ends it. -/
theorem quote_not_mem_spell {value : List Glyph} (h : ∀ g ∈ value, g.IsEscaped) :
    '"' ∉ spellValue value := by
  intro hmem
  obtain ⟨g, hg, hquote⟩ := List.mem_flatMap.mp hmem
  have hescaped := h g hg
  cases g with
  | plain c => exact hescaped.2 (List.mem_singleton.mp hquote).symm
  | reference name =>
    rcases List.mem_cons.mp hquote with heq | hquote
    · cases heq
    · rcases List.mem_append.mp hquote with hname | hend
      · rcases hescaped.1.chars _ hname with heq | hplain
        · cases heq
        · exact hplain (by decide)
      · cases List.mem_singleton.mp hend

/-! ### Tags -/

/-- What a tag is written from: the name of its element, and keys with values. -/
structure ElementTag where
  name : List Char
  attributes : List (List Char × List Glyph) := []
deriving Repr, DecidableEq

/-- The attribute that a key and a value are read as. -/
def Attribute.spelled (a : List Char × List Glyph) : Attribute := ⟨a.1, spellValue a.2⟩

namespace ElementTag

/-- The tag as it is written: every attribute stands behind one space. -/
def tag (t : ElementTag) : Tag :=
  ⟨t.name ++ (t.attributes.map Attribute.spelled).flatMap Attribute.spell⟩

/-- What the value of a key means, if the tag has the key. -/
def value? (t : ElementTag) (key : List Char) : Option (List Char) :=
  (t.attributes.lookup key).map valueMeaning

/-- What is asked of a tag: it is made of names and escaped values, and gives no key twice. -/
structure IsWellFormed (t : ElementTag) : Prop where
  name : IsName t.name
  keys : ∀ a ∈ t.attributes, IsName a.1
  nodup : (t.attributes.map (·.1)).Nodup
  values : ∀ a ∈ t.attributes, ∀ g ∈ a.2, g.IsEscaped

instance : DecidablePred IsWellFormed := fun t =>
  decidable_of_iff (IsName t.name ∧ (∀ a ∈ t.attributes, IsName a.1) ∧
      (t.attributes.map (·.1)).Nodup ∧ ∀ a ∈ t.attributes, ∀ g ∈ a.2, g.IsEscaped)
    ⟨fun ⟨h₁, h₂, h₃, h₄⟩ => ⟨h₁, h₂, h₃, h₄⟩, fun h => ⟨h.1, h.2, h.3, h.4⟩⟩

/-- A value without the double quote is written between double quotes. -/
theorem quote_spelled {a : List Char × List Glyph} (h : ∀ g ∈ a.2, g.IsEscaped) :
    (Attribute.spelled a).quote = '"' := if_neg (quote_not_mem_spell h)

theorem isReadable_spelled {a : List Char × List Glyph} (hkey : IsName a.1)
    (hvalue : ∀ g ∈ a.2, g.IsEscaped) : (Attribute.spelled a).IsReadable where
  key := by
    obtain ⟨c, cs, hcons⟩ := hkey.exists_cons
    have hplain : ∀ d ∈ c :: cs, IsPlain d := hcons ▸ hkey.isPlain
    refine ⟨c, cs, hcons, (hplain c List.mem_cons_self).isSpace, ?_⟩
    intro d hd
    exact (hplain d (List.mem_cons_of_mem _ hd)).isKeyChar
  value := by
    rw [quote_spelled hvalue]
    exact quote_not_mem_spell hvalue

variable {t : ElementTag}

theorem span_tag (h : IsName t.name) :
    t.tag.content.takeWhile (!isSpace ·) = t.name ∧
      t.tag.content.dropWhile (!isSpace ·) =
        (t.attributes.map Attribute.spelled).flatMap Attribute.spell :=
  span_name (fun c hc => (h.isPlain c hc).isSpace) (fun _ => ⟨_, rfl⟩) _

theorem tag_name (h : IsName t.name) : t.tag.name = t.name := (span_tag h).1

theorem tag_attributes (h : t.IsWellFormed) :
    t.tag.attributes = (t.attributes.map Attribute.spelled).map some := by
  have hreadable : ∀ a ∈ t.attributes.map Attribute.spelled, a.IsReadable := by
    intro a ha
    obtain ⟨b, hb, rfl⟩ := List.mem_map.mp ha
    exact isReadable_spelled (h.keys b hb) (h.values b hb)
  have hkeys : ((t.attributes.map Attribute.spelled).map (·.key)).Nodup := by
    rw [List.map_map]
    exact h.nodup
  rw [Tag.attributes, (span_tag h.name).2]
  exact attributesFrom_spell hreadable hkeys (by simp)

theorem isTagText (h : t.IsWellFormed) : IsTagText t.tag.content where
  passedOver := by
    have hname : PassedOver t.name :=
      PassedOver.of_plain fun c hc => (h.name.isClosable c hc).2
    have hall : PassedOver ((t.attributes.map Attribute.spelled).flatMap Attribute.spell) := by
      refine PassedOver.flatMap ?_
      intro a ha
      obtain ⟨b, hb, rfl⟩ := List.mem_map.mp ha
      exact PassedOver.spell (isReadable_spelled (h.keys b hb) (h.values b hb))
        fun c hc => ((h.keys b hb).isClosable c hc).2
    exact hname.append hall
  start := by
    obtain ⟨c, cs, hcons⟩ := h.name.exists_cons
    have hc : IsPlain c := h.name.isPlain c (hcons ▸ List.mem_cons_self)
    refine ⟨c, cs ++ (t.attributes.map Attribute.spelled).flatMap Attribute.spell, ?_,
      hc.ne (by decide), hc.ne (by decide), hc.ne (by decide)⟩
    rw [tag, hcons, List.cons_append]

/-- A tag ends in a character of its name or in a quote. -/
theorem getLast?_tag (h : t.IsWellFormed) : t.tag.content.getLast? ≠ some '/' := by
  rcases List.eq_nil_or_concat t.attributes with hnil | ⟨as, a, has⟩
  · have hcontent : t.tag.content = t.name := by simp [tag, hnil]
    intro hlast
    rw [hcontent] at hlast
    exact h.name.isPlain _ (List.mem_of_getLast? hlast) (by decide)
  · have hcontent : ∃ cs, t.tag.content = cs ++ [(Attribute.spelled a).quote] :=
      ⟨t.name ++ (as.map Attribute.spelled).flatMap Attribute.spell ++
        ' ' :: ((Attribute.spelled a).key ++
          '=' :: (Attribute.spelled a).quote :: (Attribute.spelled a).value),
        by simp [tag, has, Attribute.spell]⟩
    obtain ⟨cs, hcs⟩ := hcontent
    rw [hcs, List.getLast?_concat]
    intro hquote
    have hisQuote := (Attribute.spelled a).isQuote_quote
    rw [Option.some.inj hquote] at hisQuote
    cases hisQuote

end ElementTag

end TaggedUnion.Xml
