import TaggedUnion.Xml.Event

/-! # Tags as they are written

    A tag is written as its name and its attributes, each behind one space, with the value in
    double quotes. This module says that it is read as what it was written from:

    * **`escape`** writes a value with references for three characters, and
      **`unescape_escape`** says that they are resolved again.
    * **`Tag.written`** with **`name_written`** and **`attributes_written`**: a written tag has
      the name and the attributes that it was written with.
    * **`PassedOver`**: text in which no tag ends; values in quotes are such text, whatever they
      hold.
-/

namespace TaggedUnion.Xml

/-! ### Values -/

/-- The name of the reference that is written for a character, where one is. -/
def entityName? (c : Char) : Option (List Char) :=
  if c = '&' then some ['a', 'm', 'p']
  else if c = '<' then some ['l', 't']
  else if c = '"' then some ['q', 'u', 'o', 't']
  else none

/-- A character as it stands in a value. -/
def escapeChar (c : Char) : List Char :=
  match entityName? c with
  | some name => '&' :: (name ++ [';'])
  | none => [c]

/-- A text as it stands in a value. -/
def escape (cs : List Char) : List Char := cs.flatMap escapeChar

theorem entityName?_cases {c : Char} {name : List Char} (h : entityName? c = some name) :
    (c = '&' ∧ name = ['a', 'm', 'p']) ∨ (c = '<' ∧ name = ['l', 't']) ∨
      (c = '"' ∧ name = ['q', 'u', 'o', 't']) := by
  unfold entityName? at h
  split at h
  · next hc => exact .inl ⟨hc, (Option.some.inj h).symm⟩
  · split at h
    · next hc => exact .inr (.inl ⟨hc, (Option.some.inj h).symm⟩)
    · split at h
      · next hc => exact .inr (.inr ⟨hc, (Option.some.inj h).symm⟩)
      · cases h

theorem ne_of_entityName?_eq_none {c : Char} (h : entityName? c = none) : c ≠ '&' ∧ c ≠ '"' := by
  constructor
  · rintro rfl
    cases h
  · rintro rfl
    cases h

/-- A written value does not hold the quote that ends it. -/
theorem quote_not_mem_escape (cs : List Char) : '"' ∉ escape cs := by
  intro hmem
  obtain ⟨c, -, hc⟩ := List.mem_flatMap.mp hmem
  unfold escapeChar at hc
  split at hc
  · next name hname =>
    obtain ⟨-, rfl⟩ | ⟨-, rfl⟩ | ⟨-, rfl⟩ := entityName?_cases hname <;> simp at hc
  · next hnone => exact (ne_of_entityName?_eq_none hnone).2 (List.mem_singleton.mp hc).symm

/-- A reference that means something is replaced by what it means. -/
theorem unescapeFrom_reference {total start : Nat} {name rest : List Char} {c : Char}
    (hend : referenceEnd? (name ++ ';' :: rest) = some (name, rest))
    (hname : resolveAt (start + 1) name = .ok c) :
    unescapeFrom total start ('&' :: (name ++ ';' :: rest)) =
      (unescapeFrom total (start + byteLength name + 2) rest).map (c :: ·) := by
  rw [unescapeFrom, if_pos rfl]
  split
  · next hnone =>
    rw [hend] at hnone
    cases hnone
  · next name' rest' hsome =>
    rw [hend] at hsome
    cases hsome
    rw [hname]
    rfl

/-- What begins no reference stands for itself. -/
theorem unescapeFrom_cons {total start : Nat} {c : Char} (hc : c ≠ '&') (rest : List Char) :
    unescapeFrom total start (c :: rest) =
      (unescapeFrom total (start + c.utf8Size) rest).map (c :: ·) := by
  rw [unescapeFrom, if_neg hc]
  rfl

theorem unescapeFrom_escape (total start : Nat) (cs : List Char) :
    unescapeFrom total start (escape cs) = .ok cs := by
  -- Positions count for faults only, and there is none here.
  induction cs generalizing start with
  | nil => rw [escape, List.flatMap_nil, unescapeFrom]
  | cons c cs ih =>
    rw [escape, List.flatMap_cons, ← escape, escapeChar]
    cases hname : entityName? c with
    | some name =>
      have hread : referenceEnd? (name ++ ';' :: escape cs) = some (name, escape cs) ∧
          resolveAt (start + 1) name = .ok c := by
        obtain ⟨rfl, rfl⟩ | ⟨rfl, rfl⟩ | ⟨rfl, rfl⟩ := entityName?_cases hname <;>
          exact ⟨rfl, rfl⟩
      show unescapeFrom total start ('&' :: (name ++ [';']) ++ escape cs) = _
      rw [List.cons_append, List.append_assoc, List.singleton_append,
        unescapeFrom_reference hread.1 hread.2, ih]
      rfl
    | none =>
      rw [List.singleton_append, unescapeFrom_cons (ne_of_entityName?_eq_none hname).1, ih]
      rfl

/-- Resolving the references of a written value gives the text it was written from. -/
theorem unescape_escape (cs : List Char) : unescape (escape cs) = .ok cs :=
  unescapeFrom_escape _ _ cs

/-! ### Words -/

/-- The names of elements and the keys of attributes are made of letters. -/
def IsWord (s : String) : Prop := s.toList ≠ [] ∧ s.toList.all Char.isAlpha

instance (s : String) : Decidable (IsWord s) := inferInstanceAs (Decidable (_ ∧ _))

theorem IsWord.ne_nil {s : String} (h : IsWord s) : s.toList ≠ [] := h.1

theorem IsWord.isAlpha {s : String} (h : IsWord s) : ∀ c ∈ s.toList, c.isAlpha :=
  List.all_eq_true.mp h.2

theorem ne_of_isAlpha {c d : Char} (hc : c.isAlpha) (hd : d.isAlpha = false) : c ≠ d := by
  rintro rfl
  rw [hc] at hd
  cases hd

theorem isSpace_of_isAlpha {c : Char} (h : c.isAlpha) : isSpace c = false := by
  simp [isSpace, ne_of_isAlpha h]

theorem isKeyChar_of_isAlpha {c : Char} (h : c.isAlpha) : isKeyChar c := by
  simp [isKeyChar, isSpace_of_isAlpha h, ne_of_isAlpha h]

theorem isQuote_of_isAlpha {c : Char} (h : c.isAlpha) : isQuote c = false := by
  simp [isQuote, ne_of_isAlpha h]

/-- A word reaches up to the first character of another kind. -/
theorem takeWhile_word {p : Char → Bool} {word : List Char} (hword : ∀ c ∈ word, p c) {d : Char}
    (hd : p d = false) (rest : List Char) : (word ++ d :: rest).takeWhile p = word := by
  rw [List.takeWhile_append_of_pos hword, List.takeWhile_cons_of_neg (by simp [hd]),
    List.append_nil]

theorem dropWhile_word {p : Char → Bool} {word : List Char} (hword : ∀ c ∈ word, p c) {d : Char}
    (hd : p d = false) (rest : List Char) : (word ++ d :: rest).dropWhile p = d :: rest := by
  rw [List.dropWhile_append_of_pos hword, List.dropWhile_cons_of_neg (by simp [hd])]

/-! ### Attributes -/

/-- The quote that a value is written in: the double one, unless the value holds it. -/
def Attribute.quote (a : Attribute) : Char := if '"' ∈ a.value then '\'' else '"'

/-- The characters of an attribute, behind a space. -/
def Attribute.spell (a : Attribute) : List Char :=
  ' ' :: (a.key ++ '=' :: a.quote :: (a.value ++ [a.quote]))

/-- What is asked of an attribute: its key ends at the equals sign, and its value at the quote
    that it is written in. -/
structure Attribute.IsReadable (a : Attribute) : Prop where
  key : ∃ c cs, a.key = c :: cs ∧ isSpace c = false ∧ ∀ d ∈ cs, isKeyChar d
  value : a.quote ∉ a.value

theorem Attribute.isQuote_quote (a : Attribute) : isQuote a.quote := by
  unfold quote
  split <;> rfl

/-- A text is split at the first mark. -/
theorem splitAt?_append {mark : Char} {cs : List Char} (h : mark ∉ cs) (rest : List Char) :
    splitAt? mark (cs ++ mark :: rest) = some (cs, rest) := by
  induction cs with
  | nil => simp [splitAt?]
  | cons c cs ih =>
    obtain ⟨hc, hcs⟩ := List.ne_and_not_mem_of_not_mem_cons h
    rw [List.cons_append, splitAt?, if_neg hc.symm, ih hcs]
    rfl

theorem isSpace_of_isQuote {q : Char} (h : isQuote q) : isSpace q = false := by
  simp only [isQuote, Bool.or_eq_true, beq_iff_eq] at h
  rcases h with rfl | rfl <;> rfl

theorem valueStep_quoted (keys : List (List Char)) (key : List Char) {q : Char}
    (hq : isQuote q) {value : List Char} (hvalue : q ∉ value) (rest : List Char) :
    valueStep keys key (q :: (value ++ q :: rest)) = ⟨some ⟨key, value⟩, key :: keys, rest⟩ := by
  have hskip : skipSpace (q :: (value ++ q :: rest)) = q :: (value ++ q :: rest) :=
    List.dropWhile_cons_of_neg (by simp [isSpace_of_isQuote hq])
  simp only [valueStep, hskip, hq, if_true, splitAt?_append hvalue]

/-- One attribute is read off what stands before the others. -/
theorem attributeStep_spell {keys : List (List Char)} {a : Attribute} (ha : a.IsReadable)
    (hnew : a.key ∉ keys) (rest : List Char) :
    attributeStep keys (a.spell ++ rest) = some ⟨some a, a.key :: keys, rest⟩ := by
  obtain ⟨c, cs, hkey, hc, hcs⟩ := ha.key
  have hskip (ds : List Char) : skipSpace (' ' :: c :: ds) = c :: ds := by
    show skipSpace (c :: ds) = c :: ds
    rw [skipSpace, List.dropWhile_cons_of_neg (by simp [hc])]
  have hend : isKeyChar '=' = false := rfl
  have hequals (ds : List Char) : skipSpace ('=' :: ds) = '=' :: ds := rfl
  have hspell : a.spell ++ rest =
      ' ' :: c :: (cs ++ '=' :: a.quote :: (a.value ++ a.quote :: rest)) := by
    simp [Attribute.spell, hkey]
  have hvalue := valueStep_quoted keys a.key a.isQuote_quote ha.value rest
  simp only [hspell, attributeStep, hskip, takeWhile_word hcs hend, dropWhile_word hcs hend,
    hequals, ne_eq, not_true, if_false, ← hkey, hnew, hvalue]

theorem attributesFrom_of_step {keys : List (List Char)} {cs : List Char} {s : AttributeStep}
    (h : attributeStep keys cs = some s) :
    attributesFrom keys cs = s.found :: attributesFrom s.keys s.rest := by
  rw [attributesFrom]
  split
  · next hnone =>
    rw [h] at hnone
    cases hnone
  · next s' hsome =>
    rw [h] at hsome
    cases hsome
    rfl

theorem attributesFrom_nil (keys : List (List Char)) : attributesFrom keys [] = [] := by
  rw [attributesFrom]
  rfl

/-- The attributes that are read are those that stand there, in order. -/
theorem attributesFrom_spell {keys : List (List Char)} {as : List Attribute}
    (hreadable : ∀ a ∈ as, a.IsReadable) (hnodup : (as.map (·.key)).Nodup)
    (hnew : ∀ a ∈ as, a.key ∉ keys) :
    attributesFrom keys (as.flatMap Attribute.spell) = as.map some := by
  -- A key that has been read may not come again, so that the known keys grow with every step.
  induction as generalizing keys with
  | nil => exact attributesFrom_nil keys
  | cons a as ih =>
    obtain ⟨hfirst, hrest⟩ := List.nodup_cons.mp hnodup
    have hlater : ∀ b ∈ as, b.key ∉ a.key :: keys := by
      intro b hb hmem
      rcases List.mem_cons.mp hmem with heq | hmem
      · exact hfirst (List.mem_map.mpr ⟨b, hb, heq⟩)
      · exact hnew b (List.mem_cons_of_mem _ hb) hmem
    have hstep := attributeStep_spell (hreadable a List.mem_cons_self)
      (hnew a List.mem_cons_self) (as.flatMap Attribute.spell)
    rw [List.flatMap_cons, attributesFrom_of_step hstep, List.map_cons]
    exact congrArg _ (ih (fun b hb => hreadable b (List.mem_cons_of_mem _ hb)) hrest hlater)

/-! ### Written attributes -/

/-- An attribute, a key with a value, as it stands in a tag. -/
def writtenAttribute (a : String × String) : List Char :=
  ' ' :: (a.1.toList ++ '=' :: '"' :: (escape a.2.toList ++ ['"']))

/-- A written attribute as it is read. -/
def Attribute.written (a : String × String) : Attribute := ⟨a.1.toList, escape a.2.toList⟩

/-- A written value stands in double quotes, for it does not hold them. -/
theorem Attribute.quote_written (a : String × String) : (written a).quote = '"' :=
  if_neg (quote_not_mem_escape a.2.toList)

theorem Attribute.spell_written (a : String × String) : (written a).spell = writtenAttribute a := by
  rw [spell, quote_written]
  rfl

theorem Attribute.isReadable_written {a : String × String} (hword : IsWord a.1) :
    (written a).IsReadable where
  key := by
    obtain ⟨c, cs, hkey⟩ := List.exists_cons_of_ne_nil hword.ne_nil
    have hletters : ∀ d ∈ c :: cs, d.isAlpha := hkey ▸ hword.isAlpha
    refine ⟨c, cs, hkey, isSpace_of_isAlpha (hletters c List.mem_cons_self), ?_⟩
    intro d hd
    exact isKeyChar_of_isAlpha (hletters d (List.mem_cons_of_mem _ hd))
  value := by
    rw [quote_written]
    exact quote_not_mem_escape a.2.toList

/-- The attributes that are read are the written ones, in order. -/
theorem attributesFrom_written {attributes : List (String × String)}
    (hwords : ∀ a ∈ attributes, IsWord a.1) (hnodup : (attributes.map (·.1)).Nodup) :
    attributesFrom [] (attributes.flatMap writtenAttribute) =
      attributes.map fun a => some (.written a) := by
  have hspell : attributes.flatMap writtenAttribute =
      (attributes.map Attribute.written).flatMap Attribute.spell := by
    simp only [List.flatMap_map, Attribute.spell_written]
  have hreadable : ∀ a ∈ attributes.map Attribute.written, a.IsReadable := by
    intro a ha
    obtain ⟨b, hb, rfl⟩ := List.mem_map.mp ha
    exact Attribute.isReadable_written (hwords b hb)
  have hkeys : ((attributes.map Attribute.written).map (·.key)).Nodup := by
    have hchars : (attributes.map Attribute.written).map (·.key) =
        (attributes.map (·.1)).map String.toList := by simp [Attribute.written]
    rw [hchars]
    exact List.Pairwise.map String.toList (fun _ _ hne heq => hne (String.toList_inj.mp heq)) hnodup
  rw [hspell, attributesFrom_spell hreadable hkeys (by simp), List.map_map]
  rfl

/-! ### Tags -/

/-- A tag, written from the name of its element and its attributes. -/
def Tag.written (name : String) (attributes : List (String × String)) : Tag :=
  ⟨name.toList ++ attributes.flatMap writtenAttribute⟩

/-- What is asked of the attributes of a tag: their keys are words, and none occurs twice. -/
structure AreAttributes (attributes : List (String × String)) : Prop where
  words : ∀ a ∈ attributes, IsWord a.1
  nodup : (attributes.map (·.1)).Nodup

/-- A name ends before the first attribute: behind it stands nothing, or a space. -/
theorem span_name {α : Type} {name : List Char} (hname : ∀ c ∈ name, isSpace c = false)
    {spelling : α → List Char} (hspace : ∀ a, ∃ cs, spelling a = ' ' :: cs) (as : List α) :
    (name ++ as.flatMap spelling).takeWhile (!isSpace ·) = name ∧
      (name ++ as.flatMap spelling).dropWhile (!isSpace ·) = as.flatMap spelling := by
  have hnot : ∀ c ∈ name, (!isSpace c) = true := by
    intro c hc
    rw [hname c hc]
    rfl
  rw [List.takeWhile_append_of_pos hnot, List.dropWhile_append_of_pos hnot]
  cases as with
  | nil => exact ⟨List.append_nil _, rfl⟩
  | cons a as =>
    obtain ⟨cs, hcs⟩ := hspace a
    rw [List.flatMap_cons, hcs]
    exact ⟨List.append_nil _, rfl⟩

theorem span_written {name : String} (hname : IsWord name) (attributes : List (String × String)) :
    (Tag.written name attributes).content.takeWhile (!isSpace ·) = name.toList ∧
      (Tag.written name attributes).content.dropWhile (!isSpace ·) =
        attributes.flatMap writtenAttribute :=
  span_name (fun c hc => isSpace_of_isAlpha (hname.isAlpha c hc)) (fun _ => ⟨_, rfl⟩) attributes

theorem name_written {name : String} (hname : IsWord name) (attributes : List (String × String)) :
    (Tag.written name attributes).name = name.toList :=
  (span_written hname attributes).1

theorem attributes_written {name : String} (hname : IsWord name)
    {attributes : List (String × String)} (hattributes : AreAttributes attributes) :
    (Tag.written name attributes).attributes = attributes.map fun a => some (.written a) := by
  rw [Tag.attributes, (span_written hname attributes).2]
  exact attributesFrom_written hattributes.words hattributes.nodup

/-! ### The end of a tag -/

/-- Text that is passed over in search of the end of a tag. -/
def PassedOver (cs : List Char) : Prop :=
  ∀ rest, tagEnd none (cs ++ rest) = (tagEnd none rest).map fun p => (cs ++ p.1, p.2)

theorem PassedOver.nil : PassedOver [] := by
  intro rest
  show tagEnd none rest = _
  cases tagEnd none rest <;> rfl

theorem PassedOver.append {cs ds : List Char} (hcs : PassedOver cs) (hds : PassedOver ds) :
    PassedOver (cs ++ ds) := by
  intro rest
  rw [List.append_assoc, hcs, hds]
  cases tagEnd none rest with
  | error f => rfl
  | ok p => simp [Except.map]

theorem PassedOver.flatMap {α : Type} {xs : List α} {f : α → List Char}
    (h : ∀ x ∈ xs, PassedOver (f x)) : PassedOver (xs.flatMap f) := by
  induction xs with
  | nil => exact PassedOver.nil
  | cons x xs ih =>
    rw [List.flatMap_cons]
    exact (h x List.mem_cons_self).append (ih fun y hy => h y (List.mem_cons_of_mem _ hy))

/-- Without quotes only the bracket ends a tag. -/
theorem PassedOver.of_plain {cs : List Char} (h : ∀ c ∈ cs, isQuote c = false ∧ c ≠ '>') :
    PassedOver cs := by
  induction cs with
  | nil => exact PassedOver.nil
  | cons c cs ih =>
    obtain ⟨hquote, hbracket⟩ := h c List.mem_cons_self
    intro rest
    have hafter : quoteAfter none c = none := by simp [quoteAfter, hquote]
    rw [List.cons_append, tagEnd, if_neg (by simp [hbracket]), hafter,
      ih (fun d hd => h d (List.mem_cons_of_mem _ hd)) rest]
    cases tagEnd none rest <;> rfl

/-- In quotes a bracket ends nothing. -/
theorem tagEnd_quoted {q : Char} {value : List Char} (h : q ∉ value) (rest : List Char) :
    tagEnd (some q) (value ++ q :: rest) =
      (tagEnd none rest).map fun p => (value ++ q :: p.1, p.2) := by
  induction value with
  | nil =>
    have hafter : quoteAfter (some q) q = none := if_pos rfl
    rw [List.nil_append, tagEnd, if_neg (by simp), hafter]
    rfl
  | cons c cs ih =>
    obtain ⟨hc, hcs⟩ := List.ne_and_not_mem_of_not_mem_cons h
    have hafter : quoteAfter (some q) c = some q := if_neg hc.symm
    rw [List.cons_append, tagEnd, if_neg (by simp), hafter, ih hcs]
    cases tagEnd none rest <;> rfl

/-- Text between quotes is passed over. -/
theorem PassedOver.quoted {q : Char} (hq : isQuote q) {value : List Char} (h : q ∉ value) :
    PassedOver (q :: (value ++ [q])) := by
  have hbracket : q ≠ '>' := by
    rintro rfl
    cases hq
  have hafter : quoteAfter none q = some q := if_pos hq
  intro rest
  rw [List.cons_append, List.append_assoc, List.singleton_append, tagEnd,
    if_neg (by simp [hbracket]), hafter, tagEnd_quoted h]
  cases tagEnd none rest with
  | error f => rfl
  | ok p => simp [Except.map]

/-- An attribute is passed over if its key has neither quotes nor brackets. -/
theorem PassedOver.spell {a : Attribute} (ha : a.IsReadable)
    (hkey : ∀ c ∈ a.key, isQuote c = false ∧ c ≠ '>') : PassedOver a.spell := by
  have hplain : PassedOver (' ' :: (a.key ++ ['='])) := by
    refine PassedOver.of_plain ?_
    intro c hc
    rcases List.mem_cons.mp hc with rfl | hc
    · decide
    · rcases List.mem_append.mp hc with hc | hc
      · exact hkey c hc
      · rw [List.mem_singleton.mp hc]
        decide
  have hboth := hplain.append (PassedOver.quoted a.isQuote_quote ha.value)
  simpa [Attribute.spell] using hboth

theorem PassedOver.attribute {a : String × String} (hword : IsWord a.1) :
    PassedOver (writtenAttribute a) := by
  rw [← Attribute.spell_written]
  refine PassedOver.spell (Attribute.isReadable_written hword) ?_
  intro c hc
  have hletter : c.isAlpha := hword.isAlpha c hc
  exact ⟨isQuote_of_isAlpha hletter, ne_of_isAlpha hletter rfl⟩

theorem PassedOver.word {word : String} (h : IsWord word) : PassedOver word.toList := by
  refine PassedOver.of_plain ?_
  intro c hc
  have hletter : c.isAlpha := h.isAlpha c hc
  exact ⟨isQuote_of_isAlpha hletter, ne_of_isAlpha hletter rfl⟩

theorem PassedOver.written {name : String} (hname : IsWord name)
    {attributes : List (String × String)} (hattributes : AreAttributes attributes) :
    PassedOver (Tag.written name attributes).content := by
  have hall : PassedOver (attributes.flatMap writtenAttribute) := by
    refine PassedOver.flatMap ?_
    intro a ha
    exact PassedOver.attribute (hattributes.words a ha)
  exact (PassedOver.word hname).append hall

/-- A tag ends at the first bracket behind text that is passed over. -/
theorem PassedOver.tagEnd {cs : List Char} (h : PassedOver cs) (rest : List Char) :
    tagEnd none (cs ++ '>' :: rest) = .ok (cs, rest) := by
  have hend : Xml.tagEnd none ('>' :: rest) = .ok ([], rest) := rfl
  rw [h, hend]
  simp [Except.map]

end TaggedUnion.Xml
