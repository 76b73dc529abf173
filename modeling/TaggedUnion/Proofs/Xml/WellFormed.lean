import TaggedUnion.Proofs.Xml.Tags

/-! # The well-formed attributes of a tag

    An attribute that is not well formed leaves a gap where the attributes of a tag are read.
    This module says what there is of a tag without its gaps:

    * **`Tag.wellFormed`**: the attributes of a tag that are well formed.
    * **`Tag.Agrees`**, **`Event.Agrees`**: tags that have one name and the same well-formed
      attributes.
    * **`attributeStep_cases`**: all that reading one attribute can do.
    * **`Tag.repaired`** with **`Tag.attributes_repaired`**: the tag that has the well-formed
      attributes and no gap, and **`Event.next_repaired`**: it can be written, unless a key
      holds a quote or a bracket.
-/

namespace TaggedUnion.Xml

/-- The attributes of a tag that are well formed, in order. -/
def Tag.wellFormed (t : Tag) : List Attribute := t.attributes.filterMap id

/-- The tags have one name and the same well-formed attributes. -/
structure Tag.Agrees (t t' : Tag) : Prop where
  name : t'.name = t.name
  wellFormed : t'.wellFormed = t.wellFormed

/-- The events are tags of one kind that differ at most in attributes that are not well
    formed. -/
inductive Event.Agrees : Event → Event → Prop
  | start {t t' : Tag} (h : t.Agrees t') : Agrees (.start t) (.start t')
  | empty {t t' : Tag} (h : t.Agrees t') : Agrees (.empty t) (.empty t')

/-- Tags that agree open the same elements. -/
theorem Event.Agrees.exists_enter {e e' : Event} (h : e.Agrees e') (opened : List (List Char)) :
    ∃ inner, e.enter opened = .ok inner ∧ e'.enter opened = .ok inner := by
  cases h with
  | @start t t' h => exact ⟨t.name :: opened, rfl, by rw [enter, h.name]⟩
  | empty h => exact ⟨opened, rfl, rfl⟩

theorem Event.Agrees.ne_text {e e' : Event} (h : e.Agrees e') (content : List Char) :
    e ≠ .text content ∧ e' ≠ .text content := by
  cases h <;> exact ⟨nofun, nofun⟩

/-! ### What is read of an attribute -/

theorem not_mem_of_splitAt? {mark : Char} {cs : List Char} {p : List Char × List Char}
    (h : splitAt? mark cs = some p) : mark ∉ p.1 := by
  induction cs generalizing p with
  | nil => cases h
  | cons c cs ih =>
    rw [splitAt?] at h
    by_cases hc : c = mark
    · rw [if_pos hc] at h
      obtain rfl := Option.some.inj h
      exact List.not_mem_nil
    · rw [if_neg hc] at h
      obtain ⟨q, hq, rfl⟩ := Option.map_eq_some_iff.mp h
      exact List.not_mem_cons_of_ne_of_not_mem (Ne.symm hc) (ih hq)

/-- A value that can stand in quotes of one kind does not hold the quote it is written in. -/
theorem Attribute.quote_not_mem {a : Attribute} {q : Char} (hq : isQuote q) (h : q ∉ a.value) :
    a.quote ∉ a.value := by
  rw [quote]
  split
  · next hdouble =>
    simp only [isQuote, Bool.or_eq_true, beq_iff_eq] at hq
    rcases hq with rfl | rfl
    · exact absurd hdouble h
    · exact h
  · next hdouble => exact hdouble

/-- All that reading a value can do. -/
theorem valueStep_cases (keys : List (List Char)) (key cs : List Char) :
    (valueStep keys key cs).found = none ∧ keys ⊆ (valueStep keys key cs).keys ∨
    ∃ a, (valueStep keys key cs).found = some a ∧ a.key = key ∧ a.quote ∉ a.value ∧
      (valueStep keys key cs).keys = key :: keys := by
  unfold valueStep
  split
  · exact .inl ⟨rfl, List.Subset.refl _⟩
  · next q body hbody =>
    split
    · next hq =>
      split
      · next value rest hsplit =>
        have hvalue : q ∉ (Attribute.mk key value).value := not_mem_of_splitAt? hsplit
        exact .inr ⟨_, rfl, rfl, Attribute.quote_not_mem hq hvalue, rfl⟩
      · exact .inl ⟨rfl, List.Subset.refl _⟩
    · exact .inl ⟨rfl, List.subset_cons_self _ _⟩

/-- All that reading an attribute can do: it leaves a gap, or it finds an attribute with a new
    key. -/
theorem attributeStep_cases {keys : List (List Char)} {cs : List Char} {s : AttributeStep}
    (h : attributeStep keys cs = some s) :
    s.found = none ∧ keys ⊆ s.keys ∨
    ∃ a, s.found = some a ∧ a.IsReadable ∧ a.key ∉ keys ∧ s.keys = a.key :: keys := by
  unfold attributeStep at h
  split at h
  · cases h
  · next c tail hstart =>
    simp only at h
    split at h
    · obtain rfl := Option.some.inj h
      exact .inl ⟨rfl, List.Subset.refl _⟩
    · next d rest hbehind =>
      split at h
      · obtain rfl := Option.some.inj h
        exact .inl ⟨rfl, List.Subset.refl _⟩
      · split at h
        · obtain rfl := Option.some.inj h
          exact .inl ⟨rfl, List.Subset.refl _⟩
        · next hnew =>
          obtain rfl := Option.some.inj h
          rcases valueStep_cases keys (c :: tail.takeWhile isKeyChar) rest with
            hgap | ⟨a, hfound, hkey, hvalue, hkeys⟩
          · exact .inl hgap
          · have hc : isSpace c = false := by
              have hhead := List.head?_dropWhile_not isSpace cs
              rw [← skipSpace, hstart] at hhead
              exact hhead
            have hreadable : a.IsReadable :=
              ⟨⟨c, _, hkey, hc, fun d hd => List.all_eq_true.mp List.all_takeWhile d hd⟩, hvalue⟩
            exact .inr ⟨a, hfound, hreadable, by rwa [hkey], by rw [hkeys, hkey]⟩

/-- What is found of the attributes can be read again, and no key comes twice. -/
theorem attributesFrom_cases (keys : List (List Char)) (cs : List Char) :
    (∀ a ∈ (attributesFrom keys cs).filterMap id, a.IsReadable ∧ a.key ∉ keys) ∧
      (((attributesFrom keys cs).filterMap id).map (·.key)).Nodup := by
  fun_induction attributesFrom keys cs with
  | case1 keys cs hnone => simp
  | case2 keys cs s hs hlength ih =>
    obtain ⟨hreadable, hnodup⟩ := ih
    rcases attributeStep_cases hs with ⟨hfound, hkeys⟩ | ⟨a, hfound, ha, hnew, hkeys⟩
    · rw [List.filterMap_cons_none (by rw [hfound]; rfl)]
      refine ⟨?_, hnodup⟩
      intro b hb
      exact ⟨(hreadable b hb).1, fun hmem => (hreadable b hb).2 (hkeys hmem)⟩
    · have hlater : ∀ b ∈ (attributesFrom s.keys s.rest).filterMap id, b.key ∉ a.key :: keys :=
        fun b hb => hkeys ▸ (hreadable b hb).2
      rw [List.filterMap_cons_some (by rw [hfound]; rfl)]
      constructor
      · intro b hb
        rcases List.mem_cons.mp hb with rfl | hb
        · exact ⟨ha, hnew⟩
        · exact ⟨(hreadable b hb).1, fun hmem => hlater b hb (List.mem_cons_of_mem _ hmem)⟩
      · refine List.nodup_cons.mpr ⟨?_, hnodup⟩
        intro hmem
        obtain ⟨b, hb, hsame⟩ := List.mem_map.mp hmem
        exact hlater b hb (hsame ▸ List.mem_cons_self)

/-! ### Tags without gaps -/

/-- The tag with the well-formed attributes alone. -/
def Tag.repaired (t : Tag) : Tag := ⟨t.name ++ t.wellFormed.flatMap Attribute.spell⟩

namespace Tag

theorem span_repaired (t : Tag) :
    t.repaired.content.takeWhile (!isSpace ·) = t.name ∧
      t.repaired.content.dropWhile (!isSpace ·) = t.wellFormed.flatMap Attribute.spell := by
  have hname : ∀ c ∈ t.name, isSpace c = false := by
    intro c hc
    simpa using List.all_eq_true.mp List.all_takeWhile c hc
  exact span_name hname (fun _ => ⟨_, rfl⟩) t.wellFormed

theorem name_repaired (t : Tag) : t.repaired.name = t.name := t.span_repaired.1

/-- The repaired tag has the well-formed attributes and no gap. -/
theorem attributes_repaired (t : Tag) : t.repaired.attributes = t.wellFormed.map some := by
  obtain ⟨hreadable, hnodup⟩ := attributesFrom_cases [] (t.content.dropWhile (!isSpace ·))
  rw [attributes, t.span_repaired.2]
  exact attributesFrom_spell (fun a ha => (hreadable a ha).1) hnodup (by simp)

theorem agrees_repaired (t : Tag) : t.Agrees t.repaired where
  name := t.name_repaired
  wellFormed := by
    rw [wellFormed, attributes_repaired, List.filterMap_map]
    exact List.filterMap_some

/-- Where no key holds a quote or a bracket, the repaired tag can be written. -/
theorem isTagText_repaired {t : Tag} (hname : IsWord t.label)
    (hkeys : ∀ a ∈ t.wellFormed, ∀ c ∈ a.key, isQuote c = false ∧ c ≠ '>') :
    IsTagText t.repaired.content := by
  have hchars : t.label.toList = t.name := String.toList_ofList
  have hreadable := (attributesFrom_cases [] (t.content.dropWhile (!isSpace ·))).1
  have hall : PassedOver (t.wellFormed.flatMap Attribute.spell) :=
    PassedOver.flatMap fun a ha => PassedOver.spell (hreadable a ha).1 (hkeys a ha)
  have hword := PassedOver.word hname
  rw [hchars] at hword
  refine ⟨hword.append hall, ?_⟩
  obtain ⟨c, cs, hcs⟩ := List.exists_cons_of_ne_nil hname.ne_nil
  have hc : c.isAlpha := hname.isAlpha c (hcs ▸ List.mem_cons_self)
  refine ⟨c, cs ++ t.wellFormed.flatMap Attribute.spell, ?_, ne_of_isAlpha hc rfl,
    ne_of_isAlpha hc rfl, ne_of_isAlpha hc rfl⟩
  rw [repaired, ← hchars, hcs, List.cons_append]

/-- The last character of a repaired tag is a letter or a quote. -/
theorem getLast?_repaired {t : Tag} (hname : IsWord t.label) :
    t.repaired.content.getLast? ≠ some '/' := by
  have hchars : t.label.toList = t.name := String.toList_ofList
  rw [repaired]
  rcases List.eq_nil_or_concat t.wellFormed with hnil | ⟨as, a, hconcat⟩
  · -- Without attributes the name comes last, otherwise the quote behind the last value.
    rw [hnil, List.flatMap_nil, List.append_nil, ← hchars]
    intro hlast
    have hletter := hname.isAlpha '/' (List.mem_of_getLast? hlast)
    cases hletter
  · have hquote : a.quote ≠ '/' := by
      intro hslash
      have := a.isQuote_quote
      rw [hslash] at this
      cases this
    have hlast : ∃ cs, t.wellFormed.flatMap Attribute.spell = cs ++ [a.quote] :=
      ⟨as.flatMap Attribute.spell ++ ' ' :: (a.key ++ '=' :: a.quote :: a.value),
        by rw [hconcat]; simp [Attribute.spell]⟩
    obtain ⟨cs, hcs⟩ := hlast
    rw [hcs, ← List.append_assoc, List.getLast?_concat]
    exact fun hslash => hquote (Option.some.inj hslash)

end Tag

namespace Event

/-- The characters of a start tag or of an empty-element tag. -/
def spellTag : Event → List Char
  | .start t => startTag t.content
  | .empty t => emptyTag t.content
  | _ => []

/-- The tag without the attributes that are not well formed. -/
def repaired : Event → Event
  | .start t => .start t.repaired
  | .empty t => .empty t.repaired
  | e => e

variable {e : Event} {t : Tag}

theorem agrees_repaired (htag : e.tag? = some t) : e.Agrees e.repaired := by
  cases e with
  | start t' => exact .start t'.agrees_repaired
  | empty t' => exact .empty t'.agrees_repaired
  | close | text | cdata | reference | comment | instruction | doctype => cases htag

/-- A tag that is written without the attributes that are not well formed is read as such, unless
    a key holds a quote or a bracket. -/
theorem next_repaired (htag : e.tag? = some t) (hname : IsWord t.label)
    (hkeys : ∀ a ∈ t.wellFormed, ∀ c ∈ a.key, isQuote c = false ∧ c ≠ '>') (rest : List Char) :
    Event.next (e.repaired.spellTag ++ rest) = some (.ok (e.repaired, rest)) := by
  cases e with
  | start t' =>
    cases htag
    exact (Tag.isTagText_repaired hname hkeys).next_startTag (Tag.getLast?_repaired hname) rest
  | empty t' =>
    cases htag
    exact (Tag.isTagText_repaired hname hkeys).next_emptyTag rest
  | close | text | cdata | reference | comment | instruction | doctype => cases htag

end Event

end TaggedUnion.Xml
