import TaggedUnion.Proofs.Xml.ElementTag
import TaggedUnion.Proofs.Xml.Filler

/-! # Forests and the events they are read as

    Marked-up text as the tree that it stands for:

    * **`Forest`**: running text, leaves and elements in the order of the text. The tags are of any
      type, so that the same forest can be looked at with its tags as they are meant and, by
      **`Forest.map`**, with its tags as they are written.
    * **`Forest.spell`**: the characters. **`Forest.events`**: the events; running text that is not
      interrupted is read as one of them, whatever pieces it was written in.
    * **`Forest.IsWritable`**: what is asked of the pieces, and **`Forest.reads`**: such a forest is
      read as its events, inside any open elements and before any markup.
-/

namespace TaggedUnion.Xml

/-! ### Trees -/

/-- A piece of marked-up text that has no content of its own. -/
inductive Leaf (τ : Type) where
  | reference (name : List Char)
  | cdata (content : List Char)
  | comment (body : List Char)
  /-- An element in one tag. -/
  | empty (tag : τ)
deriving Repr, DecidableEq

/-- Marked-up text, by what it begins with. -/
inductive Forest (τ : Type) where
  | nil
  | text (content : List Char) (next : Forest τ)
  | leaf (leaf : Leaf τ) (next : Forest τ)
  /-- An element in a start tag and an end tag. -/
  | element (tag : τ) (children next : Forest τ)
deriving Repr, DecidableEq

/-- A leaf with its tag seen in another way. -/
def Leaf.map {τ υ : Type} (f : τ → υ) : Leaf τ → Leaf υ
  | reference name => .reference name
  | cdata content => .cdata content
  | comment body => .comment body
  | empty tag => .empty (f tag)

namespace Forest

variable {τ υ : Type}

/-- A forest with its tags seen in another way. -/
def map (f : τ → υ) : Forest τ → Forest υ
  | nil => .nil
  | text content next => .text content (next.map f)
  | leaf l next => .leaf (l.map f) (next.map f)
  | element tag children next => .element (f tag) (children.map f) (next.map f)

/-- The text of a forest is running text, and its leaves and tags are as asked for. -/
def Each (leafIs : Leaf τ → Prop) (tagIs : τ → Prop) : Forest τ → Prop
  | nil => True
  | text content next => IsRunningText content ∧ next.Each leafIs tagIs
  | leaf l next => leafIs l ∧ next.Each leafIs tagIs
  | element tag children next =>
    tagIs tag ∧ children.Each leafIs tagIs ∧ next.Each leafIs tagIs

instance decidableEach {leafIs : Leaf τ → Prop} {tagIs : τ → Prop} [DecidablePred leafIs]
    [DecidablePred tagIs] : DecidablePred (Each leafIs tagIs)
  | nil => inferInstanceAs (Decidable True)
  | text content next =>
    have : Decidable (next.Each leafIs tagIs) := decidableEach next
    inferInstanceAs (Decidable (IsRunningText content ∧ _))
  | leaf l next =>
    have : Decidable (next.Each leafIs tagIs) := decidableEach next
    inferInstanceAs (Decidable (leafIs l ∧ _))
  | element tag children next =>
    have : Decidable (children.Each leafIs tagIs) := decidableEach children
    have : Decidable (next.Each leafIs tagIs) := decidableEach next
    inferInstanceAs (Decidable (tagIs tag ∧ _ ∧ _))

/-- What is asked of the pieces carries over to the pieces seen in another way. -/
theorem Each.map {leafIs : Leaf τ → Prop} {tagIs : τ → Prop} {leafIs' : Leaf υ → Prop}
    {tagIs' : υ → Prop} {f : τ → υ} (hleaf : ∀ l, leafIs l → leafIs' (l.map f))
    (htag : ∀ tag, tagIs tag → tagIs' (f tag)) {forest : Forest τ}
    (h : forest.Each leafIs tagIs) : (forest.map f).Each leafIs' tagIs' := by
  induction forest with
  | nil => trivial
  | text content next ih => exact ⟨h.1, ih h.2⟩
  | leaf l next ih => exact ⟨hleaf l h.1, ih h.2⟩
  | element tag children next ihchildren ihnext =>
    exact ⟨htag tag h.1, ihchildren h.2.1, ihnext h.2.2⟩

end Forest

/-! ### Leaves -/

namespace Leaf

/-- The characters of a leaf. -/
def spell : Leaf Tag → List Char
  | reference name => '&' :: (name ++ [';'])
  | cdata content => (Filler.cdata content).spell
  | comment body => (Filler.comment body).spell
  | empty tag => (Filler.element tag.content).spell

/-- The event that a leaf is read as. -/
def event : Leaf Tag → Event
  | reference name => .reference name
  | cdata content => .cdata content
  | comment _ => .comment
  | empty tag => .empty tag

/-- What is asked of a leaf: nothing in it ends it early. -/
def IsWritable : Leaf Tag → Prop
  | reference name => IsEntityText name
  | cdata content => (Filler.cdata content).IsWritable
  | comment body => (Filler.comment body).IsWritable
  | empty tag => (Filler.element tag.content).IsWritable

theorem next_spell {l : Leaf Tag} (h : l.IsWritable) (rest : List Char) :
    Event.next (l.spell ++ rest) = some (.ok (l.event, rest)) := by
  cases l with
  | reference name =>
    have hend := IsEntityText.referenceNext_eq h rest
    rw [spell, List.cons_append, List.append_assoc, List.singleton_append]
    show some ((referenceNext (name ++ ';' :: rest)).map _) = _
    rw [hend]
    rfl
  | cdata content => exact Filler.next_spell (m := .cdata content) h rest
  | comment body => exact Filler.next_spell (m := .comment body) h rest
  | empty tag => exact Filler.next_spell (m := .element tag.content) h rest

theorem startsMarkup_spell (l : Leaf Tag) (rest : List Char) :
    StartsMarkup (l.spell ++ rest) := by
  cases l with
  | reference name => simp [StartsMarkup, spell, isTextChar]
  | cdata | comment | empty => exact startsMarkup_bracket _

theorem enter_event (l : Leaf Tag) (opened : List (List Char)) :
    l.event.enter opened = .ok opened := by
  cases l <;> rfl

end Leaf

/-! ### Forests as they are read -/

/-- A tag that can be written as a start tag, with a name that an end tag can have. -/
structure Tag.IsWritable (tag : Tag) : Prop where
  text : IsTagText tag.content
  slash : tag.content.getLast? ≠ some '/'
  name : IsClosable tag.name

/-- A tag that is made of names and escaped values can be written. -/
theorem ElementTag.isWritable {t : ElementTag} (h : t.IsWellFormed) : t.tag.IsWritable where
  text := isTagText h
  slash := getLast?_tag h
  name := by
    rw [tag_name h.name]
    exact h.name.isClosable

/-- The event that running text is read as; without text there is none. -/
def textEvents (gap : List Char) : List Event := if gap = [] then [] else [.text gap]

theorem IsRunningText.reads_textEvents {gap rest : List Char} (h : IsRunningText gap)
    (hrest : StartsMarkup rest) (opened : List (List Char)) :
    Reads opened (gap ++ rest) (textEvents gap) opened rest := by
  cases gap with
  | nil => exact .here opened rest
  | cons c gap => exact .event (next_running h hrest) rfl (.here opened rest)

namespace Forest

/-- The characters of a forest. -/
def spell : Forest Tag → List Char
  | nil => []
  | text content next => content ++ next.spell
  | leaf l next => l.spell ++ next.spell
  | element tag children next =>
    startTag tag.content ++ (children.spell ++ (endTag tag.name ++ next.spell))

/-- The events that a forest is read as behind the running text `gap`. -/
def events (gap : List Char) : Forest Tag → List Event
  | nil => textEvents gap
  | text content next => next.events (gap ++ content)
  | leaf l next => textEvents gap ++ l.event :: next.events []
  | element tag children next =>
    textEvents gap ++ .start tag ::
      (children.events [] ++ .close tag.name :: next.events [])

/-- What is asked of the pieces of a forest, so that they are read as they are written. -/
abbrev IsWritable (f : Forest Tag) : Prop := f.Each Leaf.IsWritable Tag.IsWritable

/-- A forest is read as its events, and leaves the open elements as they were. -/
theorem reads {f : Forest Tag} (h : f.IsWritable) {gap : List Char} (hgap : IsRunningText gap)
    {rest : List Char} (hrest : StartsMarkup rest) (opened : List (List Char)) :
    Reads opened (gap ++ (f.spell ++ rest)) (f.events gap) opened rest := by
  -- Text that is written in pieces is read at once, so that the text before the forest grows.
  induction f generalizing gap rest opened with
  | nil => exact hgap.reads_textEvents hrest opened
  | text content next ih =>
    have hreads := ih h.2 (hgap.append h.1) hrest opened
    rwa [List.append_assoc, ← List.append_assoc content] at hreads
  | leaf l next ih =>
    have hmarkup := l.startsMarkup_spell (next.spell ++ rest)
    have hempty : IsRunningText [] := by simp [IsRunningText]
    have hnext := ih h.2 hempty hrest opened
    rw [spell, List.append_assoc]
    exact (hgap.reads_textEvents hmarkup opened).trans
      (.event (Leaf.next_spell h.1 _) (l.enter_event opened) hnext)
  | element tag children next ihchildren ihnext =>
    obtain ⟨htag, hchildren, hnext⟩ := h
    have hempty : IsRunningText [] := by simp [IsRunningText]
    have hclose : (Event.close tag.name).enter (tag.name :: opened) = .ok opened := by
      rw [Event.enter, if_pos rfl]
    have hbehind : Reads (tag.name :: opened) (endTag tag.name ++ (next.spell ++ rest))
        (.close tag.name :: next.events []) opened rest :=
      .event (Event.next_endTag htag.name _) hclose (ihnext hnext hempty hrest opened)
    have hinside := ihchildren hchildren hempty
      (startsMarkup_endTag tag.name (next.spell ++ rest)) (tag.name :: opened)
    rw [spell, List.append_assoc, List.append_assoc, List.append_assoc]
    exact (hgap.reads_textEvents (startsMarkup_startTag _ _) opened).trans
      (.event (htag.text.next_startTag htag.slash _) rfl (hinside.trans hbehind))

end Forest

end TaggedUnion.Xml
