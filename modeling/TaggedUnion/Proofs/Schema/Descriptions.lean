import Mathlib
import TaggedUnion.Proofs.Xml.Forest
import TaggedUnion.Schema.Documentation

/-! # Descriptions as the tree of a fragment says

    The descriptions of parameters are read in one pass over the events of a fragment, with the
    number of open elements and at most one `param` element in mind. This module says that they
    are what a recursion over the tree of the fragment gives:

    * **`Forest.IsWellFormed`**, **`Forest.written`**: the trees that are asked about, and the text
      of one.
    * **`Forest.content`**, **`Forest.descriptions`**: the text below an element, and the names with
      the descriptions that a tree gives, in the order of the text.
    * **`foldlM_step_inside`**: inside a `param` element all text is kept, whatever elements it
      stands in. **`foldlM_step_outside`**: outside, the outermost `param` elements are collected.
    * **`lookup_insertAll`**: of several descriptions of a name the last one counts.
    * **`depth_of_reads`**: the number of open elements is the one that the event reader has, so
      that nothing is said by a fragment that leaves one open.
    * **`collapsed_of_read`**: whatever a fragment says is a collapsed text, well formed or not.
-/

namespace TaggedUnion.Xml

/-! ### Trees with a meaning -/

/-- The text that a leaf stands for; a reference without a meaning stands for none. -/
def Leaf.content {τ : Type} : Leaf τ → List Char
  | reference name => (meaning? name).toList
  | cdata content => content
  | comment _ | empty _ => []

/-- What is asked of a leaf: references and tags are well formed, and neither a section nor a
    comment holds its own end. -/
def Leaf.IsWellFormed : Leaf ElementTag → Prop
  | reference name => IsReference name
  | cdata content => ¬ [']', ']', '>'] <:+: content
  | comment body => ¬ ['-', '-', '>'] <:+: body
  | empty tag => tag.IsWellFormed

instance : DecidablePred Leaf.IsWellFormed
  | .reference name => inferInstanceAs (Decidable (IsReference name))
  | .cdata content => inferInstanceAs (Decidable (¬ [']', ']', '>'] <:+: content))
  | .comment body => inferInstanceAs (Decidable (¬ ['-', '-', '>'] <:+: body))
  | .empty tag => inferInstanceAs (Decidable tag.IsWellFormed)

namespace Forest

/-- What is asked of a forest: its text has no markup in it, and its leaves and tags are well
    formed. -/
abbrev IsWellFormed (f : Forest ElementTag) : Prop :=
  f.Each Leaf.IsWellFormed ElementTag.IsWellFormed

/-- The forest with its tags as they are written. -/
def asWritten (f : Forest ElementTag) : Forest Tag := f.map ElementTag.tag

/-- The text of a forest. -/
def written (f : Forest ElementTag) : String := String.ofList f.asWritten.spell

/-- The text in a forest, at any depth. -/
def content {τ : Type} : Forest τ → List Char
  | nil => []
  | text cs next => cs ++ next.content
  | leaf l next => l.content ++ next.content
  | element _ children next => children.content ++ next.content

/-- The names that the outermost `param` elements of a forest give, each with the text below the
    element. -/
def descriptions : Forest ElementTag → List (String × String)
  | nil => []
  | text _ next => next.descriptions
  | leaf _ next => next.descriptions
  | element tag children next =>
    if tag.name = ['p', 'a', 'r', 'a', 'm'] then
      ((tag.value? ['n', 'a', 'm', 'e']).map fun name =>
        (String.ofList name, Text.collapse (String.ofList children.content))).toList ++
        next.descriptions
    else children.descriptions ++ next.descriptions

theorem IsWellFormed.isWritable {f : Forest ElementTag} (h : f.IsWellFormed) :
    f.asWritten.IsWritable := by
  refine Each.map ?_ (fun _ => ElementTag.isWritable) h
  intro l hl
  cases l with
  | reference name => exact IsReference.isEntityText hl
  | cdata content => exact hl
  | comment body => exact hl
  | empty tag => exact ElementTag.isTagText hl

/-- A byte order mark at the start of a text stands in no element. -/
theorem exists_withoutMark {f : Forest ElementTag} (h : f.IsWellFormed) :
    ∃ g : Forest ElementTag, g.IsWellFormed ∧ g.descriptions = f.descriptions ∧
      g.asWritten.spell = withoutMark f.asWritten.spell := by
  induction f with
  | nil => exact ⟨nil, trivial, rfl, rfl⟩
  | text content next ih =>
    cases content with
    | nil => exact ih h.2
    | cons c cs =>
      by_cases hc : c = '\ufeff'
      · have hcs : IsRunningText cs := fun d hd => h.1 d (List.mem_cons_of_mem c hd)
        refine ⟨.text cs next, ⟨hcs, h.2⟩, rfl, ?_⟩
        simp [asWritten, map, spell, withoutMark, hc]
      · refine ⟨.text (c :: cs) next, h, rfl, ?_⟩
        simp [asWritten, map, spell, withoutMark, hc]
  | leaf l next =>
    have hmark := withoutMark_append ((l.map ElementTag.tag).startsMarkup_spell
      (next.map ElementTag.tag).spell) []
    exact ⟨.leaf l next, h, rfl, hmark.symm⟩
  | element tag children next => exact ⟨.element tag children next, h, rfl, rfl⟩

/-- The text of a forest is read as its events. -/
theorem ofText_written {f : Forest ElementTag} (h : f.IsWellFormed) :
    ∃ g : Forest ElementTag, g.IsWellFormed ∧ g.descriptions = f.descriptions ∧
      Transcript.ofText f.written = ⟨g.asWritten.events [], none⟩ := by
  obtain ⟨g, hg, hdescriptions, hspell⟩ := exists_withoutMark h
  have hempty : IsRunningText [] := by simp [IsRunningText]
  have hreads := reads hg.isWritable hempty startsMarkup_nil []
  rw [List.nil_append, List.append_nil, hspell] at hreads
  refine ⟨g, hg, hdescriptions, ?_⟩
  rw [written, Transcript.ofText_ofList, hreads.within_eq, Transcript.within_nil,
    List.append_nil]

end Forest

end TaggedUnion.Xml

namespace TaggedUnion.Schema

open TaggedUnion.Xml (Event Tag Transcript Leaf Forest ElementTag Reads openBehind)

/-! ### Names of parameters -/

/-- What an attribute of a `param` tag makes of the name that was read before it. -/
def nameBehind (name : Option String) (a : List Char × List Xml.Glyph) : Option String :=
  if a.1 = ['n', 'a', 'm', 'e'] then some (String.ofList (Xml.valueMeaning a.2)) else name

/-- Where no key occurs twice, the name is the value of the one attribute that gives it. -/
theorem foldl_nameBehind {attributes : List (List Char × List Xml.Glyph)}
    (hnodup : (attributes.map (·.1)).Nodup) (name : Option String) :
    attributes.foldl nameBehind name =
      (((attributes.lookup ['n', 'a', 'm', 'e']).map Xml.valueMeaning).map String.ofList).or
        name := by
  induction attributes generalizing name with
  | nil => rfl
  | cons a as ih =>
    obtain ⟨hfirst, hrest⟩ := List.nodup_cons.mp hnodup
    rw [List.foldl_cons, ih hrest]
    by_cases ha : a.1 = ['n', 'a', 'm', 'e']
    · -- The name is given here, and nowhere behind.
      have hnone : as.lookup ['n', 'a', 'm', 'e'] = none := by
        rw [List.lookup_eq_none_iff]
        intro b hb
        rw [← ha, bne_iff_ne]
        intro heq
        exact hfirst (List.mem_map.mpr ⟨b, hb, heq.symm⟩)
      have hself : (a :: as).lookup ['n', 'a', 'm', 'e'] = some a.2 := by
        rw [← ha]
        exact List.lookup_cons_self
      rw [hnone, hself, nameBehind, if_pos ha]
      rfl
    · have hother : (a :: as).lookup ['n', 'a', 'm', 'e'] = as.lookup ['n', 'a', 'm', 'e'] := by
        rw [List.lookup_cons, beq_eq_false_iff_ne.mpr (Ne.symm ha)]
      rw [hother, nameBehind, if_neg ha]

/-- One step in search of the name that a tag gives. -/
def nameStep (name : Option String) : Option Xml.Attribute → Option (Option String)
  | none => none
  | some a =>
    if a.key = ['n', 'a', 'm', 'e'] then
      match Xml.unescape a.value with
      | .ok cs => some (some (String.ofList cs))
      | .error _ => none
    else some name

theorem describedName_eq (tag : Tag) : describedName tag = tag.attributes.foldlM nameStep none :=
  rfl

theorem nameStep_spelled {a : List Char × List Xml.Glyph} (h : ∀ g ∈ a.2, g.IsEscaped)
    (name : Option String) :
    nameStep name (some (Xml.Attribute.spelled a)) = some (nameBehind name a) := by
  have hread : Xml.unescape (Xml.Attribute.spelled a).value = .ok (Xml.valueMeaning a.2) :=
    Xml.unescape_spell h
  by_cases ha : a.1 = ['n', 'a', 'm', 'e']
  · rw [nameStep, nameBehind, if_pos (show (Xml.Attribute.spelled a).key = _ from ha), if_pos ha,
      hread]
  · rw [nameStep, nameBehind, if_neg (show (Xml.Attribute.spelled a).key ≠ _ from ha), if_neg ha]

theorem foldlM_nameStep {attributes : List (List Char × List Xml.Glyph)}
    (h : ∀ a ∈ attributes, ∀ g ∈ a.2, g.IsEscaped) (name : Option String) :
    ((attributes.map Xml.Attribute.spelled).map some).foldlM nameStep name =
      some (attributes.foldl nameBehind name) := by
  induction attributes generalizing name with
  | nil => rfl
  | cons a as ih =>
    rw [List.map_cons, List.map_cons, List.foldlM_cons, nameStep_spelled (h a List.mem_cons_self)]
    exact ih (fun b hb => h b (List.mem_cons_of_mem a hb)) (nameBehind name a)

/-- The name that a tag gives is what the value of its attribute means. -/
theorem describedName_tag {t : ElementTag} (h : t.IsWellFormed) :
    describedName t.tag = some ((t.value? ['n', 'a', 'm', 'e']).map String.ofList) := by
  rw [describedName_eq, ElementTag.tag_attributes h, foldlM_nameStep h.values,
    foldl_nameBehind h.nodup, Option.or_none]
  rfl

/-! ### Several descriptions -/

/-- The descriptions with all entries set, one after the other. -/
def Descriptions.insertAll (ds : Descriptions) (entries : List (String × String)) :
    Descriptions :=
  entries.foldl (fun ds d => ds.insert d.1 d.2) ds

theorem Descriptions.insertAll_append (ds : Descriptions) (entries later : List (String × String)) :
    ds.insertAll (entries ++ later) = (ds.insertAll entries).insertAll later :=
  List.foldl_append

theorem lookup_cons_of_ne {name other : String} (h : other ≠ name) (text : String)
    (ds : Descriptions) : List.lookup other ((name, text) :: ds) = ds.lookup other := by
  rw [List.lookup_cons, beq_eq_false_iff_ne.mpr h]

/-- The descriptions that are dropped are those of another name. -/
theorem lookup_filter_ne {name other : String} (h : other ≠ name) (ds : Descriptions) :
    (List.filter (fun d => d.1 ≠ name) ds).lookup other = ds.lookup other := by
  induction ds with
  | nil => rfl
  | cons d ds ih =>
    obtain ⟨key, text⟩ := d
    by_cases hkey : key = name
    · rw [List.filter_cons_of_neg (by simp [hkey]), ih, lookup_cons_of_ne (hkey ▸ h)]
    · rw [List.filter_cons_of_pos (by simp [hkey]), List.lookup_cons, List.lookup_cons, ih]

/-- Setting a description changes that of its name. -/
theorem lookup_insert (ds : Descriptions) (name text other : String) :
    (ds.insert name text).lookup other = if other = name then some text else ds.lookup other := by
  by_cases hname : other = name
  · rw [if_pos hname, hname]
    exact List.lookup_cons_self
  · rw [if_neg hname, Descriptions.insert, lookup_cons_of_ne hname, lookup_filter_ne hname]

/-- Of several descriptions of a name the last one counts. -/
theorem lookup_insertAll (ds : Descriptions) (entries : List (String × String)) (name : String) :
    (ds.insertAll entries).lookup name = (entries.reverse.lookup name).or (ds.lookup name) := by
  induction entries generalizing ds with
  | nil => rfl
  | cons d entries ih =>
    have hinsert := ih (ds.insert d.1 d.2)
    rw [Descriptions.insertAll, List.foldl_cons, ← Descriptions.insertAll, hinsert, lookup_insert,
      List.reverse_cons, List.lookup_append, Option.or_assoc]
    by_cases hname : name = d.1
    · have hself : List.lookup name [d] = some d.2 := by
        rw [hname]
        exact List.lookup_cons_self
      rw [if_pos hname, hself]
      rfl
    · have hnone : List.lookup name [d] = none := lookup_cons_of_ne hname d.2 []
      rw [if_neg hname, hnone]
      rfl

/-- No name occurs twice. -/
theorem nodup_insert {ds : Descriptions} (h : (ds.map (·.1)).Nodup) (name text : String) :
    ((ds.insert name text).map (·.1)).Nodup := by
  rw [Descriptions.insert, List.map_cons, List.nodup_cons]
  constructor
  · intro hmem
    obtain ⟨d, hd, hname⟩ := List.mem_map.mp hmem
    have hne := (List.mem_filter.mp hd).2
    simp [hname] at hne
  · exact h.sublist (List.filter_sublist.map _)

theorem nodup_insertAll {ds : Descriptions} (h : (ds.map (·.1)).Nodup)
    (entries : List (String × String)) : ((ds.insertAll entries).map (·.1)).Nodup := by
  induction entries generalizing ds with
  | nil => exact h
  | cons d entries ih => exact ih (nodup_insert h d.1 d.2)

/-! ### Inside an element -/

namespace DocumentationState

variable {s : DocumentationState}

/-- A `param` element is being read, and it is open. -/
def IsInside (s : DocumentationState) : Prop := ∃ o, s.current = some o ∧ o.depth ≤ s.depth

theorem add_of_none (h : s.current = none) (cs : List Char) : s.add cs = s := by
  rw [add, h]
  exact congrArg (fun c => { s with current := c }) h.symm

theorem add_nil (s : DocumentationState) : s.add [] = s := by
  obtain ⟨depth, current, found⟩ := s
  cases current with
  | none => rfl
  | some o => simp [add]

theorem add_add (s : DocumentationState) (cs ds : List Char) :
    (s.add cs).add ds = s.add (cs ++ ds) := by
  obtain ⟨depth, current, found⟩ := s
  cases current with
  | none => rfl
  | some o => simp [add, String.append_assoc]

theorem IsInside.add (h : s.IsInside) (cs : List Char) : (s.add cs).IsInside := by
  obtain ⟨o, ho, hdepth⟩ := h
  exact ⟨{ o with text := o.text ++ String.ofList cs }, by rw [DocumentationState.add, ho]; rfl,
    hdepth⟩

/-- The state inside one more element. -/
def deeper (s : DocumentationState) : DocumentationState := { s with depth := s.depth + 1 }

theorem IsInside.deeper (h : s.IsInside) : s.deeper.IsInside := by
  obtain ⟨o, ho, hdepth⟩ := h
  exact ⟨o, ho, Nat.le_succ_of_le hdepth⟩

/-- Inside a `param` element no tag is looked at. -/
theorem openTag_inside (h : s.IsInside) (tag : Tag) : s.openTag tag = some s.deeper := by
  obtain ⟨o, ho, -⟩ := h
  simp [openTag, DocumentationState.deeper, ho]

/-- An end tag further in ends nothing. -/
theorem closeTag_deeper (h : s.IsInside) : s.deeper.closeTag = s := by
  obtain ⟨depth, current, found⟩ := s
  obtain ⟨o, rfl, hdepth⟩ := h
  have hne : o.depth ≠ depth + 1 := Nat.ne_of_lt (Nat.lt_succ_of_le hdepth)
  simp [closeTag, DocumentationState.deeper, hne]

theorem foldlM_step_textEvents (s : DocumentationState) (gap : List Char) :
    (Xml.textEvents gap).foldlM step s = some (s.add gap) := by
  by_cases hgap : gap = []
  · rw [Xml.textEvents, if_pos hgap, hgap, add_nil]
    rfl
  · rw [Xml.textEvents, if_neg hgap]
    rfl

/-- A leaf adds the text that it stands for. -/
theorem step_leaf {l : Leaf ElementTag} (h : l.IsWellFormed) (s : DocumentationState) :
    s.step (l.map ElementTag.tag).event = some (s.add l.content) := by
  cases l with
  | reference name =>
    show some (s.add (Xml.resolve? name).toList) = _
    rw [Xml.resolve?_eq h]
    rfl
  | cdata content => rfl
  | comment body => exact congrArg some s.add_nil.symm
  | empty tag => exact congrArg some s.add_nil.symm

/-- A leaf is one step behind the text before it. -/
theorem foldlM_step_leaf {l : Leaf ElementTag} (h : l.IsWellFormed) (next : Forest ElementTag)
    (gap : List Char) (s : DocumentationState) :
    ((Forest.leaf l next).asWritten.events gap).foldlM step s =
      (next.asWritten.events []).foldlM step (s.add (gap ++ l.content)) := by
  show (Xml.textEvents gap ++ (l.map ElementTag.tag).event ::
    next.asWritten.events []).foldlM step s = _
  rw [List.foldlM_append, foldlM_step_textEvents, ← add_add]
  show ((s.add gap).step (l.map ElementTag.tag).event).bind _ = _
  rw [step_leaf h]
  rfl

/-- An element is a start tag, what stands below it, and an end tag, behind the text before it. -/
theorem foldlM_step_element (tag : ElementTag) (children next : Forest ElementTag)
    (gap : List Char) (s : DocumentationState) :
    ((Forest.element tag children next).asWritten.events gap).foldlM step s =
      ((s.add gap).openTag tag.tag).bind fun inner =>
        ((children.asWritten.events []).foldlM step inner).bind fun behind =>
          (next.asWritten.events []).foldlM step behind.closeTag := by
  show (Xml.textEvents gap ++ .start tag.tag :: (children.asWritten.events [] ++
    .close tag.tag.name :: next.asWritten.events [])).foldlM step s = _
  rw [List.foldlM_append, foldlM_step_textEvents]
  show ((s.add gap).openTag tag.tag).bind _ = _
  refine congrArg _ (funext fun inner => ?_)
  rw [List.foldlM_append]
  rfl

/-- Inside a `param` element all text is kept, whatever elements it stands in. -/
theorem foldlM_step_inside {f : Forest ElementTag} (h : f.IsWellFormed) (gap : List Char)
    (hs : s.IsInside) :
    (f.asWritten.events gap).foldlM step s = some (s.add (gap ++ f.content)) := by
  induction f generalizing gap s with
  | nil =>
    rw [Forest.content, List.append_nil]
    exact foldlM_step_textEvents s gap
  | text content next ih =>
    have hnext := ih h.2 (gap ++ content) hs
    rwa [List.append_assoc] at hnext
  | leaf l next ih =>
    rw [foldlM_step_leaf h.1, ih h.2 [] (hs.add _), add_add, List.nil_append, List.append_assoc]
    rfl
  | element tag children next ihchildren ihnext =>
    have hgap := hs.add gap
    have hchildren := ihchildren h.2.1 [] hgap.deeper
    have hnext := ihnext h.2.2 [] (hgap.add children.content)
    -- Behind the end tag the state is as if the text had stood outside of the element.
    have hclose : ((s.add gap).deeper.add children.content).closeTag =
        (s.add gap).add children.content := closeTag_deeper (hgap.add _)
    rw [foldlM_step_element, openTag_inside hgap, Option.bind_some, hchildren, Option.bind_some,
      List.nil_append, hclose, hnext, add_add, add_add, List.nil_append]
    rfl

/-! ### Outside of elements -/

/-- The state with further descriptions set. -/
def describe (s : DocumentationState) (entries : List (String × String)) : DocumentationState :=
  { s with found := s.found.insertAll entries }

/-- An element that describes nothing leaves the state as it was. -/
theorem closeTag_outside (h : s.current = none) (entries : List (String × String)) :
    (s.deeper.describe entries).closeTag = s.describe entries := by
  obtain ⟨depth, current, found⟩ := s
  cases h
  rfl

theorem openTag_outside {tag : Tag} (hname : tag.name ≠ ['p', 'a', 'r', 'a', 'm']) :
    s.openTag tag = some s.deeper := by
  simp [openTag, DocumentationState.deeper, hname]

/-- The state inside a `param` element that stands in no other one. -/
def describing (s : DocumentationState) (name : Option String) : DocumentationState :=
  { s.deeper with current := some ⟨name, s.depth + 1, ""⟩ }

theorem isInside_describing (s : DocumentationState) (name : Option String) :
    (s.describing name).IsInside := ⟨_, rfl, Nat.le_refl _⟩

theorem openTag_param (h : s.current = none) {tag : Tag} {name : Option String}
    (hparam : tag.name = ['p', 'a', 'r', 'a', 'm']) (hname : describedName tag = some name) :
    s.openTag tag = some (s.describing name) := by
  simp [openTag, describing, DocumentationState.deeper, h, hparam, hname]

/-- The end tag of a `param` element sets the description of the name that it gives. -/
theorem closeTag_describing (h : s.current = none) (name : Option String) (cs : List Char) :
    ((s.describing name).add cs).closeTag =
      s.describe (name.map fun name => (name, Text.collapse (String.ofList cs))).toList := by
  obtain ⟨depth, current, found⟩ := s
  cases h
  cases name with
  | none => simp [describing, add, closeTag, describe, DocumentationState.deeper,
      Descriptions.insertAll]
  | some name => simp [describing, add, closeTag, describe, DocumentationState.deeper,
      Descriptions.insertAll]

/-- Outside of `param` elements the descriptions are set that the tree gives. -/
theorem foldlM_step_outside {f : Forest ElementTag} (h : f.IsWellFormed) (gap : List Char)
    (hs : s.current = none) :
    (f.asWritten.events gap).foldlM step s = some (s.describe f.descriptions) := by
  induction f generalizing gap s with
  | nil =>
    have hgap := foldlM_step_textEvents s gap
    rwa [add_of_none hs] at hgap
  | text content next ih => exact ih h.2 (gap ++ content) hs
  | leaf l next ih =>
    rw [foldlM_step_leaf h.1, add_of_none hs]
    exact ih h.2 [] hs
  | element tag children next ihchildren ihnext =>
    obtain ⟨htag, hchildren, hnext⟩ := h
    rw [foldlM_step_element, add_of_none hs]
    by_cases hparam : tag.name = ['p', 'a', 'r', 'a', 'm']
    · -- The tree below the element is read as text.
      have hname : tag.tag.name = ['p', 'a', 'r', 'a', 'm'] := by
        rw [ElementTag.tag_name htag.name, hparam]
      rw [openTag_param hs hname (describedName_tag htag), Option.bind_some,
        foldlM_step_inside hchildren [] (isInside_describing s _), Option.bind_some,
        closeTag_describing hs]
      rw [ihnext hnext [] (show (s.describe _).current = none from hs)]
      simp only [describe, Forest.descriptions, if_pos hparam, Descriptions.insertAll_append,
        Option.map_map, List.nil_append]
      rfl
    · have hname : tag.tag.name ≠ ['p', 'a', 'r', 'a', 'm'] := by
        rwa [ElementTag.tag_name htag.name]
      rw [openTag_outside hname, Option.bind_some,
        ihchildren hchildren [] (show s.deeper.current = none from hs), Option.bind_some,
        closeTag_outside hs, ihnext hnext [] (show (s.describe _).current = none from hs)]
      simp only [describe, Forest.descriptions, if_neg hparam, Descriptions.insertAll_append]

/-! ### Open elements -/

/-- The number of open elements is the one that the event reader has. -/
theorem depth_of_step {s s' : DocumentationState} {e : Event} {opened next : List (List Char)}
    (hs : s.step e = some s') (henter : e.enter opened = .ok next)
    (hdepth : s.depth = opened.length) : s'.depth = next.length := by
  cases e with
  | start tag =>
    cases henter
    have hopen : s'.depth = s.depth + 1 := by
      simp only [step, openTag] at hs
      split at hs
      · obtain ⟨name, -, rfl⟩ := Option.map_eq_some_iff.mp hs
        rfl
      · cases hs
        rfl
    rw [hopen, hdepth]
    rfl
  | close name =>
    cases hs
    have hclose : s.closeTag.depth = s.depth - 1 := by
      unfold closeTag
      split
      · rfl
      · split
        · split <;> rfl
        · rfl
    have hnest := Event.nest_of_enter henter
    rw [hclose, hdepth, ← hnest]
    simp [Event.nest]
  | empty | text | cdata | reference | comment | instruction | doctype =>
    cases hs
    cases henter
    exact hdepth

theorem depth_of_reads {s s' : DocumentationState} {opened inner : List (List Char)}
    {cs rest : List Char} {es : List Event} (h : Reads opened cs es inner rest)
    (hs : es.foldlM step s = some s') (hdepth : s.depth = opened.length) :
    s'.depth = inner.length := by
  induction h generalizing s with
  | here =>
    cases hs
    exact hdepth
  | event _ henter _ ih =>
    rw [List.foldlM_cons] at hs
    obtain ⟨next, hnext, htail⟩ := Option.bind_eq_some_iff.mp hs
    exact ih htail (depth_of_step hnext henter hdepth)

/-! ### Collapsed text -/

/-- Every description that has been set is a collapsed text. -/
def IsCollapsed (s : DocumentationState) : Prop :=
  ∀ d ∈ s.found, ∃ raw, d.2 = Text.collapse raw

theorem IsCollapsed.step {s s' : DocumentationState} {e : Event} (h : s.IsCollapsed)
    (hs : s.step e = some s') : s'.IsCollapsed := by
  cases e with
  | start tag =>
    simp only [DocumentationState.step, openTag] at hs
    split at hs
    · obtain ⟨name, -, rfl⟩ := Option.map_eq_some_iff.mp hs
      exact h
    · cases hs
      exact h
  | close name =>
    cases hs
    show s.closeTag.IsCollapsed
    unfold closeTag
    split
    · exact h
    · next o ho =>
      split
      · split
        · next name hname =>
          -- The new description is collapsed, and those of other names are kept.
          intro d hd
          rcases List.mem_cons.mp hd with rfl | hd
          · exact ⟨o.text, rfl⟩
          · exact h d (List.mem_filter.mp hd).1
        · exact h
      · exact h
  | empty | text | cdata | reference | comment | instruction | doctype =>
    cases hs
    exact h

theorem IsCollapsed.run {s s' : DocumentationState} {es : List Event} (h : s.IsCollapsed)
    (hs : es.foldlM DocumentationState.step s = some s') : s'.IsCollapsed := by
  induction es generalizing s with
  | nil =>
    cases hs
    exact h
  | cons e es ih =>
    rw [List.foldlM_cons] at hs
    obtain ⟨next, hnext, htail⟩ := Option.bind_eq_some_iff.mp hs
    exact ih (h.step hnext) htail

end DocumentationState

/-- Whatever a fragment says is a collapsed text. -/
theorem collapsed_of_read {text : String} {ds : Descriptions}
    (h : Descriptions.read text = some ds) : ∀ d ∈ ds, ∃ raw, d.2 = Text.collapse raw := by
  obtain ⟨s, hs, hfound⟩ := Option.bind_eq_some_iff.mp h
  have hempty : ({} : DocumentationState).IsCollapsed := by
    intro d hd
    cases hd
  have hcollapsed := hempty.run hs
  by_cases hend : (Transcript.ofText text).fault.isNone ∧ s.depth = 0
  · rw [if_pos hend] at hfound
    rw [← Option.some.inj hfound]
    exact hcollapsed
  · rw [if_neg hend] at hfound
    cases hfound

/-- A fragment that cannot be read to its end, or that leaves an element open, says nothing. -/
theorem read_eq_none {text : String}
    (h : (Transcript.ofText text).fault.isSome ∨
      openBehind [] (Transcript.ofText text).events ≠ []) : Descriptions.read text = none := by
  unfold Descriptions.read Descriptions.ofTranscript
  cases hrun : (Transcript.ofText text).events.foldlM DocumentationState.step {} with
  | none => rfl
  | some s =>
    show (if (Transcript.ofText text).fault.isNone ∧ s.depth = 0 then _ else none) = none
    refine if_neg ?_
    rintro ⟨hfault, hdepth⟩
    rcases h with hsome | hopen
    · rw [Option.isNone_iff_eq_none.mp hfault] at hsome
      cases hsome
    · -- The text was read to its end, and there the two counts agree.
      have htext := Transcript.ofText_ofList text.toList
      rw [String.ofList_toList] at htext
      rw [htext] at hfault hrun hopen
      obtain ⟨inner, hreads⟩ := Transcript.exists_reads (Option.isNone_iff_eq_none.mp hfault)
      have hinner := DocumentationState.depth_of_reads hreads hrun rfl
      rw [hreads.inner_eq] at hinner
      exact hopen (List.length_eq_zero_iff.mp (hinner.symm.trans hdepth))

/-- The descriptions of a fragment are those that its tree gives, the last one of each name; a
    fragment without a tree gives none. -/
theorem read_forest :
    (∀ f : Forest ElementTag, f.IsWellFormed →
        ∃ ds, Descriptions.read f.written = some ds ∧ (ds.map (·.1)).Nodup ∧
          ∀ name, ds.lookup name = f.descriptions.reverse.lookup name) ∧
      ∀ text, ((Transcript.ofText text).fault.isSome ∨
          openBehind [] (Transcript.ofText text).events ≠ []) →
        Descriptions.read text = none := by
  constructor
  · intro f hf
    obtain ⟨g, hg, hdescriptions, htranscript⟩ := Forest.ofText_written hf
    have hrun := DocumentationState.foldlM_step_outside (s := {}) hg [] rfl
    have hread : Descriptions.read f.written =
        some (Descriptions.insertAll [] g.descriptions) := by
      rw [Descriptions.read, Descriptions.ofTranscript, htranscript, hrun]
      rfl
    refine ⟨_, hread, nodup_insertAll (by simp) _, ?_⟩
    intro name
    rw [lookup_insertAll, hdescriptions, List.lookup_nil, Option.or_none]
  · intro text htext
    exact read_eq_none htext

/-- A tag with at most a name of a parameter. -/
def describingTag (name : String) (described : Option (List Xml.Glyph)) : ElementTag :=
  ⟨name.toList, described.toList.map fun value => ("name".toList, value)⟩

/-- `<param name="a">first</param><p><param name="a&amp;b"> two <param name="c">&lt;</param>
    <![CDATA[& ]]><!-- --><b/>&#x41;&unknown;</param></p><param>no name</param>
    <param name="a">la<i>st</i></param>`, without the line breaks. -/
def nestedFragment : Forest ElementTag :=
  .element (describingTag "param" (some [.plain 'a'])) (.text "first".toList .nil) <|
  .element (describingTag "p" none)
    (.element (describingTag "param" (some [.plain 'a', .reference "amp".toList, .plain 'b']))
      (.text " two ".toList <|
        .element (describingTag "param" (some [.plain 'c']))
          (.leaf (.reference "lt".toList) .nil) <|
        .leaf (.cdata "& ".toList) <| .leaf (.comment " ".toList) <|
        .leaf (.empty (describingTag "b" none)) <| .leaf (.reference "#x41".toList) <|
        .leaf (.reference "unknown".toList) .nil)
      .nil) <|
  .element (describingTag "param" none) (.text "no name".toList .nil) <|
  .element (describingTag "param" (some [.plain 'a']))
    (.text "la".toList (.element (describingTag "i" none) (.text "st".toList .nil) .nil)) .nil

theorem read_forest_nested :
    nestedFragment.IsWellFormed ∧
      (∃ ds, Descriptions.read nestedFragment.written = some ds ∧ ds.lookup "a" = some "last" ∧
        ds.lookup "a&b" = some "two <& A" ∧ ds.lookup "c" = none) ∧
      Descriptions.read "<param name='a'>open" = none := by
  have hwell : nestedFragment.IsWellFormed := by decide
  obtain ⟨ds, hread, -, hlookup⟩ := read_forest.1 nestedFragment hwell
  have hopen : openBehind [] (Transcript.ofText "<param name='a'>open").events =
      ["param".toList] := by cbv
  refine ⟨hwell, ⟨ds, hread, ?_, ?_, ?_⟩, read_forest.2 _ (.inr (by simp [hopen]))⟩
  · exact (hlookup "a").trans (by decide)
  · exact (hlookup "a&b").trans (by decide)
  · exact (hlookup "c").trans (by decide)

end TaggedUnion.Schema
