import TaggedUnion.Proofs.Text.Lines
import TaggedUnion.Proofs.Xml.WrittenText
import TaggedUnion.Schema.Reader

/-! # Writing a schema document

    A document is written with one root element that holds the types, the unions and the aliases
    in order. This module says what is written, and that every tag is read as what it was
    written from:

    * **`attributes`** of a type, a constructor, a parameter and a union.
    * **`typeOf_written`**, **`constructorOf_written`**, … : the tags one by one.
    * **`lines`** of a type, a constructor and a union, and `documentLines`: whole elements,
      with any running text `gap n` before the elements at depth `n`.
-/

namespace TaggedUnion.Schema

open TaggedUnion.Xml (Tag Line Markup IsWord AreAttributes IsContent)

/-! ### Lists between commas -/

section commas

open TaggedUnion.Text

/-- A space at the start of a text is no part of the list. -/
theorem commaList_space (s : String) : commaList (" " ++ s) = commaList s := by
  have hspace : (" " ++ s).toList = ' ' :: s.toList := by simp
  have htrim (p : List Char) : trim (String.ofList (' ' :: p)) = trim (String.ofList p) := by
    have hblank : isBlank ' ' = true := by decide
    rw [trim, trim, String.toList_ofList, String.toList_ofList, strip,
      List.dropWhile_cons_of_pos hblank, strip]
  -- The space goes into the first part, and trimming that part takes it off.
  obtain ⟨p, ps, hps⟩ := List.exists_cons_of_ne_nil (parts_ne_nil ',' s.toList)
  rw [commaList, hspace, parts, if_neg (by decide), hps, commaList, hps]
  simp only [List.map_cons, Function.comp_apply, htrim]

/-- A type parameter as it can stand in a list between commas. -/
structure IsListed (p : String) : Prop where
  ne_empty : p ≠ ""
  no_comma : ',' ∉ p.toList
  trim_eq : trim p = p

theorem commaList_append {p : String} (hp : IsListed p) (s : String) :
    commaList (p ++ ", " ++ s) = p :: commaList s := by
  have hcomma : (p ++ ", " ++ s).toList = p.toList ++ ',' :: (" " ++ s).toList := by simp
  rw [← commaList_space s, commaList, hcomma, parts_append hp.no_comma, commaList]
  simp [hp.trim_eq, hp.ne_empty]

theorem commaList_singleton {p : String} (hp : IsListed p) : commaList p = [p] := by
  rw [commaList, parts_of_not_mem hp.no_comma]
  simp [hp.trim_eq, hp.ne_empty]

/-- Type parameters are read back from the list that they are written as. -/
theorem commaList_intercalate {ps : List String} (h : ∀ p ∈ ps, IsListed p) (hne : ps ≠ []) :
    commaList (", ".intercalate ps) = ps := by
  induction ps with
  | nil => exact absurd rfl hne
  | cons p ps ih =>
    have hp := h p List.mem_cons_self
    cases ps with
    | nil => rw [String.intercalate_singleton, commaList_singleton hp]
    | cons q qs =>
      rw [String.intercalate_cons_cons, commaList_append hp,
        ih (fun r hr => h r (List.mem_cons_of_mem _ hr)) (List.cons_ne_nil _ _)]

end commas

/-! ### Attributes -/

theorem attributeValue_written (a : String × String) :
    attributeValue (Xml.Attribute.written a) = .ok a.2 := by
  rw [attributeValue, Xml.Attribute.written, Xml.unescape_escape]
  simp

/-- Going through the attributes of a written tag is going through the written ones. -/
theorem foldAttributes_written {σ : Type} {name : String} (hname : IsWord name)
    {attributes : List (String × String)} (hattributes : AreAttributes attributes) (s : σ)
    (step : σ → String → String → Except Error σ) :
    foldAttributes (Tag.written name attributes) s step =
      attributes.foldlM (fun s a => step s a.1 a.2) s := by
  have hkey (a : String × String) : String.ofList (Xml.Attribute.written a).key = a.1 := by
    rw [Xml.Attribute.written, String.ofList_toList]
  rw [foldAttributes, Xml.attributes_written hname hattributes, List.foldlM_map]
  congr 1
  funext s a
  show (attributeValue _ >>= fun value => step s _ value) = _
  rw [attributeValue_written, hkey]
  rfl

/-- The word for a kind. The top type has no word that is read. -/
def TypeKind.text : TypeKind → String
  | .record => "record"
  | .struct => "struct"
  | .trait => "trait"
  | .top => "top"

/-- The word for a visibility. -/
def Visibility.text : Visibility → String
  | .exported => "public"
  | .hidden => "private"

/-- The word for a truth value. -/
def flagText (b : Bool) : String := if b then "true" else "false"

/-- A word in small letters is read as it stands. -/
theorem map_toLower_eq {s : String} (h : s.toList.map Char.toLower = s.toList) :
    s.map Char.toLower = s := by
  rw [← String.toList_inj, String.toList_map, h]

theorem ofString?_text {kind : TypeKind} (h : kind ≠ .top) :
    TypeKind.ofString? kind.text = some kind := by
  have hlower : kind.text.map Char.toLower = kind.text := by
    refine map_toLower_eq ?_
    cases kind <;> decide
  rw [TypeKind.ofString?, hlower]
  cases kind with
  | record | struct | trait => rfl
  | top => exact absurd rfl h

theorem visibility_ofString?_text (v : Visibility) : Visibility.ofString? v.text = some v := by
  have hlower : v.text.map Char.toLower = v.text := by
    refine map_toLower_eq ?_
    cases v <;> decide
  rw [Visibility.ofString?, hlower]
  cases v <;> rfl

theorem flag_flagText (element key : String) (b : Bool) :
    flag element key (flagText b) = .ok b := by
  cases b <;> rfl

/-- The attributes of a type. -/
def TypeSymbol.attributes (t : TypeSymbol) : List (String × String) :=
  [("name", t.name), ("kind", t.kind.text), ("abstract", flagText t.isAbstract)]
    ++ (if t.typeParameters = [] then []
      else [("typeParameters", ", ".intercalate t.typeParameters)])
    ++ (t.containingType.map fun outer => ("nestedIn", outer)).toList
    ++ (t.modulePath.map fun path => ("module", path)).toList

/-- The attributes of a constructor. -/
def Constructor.attributes (c : Constructor) : List (String × String) :=
  [("name", c.name), ("visibility", c.visibility.text), ("implicit", flagText c.implicit)]

/-- The attributes of a parameter. -/
def Parameter.attributes (p : Parameter) : List (String × String) :=
  [("name", p.name), ("type", p.typeName)]

/-- The attributes of a union. -/
def UnionDeclaration.attributes (u : UnionDeclaration) : List (String × String) :=
  [("name", u.name), ("partial", flagText u.isPartial)]

/-- The attributes of an alias with its target. -/
def aliasAttributes (entry : String × String) : List (String × String) :=
  [("name", entry.1), ("target", entry.2)]

/-- Only the keys of attributes matter, and some may be left out. -/
theorem areAttributes_of_keys {attributes : List (String × String)} (keys : List String)
    (hkeys : (attributes.map (·.1)).Sublist keys) (hwords : ∀ key ∈ keys, IsWord key)
    (hnodup : keys.Nodup) : AreAttributes attributes where
  words a ha := hwords a.1 (hkeys.subset (List.mem_map_of_mem ha))
  nodup := hnodup.sublist hkeys

theorem areAttributes_type (t : TypeSymbol) : AreAttributes t.attributes := by
  have hparameters : ((if t.typeParameters = [] then []
      else [("typeParameters", ", ".intercalate t.typeParameters)]).map Prod.fst).Sublist
      ["typeParameters"] := by
    split
    · exact List.nil_sublist _
    · exact List.Sublist.refl _
  have hoptional (key : String) (value : Option String) :
      ((value.map fun v => (key, v)).toList.map Prod.fst).Sublist [key] := by
    cases value with
    | none => exact List.nil_sublist _
    | some v => exact List.Sublist.refl _
  have hkeys := (((List.Sublist.refl ["name", "kind", "abstract"]).append hparameters).append
    (hoptional "nestedIn" t.containingType)).append (hoptional "module" t.modulePath)
  refine areAttributes_of_keys _ ?_ (by decide) (by decide : (["name", "kind", "abstract"]
    ++ ["typeParameters"] ++ ["nestedIn"] ++ ["module"]).Nodup)
  rw [TypeSymbol.attributes, List.map_append, List.map_append, List.map_append]
  exact hkeys

theorem areAttributes_constructor (c : Constructor) : AreAttributes c.attributes :=
  areAttributes_of_keys ["name", "visibility", "implicit"] (List.Sublist.refl _) (by decide)
    (by decide)

theorem areAttributes_parameter (p : Parameter) : AreAttributes p.attributes :=
  areAttributes_of_keys ["name", "type"] (List.Sublist.refl _) (by decide) (by decide)

theorem areAttributes_union (u : UnionDeclaration) : AreAttributes u.attributes :=
  areAttributes_of_keys ["name", "partial"] (List.Sublist.refl _) (by decide) (by decide)

theorem areAttributes_alias (entry : String × String) : AreAttributes (aliasAttributes entry) :=
  areAttributes_of_keys ["name", "target"] (List.Sublist.refl _) (by decide) (by decide)

theorem areAttributes_singleton {key : String} (h : IsWord key) (value : String) :
    AreAttributes [(key, value)] :=
  areAttributes_of_keys [key] (List.Sublist.refl _) (by simpa using h) (by simp)

/-! ### Tags -/

/-- What can be read back of a type: it is not the top type, and its type parameters stand in a
    list between commas. -/
structure TypeSymbol.HasWrittenTag (t : TypeSymbol) : Prop where
  kind : t.kind ≠ .top
  typeParameters : ∀ p ∈ t.typeParameters, IsListed p

theorem rootOf_written (scope : String) :
    rootOf (Tag.written "unions" [("namespace", scope)]) = .ok (.empty scope) := by
  rw [rootOf, foldAttributes_written (by decide) (areAttributes_singleton (by decide) scope)]
  rfl

theorem typeOf_written {t : TypeSymbol} (h : t.HasWrittenTag) :
    typeOf (Tag.written "type" t.attributes) = .ok { t with id := 0, constructors := [] } := by
  rw [typeOf, foldAttributes_written (by decide) (areAttributes_type t), TypeSymbol.attributes]
  obtain ⟨id, name, kind, isAbstract, parameters, outer, path, constructors⟩ := t
  obtain ⟨hkind, hparameters⟩ := h
  simp only at hkind hparameters
  -- An attribute that may be left out is read as given, or else not met.
  by_cases hnone : parameters = []
  · cases outer <;> cases path <;>
      simp only [hnone, if_true, List.foldlM_append, List.foldlM_cons, List.foldlM_nil,
        ofString?_text hkind, flag_flagText, Option.map, Option.toList] <;> rfl
  · have hlist := commaList_intercalate hparameters hnone
    cases outer <;> cases path <;>
      simp only [hnone, if_false, hlist, List.foldlM_append, List.foldlM_cons, List.foldlM_nil,
        ofString?_text hkind, flag_flagText, Option.map, Option.toList] <;> rfl

theorem constructorOf_written (c : Constructor) :
    constructorOf (Tag.written "constructor" c.attributes) =
      .ok { c with parameters := [], documentation := none } := by
  rw [constructorOf, foldAttributes_written (by decide) (areAttributes_constructor c),
    Constructor.attributes]
  simp only [List.foldlM_cons, List.foldlM_nil, visibility_ofString?_text, flag_flagText]
  rfl

theorem parameterOf_written (p : Parameter) :
    parameterOf (Tag.written "param" p.attributes) = .ok p := by
  rw [parameterOf, attributePair, foldAttributes_written (by decide) (areAttributes_parameter p)]
  rfl

theorem aliasOf_written (entry : String × String) :
    aliasOf (Tag.written "alias" (aliasAttributes entry)) = .ok entry := by
  rw [aliasOf, attributePair, foldAttributes_written (by decide) (areAttributes_alias entry)]
  rfl

theorem unionOf_written (u : UnionDeclaration) :
    unionOf (Tag.written "union" u.attributes) u.scope = .ok { u with cases := [] } := by
  rw [unionOf, foldAttributes_written (by decide) (areAttributes_union u),
    UnionDeclaration.attributes]
  simp only [List.foldlM_cons, List.foldlM_nil, flag_flagText]
  rfl

theorem caseOf_written (reference : String) :
    caseOf (Tag.written "case" [("type", reference)]) = .ok reference := by
  rw [caseOf, Xml.attributes_written (by decide) (areAttributes_singleton (by decide) reference)]
  -- The reference is looked up by the characters of its key.
  have hkey : (Xml.Attribute.written ("type", reference)).key = ['t', 'y', 'p', 'e'] := by
    simp [Xml.Attribute.written]
  simp [hkey, attributeValue_written]

/-! ### Elements -/

section elements

variable (gap : Nat → String)

/-- The lines of a parameter. -/
def Parameter.lines (p : Parameter) : List Line := Xml.element (gap 3) "param" p.attributes []

/-- The lines of documentation: one CDATA section, with nothing beside it. -/
def documentationLines : Option String → List Line
  | none => []
  | some text => [⟨gap 3, .start "doc" []⟩, ⟨"", .cdata text⟩, ⟨"", .close "doc"⟩]

/-- The lines of a constructor. -/
def Constructor.lines (c : Constructor) : List Line :=
  Xml.element (gap 2) "constructor" c.attributes
    (documentationLines gap c.documentation ++ c.parameters.flatMap (·.lines gap))

/-- The lines of a type. -/
def TypeSymbol.lines (t : TypeSymbol) : List Line :=
  Xml.element (gap 1) "type" t.attributes (t.constructors.flatMap (·.lines gap))

/-- The lines of a case reference. -/
def caseLines (reference : String) : List Line :=
  Xml.element (gap 2) "case" [("type", reference)] []

/-- The lines of a union. -/
def UnionDeclaration.lines (u : UnionDeclaration) : List Line :=
  Xml.element (gap 1) "union" u.attributes (u.cases.flatMap (caseLines gap))

/-- The lines of an alias. -/
def aliasLines (entry : String × String) : List Line :=
  Xml.element (gap 1) "alias" (aliasAttributes entry) []

/-- The lines of a document. -/
def documentLines (scope : String) (types : List TypeSymbol) (unions : List UnionDeclaration)
    (aliases : List (String × String)) : List Line :=
  ⟨"", .start "unions" [("namespace", scope)]⟩
    :: (types.flatMap (·.lines gap) ++ unions.flatMap (·.lines gap)
      ++ aliases.flatMap (aliasLines gap) ++ [⟨gap 0, .close "unions"⟩])

/-- A document as it is written. -/
def write (scope : String) (types : List TypeSymbol) (unions : List UnionDeclaration)
    (aliases : List (String × String)) : String :=
  String.ofList ((documentLines gap scope types unions aliases).flatMap Line.spell)

end elements

/-! ### What can be written -/

/-- Documentation that can be read back: its ends are not blank, and it does not hold the mark
    that ends its section. -/
structure IsDocumentation (text : String) : Prop where
  trim_eq : Text.trim text = text
  no_mark : ¬ [']', ']', '>'] <:+: text.toList

/-- A type that can be read back. -/
structure TypeSymbol.IsWritable (t : TypeSymbol) : Prop extends t.HasWrittenTag where
  documentation : ∀ c ∈ t.constructors, ∀ text ∈ c.documentation, IsDocumentation text

/-- Running text without markup of its own, as it may stand before an element. -/
def IsGap (gap : Nat → String) : Prop := ∀ n, ∀ c ∈ (gap n).toList, Xml.isTextChar c

variable {gap : Nat → String}

theorem isContent_documentation (hgap : IsGap gap) {documentation : Option String}
    (h : ∀ text ∈ documentation, IsDocumentation text) :
    IsContent (documentationLines gap documentation) := by
  cases documentation with
  | none => exact IsContent.nil
  | some text =>
    have hcdata : IsContent [⟨"", .cdata text⟩] :=
      IsContent.singleton ⟨by simp, (h text rfl).no_mark⟩ fun _ => rfl
    exact IsContent.between (hgap 3) (by simp) (by decide) ⟨by simp, by simp⟩ hcdata

theorem isContent_constructor (hgap : IsGap gap) {c : Constructor}
    (h : ∀ text ∈ c.documentation, IsDocumentation text) : IsContent (c.lines gap) := by
  have hparameters : IsContent (c.parameters.flatMap (·.lines gap)) := by
    refine IsContent.flatMap ?_
    intro p _
    exact IsContent.element (hgap 3) (by decide) (areAttributes_parameter p) IsContent.nil
  exact IsContent.element (hgap 2) (by decide) (areAttributes_constructor c)
    ((isContent_documentation hgap h).append hparameters)

theorem isContent_type (hgap : IsGap gap) {t : TypeSymbol} (h : t.IsWritable) :
    IsContent (t.lines gap) := by
  have hconstructors : IsContent (t.constructors.flatMap (·.lines gap)) := by
    refine IsContent.flatMap ?_
    intro c hc
    exact isContent_constructor hgap (h.documentation c hc)
  exact IsContent.element (hgap 1) (by decide) (areAttributes_type t) hconstructors

theorem isContent_union (hgap : IsGap gap) (u : UnionDeclaration) : IsContent (u.lines gap) := by
  have hcases : IsContent (u.cases.flatMap (caseLines gap)) := by
    refine IsContent.flatMap ?_
    intro reference _
    exact IsContent.element (hgap 2) (by decide) (areAttributes_singleton (by decide) reference)
      IsContent.nil
  exact IsContent.element (hgap 1) (by decide) (areAttributes_union u) hcases

theorem isContent_document (hgap : IsGap gap) (scope : String) {types : List TypeSymbol}
    (htypes : ∀ t ∈ types, t.IsWritable) (unions : List UnionDeclaration)
    (aliases : List (String × String)) :
    IsContent (documentLines gap scope types unions aliases) := by
  have htypesContent : IsContent (types.flatMap (·.lines gap)) := by
    refine IsContent.flatMap ?_
    intro t ht
    exact isContent_type hgap (htypes t ht)
  have hunionsContent : IsContent (unions.flatMap (·.lines gap)) := by
    refine IsContent.flatMap ?_
    intro u _
    exact isContent_union hgap u
  have haliasesContent : IsContent (aliases.flatMap (aliasLines gap)) := by
    refine IsContent.flatMap ?_
    intro entry _
    exact IsContent.element (hgap 1) (by decide) (areAttributes_alias entry) IsContent.nil
  exact IsContent.between (by simp) (hgap 0) (by decide)
    (areAttributes_singleton (by decide) scope)
    ((htypesContent.append hunionsContent).append haliasesContent)

/-- The events of a document are those of its lines. -/
theorem ofText_write (hgap : IsGap gap) (scope : String) {types : List TypeSymbol}
    (htypes : ∀ t ∈ types, t.IsWritable) (unions : List UnionDeclaration)
    (aliases : List (String × String)) :
    Xml.Transcript.ofText (write gap scope types unions aliases) =
      ⟨(documentLines gap scope types unions aliases).flatMap Line.events, none⟩ :=
  Xml.Transcript.ofText_written (isContent_document hgap scope htypes unions aliases)
    ⟨_, _, rfl, rfl⟩

end TaggedUnion.Schema
