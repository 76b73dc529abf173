import TaggedUnion.Proofs.Files.Growth

/-! # Plain paths below a directory

    A plain path is made of names. Behind the path of a directory it leads below that directory,
    by the same way for all plain paths up to there:

    * **`IsPlain`**, **`Path.ofRoot`** and **`ofText_joinPath`**: the parts of such a path are
      those of the directory, and then its own.
    * **`AreApart`**: of two paths none leads through the end of the other.
    * **`passes_way_cases`**: the places that a plain path leads through are on the way to the
      directory, or below it.
-/

namespace TaggedUnion

/-- A path that is made of names alone. -/
def IsPlain (path : String) : Prop := ∀ part ∈ Path.textParts path, Path.IsName part

/-- None of the paths is the other one, or a directory on the way to it. -/
def AreApart (path path' : String) : Prop :=
  ¬ Path.textParts path <+: Path.textParts path' ∧ ¬ Path.textParts path' <+: Path.textParts path

instance (part : String) : Decidable (Path.IsName part) :=
  inferInstanceAs (Decidable (_ ∧ _))

instance (path : String) : Decidable (IsPlain path) :=
  inferInstanceAs (Decidable (∀ part ∈ Path.textParts path, Path.IsName part))

instance (path path' : String) : Decidable (AreApart path path') :=
  inferInstanceAs (Decidable (¬ _ ∧ ¬ _))

namespace Path

theorem textParts_ne_nil (s : String) : textParts s ≠ [] := by
  simpa [textParts] using Text.parts_ne_nil '/' s.toList

/-! ### Paths of directories -/

/-- A directory that paths are put behind. A slash at its end is the one that stands between. -/
def ofRoot (root : String) : Path :=
  if root = "" then ⟨false, []⟩
  else if root.toList.getLast? = some '/' then (ofText root).way
  else ofText root

/-- An empty first part says that a path starts at the root, unless it is the only one. -/
theorem ofText_of_textParts {s part : String} {parts : List String}
    (h : textParts s = part :: parts) (hparts : part = "" → parts ≠ []) :
    ofText s = if part = "" then ⟨true, parts⟩ else ⟨false, part :: parts⟩ := by
  unfold textParts at h
  unfold ofText
  rw [h]
  split_ifs with hpart
  · obtain ⟨second, others, rfl⟩ := List.exists_cons_of_ne_nil (hparts hpart)
    rw [hpart]
    rfl
  · split
    · next heq =>
      cases heq
      exact absurd rfl hpart
    · rfl

theorem eq_empty_of_textParts {s : String} (h : textParts s = [""]) : s = "" := by
  obtain ⟨part, parts, hparts⟩ := List.exists_cons_of_ne_nil (Text.parts_ne_nil '/' s.toList)
  have hlone : parts = [] := by
    rw [textParts, hparts, List.map_cons] at h
    simpa using (List.cons.inj h).2
  rw [textParts_of_not_mem ((Text.parts_eq_singleton_iff hparts).mp hlone)] at h
  exact (List.cons.inj h).1

/-- A text with a slash before it has an empty part first. -/
theorem head?_ne_of_isPlain {path : String} (h : IsPlain path) :
    path.toList.head? ≠ some '/' := by
  intro hhead
  obtain ⟨cs, hcs⟩ := List.head?_eq_some_iff.mp hhead
  have hempty : "" ∈ textParts path := by
    rw [textParts, hcs, Text.parts, if_pos rfl]
    exact List.mem_cons_self
  cases (h "" hempty).1

/-- A plain path behind a directory: the parts of both, one behind the other. -/
theorem ofText_joinPath {path : String} (h : IsPlain path) (root : String) :
    ofText (joinPath root path) =
      ⟨(ofRoot root).isAbsolute, (ofRoot root).parts ++ textParts path⟩ := by
  have hpath := textParts_ne_nil path
  unfold ofRoot joinPath
  rw [if_neg (head?_ne_of_isPlain h)]
  by_cases hempty : root = ""
  · rw [if_pos (.inl hempty), if_pos hempty, hempty, String.empty_append, List.nil_append]
    obtain ⟨name, names, hnames⟩ := List.exists_cons_of_ne_nil hpath
    have hname : name ≠ "" := by
      rintro rfl
      cases (h "" (by rw [hnames]; exact List.mem_cons_self)).1
    rw [ofText_of_textParts hnames fun hempty => absurd hempty hname, if_neg hname, hnames]
  rw [if_neg hempty]
  by_cases hslash : root.toList.getLast? = some '/'
  · rw [if_pos (.inr hslash), if_pos hslash]
    obtain ⟨before, hbefore⟩ := List.getLast?_eq_some_iff.mp hslash
    obtain ⟨p, ps, hparts⟩ := List.exists_cons_of_ne_nil (Text.parts_ne_nil '/' before)
    have hroot : textParts root = String.ofList p :: (ps.map String.ofList ++ [""]) := by
      rw [textParts, hbefore, Text.parts_append_mark, hparts]
      simp [Text.parts]
    have hjoined : textParts (root ++ path) =
        String.ofList p :: (ps.map String.ofList ++ textParts path) := by
      rw [textParts, String.toList_append, hbefore, List.append_assoc, List.singleton_append,
        Text.parts_append_mark, hparts]
      simp [textParts]
    rw [ofText_of_textParts hjoined fun _ => by simp [hpath],
      ofText_of_textParts hroot fun _ => by simp]
    split_ifs
    · simp [way]
    · simp only [way, ← List.cons_append, List.dropLast_concat]
  · rw [if_neg (by simp [hempty, hslash]), if_neg hslash]
    obtain ⟨part, parts, hroot⟩ := List.exists_cons_of_ne_nil (textParts_ne_nil root)
    have hjoined : textParts (root ++ "/" ++ path) = part :: (parts ++ textParts path) := by
      have htext : (root ++ "/" ++ path).toList = root.toList ++ '/' :: path.toList := by simp
      rw [textParts, htext, Text.parts_append_mark, List.map_append, ← List.cons_append, ← hroot]
      rfl
    have hparts : part = "" → parts ≠ [] := by
      rintro rfl rfl
      exact hempty (eq_empty_of_textParts hroot)
    rw [ofText_of_textParts hjoined fun _ => by simp [hpath], ofText_of_textParts hroot hparts]
    split_ifs <;> rfl

/-! ### Places of plain paths -/

theorem follow_of_isPlain {parts : List String} (h : ∀ part ∈ parts, IsName part) (l : Location) :
    follow l parts = l ++ parts := by
  induction parts generalizing l with
  | nil => simp
  | cons part parts ih =>
    obtain ⟨hpart, hparts⟩ := List.forall_mem_cons.mp h
    rw [follow_cons, turn_of_isName hpart, ih hparts, List.append_assoc, List.singleton_append]

variable {cwd : Location} {root path : String}

/-- A plain path leads below the directory that it is put behind. -/
theorem placeOf_joinPath_of_isPlain (h : IsPlain path) (cwd : Location) (root : String) :
    placeOf cwd (joinPath root path) = placeOf cwd root ++ textParts path := by
  have hrelative : startsAtRoot path = false := decide_eq_false (head?_ne_of_isPlain h)
  rw [placeOf_joinPath, hrelative, if_neg Bool.false_ne_true, follow_of_isPlain h]

/-- The directory that plain paths are put behind is where its own path leads. -/
theorem location_ofRoot (cwd : Location) (root : String) :
    (ofRoot root).location cwd = placeOf cwd root := by
  have hplain : IsPlain "x" := by
    intro part hpart
    obtain rfl : part = "x" := by simpa [textParts, Text.parts] using hpart
    exact ⟨by decide, by decide⟩
  have hplace := placeOf_joinPath_of_isPlain hplain cwd root
  unfold placeOf at hplace ⊢
  rw [ofText_joinPath hplain, location, follow_append, follow_of_isPlain hplain] at hplace
  exact List.append_cancel_right hplace

theorem way_joinPath (h : IsPlain path) (root : String) :
    (ofText (joinPath root path)).way =
      ⟨(ofRoot root).isAbsolute, (ofRoot root).parts ++ (textParts path).dropLast⟩ := by
  rw [ofText_joinPath h, way, List.dropLast_append_of_ne_nil (textParts_ne_nil path)]

theorem passes_way_of_passes (h : IsPlain path) {l : Location}
    (hl : (ofRoot root).Passes cwd l) : (ofText (joinPath root path)).way.Passes cwd l := by
  rw [way_joinPath h]
  exact hl.mono (List.prefix_append _ _)

/-- The places on the way of a plain path: they are on the way to the directory, or below it. -/
theorem passes_way_cases (h : IsPlain path) {l : Location}
    (hl : (ofText (joinPath root path)).way.Passes cwd l) :
    (ofRoot root).Passes cwd l ∨
      ∃ names, names <+: textParts path ∧ l = placeOf cwd root ++ names := by
  rw [way_joinPath h] at hl
  obtain ⟨ps, hps, rfl⟩ := hl
  rcases List.prefix_or_prefix_of_prefix hps (List.prefix_append _ _) with hroot | ⟨names, rfl⟩
  · exact .inl ⟨ps, hroot, rfl⟩
  · have hnames : names <+: textParts path :=
      ((List.prefix_append_right_inj _).mp hps).trans (List.dropLast_prefix _)
    refine .inr ⟨names, hnames, ?_⟩
    rw [follow_append, follow_of_isPlain fun part hpart => h part (hnames.subset hpart),
      ← location_ofRoot]
    rfl

/-- A path that is apart leads through the place of another one only on the way to the
    directory. -/
theorem passes_ofRoot_of_areApart {path' : String} (h : IsPlain path) (h' : IsPlain path')
    (hapart : AreApart path path')
    (hl : (ofText (joinPath root path)).way.Passes cwd (placeOf cwd (joinPath root path'))) :
    (ofRoot root).Passes cwd (placeOf cwd (joinPath root path')) := by
  rcases passes_way_cases h hl with hroot | ⟨names, hnames, hplace⟩
  · exact hroot
  · rw [placeOf_joinPath_of_isPlain h'] at hplace
    rw [← List.append_cancel_left hplace] at hnames
    exact absurd hnames hapart.2

theorem placeOf_ne_of_areApart {path' : String} (h : IsPlain path) (h' : IsPlain path')
    (hapart : AreApart path path') (cwd : Location) (root : String) :
    placeOf cwd (joinPath root path) ≠ placeOf cwd (joinPath root path') := by
  rw [placeOf_joinPath_of_isPlain h, placeOf_joinPath_of_isPlain h']
  intro heq
  exact hapart.1 (List.append_cancel_left heq ▸ List.prefix_refl _)

end Path

end TaggedUnion
