import Mathlib.Data.List.Basic
import TaggedUnion.Files.Tree
import TaggedUnion.Proofs.Text.Lines

/-! # Places that paths lead to

    Where a tree has nothing but directories and files, the place that a path leads to can be
    told from the path alone:

    * **`Path.follow`** takes the parts one by one: a name leads into a directory, and the parts
      `.` and `..` are resolved as they come. **`placeOf`** does so for a path as text.
    * **`placeOf_joinPath`**: one path behind another leads on from where that one leads, unless
      it starts at the root of the tree.
    * **`exists_placeOf_append`**: the ending of a file name does not change the directory.
    * **`isBelow_joinPath_iff`**: a path leads below every directory that it is put behind exactly
      if it does not start at the root and none of its parts leads above where it starts.
-/

namespace TaggedUnion

namespace Path

/-! ### Parts of a path -/

/-- The place that a part of a path leads to. The root has no directory above it. -/
def turn (l : Location) (part : String) : Location :=
  if isHere part then l else if part = above then l.dropLast else l ++ [part]

/-- The place that parts lead to from a place, told by the parts alone. -/
def follow (l : Location) (parts : List String) : Location := parts.foldl turn l

/-- The place that a path leads to. -/
def location (workingDirectory : Location) (p : Path) : Location :=
  follow (if p.isAbsolute then [] else workingDirectory) p.parts

@[simp] theorem follow_nil (l : Location) : follow l [] = l := rfl

@[simp] theorem follow_cons (l : Location) (part : String) (parts : List String) :
    follow l (part :: parts) = follow (turn l part) parts := rfl

theorem follow_append (l : Location) (ps qs : List String) :
    follow l (ps ++ qs) = follow (follow l ps) qs := List.foldl_append

@[simp] theorem turn_empty (l : Location) : turn l "" = l := rfl

/-- A part that is a name: it neither stays nor leads above. -/
def IsName (part : String) : Prop := isHere part = false ∧ part ≠ above

theorem turn_of_isName {part : String} (h : IsName part) (l : Location) :
    turn l part = l ++ [part] := by
  unfold turn
  rw [h.1, if_neg Bool.false_ne_true, if_neg h.2]

/-- A part with another end than a dot is a name. -/
theorem isName_of_getLast {part : String} {c : Char} (hlast : part.toList.getLast? = some c)
    (hc : c ≠ '.') : IsName part := by
  have hempty : part ≠ "" := by
    intro h
    rw [h] at hlast
    cases hlast
  have hdot : part ≠ "." := by
    intro h
    rw [h] at hlast
    exact hc (Option.some.inj hlast).symm
  have hdots : part ≠ above := by
    intro h
    rw [h] at hlast
    exact hc (Option.some.inj hlast).symm
  exact ⟨by simp [isHere, hempty, hdot], hdots⟩

/-! ### Parts that stay inside -/

/-- The parts never lead above the place where they start. The depth counts the directories that
    were entered before them and not left. -/
def staysInside (depth : Nat) : List String → Bool
  | [] => true
  | part :: parts =>
    if isHere part then staysInside depth parts
    else if part = above then depth != 0 && staysInside (depth - 1) parts
    else staysInside (depth + 1) parts

/-- Parts that stay inside lead to the same place below every directory. -/
theorem follow_inside {l m : Location} {parts : List String}
    (h : staysInside m.length parts) : follow (l ++ m) parts = l ++ follow m parts := by
  induction parts generalizing m with
  | nil => rfl
  | cons part parts ih =>
    unfold staysInside at h
    rw [follow_cons, follow_cons]
    unfold turn
    by_cases hhere : isHere part
    · rw [if_pos hhere] at h ⊢
      rw [if_pos hhere]
      exact ih h
    · rw [if_neg hhere] at h ⊢
      rw [if_neg hhere]
      by_cases habove : part = above
      · rw [if_pos habove, Bool.and_eq_true] at h
        rw [if_pos habove, if_pos habove]
        have hne : m ≠ [] := by
          rintro rfl
          cases h.1
        rw [List.dropLast_append_of_ne_nil hne]
        exact ih (by rw [List.length_dropLast]; exact h.2)
      · rw [if_neg habove] at h ⊢
        rw [if_neg habove, List.append_assoc]
        exact ih (by rw [List.length_append]; exact h)

/-- A place is made of names that were there before and of names in the parts. -/
theorem not_mem_follow {x : String} {l : Location} {parts : List String} (hl : x ∉ l)
    (hparts : x ∉ parts) : x ∉ follow l parts := by
  induction parts generalizing l with
  | nil => exact hl
  | cons part parts ih =>
    obtain ⟨hpart, hparts⟩ := List.ne_and_not_mem_of_not_mem_cons hparts
    refine ih ?_ hparts
    unfold turn
    by_cases hhere : isHere part
    · rwa [if_pos hhere]
    · rw [if_neg hhere]
      by_cases habove : part = above
      · rw [if_pos habove]
        exact fun hmem => hl (List.dropLast_subset _ hmem)
      · rw [if_neg habove]
        simp [hl, hpart]

/-- Parts that do not stay inside leave the directory where they start, and never come back to it
    unless they name it. -/
theorem not_mem_follow_of_not_inside {x : String} {m : Location} {parts : List String}
    (hm : x ∉ m) (hparts : x ∉ parts) (h : staysInside m.length parts = false) :
    x ∉ follow (x :: m) parts := by
  induction parts generalizing m with
  | nil => cases h
  | cons part parts ih =>
    obtain ⟨hpart, hparts⟩ := List.ne_and_not_mem_of_not_mem_cons hparts
    unfold staysInside at h
    rw [follow_cons]
    unfold turn
    by_cases hhere : isHere part
    · rw [if_pos hhere] at h ⊢
      exact ih hm hparts h
    · rw [if_neg hhere] at h ⊢
      by_cases habove : part = above
      · rw [if_pos habove] at h ⊢
        by_cases hne : m = []
        · -- Here the directory is left.
          subst hne
          exact not_mem_follow List.not_mem_nil hparts
        · rw [List.dropLast_cons_of_ne_nil hne]
          have hdepth : (m.length != 0) = true := by simpa using hne
          rw [hdepth, Bool.true_and, ← List.length_dropLast] at h
          exact ih (fun hmem => hm (List.dropLast_subset _ hmem)) hparts h
      · rw [if_neg habove] at h ⊢
        refine ih (m := m ++ [part]) ?_ hparts (by rw [List.length_append]; exact h)
        simp [hm, hpart]

/-- A name behind the parts leads further inside. -/
theorem staysInside_append_name {depth : Nat} {parts : List String} {name : String}
    (h : IsName name) : staysInside depth (parts ++ [name]) = staysInside depth parts := by
  induction parts generalizing depth with
  | nil => simp [staysInside, h.1, h.2]
  | cons part parts ih =>
    rw [List.cons_append]
    unfold staysInside
    rw [ih, ih, ih]

/-! ### Paths as text -/

/-- The parts of a text between its slashes. -/
def textParts (s : String) : List String := (Text.parts '/' s.toList).map String.ofList

/-- A path as text starts at the root of the tree. -/
def startsAtRoot (s : String) : Bool := s.toList.head? = some '/'

end Path

/-- The place that a path as text leads to. -/
def placeOf (workingDirectory : Location) (s : String) : Location :=
  (Path.ofText s).location workingDirectory

namespace Path

/-- A path starts at the root where its text does. The first of its parts is then left out, which
    is empty and leads nowhere. -/
theorem placeOf_eq (cwd : Location) (s : String) :
    placeOf cwd s = follow (if startsAtRoot s then [] else cwd) (textParts s) := by
  unfold placeOf location ofText startsAtRoot textParts
  cases hs : s.toList with
  | nil => rfl
  | cons c cs =>
    obtain ⟨p, ps, hparts⟩ := List.exists_cons_of_ne_nil (Text.parts_ne_nil '/' cs)
    by_cases hc : c = '/'
    · simp [Text.parts, hc, hparts]
    · simp [Text.parts, hc, hparts]

/-- A path behind another one leads on from the place where that one leads, unless it starts at
    the root. -/
theorem placeOf_joinPath (cwd : Location) (root path : String) :
    placeOf cwd (joinPath root path) =
      follow (if startsAtRoot path then [] else placeOf cwd root) (textParts path) := by
  by_cases habsolute : startsAtRoot path
  · have hjoin : joinPath root path = path := if_pos (of_decide_eq_true habsolute)
    rw [hjoin, placeOf_eq, if_pos habsolute, if_pos habsolute]
  have hjoin : joinPath root path =
      if root = "" ∨ root.toList.getLast? = some '/' then root ++ path
      else root ++ "/" ++ path := if_neg fun h => habsolute (decide_eq_true h)
  rw [hjoin, if_neg habsolute]
  by_cases hempty : root = ""
  · rw [if_pos (.inl hempty), hempty, String.empty_append, placeOf_eq, if_neg habsolute]
    rfl
  -- Where the text is not empty, it decides where the path starts.
  have hstart (rest : String) : startsAtRoot (root ++ rest) = startsAtRoot root := by
    unfold startsAtRoot
    rw [String.toList_append, List.head?_append_of_ne_nil _ (by simpa using hempty)]
  by_cases hslash : root.toList.getLast? = some '/'
  · obtain ⟨before, hroot⟩ := List.getLast?_eq_some_iff.mp hslash
    rw [if_pos (.inr hslash), placeOf_eq, placeOf_eq]
    simp only [hstart, textParts, String.toList_append, hroot, List.append_assoc,
      List.singleton_append, Text.parts_append_mark, List.map_append, follow_append]
    rfl
  · rw [if_neg (by simp [hempty, hslash]), String.append_assoc, placeOf_eq, placeOf_eq]
    have htext : (root ++ ("/" ++ path)).toList = root.toList ++ '/' :: path.toList := by simp
    simp only [hstart, textParts, htext, Text.parts_append_mark, List.map_append, follow_append]

theorem startsAtRoot_of_not_mem {s : String} (h : '/' ∉ s.toList) : startsAtRoot s = false :=
  decide_eq_false fun hhead => h (List.mem_of_head? hhead)

theorem textParts_of_not_mem {s : String} (h : '/' ∉ s.toList) : textParts s = [s] := by
  unfold textParts
  rw [Text.parts_of_not_mem h, List.map_singleton, String.ofList_toList]

/-- A name behind a path is a place in the directory that the path leads to. -/
theorem placeOf_joinPath_of_isName {name : String} (hname : IsName name)
    (hslash : '/' ∉ name.toList) (cwd : Location) (root : String) :
    placeOf cwd (joinPath root name) = placeOf cwd root ++ [name] := by
  rw [placeOf_joinPath, startsAtRoot_of_not_mem hslash, if_neg Bool.false_ne_true,
    textParts_of_not_mem hslash, follow_cons, follow_nil, turn_of_isName hname]

/-! ### Endings of file names -/

/-- An ending of a file name has no slash and does not end in a dot. -/
def isEnding (ending : String) : Bool :=
  !ending.toList.contains '/' && ending.toList.getLast?.any (· != '.')

/-- An ending behind a path belongs to its last part, and makes it a name. -/
theorem exists_textParts_append (s : String) :
    ∃ directories last, textParts s = directories ++ [last] ∧
      ∀ ending, isEnding ending → textParts (s ++ ending) = directories ++ [last ++ ending] ∧
        IsName (last ++ ending) ∧ startsAtRoot (s ++ ending) = startsAtRoot s := by
  obtain ⟨ps, last, hparts, happend⟩ := Text.exists_parts_append '/' s.toList
  refine ⟨ps.map String.ofList, String.ofList last, by simp [textParts, hparts], ?_⟩
  intro ending hending
  unfold isEnding at hending
  obtain ⟨hslash, hlast⟩ := Bool.and_eq_true_iff.mp hending
  replace hslash : '/' ∉ ending.toList := by simpa using hslash
  obtain ⟨c, hc, hdot⟩ : ∃ c, ending.toList.getLast? = some c ∧ c ≠ '.' := by
    simpa [Option.any_eq_true] using hlast
  refine ⟨by simp [textParts, happend _ hslash], ?_, ?_⟩
  · apply isName_of_getLast (c := c) ?_ hdot
    rw [String.toList_append, List.getLast?_append, hc]
    rfl
  · unfold startsAtRoot
    rw [String.toList_append, List.head?_append]
    cases s.toList with
    | nil =>
      have hhead : ending.toList.head? ≠ some '/' := fun h => hslash (List.mem_of_head? h)
      simp [hhead]
    | cons c cs => rfl

/-- The place that a path with an ending leads to: below one directory, whatever the ending. -/
theorem exists_placeOf_append (cwd : Location) (root s : String) :
    ∃ directory last, ∀ ending, isEnding ending →
      placeOf cwd (joinPath root (s ++ ending)) = directory ++ [last ++ ending] := by
  obtain ⟨directories, last, -, happend⟩ := exists_textParts_append s
  refine ⟨follow (if startsAtRoot s then [] else placeOf cwd root) directories, last, ?_⟩
  intro ending hending
  obtain ⟨hparts, hname, hstart⟩ := happend ending hending
  rw [placeOf_joinPath, hparts, hstart, follow_append, follow_cons, follow_nil,
    turn_of_isName hname]

/-! ### Places below a directory -/

/-- A place lies below a directory. -/
def IsBelow (directory l : Location) : Prop := directory <+: l ∧ directory ≠ l

/-- A path does not start at the root of the tree, and the directories in it do not lead above
    where it starts. -/
def leadsInside (s : String) : Bool := !startsAtRoot s && staysInside 0 (textParts s).dropLast

theorem length_le_of_mem_textParts {s part : String} (h : part ∈ textParts s) :
    part.length ≤ s.length := by
  obtain ⟨p, hp, rfl⟩ := List.mem_map.mp h
  rw [String.length_ofList, ← String.length_toList]
  exact Text.length_le_of_mem_parts hp

/-- For every path there is a directory whose name is not among its parts. -/
theorem exists_fresh (path : String) :
    ∃ root, root ∉ textParts path ∧ ∀ cwd, placeOf cwd root = cwd ++ [root] := by
  -- The name is longer than the path.
  let root := String.ofList (List.replicate (path.length + 1) 'x')
  have hchars : root.toList = List.replicate (path.length + 1) 'x' := String.toList_ofList
  have hslash : '/' ∉ root.toList := by simp [hchars]
  have hlast : root.toList.getLast? = some 'x' := by simp [hchars, List.getLast?_replicate]
  have hname : IsName root := isName_of_getLast hlast (by decide)
  refine ⟨root, ?_, ?_⟩
  · intro hmem
    have hle := length_le_of_mem_textParts hmem
    rw [← String.length_toList, hchars, List.length_replicate] at hle
    exact Nat.not_succ_le_self _ hle
  · intro cwd
    rw [placeOf_eq, startsAtRoot_of_not_mem hslash, if_neg Bool.false_ne_true,
      textParts_of_not_mem hslash, follow_cons, follow_nil, turn_of_isName hname]

/-- A path with an ending leads below every directory that it is put behind exactly if it leads
    inside. -/
theorem isBelow_joinPath_iff {ending : String} (hending : isEnding ending) (s : String) :
    (∀ cwd root, IsBelow (placeOf cwd root) (placeOf cwd (joinPath root (s ++ ending)))) ↔
      leadsInside s = true := by
  obtain ⟨directories, last, hs, happend⟩ := exists_textParts_append s
  obtain ⟨hparts, hname, hstart⟩ := happend ending hending
  unfold leadsInside
  simp only [placeOf_joinPath, hparts, hstart, hs, List.dropLast_concat]
  constructor
  · intro h
    -- A directory with a fresh name is not among the names that the path leads through.
    obtain ⟨root, hfresh, hroot⟩ := exists_fresh (s ++ ending)
    have hbelow := (h [] root).1
    rw [hroot] at hbelow
    have hmem := hbelow.mem (List.mem_append_right [] (List.mem_singleton_self root))
    rw [hparts] at hfresh
    by_cases habsolute : startsAtRoot s
    · rw [if_pos habsolute] at hmem
      exact absurd hmem (not_mem_follow List.not_mem_nil hfresh)
    rw [if_neg habsolute] at hmem
    by_cases hinside : staysInside 0 directories
    · simp [habsolute, hinside]
    rw [Bool.not_eq_true] at hinside
    refine absurd hmem (not_mem_follow_of_not_inside List.not_mem_nil hfresh ?_)
    rwa [List.length_nil, staysInside_append_name hname]
  · intro h cwd root
    obtain ⟨hrelative, hinside⟩ := Bool.and_eq_true_iff.mp h
    rw [Bool.not_eq_true'] at hrelative
    have hstays := follow_inside (l := placeOf cwd root) (m := []) hinside
    rw [List.append_nil] at hstays
    rw [hrelative, if_neg Bool.false_ne_true, follow_append, hstays, follow_cons, follow_nil,
      turn_of_isName hname, List.append_assoc]
    exact ⟨List.prefix_append _ _, by simp⟩

end Path

end TaggedUnion
