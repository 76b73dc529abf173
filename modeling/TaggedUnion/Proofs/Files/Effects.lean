import Mathlib.Data.List.TakeWhile
import TaggedUnion.Proofs.Files.Places
import TaggedUnion.Proofs.Schema.Moves

/-! # What work on files changes

    A walk that gets to its end gets to the place that its path leads to (`walk_eq_ok`), and all
    it needs of a tree are the directories on the way (`walk_mono`). From that:

    * **`ChangesOnly`**: one tree comes from another by work at some places. Elsewhere there are
      at most new directories.
    * **`write_eq_ok`**: a file is written to the place that its path leads to.
    * **`ChangesOnly.read`**: a file that was read is still there, or another one at its place.
-/

namespace TaggedUnion.FileTree

open TaggedUnion.Path
open Schema (exists_of_bind_ok)

variable {t t' : FileTree}

/-! ### Walking through a tree -/

theorem walk_cons (t : FileTree) (l : Location) (part : String) (parts : List String) :
    t.walk l (part :: parts) =
      match t.entryAt l with
      | none => .error .notFound
      | some (.file _) => .error .notDirectory
      | some .directory =>
        if isHere part then t.walk l parts
        else if part = above then t.walk l.dropLast parts
        else if nameLimit < part.utf8ByteSize then .error .nameTooLong
        else t.walk (l ++ [part]) parts := rfl

/-- A step of a walk starts at a directory, with a name that is not too long. -/
theorem walk_cons_eq_ok {l l' : Location} {part : String} {parts : List String}
    (h : t.walk l (part :: parts) = .ok l') :
    t.entryAt l = some .directory ∧ (IsName part → part.utf8ByteSize ≤ nameLimit) ∧
      t.walk (turn l part) parts = .ok l' := by
  rw [walk_cons] at h
  split at h
  · cases h
  · cases h
  · next hentry =>
    refine ⟨hentry, ?_⟩
    unfold turn
    by_cases hhere : isHere part
    · rw [if_pos hhere] at h
      exact ⟨fun hname => absurd hname.1 (by simp [hhere]), by rwa [if_pos hhere]⟩
    · rw [if_neg hhere] at h ⊢
      by_cases habove : part = above
      · rw [if_pos habove] at h
        exact ⟨fun hname => absurd habove hname.2, by rwa [if_pos habove]⟩
      · rw [if_neg habove] at h ⊢
        by_cases hlong : nameLimit < part.utf8ByteSize
        · rw [if_pos hlong] at h
          cases h
        · rw [if_neg hlong] at h
          exact ⟨fun _ => Nat.le_of_not_lt hlong, h⟩

theorem walk_cons_of {l : Location} {part : String} {parts : List String}
    (hentry : t.entryAt l = some .directory)
    (hlength : IsName part → part.utf8ByteSize ≤ nameLimit) :
    t.walk l (part :: parts) = t.walk (turn l part) parts := by
  rw [walk_cons, hentry]
  unfold turn
  by_cases hhere : isHere part
  · simp only [if_pos hhere]
  · by_cases habove : part = above
    · simp only [if_neg hhere, if_pos habove]
    · have hname : IsName part := ⟨Bool.eq_false_iff.mpr hhere, habove⟩
      simp only [if_neg hhere, if_neg habove, if_neg (Nat.not_lt.mpr (hlength hname))]

/-- A walk that gets to its end gets to the place that the parts lead to. -/
theorem walk_eq_ok {l l' : Location} {parts : List String} (h : t.walk l parts = .ok l') :
    l' = follow l parts := by
  induction parts generalizing l with
  | nil => exact (Except.ok.inj h).symm
  | cons part parts ih =>
    obtain ⟨-, -, hrest⟩ := walk_cons_eq_ok h
    exact ih hrest

theorem walk_append_eq_ok_iff {l l' : Location} {ps qs : List String} :
    t.walk l (ps ++ qs) = .ok l' ↔
      t.walk l ps = .ok (follow l ps) ∧ t.walk (follow l ps) qs = .ok l' := by
  induction ps generalizing l with
  | nil => simp [walk]
  | cons part ps ih =>
    rw [List.cons_append]
    constructor
    · intro h
      obtain ⟨hentry, hlength, hrest⟩ := walk_cons_eq_ok h
      rw [walk_cons_of hentry hlength, follow_cons]
      exact ih.mp hrest
    · intro ⟨hps, hqs⟩
      obtain ⟨hentry, hlength, hrest⟩ := walk_cons_eq_ok hps
      rw [walk_cons_of hentry hlength]
      exact ih.mpr ⟨hrest, hqs⟩

/-- A walk into a directory leads on to each name in it. -/
theorem walk_concat {l : Location} {directory : List String} {name : String}
    (hwalk : t.walk l directory = .ok (follow l directory))
    (hentry : t.entryAt (follow l directory) = some .directory)
    (hlength : name.utf8ByteSize ≤ nameLimit) :
    t.walk l (directory ++ [name]) = .ok (follow l (directory ++ [name])) := by
  apply walk_append_eq_ok_iff.mpr
  refine ⟨hwalk, ?_⟩
  rw [walk_cons_of hentry fun _ => hlength, follow_append]
  rfl

/-- A walk passes through directories alone, so that it is the same in a tree that has these
    directories too. -/
theorem walk_mono {t' : FileTree}
    (hdirectories : ∀ k, t.entryAt k = some .directory → t'.entryAt k = some .directory)
    {l l' : Location} {parts : List String} (h : t.walk l parts = .ok l') :
    t'.walk l parts = .ok l' := by
  induction parts generalizing l with
  | nil => exact h
  | cons part parts ih =>
    obtain ⟨hentry, hlength, hrest⟩ := walk_cons_eq_ok h
    rw [walk_cons_of (hdirectories l hentry) hlength]
    exact ih hrest

theorem walkInto_eq_ok_iff {l l' : Location} {parts : List String} :
    t.walkInto l parts = .ok l' ↔
      t.walk l parts = .ok l' ∧ t.entryAt l' = some .directory := by
  unfold walkInto
  rw [walk_append_eq_ok_iff]
  constructor
  · intro ⟨hparts, hhere⟩
    obtain ⟨hentry, -, hrest⟩ := walk_cons_eq_ok hhere
    obtain rfl := walk_eq_ok hhere
    exact ⟨hparts, hentry⟩
  · intro ⟨hparts, hentry⟩
    obtain rfl := walk_eq_ok hparts
    refine ⟨hparts, ?_⟩
    rw [walk_cons_of hentry fun hname => absurd hname.1 (by decide)]
    rfl

/-! ### Reading -/

/-- A file is read where there is one at the place that a path leads to. -/
theorem read_eq_ok_iff {p : Path} {contents : ByteArray} :
    t.read p = .ok contents ↔
      p.check = .ok () ∧
      t.walk (t.start p) p.parts = .ok (p.location t.workingDirectory) ∧
      t.entryAt (p.location t.workingDirectory) = some (.file contents) := by
  constructor
  · intro h
    obtain ⟨_, hcheck, h⟩ := exists_of_bind_ok h
    obtain ⟨l, hwalk, h⟩ := exists_of_bind_ok h
    obtain rfl : l = p.location t.workingDirectory := walk_eq_ok hwalk
    split at h
    · cases h
    · cases h
    · next hfile => exact ⟨hcheck, hwalk, Except.ok.inj h ▸ hfile⟩
  · intro ⟨hcheck, hwalk, hentry⟩
    unfold read
    rw [hcheck, hwalk]
    simp only [bind, Except.bind, hentry]
    rfl

/-! ### New entries -/

/-- A place for a new entry: a name in a directory that a walk gets to. -/
theorem place_eq_ok {p : Path} {slashAllowed : Bool} {unnamed : FileError} {l : Location}
    (h : t.place p slashAllowed unnamed = .ok l) :
    ∃ directory name, dropTrailing p.parts = directory ++ [name] ∧ IsName name ∧
      name.utf8ByteSize ≤ nameLimit ∧ (slashAllowed = false → p.parts.getLast? ≠ some "") ∧
      t.walk (t.start p) directory = .ok (follow (t.start p) directory) ∧
      t.entryAt (follow (t.start p) directory) = some .directory ∧
      l = follow (t.start p) directory ++ [name] := by
  unfold place at h
  simp only at h
  split at h
  · cases h
  · next name hlast =>
    obtain ⟨d, hwalk, h⟩ := exists_of_bind_ok h
    obtain ⟨hwalk, hdirectory⟩ := walkInto_eq_ok_iff.mp hwalk
    obtain rfl := walk_eq_ok hwalk
    -- The checks of the name follow, each of which may end in an error.
    by_cases hname : isHere name || name = above
    · rw [if_pos hname] at h
      cases h
    rw [if_neg hname] at h
    by_cases hslash : !slashAllowed && p.parts.getLast? = some ""
    · rw [if_pos hslash] at h
      cases h
    rw [if_neg hslash] at h
    by_cases hlong : nameLimit < name.utf8ByteSize
    · rw [if_pos hlong] at h
      cases h
    rw [if_neg hlong] at h
    refine ⟨_, name, (List.dropLast_append_getLast? name hlast).symm, ?_, Nat.le_of_not_lt hlong,
      ?_, hwalk, hdirectory, (Except.ok.inj h).symm⟩
    · simpa [IsName] using hname
    · simpa using hslash

/-- Empty parts at the end of a path lead nowhere. -/
theorem follow_dropTrailing (l : Location) (parts : List String) :
    follow l (dropTrailing parts) = follow l parts := by
  have hsplit : parts = dropTrailing parts ++ (parts.reverse.takeWhile (· == "")).reverse := by
    unfold dropTrailing
    rw [← List.reverse_append, List.takeWhile_append_dropWhile, List.reverse_reverse]
  have hempty (ps : List String) (h : ∀ p ∈ ps, p = "") (k : Location) : follow k ps = k := by
    induction ps with
    | nil => rfl
    | cons p ps ih =>
      obtain ⟨rfl, hps⟩ := List.forall_mem_cons.mp h
      exact ih hps
  have htrailing : ∀ p ∈ (parts.reverse.takeWhile (· == "")).reverse, p = "" := by
    intro p hp
    simpa using List.mem_takeWhile_imp (List.mem_reverse.mp hp)
  conv => rhs; rw [hsplit]
  rw [follow_append, hempty _ htrailing]

theorem dropTrailing_of_getLast {parts : List String} (h : parts.getLast? ≠ some "") :
    dropTrailing parts = parts := by
  rcases List.eq_nil_or_concat' parts with rfl | ⟨before, last, rfl⟩
  · rfl
  · have hlast : (last == "") = false := by simpa using h
    unfold dropTrailing
    rw [List.reverse_concat, List.dropWhile_cons_of_neg (by simp [hlast]), ← List.reverse_concat,
      List.reverse_reverse]

/-- A new entry gets the place that its path leads to, below the root. -/
theorem place_eq_location {p : Path} {slashAllowed : Bool} {unnamed : FileError} {l : Location}
    (h : t.place p slashAllowed unnamed = .ok l) :
    l = p.location t.workingDirectory ∧ l ≠ [] := by
  obtain ⟨directory, name, hparts, hname, -, -, -, -, rfl⟩ := place_eq_ok h
  refine ⟨?_, by simp⟩
  have hfollow := follow_dropTrailing (t.start p) p.parts
  rw [hparts, follow_append, follow_cons, follow_nil, turn_of_isName hname] at hfollow
  exact hfollow

/-- A file is written to the place that its path leads to, where there is no directory. -/
theorem write_eq_ok {p : Path} {contents : ByteArray} (h : t.write p contents = .ok t') :
    p.location t.workingDirectory ≠ [] ∧
      t.entryAt (p.location t.workingDirectory) ≠ some .directory ∧
      t' = t.put (p.location t.workingDirectory) (.file contents) := by
  obtain ⟨_, -, h⟩ := exists_of_bind_ok h
  obtain ⟨l, hplace, h⟩ := exists_of_bind_ok h
  obtain ⟨rfl, hroot⟩ := place_eq_location hplace
  by_cases hdirectory : t.entryAt (p.location t.workingDirectory) = some .directory
  · rw [if_pos hdirectory] at h
    cases h
  · rw [if_neg hdirectory] at h
    exact ⟨hroot, hdirectory, (Except.ok.inj h).symm⟩

/-! ### Changes -/

/-- One tree comes from another by work at some places. Directories stay. At the other places
    there is what there was, or a directory where there was nothing. -/
structure ChangesOnly (changed : Location → Prop) (t t' : FileTree) : Prop where
  workingDirectory : t'.workingDirectory = t.workingDirectory
  directory : ∀ l, t.entryAt l = some .directory → t'.entryAt l = some .directory
  entryAt : ∀ l, ¬ changed l →
    t'.entryAt l = t.entryAt l ∨ t.entryAt l = none ∧ t'.entryAt l = some .directory

namespace ChangesOnly

variable {changed : Location → Prop}

/-- A place that was not worked at has a file exactly if it had it before. -/
theorem file_iff (h : ChangesOnly changed t t') {l : Location} (hl : ¬ changed l)
    {contents : ByteArray} :
    t'.entryAt l = some (.file contents) ↔ t.entryAt l = some (.file contents) := by
  rcases h.entryAt l hl with heq | ⟨hnone, hdirectory⟩
  · rw [heq]
  · rw [hnone, hdirectory]
    exact ⟨nofun, nofun⟩

theorem location (h : ChangesOnly changed t t') (p : Path) :
    p.location t'.workingDirectory = p.location t.workingDirectory := by
  rw [h.workingDirectory]

/-- A path that led to a file leads to the one that is at its place now. -/
theorem read (h : ChangesOnly changed t t') {p : Path} {contents contents' : ByteArray}
    (hread : t.read p = .ok contents)
    (hentry : t'.entryAt (p.location t.workingDirectory) = some (.file contents')) :
    t'.read p = .ok contents' := by
  obtain ⟨hcheck, hwalk, -⟩ := read_eq_ok_iff.mp hread
  apply read_eq_ok_iff.mpr
  have hstart : t'.start p = t.start p := by
    unfold start
    rw [h.workingDirectory]
  rw [hstart, h.location]
  exact ⟨hcheck, walk_mono h.directory hwalk, hentry⟩

/-- A file stays where no work is done. -/
theorem read_of_not_changed (h : ChangesOnly changed t t') {p : Path} {contents : ByteArray}
    (hread : t.read p = .ok contents) (hp : ¬ changed (p.location t.workingDirectory)) :
    t'.read p = .ok contents :=
  h.read hread ((h.file_iff hp).mpr (read_eq_ok_iff.mp hread).2.2)

end ChangesOnly

end TaggedUnion.FileTree
