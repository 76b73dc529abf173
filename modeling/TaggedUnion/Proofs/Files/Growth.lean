import Mathlib.Data.List.Induction
import TaggedUnion.Proofs.Files.Effects

/-! # How trees grow

    Work on files makes directories and writes files, and this module says where:

    * **`Grows`**: one tree comes from another by making directories at some places and writing
      files at others. All other entries are as before.
    * **`Path.Passes`**: the places that a path leads through. Directories are made there and
      nowhere else (`makeDirectories_grows`), and never where a walk starts or above.
    * **`read_of_write`**: a file that was written is read from the place that its path leads to.
    * **`makeDirectories_of_read`**: where a file can be read, no directory is made.
-/

namespace TaggedUnion

open Schema (exists_of_bind_ok)

/-! ### Places on the way -/

namespace Path

/-- A path leads through a place, or to it. -/
def Passes (workingDirectory : Location) (p : Path) (l : Location) : Prop :=
  ∃ ps, ps <+: p.parts ∧ l = follow (if p.isAbsolute then [] else workingDirectory) ps

/-- A path leads through a place where a directory may have to be made: neither where the path
    starts nor above. -/
def Makes (workingDirectory : Location) (p : Path) (l : Location) : Prop :=
  p.Passes workingDirectory l ∧ ¬ l <+: if p.isAbsolute then [] else workingDirectory

/-- A path without its last part. -/
def way (p : Path) : Path := { p with parts := p.parts.dropLast }

theorem Passes.mono {cwd : Location} {isAbsolute : Bool} {ps qs : List String} (h : ps <+: qs)
    {l : Location} (hl : Passes cwd ⟨isAbsolute, ps⟩ l) : Passes cwd ⟨isAbsolute, qs⟩ l := by
  obtain ⟨rs, hrs, rfl⟩ := hl
  exact ⟨rs, hrs.trans h, rfl⟩

theorem Makes.mono {cwd : Location} {isAbsolute : Bool} {ps qs : List String} (h : ps <+: qs)
    {l : Location} (hl : Makes cwd ⟨isAbsolute, ps⟩ l) : Makes cwd ⟨isAbsolute, qs⟩ l :=
  ⟨hl.1.mono h, hl.2⟩

/-- A part stays, leads above, or leads into a directory. -/
theorem turn_cases (l : Location) (part : String) :
    turn l part = l ∨ turn l part = l.dropLast ∨ turn l part = l ++ [part] := by
  unfold turn
  split_ifs <;> simp

theorem dropLast_prefix_dropLast {ps qs : List String} (h : ps <+: qs) :
    ps.dropLast <+: qs.dropLast := by
  obtain ⟨rest, rfl⟩ := h
  by_cases hrest : rest = []
  · simp [hrest]
  · rw [List.dropLast_append_of_ne_nil hrest]
    exact ps.dropLast_prefix.trans (List.prefix_append _ _)

/-- The directory that the last part stands in lies on the way. -/
theorem parent_prefix_way (p : Path) : p.parent.parts <+: p.way.parts := by
  have hdrop (ps : List String) : (ps.dropWhile isHere).reverse <+: ps.reverse :=
    List.reverse_prefix.mpr (List.dropWhile_suffix _)
  have hlast := dropLast_prefix_dropLast (hdrop p.parts.reverse)
  rw [List.reverse_reverse, List.dropLast_reverse] at hlast
  exact (hdrop _).trans hlast

/-- A path can be walked if it has no null character, and is neither empty nor too long. -/
theorem check_eq_ok_iff {p : Path} :
    p.check = .ok () ↔ (∀ part ∈ p.parts, '\x00' ∉ part.toList) ∧ p.toText ≠ "" ∧
      p.toText.utf8ByteSize < byteBound := by
  unfold check
  split_ifs with hnull hempty hlong
  · refine iff_of_false nofun fun ⟨hparts, _⟩ => ?_
    obtain ⟨part, hpart, hmem⟩ : ∃ part ∈ p.parts, '\x00' ∈ part.toList := by simpa using hnull
    exact hparts part hpart hmem
  · exact iff_of_false nofun fun ⟨_, htext, _⟩ => htext hempty
  · exact iff_of_false nofun fun ⟨_, _, hshort⟩ => Nat.not_lt.mpr hlong hshort
  · exact iff_of_true rfl ⟨by simpa using hnull, hempty, Nat.lt_of_not_le hlong⟩

theorem exists_toText_eq (isAbsolute : Bool) {ps qs : List String} (h : ps <+: qs) :
    ∃ rest, (Path.mk isAbsolute qs).toText = (Path.mk isAbsolute ps).toText ++ rest := by
  obtain ⟨rest, rfl⟩ := h
  by_cases hps : ps = []
  · subst hps
    exact ⟨"/".intercalate rest, by simp [toText]⟩
  by_cases hrest : rest = []
  · subst hrest
    exact ⟨"", by simp⟩
  · refine ⟨"/" ++ "/".intercalate rest, ?_⟩
    simp only [toText, String.intercalate_append_of_ne_nil hps hrest, String.append_assoc]

/-- The beginning of a path that can be walked can be walked, if it is not empty. -/
theorem check_beginning {isAbsolute : Bool} {ps qs : List String} {part : String}
    (hcheck : (Path.mk isAbsolute qs).check = .ok ()) (hps : ps ++ [part] <+: qs)
    (hpart : isHere part = false) : (Path.mk isAbsolute (ps ++ [part])).check = .ok () := by
  obtain ⟨hnull, -, hshort⟩ := check_eq_ok_iff.mp hcheck
  obtain ⟨rest, hrest⟩ := exists_toText_eq isAbsolute hps
  refine check_eq_ok_iff.mpr ⟨fun q hq => hnull q (hps.subset hq), ?_, ?_⟩
  · have hne : part ≠ "" := by
      rintro rfl
      cases hpart
    by_cases hempty : ps = []
    · simp [toText, hempty, hne]
    · simp [toText, String.intercalate_append_of_ne_nil hempty (List.cons_ne_nil part [])]
  · rw [hrest, String.utf8ByteSize_append] at hshort
    exact Nat.lt_of_le_of_lt (Nat.le_add_right _ _) hshort

end Path

namespace FileTree

open TaggedUnion.Path

variable {t t' : FileTree}

/-- All parts but the last lead through directories. -/
theorem directory_of_walk {l l' : Location} {ps qs : List String}
    (h : t.walk l (ps ++ qs) = .ok l') (hqs : qs ≠ []) :
    t.entryAt (follow l ps) = some .directory := by
  obtain ⟨part, parts, rfl⟩ := List.exists_cons_of_ne_nil hqs
  exact (walk_cons_eq_ok (walk_append_eq_ok_iff.mp h).2).1

theorem directory_of_walkInto {l l' : Location} {ps : List String}
    (h : t.walkInto l ps = .ok l') : t.entryAt l = some .directory := by
  have hwalk : t.walk l ([] ++ (ps ++ ["."])) = .ok l' := h
  exact directory_of_walk hwalk (by simp)

theorem eq_or_prefix_dropLast {k l : Location} (h : k <+: l) : k = l ∨ k <+: l.dropLast := by
  rcases List.eq_nil_or_concat' l with rfl | ⟨above, name, rfl⟩
  · exact .inl (List.prefix_nil.mp h)
  · rw [List.dropLast_concat]
    exact List.prefix_concat_iff.mp h

/-- A walk that leaves the places above its start leads through them. -/
theorem prefix_or_directory_of_walk {l l' : Location} {parts : List String}
    (h : t.walk l parts = .ok l') {k : Location} (hk : k <+: l) :
    k <+: l' ∨ t.entryAt k = some .directory := by
  induction parts generalizing l with
  | nil =>
    obtain rfl := Except.ok.inj h
    exact .inl hk
  | cons part parts ih =>
    obtain ⟨hentry, -, hrest⟩ := walk_cons_eq_ok h
    rcases turn_cases l part with hturn | hturn | hturn <;> rw [hturn] at hrest
    · exact ih hrest hk
    · -- Above a place there are the places above it, and the place itself is left.
      rcases eq_or_prefix_dropLast hk with rfl | hk
      · exact .inr hentry
      · exact ih hrest hk
    · exact ih hrest (hk.trans (List.prefix_append l [part]))

/-! ### Growth -/

/-- One tree comes from another by making directories at some places, where there is nothing, and
    writing files at others, where there is no directory. -/
structure Grows (written made : Location → Prop) (t t' : FileTree) : Prop where
  workingDirectory : t'.workingDirectory = t.workingDirectory
  entryAt : ∀ l, t'.entryAt l = t.entryAt l ∨
    made l ∧ t.entryAt l = none ∧ t'.entryAt l = some .directory ∨
    written l ∧ t.entryAt l ≠ some .directory ∧ ∃ contents, t'.entryAt l = some (.file contents)

/-- No place. -/
def nowhere : Location → Prop := fun _ => False

namespace Grows

variable {written made written' made' : Location → Prop}

theorem refl (written made : Location → Prop) (t : FileTree) : Grows written made t t :=
  ⟨rfl, fun _ => .inl rfl⟩

theorem mono (h : Grows written made t t') (hwritten : ∀ l, written l → written' l)
    (hmade : ∀ l, made l → made' l) : Grows written' made' t t' := by
  refine ⟨h.workingDirectory, fun l => ?_⟩
  rcases h.entryAt l with hsame | ⟨hl, hentries⟩ | ⟨hl, hentries⟩
  · exact .inl hsame
  · exact .inr (.inl ⟨hmade l hl, hentries⟩)
  · exact .inr (.inr ⟨hwritten l hl, hentries⟩)

theorem trans {t'' : FileTree} (h : Grows written made t t') (h' : Grows written made t' t'') :
    Grows written made t t'' := by
  refine ⟨h'.workingDirectory.trans h.workingDirectory, fun l => ?_⟩
  rcases h'.entryAt l with hsame | ⟨hl, hnone, hdirectory⟩ | ⟨hl, hdirectory, contents, hfile⟩
  · rw [hsame]
    exact h.entryAt l
  · rcases h.entryAt l with hsame | ⟨-, -, hfirst⟩ | ⟨-, -, contents, hfirst⟩
    · exact .inr (.inl ⟨hl, hsame.symm.trans hnone, hdirectory⟩)
    -- Where something was made or written, there is something.
    · cases hnone.symm.trans hfirst
    · cases hnone.symm.trans hfirst
  · rcases h.entryAt l with hsame | ⟨-, -, hfirst⟩ | ⟨-, hbefore, -⟩
    · exact .inr (.inr ⟨hl, hsame ▸ hdirectory, contents, hfile⟩)
    · exact absurd hfirst hdirectory
    · exact .inr (.inr ⟨hl, hbefore, contents, hfile⟩)

theorem directory (h : Grows written made t t') {l : Location}
    (hl : t.entryAt l = some .directory) : t'.entryAt l = some .directory := by
  rcases h.entryAt l with hsame | ⟨-, hnone, -⟩ | ⟨-, hdirectory, -⟩
  · exact hsame.trans hl
  · cases hnone.symm.trans hl
  · exact absurd hl hdirectory

/-- A directory was there before, or it has been made. -/
theorem directory_cases (h : Grows written made t t') {l : Location}
    (hl : t'.entryAt l = some .directory) :
    t.entryAt l = some .directory ∨ made l ∧ t.entryAt l = none := by
  rcases h.entryAt l with hsame | ⟨hmade, hnone, -⟩ | ⟨-, -, contents, hfile⟩
  · exact .inl (hsame.symm.trans hl)
  · exact .inr ⟨hmade, hnone⟩
  · cases hl.symm.trans hfile

/-- Where there is nothing, there was nothing. -/
theorem missing (h : Grows written made t t') {l : Location} (hl : t'.entryAt l = none) :
    t.entryAt l = none := by
  rcases h.entryAt l with hsame | ⟨-, hnone, -⟩ | ⟨-, -, contents, hfile⟩
  · exact hsame.symm.trans hl
  · exact hnone
  · cases hl.symm.trans hfile

/-- Where nothing was made or written, all is as before. -/
theorem same (h : Grows written made t t') {l : Location} (hwritten : ¬ written l)
    (hmade : ¬ made l) : t'.entryAt l = t.entryAt l := by
  rcases h.entryAt l with hsame | ⟨hl, -⟩ | ⟨hl, -⟩
  · exact hsame
  · exact absurd hl hmade
  · exact absurd hl hwritten

theorem start (h : Grows written made t t') (p : Path) : t'.start p = t.start p := by
  unfold FileTree.start
  rw [h.workingDirectory]

/-- What changes are the files that are written. -/
theorem changesOnly (h : Grows written made t t') : ChangesOnly written t t' where
  workingDirectory := h.workingDirectory
  directory _ := h.directory
  entryAt l hl := by
    rcases h.entryAt l with hsame | ⟨-, hentries⟩ | ⟨hwritten, -⟩
    · exact .inl hsame
    · exact .inr hentries
    · exact absurd hwritten hl

end Grows

theorem put_grows {written made : Location → Prop} {l : Location} {e : Entry} (hroot : l ≠ [])
    (h : e = .directory ∧ made l ∧ t.entryAt l = none ∨
      written l ∧ t.entryAt l ≠ some .directory ∧ ∃ contents, e = .file contents) :
    Grows written made t (t.put l e) := by
  refine ⟨rfl, fun k => ?_⟩
  rw [entryAt_put t hroot]
  by_cases hk : k = l
  · subst hk
    rw [if_pos rfl]
    rcases h with ⟨rfl, hmade, hnone⟩ | ⟨hwritten, hdirectory, contents, rfl⟩
    · exact .inr (.inl ⟨hmade, hnone, rfl⟩)
    · exact .inr (.inr ⟨hwritten, hdirectory, contents, rfl⟩)
  · rw [if_neg hk]
    exact .inl rfl

/-- A directory is made at the place that its path leads to, where there is nothing. A walk gets
    there from the directory above, which is not where the walk starts or above. -/
theorem makeDirectory_eq_ok {p : Path} (h : t.makeDirectory p = .ok t') :
    p.location t.workingDirectory ≠ [] ∧ t.entryAt (p.location t.workingDirectory) = none ∧
      ¬ p.location t.workingDirectory <+: t.start p ∧
      t' = t.put (p.location t.workingDirectory) .directory := by
  obtain ⟨_, -, h⟩ := exists_of_bind_ok h
  obtain ⟨l, hplace, h⟩ := exists_of_bind_ok h
  obtain ⟨directory, name, -, -, -, -, hwalk, -, hl⟩ := place_eq_ok hplace
  obtain ⟨rfl, hroot⟩ := place_eq_location hplace
  by_cases hentry : (t.entryAt (p.location t.workingDirectory)).isSome
  · rw [if_pos hentry] at h
    cases h
  rw [if_neg hentry] at h
  have hnone := Option.not_isSome_iff_eq_none.mp hentry
  refine ⟨hroot, hnone, fun habove => ?_, (Except.ok.inj h).symm⟩
  -- The walk to the directory above could get there through this place only.
  rcases prefix_or_directory_of_walk hwalk habove with hle | hdirectory
  · have hlength := hle.length_le
    rw [hl, List.length_append] at hlength
    exact Nat.not_succ_le_self _ hlength
  · cases hnone.symm.trans hdirectory

theorem makeDirectory_grows {p : Path} (h : t.makeDirectory p = .ok t') :
    Grows nowhere (p.Makes t.workingDirectory) t t' := by
  obtain ⟨hroot, hnone, hstart, rfl⟩ := makeDirectory_eq_ok h
  exact put_grows hroot (.inl ⟨rfl, ⟨⟨p.parts, List.prefix_refl _, rfl⟩, hstart⟩, hnone⟩)

theorem ensureDirectory_grows {p : Path} (h : t.ensureDirectory p = .ok t') :
    Grows nowhere (p.Makes t.workingDirectory) t t' := by
  unfold ensureDirectory at h
  split at h
  · next hmade =>
    obtain rfl := Except.ok.inj h
    exact makeDirectory_grows hmade
  · split at h
    · obtain rfl := Except.ok.inj h
      exact .refl _ _ t
    · cases h

theorem makeReversed_grows (isAbsolute : Bool) (t : FileTree) (parts : List String) :
    Grows nowhere (Makes t.workingDirectory ⟨isAbsolute, parts.reverse⟩) t
      (t.makeReversed isAbsolute parts).1 := by
  induction parts generalizing t with
  | nil => exact .refl _ _ t
  | cons part upper ih =>
    have hupper : Grows nowhere (Makes t.workingDirectory ⟨isAbsolute, (part :: upper).reverse⟩) t
        (t.makeReversed isAbsolute upper).1 :=
      (ih t).mono (fun _ => id) fun l hl =>
        hl.mono (List.reverse_prefix.mpr (List.suffix_cons part upper))
    unfold makeReversed
    by_cases hhere : isHere part
    · rw [if_pos hhere]
      exact hupper
    rw [if_neg hhere]
    simp only
    split
    · next hmade => exact ensureDirectory_grows hmade
    · -- The directory above is made first, and then this one once more.
      split
      · next heq =>
        rw [heq] at hupper
        exact hupper
      · next heq =>
        rw [heq] at hupper
        split
        · next hmade =>
          have hlast := ensureDirectory_grows hmade
          rw [hupper.workingDirectory] at hlast
          exact hupper.trans hlast
        · exact hupper
    · exact .refl _ _ t

/-- Directories are made on the way of a path only, also where this fails. -/
theorem makeDirectories_grows (t : FileTree) (p : Path) :
    Grows nowhere (p.way.Makes t.workingDirectory) t (t.makeDirectories p).1 := by
  have hgrows := makeReversed_grows p.isAbsolute t p.parent.parts.reverse
  rw [List.reverse_reverse] at hgrows
  exact hgrows.mono (fun _ => id) fun l hl => hl.mono p.parent_prefix_way

theorem write_grows {p : Path} {contents : ByteArray} (h : t.write p contents = .ok t') :
    Grows (· = p.location t.workingDirectory) nowhere t t' := by
  obtain ⟨hroot, hdirectory, rfl⟩ := write_eq_ok h
  exact put_grows hroot (.inr ⟨rfl, hdirectory, contents, rfl⟩)

/-- A file that was written is read from where it was written to. -/
theorem read_of_write {p : Path} {contents : ByteArray} (h : t.write p contents = .ok t') :
    t'.read p = .ok contents := by
  have hgrows := write_grows h
  obtain ⟨hroot, -, rfl⟩ := write_eq_ok h
  obtain ⟨_, hcheck, h⟩ := exists_of_bind_ok h
  obtain ⟨l, hplace, -⟩ := exists_of_bind_ok h
  obtain ⟨directory, name, hparts, hname, hlength, hslash, hwalk, hentry, rfl⟩ :=
    place_eq_ok hplace
  rw [dropTrailing_of_getLast (hslash rfl)] at hparts
  apply read_eq_ok_iff.mpr
  refine ⟨hcheck, ?_, by rw [hgrows.changesOnly.location, entryAt_put t hroot, if_pos rfl]⟩
  -- The directory that the file was put into is still there.
  have hconcat :=
    walk_concat (walk_mono (fun _ => hgrows.directory) hwalk) (hgrows.directory hentry) hlength
  rw [← hparts] at hconcat
  exact hconcat

/-! ### Directories that are there -/

theorem walkInto_beginning {l l' : Location} {ps qs : List String} (hps : ps <+: qs)
    (h : t.walkInto l qs = .ok l') : t.walkInto l ps = .ok (follow l ps) := by
  obtain ⟨rest, rfl⟩ := hps
  rw [walkInto, List.append_assoc] at h
  exact walkInto_eq_ok_iff.mpr
    ⟨(walk_append_eq_ok_iff.mp h).1, directory_of_walk h (by simp)⟩

/-- A directory that is there is not made again. -/
theorem ensureDirectory_of_walkInto {p : Path} {l : Location} (hcheck : p.check = .ok ())
    (h : t.walkInto (t.start p) p.parts = .ok l) : t.ensureDirectory p = .ok t := by
  unfold ensureDirectory
  cases hmake : t.makeDirectory p with
  | ok made =>
    obtain ⟨-, hnone, -⟩ := makeDirectory_eq_ok hmake
    obtain ⟨hwalk, hdirectory⟩ := walkInto_eq_ok_iff.mp h
    obtain rfl : l = p.location t.workingDirectory := walk_eq_ok hwalk
    cases hnone.symm.trans hdirectory
  | error e =>
    have hthere : t.isDirectory p = true := by
      unfold isDirectory
      rw [hcheck, h]
      rfl
    simp only [if_pos hthere]

section

variable {isAbsolute : Bool} {ps : List String} {part : String}

theorem makeReversed_of_isHere (h : isHere part = true) :
    t.makeReversed isAbsolute (ps ++ [part]).reverse = t.makeReversed isAbsolute ps.reverse := by
  rw [List.reverse_concat, makeReversed, if_pos h]

theorem makeReversed_of_ensured (h : isHere part = false)
    (hmade : t.ensureDirectory ⟨isAbsolute, ps ++ [part]⟩ = .ok t') :
    t.makeReversed isAbsolute (ps ++ [part]).reverse = (t', .ok ()) := by
  rw [← List.reverse_reverse (ps ++ [part]), List.reverse_concat] at hmade
  rw [List.reverse_concat, makeReversed, h, if_neg Bool.false_ne_true]
  simp only [hmade]

/-- The directory above is made, and then there can be one in it. -/
theorem makeReversed_of_missing {t₁ : FileTree} (h : isHere part = false)
    (hmissing : t.ensureDirectory ⟨isAbsolute, ps ++ [part]⟩ = .error .notFound)
    (hupper : t.makeReversed isAbsolute ps.reverse = (t₁, .ok ()))
    (hmade : t₁.ensureDirectory ⟨isAbsolute, ps ++ [part]⟩ = .ok t') :
    t.makeReversed isAbsolute (ps ++ [part]).reverse = (t', .ok ()) := by
  rw [← List.reverse_reverse (ps ++ [part]), List.reverse_concat] at hmissing hmade
  rw [List.reverse_concat, makeReversed, h, if_neg Bool.false_ne_true]
  simp only [hmissing, hupper, hmade]

end

/-- Where a way leads through directories alone, none is made. -/
theorem makeReversed_of_walkInto {isAbsolute : Bool} {ps qs : List String} {l : Location}
    (hcheck : (Path.mk isAbsolute qs).check = .ok ()) (hps : ps <+: qs)
    (h : t.walkInto (t.start ⟨isAbsolute, qs⟩) ps = .ok l) :
    t.makeReversed isAbsolute ps.reverse = (t, .ok ()) := by
  induction ps using List.reverseRecOn generalizing l with
  | nil => rfl
  | append_singleton ps part ih =>
    have hupper := List.prefix_append ps [part]
    by_cases hhere : isHere part
    · rw [makeReversed_of_isHere hhere]
      exact ih (hupper.trans hps) (walkInto_beginning hupper h)
    · rw [Bool.not_eq_true] at hhere
      exact makeReversed_of_ensured hhere
        (ensureDirectory_of_walkInto (check_beginning hcheck hps hhere) h)

/-- Where a file can be read, all directories on its way are there, and none is made. -/
theorem makeDirectories_of_read {p : Path} {contents : ByteArray} (h : t.read p = .ok contents) :
    t.makeDirectories p = (t, .ok ()) := by
  obtain ⟨hcheck, hwalk, -⟩ := read_eq_ok_iff.mp h
  have hparent := p.parent_prefix_way
  have hparts : p.parent.parts <+: p.parts := hparent.trans (List.dropLast_prefix _)
  rcases List.eq_nil_or_concat' p.parts with hnil | ⟨directory, name, hconcat⟩
  · rw [hnil] at hparts
    rw [makeDirectories, List.prefix_nil.mp hparts]
    rfl
  · rw [hconcat] at hwalk
    have hway : t.walkInto (t.start p) p.way.parts = .ok (follow (t.start p) p.way.parts) := by
      rw [way, hconcat, List.dropLast_concat]
      exact walkInto_eq_ok_iff.mpr
        ⟨(walk_append_eq_ok_iff.mp hwalk).1, directory_of_walk hwalk (List.cons_ne_nil _ _)⟩
    exact makeReversed_of_walkInto hcheck hparts (walkInto_beginning hparent hway)

end FileTree

end TaggedUnion
