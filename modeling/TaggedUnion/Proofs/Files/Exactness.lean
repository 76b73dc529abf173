import TaggedUnion.Proofs.Files.Passable
import TaggedUnion.Proofs.Files.PlainPaths
import TaggedUnion.Proofs.Files.Writing

/-! # Writing artifacts is exact

    Artifacts are written below a directory, by plain paths that are apart from each other. What
    comes of that is told entry by entry:

    * **`CanBeWritten`** and **`canBeWritten_iff`**: an artifact can be written on its own, which
      can be told from the tree.
    * **`canBeWritten_iff_of_writeArtifacts`**: the artifacts that were written before neither help
      nor hinder.
    * **`writesExactly`**: all artifacts are written, or those before the first one that cannot
      be; and what is written is not written again.
-/

namespace TaggedUnion

open FileTree (Grows nowhere)
open TaggedUnion.Path (IsName textParts ofRoot)

variable {root : String} {s s' : Session} {a b : Artifact} {as : List Artifact}

namespace Artifact

/-- The way to the file of an artifact leads through a place. -/
def Passes (a : Artifact) (workingDirectory : Location) (root : String) (l : Location) : Prop :=
  (a.filePath root).way.Passes workingDirectory l

/-- An artifact can be written in a session. -/
def CanBeWritten (a : Artifact) (root : String) (s : Session) : Prop :=
  ∃ w s', s.perform (a.writeTo root) = (.ok w, s')

/-! ### One artifact -/

/-- Only the files of a session are changed where an artifact is written. -/
theorem exists_files_of_writeTo (a : Artifact) (root : String) (s : Session) :
    ∃ files, (s.perform (a.writeTo root)).2 = { s with files := files } := by
  rcases hmake : s.files.makeDirectories (.ofText (a.target root)) with ⟨t, made⟩
  rcases writeTo_cases hmake with ⟨e, -, h⟩ | ⟨-, h⟩ | ⟨files, -, h⟩
  · exact ⟨t, by rw [h]⟩
  · exact ⟨t, by rw [h]⟩
  · exact ⟨files, by rw [h]⟩

/-- An artifact that could not be written leaves all files as they were. -/
theorem grows_of_writeTo_error {e : FileError} (h : s.perform (a.writeTo root) = (.error e, s')) :
    Grows nowhere ((a.filePath root).way.Makes s.files.workingDirectory) s.files s'.files := by
  have hmade := s.files.makeDirectories_grows (a.filePath root)
  rcases hmake : s.files.makeDirectories (.ofText (a.target root)) with ⟨t, made⟩
  rw [filePath, hmake] at hmade
  rcases writeTo_cases hmake with ⟨e, -, hcase⟩ | ⟨-, hcase⟩ | ⟨files, -, hcase⟩
  · cases hcase.symm.trans h
    exact hmade
  · cases hcase.symm.trans h
  · cases hcase.symm.trans h

/-- An artifact that is there is not written again, and no directory is made. -/
theorem writeTo_of_read (h : s.files.read (a.filePath root) = .ok a.contents.toUTF8) :
    s.perform (a.writeTo root) = (.ok ⟨a.target root, false⟩, s) := by
  have hmade := s.perform_makeDirectories (a.target root)
  rw [filePath] at h
  rw [FileTree.makeDirectories_of_read h] at hmade
  obtain ⟨found, hisAt, hfound⟩ := a.exists_perform_isAt (a.target root) s
  unfold writeTo
  rw [Session.perform_bind_of_ok hmade, Session.perform_bind_of_ok hisAt, hfound.mpr h]
  rfl

/-! ### Plain paths -/

/-- The paths of all artifacts start where that of the directory does. -/
theorem isAbsolute_filePath (h : IsPlain a.path) (root : String) :
    (a.filePath root).isAbsolute = (ofRoot root).isAbsolute := by
  rw [filePath, target, Path.ofText_joinPath h]

theorem exists_filePath_eq (h : IsPlain a.path) (root : String) :
    ∃ isAbsolute directory name, a.filePath root = ⟨isAbsolute, directory ++ [name]⟩ ∧
      IsName name := by
  obtain ⟨names, name, hparts⟩ :=
    (List.eq_nil_or_concat' (textParts a.path)).resolve_left (Path.textParts_ne_nil a.path)
  refine ⟨(ofRoot root).isAbsolute, (ofRoot root).parts ++ names, name, ?_, ?_⟩
  · rw [filePath, target, Path.ofText_joinPath h, hparts, List.append_assoc]
  · exact h name (hparts ▸ List.mem_append_right names (List.mem_singleton_self name))

theorem isWritable_of_read (h : IsPlain a.path) {contents : ByteArray}
    (hread : s.files.read (a.filePath root) = .ok contents) :
    s.files.IsWritable (a.filePath root) := by
  obtain ⟨isAbsolute, directory, name, hpath, hname⟩ := exists_filePath_eq h root
  refine FileTree.isWritable_of_read ?_ hread
  intro last hlast
  rw [hpath, List.getLast?_concat] at hlast
  exact Option.some.inj hlast ▸ hname

/-- An artifact that can be written is one whose path is writable. -/
theorem canBeWritten_iff (h : IsPlain a.path) :
    a.CanBeWritten root s ↔ s.files.IsWritable (a.filePath root) := by
  constructor
  · rintro ⟨w, s', hwrite⟩
    have hgrows := writeTo_grows a root s
    rw [hwrite] at hgrows
    exact (isWritable_of_read h (read_of_writeTo hwrite).2).shrink hgrows fun l hl => hl.2
  · obtain ⟨isAbsolute, directory, name, hpath, hname⟩ := exists_filePath_eq h root
    intro hwritable
    rw [hpath] at hwritable
    obtain ⟨t, hmake, files, hwrite⟩ :=
      FileTree.write_of_isWritable hname hwritable a.contents.toUTF8
    rw [← hpath] at hmake hwrite
    rcases writeTo_cases hmake with ⟨e, hfailed, -⟩ | ⟨-, hrun⟩ | ⟨files, -, hrun⟩
    · rcases hfailed with hmade | hwritten
      · cases hmade
      · cases hwritten.symm.trans hwrite
    · exact ⟨_, _, hrun⟩
    · exact ⟨_, _, hrun⟩

end Artifact

/-! ### A list of artifacts -/

namespace Command

open Artifact (writeTo_grows read_of_writeTo)

/-- Only the files of a session are changed where artifacts are written. -/
theorem exists_files_of_writeArtifacts (root : String) (as : List Artifact) (s : Session) :
    ∃ files, (s.perform (writeArtifacts root as)).2 = { s with files := files } := by
  induction as generalizing s with
  | nil => exact ⟨s.files, rfl⟩
  | cons a as ih =>
    obtain ⟨files, hfirst⟩ := a.exists_files_of_writeTo root s
    rcases writeArtifacts_cons_cases root a as s with ⟨e, s₁, hwrite, h⟩ | ⟨w, s₁, hwrite, h⟩
    · rw [hwrite] at hfirst
      rw [h]
      exact ⟨files, hfirst⟩
    · rw [hwrite] at hfirst
      obtain ⟨files', hrest⟩ := ih s₁
      rw [h]
      refine ⟨files', ?_⟩
      rw [hrest, show s₁ = { s with files := files } from hfirst]

theorem paths_of_writeArtifacts {paths : List String}
    (h : s.perform (writeArtifacts root as) = (.ok paths, s')) :
    paths = as.map (·.target root) := by
  induction as generalizing s paths with
  | nil =>
    cases h
    rfl
  | cons a as ih =>
    obtain ⟨w, s₁, rest, hwrite, hrest, rfl⟩ := writeArtifacts_cons_ok h
    rw [List.map_cons, ih hrest, (read_of_writeTo hwrite).1]

/-- Artifacts that are there are not written again. -/
theorem writeArtifacts_of_read
    (h : ∀ a ∈ as, s.files.read (a.filePath root) = .ok a.contents.toUTF8) :
    s.perform (writeArtifacts root as) = (.ok (as.map (·.target root)), s) := by
  induction as with
  | nil => rfl
  | cons a as ih =>
    obtain ⟨ha, has⟩ := List.forall_mem_cons.mp h
    have hthere := Artifact.writeTo_of_read ha
    rcases writeArtifacts_cons_cases root a as s with ⟨e, s₁, hwrite, -⟩ | ⟨w, s₁, hwrite, hrun⟩
    · cases hwrite.symm.trans hthere
    · cases hwrite.symm.trans hthere
      rw [hrun, ih has]
      rfl

/-- The writing stops at an artifact that cannot be written after those before it. -/
theorem exists_of_writeArtifacts_error {e : Error}
    (h : s.perform (writeArtifacts root as) = (.error e, s')) :
    ∃ before a after cause s₁, as = before ++ a :: after ∧ e = .writing a.path cause ∧
      s.perform (writeArtifacts root before) = (.ok (before.map (·.target root)), s₁) ∧
      s₁.perform (a.writeTo root) = (.error cause, s') := by
  induction as generalizing s with
  | nil => cases h
  | cons a as ih =>
    rcases writeArtifacts_cons_cases root a as s with ⟨cause, s₁, hwrite, hrun⟩ |
      ⟨w, s₁, hwrite, hrun⟩
    · cases hrun.symm.trans h
      exact ⟨[], a, as, cause, s, rfl, rfl, rfl, hwrite⟩
    · rcases hrest : s₁.perform (writeArtifacts root as) with ⟨r, s₂⟩
      rw [hrest] at hrun
      cases r with
      | ok rest => cases hrun.symm.trans h
      | error e =>
        cases hrun.symm.trans h
        obtain ⟨before, b, after, cause, s₃, rfl, rfl, hbefore, hfailed⟩ := ih hrest
        refine ⟨a :: before, b, after, cause, s₃, rfl, rfl, ?_, hfailed⟩
        rcases writeArtifacts_cons_cases root a before s with ⟨cause', s₄, hwrite', -⟩ |
          ⟨w', s₄, hwrite', hrun'⟩
        · cases hwrite.symm.trans hwrite'
        · cases hwrite.symm.trans hwrite'
          rw [hrun', hbefore, List.map_cons, (read_of_writeTo hwrite).1]
          rfl

/-! ### Artifacts apart from each other -/

/-- The paths of the artifacts are plain, and apart from each other. -/
structure AreSeparate (as : List Artifact) : Prop where
  isPlain : ∀ a ∈ as, IsPlain a.path
  areApart : as.Pairwise fun a b => AreApart a.path b.path

theorem AreSeparate.sublist {bs : List Artifact} (h : AreSeparate as) (hbs : bs.Sublist as) :
    AreSeparate bs :=
  ⟨fun a ha => h.isPlain a (hbs.subset ha), h.areApart.sublist hbs⟩

theorem AreSeparate.nodup_places (h : AreSeparate as) (cwd : Location) (root : String) :
    (as.map fun a => a.place cwd root).Nodup := by
  rw [List.Nodup, List.pairwise_map]
  refine h.areApart.imp_of_mem fun ha hb hapart => ?_
  exact Path.placeOf_ne_of_areApart (h.isPlain _ ha) (h.isPlain _ hb) hapart cwd root

/-- Each artifact is read from its file after all of them have been written. -/
theorem read_of_areSeparate (hseparate : AreSeparate as) {paths : List String}
    (h : s.perform (writeArtifacts root as) = (.ok paths, s')) (ha : a ∈ as) :
    s'.files.read (a.filePath root) = .ok a.contents.toUTF8 := by
  rw [← List.nil_append as] at h
  exact read_of_nodup h (hseparate.nodup_places _ root) ha ha rfl

/-- Where an artifact was writable after others were written, it was so before. -/
theorem isWritable_of_writeArtifacts (has : ∀ b ∈ as, IsPlain b.path) (ha : IsPlain a.path)
    (h : (s.perform (writeArtifacts root as)).2.files.IsWritable (a.filePath root)) :
    s.files.IsWritable (a.filePath root) := by
  refine h.shrink (writeArtifacts_grows root as s) ?_
  rintro l ⟨b, hb, -, hbelow⟩
  change ¬ l <+: if (b.filePath root).isAbsolute then [] else s.files.workingDirectory at hbelow
  rwa [Artifact.isAbsolute_filePath (has b hb), ← Artifact.isAbsolute_filePath ha] at hbelow

/-- Artifacts that were all written could each be written before. -/
theorem canBeWritten_of_writeArtifacts (hseparate : AreSeparate as) {paths : List String}
    (h : s.perform (writeArtifacts root as) = (.ok paths, s')) (ha : a ∈ as) :
    a.CanBeWritten root s := by
  have hplain := hseparate.isPlain a ha
  have hread := read_of_areSeparate hseparate h ha
  refine (Artifact.canBeWritten_iff hplain).mpr
    (isWritable_of_writeArtifacts hseparate.isPlain hplain ?_)
  rw [h]
  exact Artifact.isWritable_of_read hplain hread

/-- The artifacts that were written before neither help to write one nor hinder it. -/
theorem canBeWritten_iff_of_writeArtifacts {before : List Artifact} {paths : List String}
    (hseparate : AreSeparate (before ++ [a]))
    (h : s.perform (writeArtifacts root before) = (.ok paths, s')) :
    a.CanBeWritten root s' ↔ a.CanBeWritten root s := by
  have hplain := hseparate.isPlain a (by simp)
  have hbefore := hseparate.sublist (List.sublist_append_left before [a])
  have hapart : ∀ b ∈ before, AreApart b.path a.path := fun b hb =>
    (List.pairwise_append.mp hseparate.areApart).2.2 b hb a (List.mem_singleton_self a)
  have hgrows := writeArtifacts_grows root before s
  rw [h] at hgrows
  rw [Artifact.canBeWritten_iff hplain, Artifact.canBeWritten_iff hplain]
  constructor
  · intro hwritable
    refine isWritable_of_writeArtifacts hbefore.isPlain hplain ?_
    rwa [h]
  · intro hwritable
    refine hwritable.grow hgrows ?_ ?_
    · -- The way up to the directory is that of an earlier artifact too, whose file is not on it.
      rintro l ⟨b, hb, rfl⟩ hpasses
      have hread := read_of_areSeparate hbefore h hb
      have hroot := Path.passes_ofRoot_of_areApart hplain (hbefore.isPlain b hb)
        ⟨(hapart b hb).2, (hapart b hb).1⟩ hpasses
      have hown := Path.passes_way_of_passes (hbefore.isPlain b hb) hroot
      apply FileTree.not_passes_of_read hread
      rw [hgrows.workingDirectory]
      exact hown
    · rintro ⟨b, hb, hmakes⟩
      have hroot := Path.passes_ofRoot_of_areApart (hbefore.isPlain b hb) hplain (hapart b hb)
        hmakes.1
      exact hwritable.not_passes (Path.passes_way_of_passes hplain hroot)

/-- All artifacts were written between two sessions. Their files are there, the directories on
    their ways too, and everything else is as before. -/
structure HasWritten (root : String) (as : List Artifact) (s s' : Session) : Prop where
  /-- Nothing is read from the input or printed. -/
  session : ∃ files, s' = { s with files := files }
  workingDirectory : s'.files.workingDirectory = s.files.workingDirectory
  /-- The file at the path of each artifact has just its contents. -/
  read : ∀ a ∈ as, s'.files.read (a.filePath root) = .ok a.contents.toUTF8
  /-- The place of that file is below the directory, by the names in the path of the artifact. -/
  place : ∀ a ∈ as,
    s'.files.entryAt (placeOf s.files.workingDirectory root ++ textParts a.path) =
      some (.file a.contents.toUTF8)
  /-- On the ways there were directories or nothing, and there are directories now. -/
  way : ∀ a ∈ as, ∀ l, a.Passes s.files.workingDirectory root l →
    (s.files.entryAt l = none ∨ s.files.entryAt l = some .directory) ∧
      s'.files.entryAt l = some .directory
  other : ∀ l, (∀ a ∈ as, l ≠ a.place s.files.workingDirectory root ∧
    ¬ a.Passes s.files.workingDirectory root l) → s'.files.entryAt l = s.files.entryAt l

/-- Some artifacts were written, and then one could not be. At other places than those of the
    former, there is what there was, or a directory where there was nothing. -/
structure HasStopped (root : String) (before : List Artifact) (a : Artifact) (s s' : Session) :
    Prop where
  session : ∃ files, s' = { s with files := files }
  workingDirectory : s'.files.workingDirectory = s.files.workingDirectory
  canBeWritten : ∀ b ∈ before, b.CanBeWritten root s
  not_canBeWritten : ¬ a.CanBeWritten root s
  read : ∀ b ∈ before, s'.files.read (b.filePath root) = .ok b.contents.toUTF8
  other : ∀ l, (∀ b ∈ before, l ≠ b.place s.files.workingDirectory root) →
    s'.files.entryAt l = s.files.entryAt l ∨
      (∃ b ∈ before ++ [a], b.Passes s.files.workingDirectory root l) ∧
        s.files.entryAt l = none ∧ s'.files.entryAt l = some .directory

theorem hasWritten_of_writeArtifacts (hseparate : AreSeparate as) {paths : List String}
    (h : s.perform (writeArtifacts root as) = (.ok paths, s')) : HasWritten root as s s' := by
  obtain ⟨files, hfiles⟩ := exists_files_of_writeArtifacts root as s
  have hgrows := writeArtifacts_grows root as s
  rw [h] at hgrows hfiles
  have hread : ∀ a ∈ as, s'.files.read (a.filePath root) = .ok a.contents.toUTF8 :=
    fun a ha => read_of_areSeparate hseparate h ha
  refine ⟨⟨files, hfiles⟩, hgrows.workingDirectory, hread, ?_, ?_, ?_⟩
  · intro a ha
    obtain ⟨-, -, hentry⟩ := FileTree.read_eq_ok_iff.mp (hread a ha)
    rw [hgrows.workingDirectory] at hentry
    rw [← Path.placeOf_joinPath_of_isPlain (hseparate.isPlain a ha)]
    exact hentry
  · intro a ha l hpasses
    have hdirectory : s'.files.entryAt l = some .directory := by
      apply FileTree.directory_of_read (hread a ha)
      rw [hgrows.workingDirectory]
      exact hpasses
    rcases hgrows.directory_cases hdirectory with hbefore | ⟨-, hnone⟩
    · exact ⟨.inr hbefore, hdirectory⟩
    · exact ⟨.inl hnone, hdirectory⟩
  · intro l hl
    refine hgrows.same ?_ ?_
    · exact fun ⟨a, ha, hplace⟩ => (hl a ha).1 hplace
    · exact fun ⟨a, ha, hmakes⟩ => (hl a ha).2 hmakes.1

theorem hasStopped_of_writeArtifacts {before after : List Artifact} {cause : FileError}
    {s₁ : Session} (hseparate : AreSeparate (before ++ a :: after))
    (hbefore : s.perform (writeArtifacts root before) = (.ok (before.map (·.target root)), s₁))
    (ha : s₁.perform (a.writeTo root) = (.error cause, s')) : HasStopped root before a s s' := by
  have hupTo : AreSeparate (before ++ [a]) :=
    hseparate.sublist (List.Sublist.append_left (List.singleton_sublist.mpr List.mem_cons_self) _)
  have hearlier := hupTo.sublist (List.sublist_append_left before [a])
  have hgrows := writeArtifacts_grows root before s
  obtain ⟨files₁, hfiles₁⟩ := exists_files_of_writeArtifacts root before s
  obtain ⟨files, hfiles⟩ := a.exists_files_of_writeTo root s₁
  have hchanges := Artifact.writeTo_changesOnly a root s₁
  have hmade := Artifact.grows_of_writeTo_error ha
  rw [hbefore] at hgrows hfiles₁
  rw [ha] at hfiles hchanges
  rw [hgrows.workingDirectory] at hmade
  have hall : Grows (fun l => ∃ b ∈ before, l = b.place s.files.workingDirectory root)
      (fun l => ∃ b ∈ before ++ [a], (b.filePath root).way.Makes s.files.workingDirectory l)
      s.files s'.files :=
    (hgrows.mono (fun _ => id) fun l ⟨b, hb, hl⟩ => ⟨b, List.mem_append_left _ hb, hl⟩).trans
      (hmade.mono (fun _ => False.elim) fun l hl => ⟨a, by simp, hl⟩)
  refine ⟨⟨files, ?_⟩, hall.workingDirectory, ?_, ?_, ?_, ?_⟩
  · rw [show s' = _ from hfiles, show s₁ = _ from hfiles₁]
  · exact fun b hb => canBeWritten_of_writeArtifacts hearlier hbefore hb
  · intro hcan
    obtain ⟨w, s₂, hwritten⟩ := (canBeWritten_iff_of_writeArtifacts hupTo hbefore).mpr hcan
    cases ha.symm.trans hwritten
  · intro b hb
    refine hchanges.read_of_not_changed (read_of_areSeparate hearlier hbefore hb) ?_
    have hapart := (List.pairwise_append.mp hupTo.areApart).2.2 b hb a (List.mem_singleton_self a)
    exact Path.placeOf_ne_of_areApart (hupTo.isPlain b (by simp [hb]))
      (hupTo.isPlain a (by simp)) hapart _ root
  · intro l hl
    rcases hall.entryAt l with hsame | ⟨⟨b, hb, hmakes⟩, hentries⟩ | ⟨⟨b, hb, hplace⟩, -⟩
    · exact .inl hsame
    · exact .inr ⟨⟨b, hb, hmakes.1⟩, hentries⟩
    · exact absurd hplace (hl b hb)

/-- Artifacts with plain paths that are apart from each other are written to a directory.

    * All of them are written exactly if each one could be written on its own. Then their paths
      come back in their order, and writing them once more succeeds and changes nothing.
    * Otherwise the writing stops at the first one that cannot be written, and names it. Those
      before it are written, and no other file has changed. -/
theorem writesExactly (hseparate : AreSeparate as) (root : String) (s : Session) :
    ((∃ paths s', s.perform (writeArtifacts root as) = (.ok paths, s')) ↔
      ∀ a ∈ as, a.CanBeWritten root s) ∧
    (∀ paths s', s.perform (writeArtifacts root as) = (.ok paths, s') →
      paths = as.map (·.target root) ∧ HasWritten root as s s' ∧
        s'.perform (writeArtifacts root as) = (.ok paths, s')) ∧
    ∀ e s', s.perform (writeArtifacts root as) = (.error e, s') →
      ∃ before a after cause, as = before ++ a :: after ∧ e = .writing a.path cause ∧
        HasStopped root before a s s' := by
  refine ⟨⟨?_, ?_⟩, ?_, ?_⟩
  · rintro ⟨paths, s', h⟩ a ha
    exact canBeWritten_of_writeArtifacts hseparate h ha
  · intro hall
    rcases hrun : s.perform (writeArtifacts root as) with ⟨r, s'⟩
    cases r with
    | ok paths => exact ⟨paths, s', rfl⟩
    | error e =>
      obtain ⟨before, a, after, cause, s₁, rfl, rfl, hbefore, hfailed⟩ :=
        exists_of_writeArtifacts_error hrun
      have hstopped := hasStopped_of_writeArtifacts hseparate hbefore hfailed
      exact absurd (hall a (by simp)) hstopped.not_canBeWritten
  · intro paths s' h
    have hwritten := hasWritten_of_writeArtifacts hseparate h
    obtain rfl := paths_of_writeArtifacts h
    exact ⟨rfl, hwritten, writeArtifacts_of_read hwritten.read⟩
  · intro e s' h
    obtain ⟨before, a, after, cause, s₁, rfl, rfl, hbefore, hfailed⟩ :=
      exists_of_writeArtifacts_error h
    have hstopped := hasStopped_of_writeArtifacts hseparate hbefore hfailed
    exact ⟨before, a, after, cause, rfl, rfl, hstopped⟩

/-- Two artifacts, the second one in a directory of its own. -/
def twoArtifacts : List Artifact := [⟨.core, "a.rs", "one"⟩, ⟨.core, "sub/b.rs", "two"⟩]

/-- Files with bytes that are no text where the first artifact goes, and a directory where the
    second one goes. -/
def obstructed : FileTree where
  entries := [(["home"], .directory), (["home", "out"], .directory),
    (["home", "out", "a.rs"], .file ⟨#[255]⟩), (["home", "out", "sub"], .directory),
    (["home", "out", "sub", "b.rs"], .directory)]
  workingDirectory := ["home"]

theorem writesExactly_twoArtifacts :
    AreSeparate twoArtifacts ∧
    (∃ paths s', (Session.begin (.empty ["home"]) []).perform (writeArtifacts "out" twoArtifacts) =
        (.ok paths, s') ∧ HasWritten "out" twoArtifacts (.begin (.empty ["home"]) []) s') ∧
    ∃ before a s', HasStopped "out" before a (.begin obstructed []) s' ∧
      (Session.begin obstructed []).perform (writeArtifacts "out" twoArtifacts) =
        (.error (.writing a.path .isDirectory), s') := by
  have hseparate : AreSeparate twoArtifacts := ⟨by decide, by decide⟩
  refine ⟨hseparate, ?_, ?_⟩
  · have hsucceeds : ((Session.begin (.empty ["home"]) []).perform
        (writeArtifacts "out" twoArtifacts)).1.isOk = true := by decide +kernel
    rcases hrun : (Session.begin (.empty ["home"]) []).perform (writeArtifacts "out" twoArtifacts)
      with ⟨r, s'⟩
    rw [hrun] at hsucceeds
    cases r with
    | error e => cases hsucceeds
    | ok paths => exact ⟨paths, s', rfl, ((writesExactly hseparate "out" _).2.1 paths s' hrun).2.1⟩
  · have hfails : ((Session.begin obstructed []).perform (writeArtifacts "out" twoArtifacts)).1 =
        .error (.writing "sub/b.rs" .isDirectory) := by decide +kernel
    rcases hrun : (Session.begin obstructed []).perform (writeArtifacts "out" twoArtifacts)
      with ⟨r, s'⟩
    rw [hrun] at hfails
    obtain rfl : r = .error (.writing "sub/b.rs" .isDirectory) := hfails
    obtain ⟨before, a, after, cause, -, herror, hstopped⟩ :=
      (writesExactly hseparate "out" _).2.2 _ s' hrun
    obtain ⟨hpath, rfl⟩ := Error.writing.inj herror
    exact ⟨before, a, s', hstopped, by rw [hpath]⟩

end Command

end TaggedUnion
