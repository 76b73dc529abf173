import TaggedUnion.Command.Basic
import TaggedUnion.Proofs.Files.Growth
import TaggedUnion.Session

/-! # What writing artifacts changes

    An artifact is written to one place (`writeTo_cases` says all that can happen). Where a list of
    artifacts is written, files are written at their places, and directories are made on the ways
    there (`writeArtifacts_grows`). The last one that is written to a place is found there
    (`read_of_writeArtifacts`), and no file is changed elsewhere (`writeArtifacts_changesOnly`).
-/

namespace TaggedUnion

open FileTree (ChangesOnly Grows)

/-! ### Computations that can fail -/

namespace Session

variable {ε α β : Type}

/-- What comes of a computation in a session, and the session after it. -/
def perform (s : Session) (x : ExceptT ε (StateM Session) α) : Except ε α × Session := x.run.run s

variable {s s' : Session} {x : ExceptT ε (StateM Session) α}

theorem perform_bind_of_ok {a : α} (h : s.perform x = (.ok a, s'))
    (f : α → ExceptT ε (StateM Session) β) : s.perform (x >>= f) = s'.perform (f a) := by
  show (match s.perform x with | (r, s') => StateT.run (ExceptT.bindCont f r) s') = _
  rw [h]
  rfl

theorem perform_bind_of_error {e : ε} (h : s.perform x = (.error e, s'))
    (f : α → ExceptT ε (StateM Session) β) : s.perform (x >>= f) = (.error e, s') := by
  show (match s.perform x with | (r, s') => StateT.run (ExceptT.bindCont f r) s') = _
  rw [h]
  rfl

theorem perform_makeDirectories (s : Session) (path : String) :
    s.perform (ExceptT.mk (Host.makeDirectories path)) =
      ((s.files.makeDirectories (.ofText path)).2,
        { s with files := (s.files.makeDirectories (.ofText path)).1 }) := rfl

theorem perform_writeFile_of_ok {path text : String} {files : FileTree}
    (h : s.files.write (.ofText path) text.toUTF8 = .ok files) :
    s.perform (ExceptT.mk (Host.writeFile path text)) = (.ok (), { s with files := files }) := by
  simp only [perform, Host.writeFile, ExceptT.run, ExceptT.mk, StateT.run, modifyGet,
    MonadStateOf.modifyGet, StateT.modifyGet, pure, h]

theorem perform_writeFile_of_error {path text : String} {e : FileError}
    (h : s.files.write (.ofText path) text.toUTF8 = .error e) :
    s.perform (ExceptT.mk (Host.writeFile path text)) = (.error e, s) := by
  simp only [perform, Host.writeFile, ExceptT.run, ExceptT.mk, StateT.run, modifyGet,
    MonadStateOf.modifyGet, StateT.modifyGet, pure, h]

end Session

/-! ### One artifact -/

theorem Host.decode_eq_ok_iff {bytes : ByteArray} {text : String} :
    Host.decode bytes = .ok text ↔ bytes = text.toUTF8 := by
  unfold Host.decode String.fromUTF8?
  by_cases hvalid : bytes.IsValidUTF8
  · rw [dif_pos hvalid]
    constructor
    · intro h
      obtain rfl := Except.ok.inj h
      rfl
    · rintro rfl
      rfl
  · rw [dif_neg hvalid]
    constructor
    · intro h
      cases h
    · rintro rfl
      exact absurd text.isValidUTF8 hvalid

namespace Artifact

/-- The place that an artifact is written to, below the place of a directory. -/
def place (a : Artifact) (workingDirectory : Location) (root : String) : Location :=
  placeOf workingDirectory (a.target root)

/-- The path that the file of an artifact has. -/
def filePath (a : Artifact) (root : String) : Path := .ofText (a.target root)

/-- The contents are compared, and nothing is changed. -/
theorem exists_perform_isAt (a : Artifact) (path : String) (s : Session) :
    ∃ b : Bool, s.perform (a.isAt path : ExceptT FileError (StateM Session) Bool) = (.ok b, s) ∧
      (b = true ↔ s.files.read (.ofText path) = .ok a.contents.toUTF8) := by
  have hread : s.perform
      (Host.readText path : ExceptT FileError (StateM Session) (Except FileError String)) =
    (.ok ((s.files.read (.ofText path)).bind Host.decode), s) := rfl
  unfold isAt
  rw [Session.perform_bind_of_ok hread]
  cases hfile : s.files.read (.ofText path) with
  | error e => exact ⟨false, rfl, nofun, nofun⟩
  | ok bytes =>
    have hbytes : (Except.ok bytes : Except FileError ByteArray) = .ok a.contents.toUTF8 ↔
        Host.decode bytes = .ok a.contents := by
      rw [Except.ok.injEq, Host.decode_eq_ok_iff]
    rw [hbytes]
    have hbind : (Except.ok bytes).bind Host.decode = Host.decode bytes := rfl
    rw [hbind]
    cases Host.decode bytes with
    | error e => exact ⟨false, rfl, nofun, nofun⟩
    | ok text => exact ⟨text == a.contents, rfl, by rw [beq_iff_eq, Except.ok.injEq]⟩

/-- Directories are made first. Then the file has the contents already, or it is written. -/
theorem writeTo_cases {a : Artifact} {root : String} {s : Session} {t : FileTree}
    {made : Except FileError Unit}
    (hmake : s.files.makeDirectories (.ofText (a.target root)) = (t, made)) :
    (∃ e, (made = .error e ∨ t.write (.ofText (a.target root)) a.contents.toUTF8 = .error e) ∧
      s.perform (a.writeTo root) = (.error e, { s with files := t })) ∨
    (t.read (.ofText (a.target root)) = .ok a.contents.toUTF8 ∧
      s.perform (a.writeTo root) = (.ok ⟨a.target root, false⟩, { s with files := t })) ∨
    (∃ files, t.write (.ofText (a.target root)) a.contents.toUTF8 = .ok files ∧
      s.perform (a.writeTo root) = (.ok ⟨a.target root, true⟩, { s with files := files })) := by
  have hmade := s.perform_makeDirectories (a.target root)
  rw [hmake] at hmade
  unfold writeTo
  cases made with
  | error e => exact .inl ⟨e, .inl rfl, Session.perform_bind_of_error hmade _⟩
  | ok _ =>
    rw [Session.perform_bind_of_ok hmade]
    obtain ⟨b, hisAt, hb⟩ := a.exists_perform_isAt (a.target root) { s with files := t }
    rw [Session.perform_bind_of_ok hisAt]
    cases b with
    | true => exact .inr (.inl ⟨hb.mp rfl, rfl⟩)
    | false =>
      rw [if_neg Bool.false_ne_true]
      cases hwrite : t.write (.ofText (a.target root)) a.contents.toUTF8 with
      | error e =>
        have hfailed := Session.perform_writeFile_of_error (s := { s with files := t }) hwrite
        exact .inl ⟨e, .inr rfl, Session.perform_bind_of_error hfailed _⟩
      | ok files =>
        have hwritten := Session.perform_writeFile_of_ok (s := { s with files := t }) hwrite
        exact .inr (.inr ⟨files, rfl, Session.perform_bind_of_ok hwritten _⟩)

/-- A file is written at the place of the artifact, and directories are made on the way there. -/
theorem writeTo_grows (a : Artifact) (root : String) (s : Session) :
    Grows (· = a.place s.files.workingDirectory root)
      ((a.filePath root).way.Makes s.files.workingDirectory) s.files
      (s.perform (a.writeTo root)).2.files := by
  have hmade : Grows (· = a.place s.files.workingDirectory root)
      ((a.filePath root).way.Makes s.files.workingDirectory) s.files
      (s.files.makeDirectories (a.filePath root)).1 :=
    (s.files.makeDirectories_grows (a.filePath root)).mono (fun _ => False.elim) fun _ => id
  rcases hmake : s.files.makeDirectories (.ofText (a.target root)) with ⟨t, made⟩
  rw [filePath, hmake] at hmade
  rcases writeTo_cases hmake with ⟨e, -, h⟩ | ⟨-, h⟩ | ⟨files, hwrite, h⟩
  · rw [h]
    exact hmade
  · rw [h]
    exact hmade
  · rw [h]
    have hwritten := FileTree.write_grows hwrite
    rw [hmade.changesOnly.location] at hwritten
    exact hmade.trans (hwritten.mono (fun _ => id) fun _ => False.elim)

/-- Writing an artifact changes files at its place only, also where it fails. -/
theorem writeTo_changesOnly (a : Artifact) (root : String) (s : Session) :
    ChangesOnly (· = a.place s.files.workingDirectory root) s.files
      (s.perform (a.writeTo root)).2.files := (a.writeTo_grows root s).changesOnly

/-- An artifact that was written is read from where it was written to. -/
theorem read_of_writeTo {a : Artifact} {root : String} {s s' : Session} {w : Written}
    (h : s.perform (a.writeTo root) = (.ok w, s')) :
    w.path = a.target root ∧ s'.files.read (.ofText (a.target root)) = .ok a.contents.toUTF8 := by
  rcases hmake : s.files.makeDirectories (.ofText (a.target root)) with ⟨t, made⟩
  rcases writeTo_cases hmake with ⟨e, -, hcase⟩ | ⟨hread, hcase⟩ | ⟨files, hwrite, hcase⟩
  · rw [hcase] at h
    cases h
  · rw [hcase] at h
    cases h
    exact ⟨rfl, hread⟩
  · rw [hcase] at h
    cases h
    exact ⟨rfl, FileTree.read_of_write hwrite⟩

end Artifact

/-! ### A list of artifacts -/

namespace Command

open Artifact (writeTo_changesOnly writeTo_grows read_of_writeTo)

variable {root : String} {s s' : Session}

theorem perform_orStop {ε γ : Type} (context : ε → Error) (x : ExceptT ε (StateM Session) γ)
    (s : Session) :
    s.perform (orStop context x.run) = ((s.perform x).1.mapError context, (s.perform x).2) := rfl

theorem perform_writeArtifact (root : String) (a : Artifact) (s : Session) :
    s.perform (writeArtifact root a) =
      (((s.perform (a.writeTo root)).1.mapError (.writing a.path)).map (·.path),
        (s.perform (a.writeTo root)).2) := by
  have hstop := perform_orStop (.writing a.path) (a.writeTo root) s
  unfold writeArtifact
  rcases hwrite : s.perform (a.writeTo root) with ⟨r, s'⟩
  rw [hwrite] at hstop
  cases r with
  | error e => exact Session.perform_bind_of_error hstop _
  | ok w => exact Session.perform_bind_of_ok hstop _

/-- The first artifact is written, and then the others unless that failed. -/
theorem writeArtifacts_cons_cases (root : String) (a : Artifact) (as : List Artifact)
    (s : Session) :
    (∃ e s₁, s.perform (a.writeTo root) = (.error e, s₁) ∧
      s.perform (writeArtifacts root (a :: as)) = (.error (.writing a.path e), s₁)) ∨
    (∃ w s₁, s.perform (a.writeTo root) = (.ok w, s₁) ∧
      s.perform (writeArtifacts root (a :: as)) =
        ((s₁.perform (writeArtifacts root as)).1.map (w.path :: ·),
          (s₁.perform (writeArtifacts root as)).2)) := by
  have hfirst := perform_writeArtifact root a s
  unfold writeArtifacts
  rw [List.mapM_cons]
  rcases hwrite : s.perform (a.writeTo root) with ⟨r, s₁⟩
  rw [hwrite] at hfirst
  cases r with
  | error e => exact .inl ⟨e, s₁, rfl, Session.perform_bind_of_error hfirst _⟩
  | ok w =>
    refine .inr ⟨w, s₁, rfl, ?_⟩
    rw [Session.perform_bind_of_ok hfirst]
    rcases hrest : s₁.perform (as.mapM (writeArtifact root)) with ⟨r, s₂⟩
    cases r with
    | error e => exact Session.perform_bind_of_error hrest _
    | ok paths => exact Session.perform_bind_of_ok hrest _

/-- Files are written at the places of the artifacts, and directories are made on the ways
    there. -/
theorem writeArtifacts_grows (root : String) (as : List Artifact) (s : Session) :
    Grows (fun l => ∃ a ∈ as, l = a.place s.files.workingDirectory root)
      (fun l => ∃ a ∈ as, (a.filePath root).way.Makes s.files.workingDirectory l) s.files
      (s.perform (writeArtifacts root as)).2.files := by
  induction as generalizing s with
  | nil => exact .refl _ _ _
  | cons a as ih =>
    have hfirst : Grows (fun l => ∃ b ∈ a :: as, l = b.place s.files.workingDirectory root)
        (fun l => ∃ b ∈ a :: as, (b.filePath root).way.Makes s.files.workingDirectory l) s.files
        (s.perform (a.writeTo root)).2.files :=
      (writeTo_grows a root s).mono (fun l hl => ⟨a, List.mem_cons_self, hl⟩)
        fun l hl => ⟨a, List.mem_cons_self, hl⟩
    rcases writeArtifacts_cons_cases root a as s with ⟨e, s₁, hwrite, h⟩ | ⟨w, s₁, hwrite, h⟩
    · rw [hwrite] at hfirst
      rw [h]
      exact hfirst
    · rw [hwrite] at hfirst
      have hrest := ih s₁
      rw [hfirst.workingDirectory] at hrest
      rw [h]
      refine hfirst.trans (hrest.mono ?_ ?_)
      · exact fun l ⟨b, hb, hl⟩ => ⟨b, List.mem_cons_of_mem a hb, hl⟩
      · exact fun l ⟨b, hb, hl⟩ => ⟨b, List.mem_cons_of_mem a hb, hl⟩

/-- Writing artifacts changes files at their places only, also where it fails. -/
theorem writeArtifacts_changesOnly (root : String) (as : List Artifact) (s : Session) :
    ChangesOnly (fun l => ∃ a ∈ as, l = a.place s.files.workingDirectory root) s.files
      (s.perform (writeArtifacts root as)).2.files := (writeArtifacts_grows root as s).changesOnly

theorem writeArtifacts_cons_ok {a : Artifact} {as : List Artifact} {paths : List String}
    (h : s.perform (writeArtifacts root (a :: as)) = (.ok paths, s')) :
    ∃ w s₁ rest, s.perform (a.writeTo root) = (.ok w, s₁) ∧
      s₁.perform (writeArtifacts root as) = (.ok rest, s') ∧ paths = w.path :: rest := by
  rcases writeArtifacts_cons_cases root a as s with ⟨e, s₁, -, hrun⟩ | ⟨w, s₁, hwrite, hrun⟩
  · rw [hrun] at h
    cases h
  · rw [hrun] at h
    rcases hrest : s₁.perform (writeArtifacts root as) with ⟨r, s₂⟩
    rw [hrest] at h
    cases r with
    | error e => cases h
    | ok rest =>
      cases h
      exact ⟨w, s₁, rest, hwrite, hrest, rfl⟩

/-- Of the artifacts that are written to one place, the last one is found there, whichever of
    their paths is followed. -/
theorem read_of_writeArtifacts {before after : List Artifact} {x y : Artifact}
    {paths : List String}
    (h : s.perform (writeArtifacts root (before ++ y :: after)) = (.ok paths, s'))
    (hlast : ∀ z ∈ after,
      z.place s.files.workingDirectory root ≠ y.place s.files.workingDirectory root)
    (hx : x ∈ before ++ y :: after)
    (hplace : x.place s.files.workingDirectory root = y.place s.files.workingDirectory root) :
    s'.files.read (.ofText (x.target root)) = .ok y.contents.toUTF8 := by
  induction before generalizing s x paths with
  | nil =>
    obtain ⟨w, s₁, rest, hwrite, hrest, -⟩ := writeArtifacts_cons_ok h
    have hfirst := writeTo_changesOnly y root s
    have hchanges := writeArtifacts_changesOnly root after s₁
    rw [hwrite] at hfirst
    rw [hrest] at hchanges
    rcases List.mem_cons.mp hx with rfl | hx
    · -- What is written afterwards goes to other places.
      apply hchanges.read_of_not_changed (read_of_writeTo hwrite).2
      intro ⟨z, hz, heq⟩
      rw [hfirst.workingDirectory] at heq
      exact hlast z hz heq.symm
    · exact absurd hplace (hlast x hx)
  | cons b before ih =>
    rw [List.cons_append] at h hx
    obtain ⟨w, s₁, rest, hwrite, hrest, -⟩ := writeArtifacts_cons_ok h
    have hfirst := writeTo_changesOnly b root s
    have hchanges := writeArtifacts_changesOnly root (before ++ y :: after) s₁
    rw [hwrite] at hfirst
    rw [hrest] at hchanges
    rw [← hfirst.workingDirectory] at hlast hplace
    rcases List.mem_cons.mp hx with rfl | hx
    · -- The path of the first artifact leads to its place still, where the last one is found.
      have hy := ih hrest hlast (List.mem_append_right before List.mem_cons_self) rfl
      obtain ⟨-, -, hentry⟩ := FileTree.read_eq_ok_iff.mp hy
      rw [hchanges.location] at hentry
      apply hchanges.read (read_of_writeTo hwrite).2
      rw [← hentry]
      exact congrArg s'.files.entryAt hplace
    · exact ih hrest hlast hx hplace

/-- Artifacts that are written to places of their own are found there, whatever was written
    before. -/
theorem read_of_nodup {before as : List Artifact} {paths : List String}
    (h : s.perform (writeArtifacts root (before ++ as)) = (.ok paths, s'))
    (hnodup : (as.map fun z => z.place s.files.workingDirectory root).Nodup) {x y : Artifact}
    (hx : x ∈ before ++ as) (hy : y ∈ as)
    (hplace : x.place s.files.workingDirectory root = y.place s.files.workingDirectory root) :
    s'.files.read (.ofText (x.target root)) = .ok y.contents.toUTF8 := by
  obtain ⟨first, after, rfl⟩ := List.append_of_mem hy
  rw [← List.append_assoc] at h hx
  apply read_of_writeArtifacts h ?_ hx hplace
  intro z hz heq
  rw [List.map_append, List.map_cons] at hnodup
  have hnot := (List.nodup_cons.mp (List.nodup_append.mp hnodup).2.1).1
  rw [← heq] at hnot
  exact hnot (List.mem_map_of_mem hz)

end Command

end TaggedUnion
