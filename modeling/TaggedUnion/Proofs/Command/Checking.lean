import TaggedUnion.Command.Check
import TaggedUnion.Command.Generate
import TaggedUnion.Proofs.Command.Runs
import TaggedUnion.Proofs.Schema.Gate

/-! # Checking and emitting find the same

    A check and the emission of code look at a union on their own. This module says that they
    agree about every declared union, and that a check of all unions is a check of each one:

    * **`prints_checkUnions`**: all unions of a document are checked one after another.
    * **`exists_ending`**: the emission prints the findings about a union, and then how it ends.
    * **`AgreesAbout`**: one list of findings is behind what both of them say about a union.
    * **`check_agrees`**: this is so for every union of every schema that can be loaded.
-/

namespace TaggedUnion

/-- No two unions of a document have one name, so that a name leads to its union. -/
theorem Schema.Document.Sound.union?_of_mem {d : Document} (h : d.Sound) {u : UnionDeclaration}
    (hu : u ∈ d.unions) : d.union? u.name = some u := by
  have hnodup := h.unionNames_nodup
  obtain ⟨before, after, hunions⟩ := List.append_of_mem hu
  rw [hunions, List.map_append, List.map_cons] at hnodup
  refine List.find?_eq_some_iff_append.mpr ⟨beq_self_eq_true _, before, after, hunions, ?_⟩
  intro v hv
  have hne : v.name ≠ u.name :=
    (List.nodup_append.mp hnodup).2.2 _ (List.mem_map_of_mem hv) _ List.mem_cons_self
  simpa using hne

namespace Command

open Schema (Document Diagnostic Union UnionDeclaration)

/-! ### Checking -/

/-- How a check ends that has found an error, or none. -/
def verdict (broken : Bool) : ExitCode := if broken then .failure else .success

@[simp] theorem verdict_eq_failure_iff {broken : Bool} :
    verdict broken = .failure ↔ broken = true := by
  cases broken <;> simp [verdict]

/-- A check of several unions fails if one of them alone would fail. -/
theorem verdict_any {γ : Type} (broken : γ → Bool) (us : List γ) :
    verdict (us.any broken) =
      if ExitCode.failure ∈ us.map (fun u => verdict (broken u)) then .failure else .success := by
  have hmem : ExitCode.failure ∈ us.map (fun u => verdict (broken u)) ↔
      us.any broken = true := by
    simp only [List.mem_map, verdict_eq_failure_iff, List.any_eq_true]
  rw [if_congr hmem rfl rfl]
  rfl

/-- What a check prints about a declared union. -/
def reportOf (d : Document) (u : UnionDeclaration) : String :=
  linesText (checkLines (u.resolveIn d))

/-- How a check of a declared union ends, with what it prints. -/
def resultOf (d : Document) (u : UnionDeclaration) : ExitCode × String :=
  (verdict (u.resolveIn d).validate.isFatal, reportOf d u)

variable {s : Session} {schema : String} {d : Document} {u : UnionDeclaration}

theorem map_fst_resultOf (us : List UnionDeclaration) :
    (us.map (resultOf d)).map (·.1) = us.map fun u => verdict (u.resolveIn d).validate.isFatal := by
  simp [resultOf]

theorem map_snd_resultOf (us : List UnionDeclaration) :
    (us.map (resultOf d)).map (·.2) = us.map (reportOf d) := by
  simp [resultOf]

theorem prints_checkUnion (hu : d.union? u.name = some u) (s : Session) :
    s.Prints (checkUnion d u.name) (.ok (u.resolveIn d).validate.isFatal) (reportOf d u) := by
  have hresolved : s.Prints (orStop (.checking u.name) (pure (Union.ofDocument d u.name)))
      (.ok (u.resolveIn d)) "" := by
    rw [Union.ofDocument_of_union? hu]
    exact Session.prints_pure s (u.resolveIn d)
  have hprinted := (Session.prints_printLines (ε := Error) (s.printed "")
    (checkLines (u.resolveIn d))).bind_pure fun _ => (u.resolveIn d).validate.isFatal
  have hall : s.Prints (checkUnion d u.name) _ ("" ++ reportOf d u) := hresolved.bind hprinted
  rwa [String.empty_append] at hall

/-- Unions are checked in order, each as if it were the only one. -/
theorem prints_mapM_checkUnion {us : List UnionDeclaration}
    (hus : ∀ u ∈ us, d.union? u.name = some u) (s : Session) :
    s.Prints ((us.map (·.name)).mapM (checkUnion d))
      (.ok (us.map fun u => (u.resolveIn d).validate.isFatal))
      (String.join (us.map (reportOf d))) := by
  induction us generalizing s with
  | nil => exact Session.prints_pure s []
  | cons u us ih =>
    -- The rest is checked in the session that the first check leaves behind.
    have hfirst := prints_checkUnion (hus u List.mem_cons_self) s
    have hrest := ih (fun v hv => hus v (List.mem_cons_of_mem u hv)) (s.printed (reportOf d u))
    rw [List.map_cons, List.mapM_cons, List.map_cons, List.map_cons, String.join_cons]
    exact hfirst.bind (hrest.bind_pure ((u.resolveIn d).validate.isFatal :: ·))

theorem prints_checkUnions {us : List UnionDeclaration} (hne : us ≠ [])
    (hus : ∀ u ∈ us, d.union? u.name = some u) (s : Session) :
    s.Prints (checkUnions d (us.map (·.name)))
      (.ok (verdict (us.any fun u => (u.resolveIn d).validate.isFatal)))
      (String.join (us.map (reportOf d))) := by
  obtain ⟨u, us, rfl⟩ := List.exists_cons_of_ne_nil hne
  have hall := (prints_mapM_checkUnion hus s).bind_pure
    fun broken => if broken.any id then ExitCode.failure else .success
  rw [List.any_map, Function.id_comp] at hall
  exact hall

/-! ### Emitting -/

/-- Writing artifacts changes files alone. Where it fails, it says which artifact it was. -/
theorem perform_writeArtifacts_cases (root : String) (as : List Artifact) (s : Session) :
    ∃ files, (s.perform (writeArtifacts root as)).2 = { s with files := files } ∧
      ((∃ paths, (s.perform (writeArtifacts root as)).1 = .ok paths) ∨
        ∃ path e, (s.perform (writeArtifacts root as)).1 = .error (.writing path e)) := by
  induction as generalizing s with
  | nil => exact ⟨s.files, rfl, .inl ⟨[], rfl⟩⟩
  | cons a as ih =>
    obtain ⟨files, hfiles⟩ : ∃ files,
        (s.perform (a.writeTo root)).2 = { s with files := files } := by
      rcases hmake : s.files.makeDirectories (.ofText (a.target root)) with ⟨t, made⟩
      rcases Artifact.writeTo_cases hmake with ⟨e, -, h⟩ | ⟨-, h⟩ | ⟨files, -, h⟩
      · exact ⟨t, by rw [h]⟩
      · exact ⟨t, by rw [h]⟩
      · exact ⟨files, by rw [h]⟩
    rcases writeArtifacts_cons_cases root a as s with ⟨e, s₁, hwrite, h⟩ | ⟨w, s₁, hwrite, h⟩
    · rw [hwrite] at hfiles
      rw [h]
      exact ⟨files, hfiles, .inr ⟨a.path, e, rfl⟩⟩
    · rw [hwrite] at hfiles
      obtain rfl : s₁ = { s with files := files } := hfiles
      obtain ⟨files', hfiles', hresult⟩ := ih { s with files := files }
      rw [h]
      refine ⟨files', hfiles', ?_⟩
      rcases hresult with ⟨paths, hpaths⟩ | ⟨path, e, herror⟩
      · exact .inl ⟨w.path :: paths, by rw [hpaths]; rfl⟩
      · exact .inr ⟨path, e, by rw [herror]; rfl⟩

/-- The lines that findings are printed as. -/
def findingLines (ds : List Diagnostic) : List String := ds.map (·.display)

variable {union runtimePath key : String} {ds : List Diagnostic}

theorem prints_generate_of_invalid (h : s.Holds schema d)
    (hrefused : TaggedUnion.generate d union runtimePath = .error (.invalid key ds))
    (root : String) : s.Prints (generate schema union root runtimePath) (.ok .failure)
      (linesText (findingLines ds) ++ linesText [key ++ ": not generated"]) := by
  have hkey := (Session.prints_printLine (ε := Error) (s.printed (linesText (findingLines ds)))
    (key ++ ": not generated")).bind_pure fun _ => ExitCode.failure
  unfold Session.Prints generate
  rw [Session.perform_bind_of_ok (perform_load_eq_ok_iff.mpr h), hrefused]
  exact (Session.prints_printLines s (findingLines ds)).bind hkey

/-- The findings are printed before anything is written. -/
theorem perform_generate_of_ok (h : s.Holds schema d) {g : Generated}
    (hg : TaggedUnion.generate d union runtimePath = .ok g) (root : String) :
    s.perform (generate schema union root runtimePath) =
      (s.printed (linesText (findingLines g.diagnostics))).perform (do
        let paths ← writeArtifacts root g.artifacts
        Host.printLines (paths.map ("wrote " ++ ·))
        return .success) := by
  unfold generate
  rw [Session.perform_bind_of_ok (perform_load_eq_ok_iff.mpr h), hg]
  exact Session.perform_bind_of_ok (Session.prints_printLines s (findingLines g.diagnostics)) _

/-- How the emission ends, and the lines that it prints behind the findings about a union. -/
inductive Ending (key : String) : Except Error ExitCode → List String → Prop
  /-- The union is refused. -/
  | refused : Ending key (.ok .failure) [key ++ ": not generated"]
  /-- All artifacts are written. -/
  | written (paths : List String) : Ending key (.ok .success) (paths.map ("wrote " ++ ·))
  /-- An artifact cannot be written. -/
  | unwritten (path : String) (e : FileError) : Ending key (.error (.writing path e)) []

/-- The findings about a declared union. -/
def findingsOf (d : Document) (u : UnionDeclaration) : List Diagnostic :=
  (u.resolveIn d).validate.diagnostics

/-- Once the findings are printed, a line for each artifact is printed or none at all. -/
theorem exists_ending_writeArtifacts (key root : String) (as : List Artifact) (s : Session) :
    ∃ result s' rest,
      s.perform (do
        let paths ← writeArtifacts root as
        Host.printLines (paths.map ("wrote " ++ ·))
        return .success) = (result, s') ∧
      Ending key result rest ∧ s'.output = s.output ++ linesText rest := by
  obtain ⟨files, hfiles, hresult⟩ := perform_writeArtifacts_cases root as s
  rcases hwrite : s.perform (writeArtifacts root as) with ⟨r, s₁⟩
  rw [hwrite] at hfiles hresult
  obtain rfl : s₁ = { s with files := files } := hfiles
  rcases hresult with ⟨paths, rfl⟩ | ⟨path, e, rfl⟩
  · have hlines := (Session.prints_printLines (ε := Error) { s with files := files }
      (paths.map ("wrote " ++ ·))).bind_pure fun _ => ExitCode.success
    exact ⟨_, _, _, (Session.perform_bind_of_ok hwrite _).trans hlines, .written paths, rfl⟩
  · refine ⟨_, _, _, Session.perform_bind_of_error hwrite _, .unwritten path e, ?_⟩
    rw [linesText_nil, String.append_empty]

/-- The emission prints the findings about the union whatever it comes to. -/
theorem exists_ending (h : s.Holds schema d) (hu : d.union? u.name = some u)
    (root runtimePath : String) :
    ∃ result s' rest, s.perform (generate schema u.name root runtimePath) = (result, s') ∧
      Ending (u.resolveIn d).locationKey result rest ∧
      s'.output = s.output ++ (linesText (findingLines (findingsOf d u)) ++ linesText rest) := by
  have hgenerate := generate_of_union? hu runtimePath
  dsimp only at hgenerate
  split at hgenerate
  · exact ⟨_, _, _, prints_generate_of_invalid h hgenerate root, .refused, rfl⟩
  · obtain ⟨result, s', rest, hrun, hending, houtput⟩ :=
      exists_ending_writeArtifacts (u.resolveIn d).locationKey root
        ((u.resolveIn d).populate.artifacts runtimePath)
        (s.printed (linesText (findingLines (findingsOf d u))))
    refine ⟨result, s', rest, (perform_generate_of_ok h hgenerate root).trans hrun, hending, ?_⟩
    rw [houtput, ← String.append_assoc]
    rfl

/-! ### Agreement -/

/-- One list of findings is behind a check of a union, which ends with a code and prints a text,
    and behind the emission of code for it. -/
structure AgreesAbout (s : Session) (schema : String) (d : Document) (u : UnionDeclaration)
    (findings : List Diagnostic) (code : ExitCode) (text : String) : Prop where
  check : s.Prints (check schema (some u.name)) (.ok code) text
  /-- The check fails exactly where the union is refused, and the findings are those that the
      refusal or the code come with. -/
  code : ∀ runtimePath,
    (code = .failure ∧ ∃ key,
      TaggedUnion.generate d u.name runtimePath = .error (.invalid key findings)) ∨
    (code = .success ∧ ∃ artifacts,
      TaggedUnion.generate d u.name runtimePath = .ok ⟨artifacts, findings⟩)
  /-- The check prints the findings. Where there are none, it says so. -/
  text : text = linesText
    (if findings = [] then [(u.resolveIn d).locationKey ++ ": ok"] else findingLines findings)
  /-- The command that emits prints the findings, and then only how it ends. -/
  emission : ∀ root runtimePath, ∃ result s' rest,
    s.perform (generate schema u.name root runtimePath) = (result, s') ∧
      Ending (u.resolveIn d).locationKey result rest ∧
      s'.output = s.output ++ (linesText (findingLines findings) ++ linesText rest)

theorem checkLines_resolveIn (d : Document) (u : UnionDeclaration) :
    checkLines (u.resolveIn d) =
      if findingsOf d u = [] then [(u.resolveIn d).locationKey ++ ": ok"]
      else findingLines (findingsOf d u) := by
  unfold checkLines findingLines findingsOf
  cases (u.resolveIn d).validate.diagnostics <;> rfl

theorem prints_check_single (h : s.Holds schema d) (hu : d.union? u.name = some u) :
    s.Prints (check schema (some u.name)) (.ok (verdict (u.resolveIn d).validate.isFatal))
      (reportOf d u) := by
  have hone := prints_checkUnions (List.cons_ne_nil u []) (by simpa using hu) s
  simp only [List.any_cons, List.any_nil, Bool.or_false, List.map_cons, List.map_nil,
    String.join_cons, String.join_nil, String.append_empty] at hone
  exact (Session.perform_bind_of_ok (perform_load_eq_ok_iff.mpr h) _).trans hone

theorem agreesAbout (h : s.Holds schema d) (hu : d.union? u.name = some u) :
    AgreesAbout s schema d u (findingsOf d u) (verdict (u.resolveIn d).validate.isFatal)
      (reportOf d u) where
  check := prints_check_single h hu
  code runtimePath := by
    have hgenerate := generate_of_union? hu runtimePath
    dsimp only at hgenerate
    cases hfatal : (u.resolveIn d).validate.isFatal with
    | true =>
      rw [hfatal] at hgenerate
      exact .inl ⟨rfl, _, hgenerate⟩
    | false =>
      rw [hfatal] at hgenerate
      exact .inr ⟨rfl, _, hgenerate⟩
  text := congrArg linesText (checkLines_resolveIn d u)
  emission root runtimePath := exists_ending h hu root runtimePath

/-- Checking a union of a schema and emitting its code find the same. Checking all unions is
    checking each of them in order, and never stops with an error. -/
theorem check_agrees (h : s.Holds schema d) :
    ∃ results : List (ExitCode × String),
      List.Forall₂ (fun u r => ∃ findings, AgreesAbout s schema d u findings r.1 r.2)
        d.unions results ∧
      s.Prints (check schema none)
        (.ok (if ExitCode.failure ∈ results.map (·.1) then .failure else .success))
        (if results = [] then linesText ["no unions declared"]
          else String.join (results.map (·.2))) := by
  have hdeclared : ∀ u ∈ d.unions, d.union? u.name = some u :=
    fun u hu => h.sound.union?_of_mem hu
  refine ⟨d.unions.map (resultOf d), ?_, ?_⟩
  · rw [List.forall₂_map_right_iff]
    refine List.forall₂_same.mpr fun u hu => ⟨findingsOf d u, ?_⟩
    dsimp only [resultOf]
    exact agreesAbout h (hdeclared u hu)
  · have hcheck := Session.perform_bind_of_ok (perform_load_eq_ok_iff.mpr h)
      fun d => checkUnions d (d.unions.map (·.name))
    -- A schema without unions has a line of its own, which is no check of any union.
    by_cases hnone : d.unions = []
    · have hline := (Session.prints_printLine (ε := Error) s "no unions declared").bind_pure
        fun _ => ExitCode.success
      rw [hnone] at hcheck ⊢
      exact hcheck.trans hline
    · have hall := hcheck.trans (prints_checkUnions hnone hdeclared s)
      rw [verdict_any, ← map_fst_resultOf, ← map_snd_resultOf] at hall
      rw [if_neg (List.map_eq_nil_iff.not.mpr hnone)]
      exact hall

/-- A schema with a union that is in order, one with a case that is no record, and one with a
    case that is given twice. -/
def mixed : String :=
  "<unions namespace=\"demo\"><type name=\"A\" kind=\"record\"/><type name=\"B\"/>"
    ++ "<union name=\"Good\" partial=\"true\"><case type=\"A\"/><case type=\"B\"/></union>"
    ++ "<union name=\"Bad\" partial=\"true\"><case type=\"A\"/><case type=\"A\"/></union></unions>"

/-- The document of that schema. -/
def mixedDocument : Document :=
  (Document.empty "demo").run
    [.addType { name := "A", kind := .record }, .addType { name := "B" },
      .addUnion { scope := "demo", name := "Good", cases := ["A", "B"] },
      .addUnion { scope := "demo", name := "Bad", cases := ["A", "A"] }]

/-- A session that has nothing but a schema. -/
def sessionWith (text : String) : Session where
  files := (FileTree.empty ["home"]).put ["home", "s.xml"] (.file text.toUTF8)
  input := []
  output := ""

theorem holds_mixed : (sessionWith mixed).Holds "s.xml" mixedDocument :=
  ⟨mixed, rfl, by cbv⟩

theorem check_agrees_mixed :
    (sessionWith mixed).Holds "s.xml" mixedDocument ∧
      ∃ text, (sessionWith mixed).Prints (check "s.xml" none) (.ok .failure) text := by
  obtain ⟨results, hall, hcheck⟩ := check_agrees holds_mixed
  have hunions : mixedDocument.unions =
      [⟨"demo", "Good", true, ["A", "B"]⟩, ⟨"demo", "Bad", true, ["A", "A"]⟩] := rfl
  rw [hunions] at hall
  obtain ⟨good, others, -, hothers, rfl⟩ := List.forall₂_cons_left_iff.mp hall
  obtain ⟨bad, rest, ⟨findings, hbad⟩, -, rfl⟩ := List.forall₂_cons_left_iff.mp hothers
  have hfailure : bad.1 = .failure := by
    rcases hbad.code defaultRuntimePath with ⟨hfailure, -⟩ | ⟨-, artifacts, hemitted⟩
    · exact hfailure
    · have hrefused : (TaggedUnion.generate mixedDocument "Bad" defaultRuntimePath).isOk = false :=
        by decide +kernel
      rw [hemitted] at hrefused
      cases hrefused
  rw [if_pos (by simp [hfailure])] at hcheck
  exact ⟨holds_mixed, _, hcheck⟩

end Command

end TaggedUnion
