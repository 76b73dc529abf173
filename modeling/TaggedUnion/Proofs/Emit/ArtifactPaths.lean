import TaggedUnion.Proofs.Emit.ParameterEntries
import TaggedUnion.Proofs.Files.Writing
import TaggedUnion.Proofs.Schema.Gate

/-! # Where the files of a union go

    The path of an artifact is the name of its union in snake case with an ending for the family:

    * **`Name.textParts_snake`**: snake case keeps the slashes of a name, and its dots.
    * **`Family.append_ending_inj`**: the ending tells the family, and what stands before it.
    * **`artifacts_meet`**: the files of two unions meet exactly if their names are the same in
      snake case; one union then overwrites the other.
    * **`artifacts_below_iff`**: the files of a union lie below every directory that they are
      written to exactly if its name leads inside.
-/

namespace TaggedUnion

open TaggedUnion.Path
open Schema (Document UnionDeclaration)

/-! ### Parts of a name in snake case -/

namespace Name

/-- Snake case goes through the parts of a name one by one. -/
theorem parts_snakeFrom {cs p : List Char} {ps : List (List Char)}
    (h : Text.parts '/' cs = p :: ps) (afterSmall : Bool) :
    Text.parts '/' (snakeFrom afterSmall cs) =
      snakeFrom afterSmall p :: ps.map (snakeFrom false) := by
  induction cs generalizing p ps afterSmall with
  | nil =>
    obtain ⟨rfl, rfl⟩ := List.cons.inj h
    rfl
  | cons c cs ih =>
    obtain ⟨q, qs, hparts⟩ := List.exists_cons_of_ne_nil (Text.parts_ne_nil '/' cs)
    by_cases hc : c = '/'
    · subst hc
      have hslash (cs : List Char) :
          snakeFrom afterSmall ('/' :: cs) = '/' :: snakeFrom false cs := rfl
      rw [Text.parts, if_pos rfl] at h
      obtain ⟨rfl, rfl⟩ := List.cons.inj h
      rw [hslash, Text.parts, if_pos rfl, ih hparts, hparts]
      rfl
    · have hlower : c.toLower ≠ '/' := fun h => hc ((toLower_eq_iff (by decide)).mp h)
      rw [Text.parts, if_neg hc, hparts] at h
      obtain ⟨rfl, rfl⟩ := List.cons.inj h
      unfold snakeFrom
      by_cases hupper : Text.isUppercase c
      · by_cases hsmall : afterSmall
        · simp [hupper, hsmall, Text.parts, hlower, ih hparts]
        · simp [hupper, hsmall, Text.parts, hlower, ih hparts]
      · simp [hupper, Text.parts, hc, ih hparts]

theorem textParts_snake (name : String) : textParts (snake name) = (textParts name).map snake := by
  obtain ⟨p, ps, hparts⟩ := List.exists_cons_of_ne_nil (Text.parts_ne_nil '/' name.toList)
  unfold textParts snake
  rw [String.toList_ofList, parts_snakeFrom hparts, hparts]
  simp

/-- Dots stay dots, and nothing else becomes a dot. -/
theorem snakeFrom_eq_iff {dots : List Char} (h : ∀ c ∈ dots, c = '.') (afterSmall : Bool)
    (cs : List Char) : snakeFrom afterSmall cs = dots ↔ cs = dots := by
  induction cs generalizing dots afterSmall with
  | nil => rfl
  | cons c cs ih =>
    cases dots with
    | nil =>
      unfold snakeFrom
      by_cases hupper : Text.isUppercase c <;> by_cases hsmall : afterSmall <;>
        simp [hupper, hsmall]
    | cons d dots =>
      obtain ⟨rfl, hdots⟩ := List.forall_mem_cons.mp h
      have hlower : c.toLower = '.' ↔ c = '.' := toLower_eq_iff (by decide)
      unfold snakeFrom
      by_cases hupper : Text.isUppercase c
      · have hc : c ≠ '.' := by
          rintro rfl
          revert hupper
          decide
        by_cases hsmall : afterSmall <;> simp [hupper, hsmall, hlower, hc]
      · simp [hupper, ih hdots]

theorem snake_eq_iff {dots : String} (h : ∀ c ∈ dots.toList, c = '.') (name : String) :
    snake name = dots ↔ name = dots := by
  rw [← String.toList_inj, ← String.toList_inj, snake, String.toList_ofList]
  exact snakeFrom_eq_iff h false name.toList

theorem isHere_snake (name : String) : isHere (snake name) = isHere name := by
  have hempty : snake name = "" ↔ name = "" := snake_eq_iff (by simp) name
  have hdot : snake name = "." ↔ name = "." := snake_eq_iff (by simp) name
  unfold isHere
  rw [Bool.eq_iff_iff]
  simp [hempty, hdot]

theorem snake_eq_above_iff (name : String) : snake name = above ↔ name = above :=
  snake_eq_iff (by simp [above]) name

theorem staysInside_map_snake (depth : Nat) (parts : List String) :
    staysInside depth (parts.map snake) = staysInside depth parts := by
  induction parts generalizing depth with
  | nil => rfl
  | cons part parts ih =>
    rw [List.map_cons]
    unfold staysInside
    simp only [isHere_snake, snake_eq_above_iff, ih]

theorem startsAtRoot_snake (name : String) : startsAtRoot (snake name) = startsAtRoot name := by
  unfold startsAtRoot snake
  rw [String.toList_ofList]
  cases name.toList with
  | nil => rfl
  | cons c cs =>
    have hlower : c.toLower = '/' ↔ c = '/' := toLower_eq_iff (by decide)
    unfold snakeFrom
    by_cases hupper : Text.isUppercase c
    · simp [hupper, hlower]
    · simp [hupper]

/-- A name in snake case leads to no other directory than the name itself, but for their names. -/
theorem leadsInside_snake (name : String) : leadsInside (snake name) = leadsInside name := by
  unfold leadsInside
  rw [startsAtRoot_snake, textParts_snake, ← List.map_dropLast, staysInside_map_snake]

end Name

/-! ### The paths of artifacts -/

namespace Family

/-- What stands behind the name of a union in the path of an artifact. -/
def ending (f : Family) : String := "_" ++ f.fileSuffix ++ ".rs"

theorem isEnding_ending (f : Family) : isEnding f.ending := by
  cases f <;> decide

/-- No ending is the end of another one. -/
theorem eq_of_suffix_ending {f f' : Family} (hf : f ∈ ofNamed) (hf' : f' ∈ ofNamed)
    (h : f.ending.toList <:+ f'.ending.toList) : f = f' := by
  have hall : ∀ f ∈ ofNamed, ∀ f' ∈ ofNamed, f.ending.toList <:+ f'.ending.toList → f = f' := by
    decide
  exact hall f hf f' hf' h

/-- The ending tells the family, and what stands before it. -/
theorem append_ending_inj {f f' : Family} (hf : f ∈ ofNamed) (hf' : f' ∈ ofNamed)
    {s s' : String} : s ++ f.ending = s' ++ f'.ending ↔ f = f' ∧ s = s' := by
  constructor
  · intro h
    have hlist : s.toList ++ f.ending.toList = s'.toList ++ f'.ending.toList := by
      rw [← String.toList_append, h, String.toList_append]
    -- Both endings end the same text, so that one of them ends the other.
    have hfamily : f = f' := by
      rcases List.suffix_or_suffix_of_suffix (List.suffix_append s.toList f.ending.toList)
        (hlist ▸ List.suffix_append s'.toList f'.ending.toList) with hsuffix | hsuffix
      · exact eq_of_suffix_ending hf hf' hsuffix
      · exact (eq_of_suffix_ending hf' hf hsuffix).symm
    subst hfamily
    exact ⟨rfl, (String.append_left_inj _).mp h⟩
  · intro ⟨hfamily, hs⟩
    rw [hfamily, hs]

end Family

/-- What the paths of the artifacts of a union begin with. -/
def artifactStem (name : String) : String := Name.snake name ++ "_"

/-- Code of a union comes as one artifact for each family. -/
theorem exists_shape_of_generate {d : Document} {name path : String} {g : Generated}
    (h : generate d name path = .ok g) :
    ∃ s : Shape, s.name = name ∧ g.artifacts = Family.ofNamed.map (Artifact.ofShape s) := by
  obtain ⟨declaration, hdeclared, -, rfl⟩ := exists_of_generate_ok h
  have hname : declaration.name = name := by
    simpa using List.find?_some hdeclared
  exact ⟨_, hname, rfl⟩

theorem path_of_mem_artifacts {d : Document} {name path : String} {g : Generated}
    (h : generate d name path = .ok g) {x : Artifact} (hx : x ∈ g.artifacts) :
    x.family ∈ Family.ofNamed ∧ x.path = Name.snake name ++ x.family.ending := by
  obtain ⟨s, rfl, hartifacts⟩ := exists_shape_of_generate h
  rw [hartifacts] at hx
  obtain ⟨f, hf, rfl⟩ := List.mem_map.mp hx
  refine ⟨hf, ?_⟩
  show s.snakeName ++ "_" ++ f.fileSuffix ++ ".rs" = _
  rw [Family.ending, ← String.append_assoc, ← String.append_assoc]
  rfl

/-! ### Two unions -/

section places

variable {d : Document} {a b p q : String} {g g' : Generated}

/-- The artifacts of a union go to one directory, with one beginning of their names. -/
theorem exists_place_of_generate (h : generate d a p = .ok g) (cwd : Location) (root : String) :
    ∃ directory last, placeOf cwd (joinPath root (artifactStem a)) = directory ++ [last ++ "_"] ∧
      ∀ x ∈ g.artifacts, x.place cwd root = directory ++ [last ++ x.family.ending] := by
  obtain ⟨directory, last, hplace⟩ := exists_placeOf_append cwd root (Name.snake a)
  refine ⟨directory, last, hplace "_" (by decide), ?_⟩
  intro x hx
  have hpath := hplace x.family.ending x.family.isEnding_ending
  rw [← (path_of_mem_artifacts h hx).2] at hpath
  exact hpath

theorem place_eq_iff (ha : generate d a p = .ok g) (hb : generate d b q = .ok g')
    (cwd : Location) (root : String) {x y : Artifact} (hx : x ∈ g.artifacts)
    (hy : y ∈ g'.artifacts) :
    x.place cwd root = y.place cwd root ↔ x.family = y.family ∧
      placeOf cwd (joinPath root (artifactStem a)) =
        placeOf cwd (joinPath root (artifactStem b)) := by
  obtain ⟨directory, last, hstem, hplace⟩ := exists_place_of_generate ha cwd root
  obtain ⟨directory', last', hstem', hplace'⟩ := exists_place_of_generate hb cwd root
  have hinj : last ++ x.family.ending = last' ++ y.family.ending ↔
      x.family = y.family ∧ last = last' :=
    Family.append_ending_inj (path_of_mem_artifacts ha hx).1 (path_of_mem_artifacts hb hy).1
  rw [hstem, hstem', hplace x hx, hplace' y hy, List.append_singleton_inj,
    List.append_singleton_inj, hinj, String.append_left_inj]
  exact and_left_comm

theorem map_family_artifacts (h : generate d a p = .ok g) :
    g.artifacts.map (·.family) = Family.ofNamed := by
  obtain ⟨s, -, hartifacts⟩ := exists_shape_of_generate h
  rw [hartifacts, List.map_map]
  exact List.map_id _

/-- The artifacts of one union go to places of their own. -/
theorem nodup_places (h : generate d a p = .ok g) (cwd : Location) (root : String) :
    (g.artifacts.map fun x => x.place cwd root).Nodup := by
  have hfamilies : (g.artifacts.map (·.family)).Nodup := by
    rw [map_family_artifacts h]
    decide
  apply hfamilies.of_map.map_on
  intro x hx y hy hplace
  have hfamily := ((place_eq_iff h h cwd root hx hy).mp hplace).1
  exact List.inj_on_of_nodup_map hfamilies hx hy hfamily

/-- Names without slashes lead to the same place exactly if they are the same in snake case. -/
theorem place_artifactStem_eq_iff (ha : '/' ∉ a.toList) (hb : '/' ∉ b.toList) (cwd : Location)
    (root : String) :
    placeOf cwd (joinPath root (artifactStem a)) = placeOf cwd (joinPath root (artifactStem b)) ↔
      Name.snake a = Name.snake b := by
  have hplace {name : String} (h : '/' ∉ name.toList) :
      placeOf cwd (joinPath root (artifactStem name)) =
        placeOf cwd root ++ [Name.snake name ++ "_"] := by
    have hslash : '/' ∉ (artifactStem name).toList := by
      rw [artifactStem, Name.snake, String.toList_append, String.toList_ofList, List.mem_append,
        Name.mem_snakeFrom_iff (by decide) (by decide)]
      exact not_or_intro h (by decide)
    have hlast : (artifactStem name).toList.getLast? = some '_' := by simp [artifactStem]
    exact placeOf_joinPath_of_isName (isName_of_getLast hlast (by decide)) hslash cwd root
  rw [hplace ha, hplace hb, List.append_singleton_inj, String.append_left_inj]
  exact and_iff_right rfl

/-- What becomes of the artifacts of two unions that are written to one directory. -/
structure MeetByName (a b : String) (g g' : List Artifact) : Prop where
  /-- Paths differ exactly if the names differ in snake case. -/
  path_ne_iff : (∀ x ∈ g, ∀ y ∈ g', x.path ≠ y.path) ↔ Name.snake a ≠ Name.snake b
  /-- All artifacts are kept where the beginnings of the paths lead to different places. -/
  kept : ∀ {root : String} {s s' : Session} {paths : List String},
    s.perform (Command.writeArtifacts root (g ++ g')) = (.ok paths, s') →
    placeOf s.files.workingDirectory (joinPath root (artifactStem a)) ≠
      placeOf s.files.workingDirectory (joinPath root (artifactStem b)) →
    ∀ x ∈ g ++ g', s'.files.read (.ofText (x.target root)) = .ok x.contents.toUTF8
  /-- Otherwise the artifacts of the first union are overwritten. -/
  overwritten : ∀ {root : String} {s s' : Session} {paths : List String},
    s.perform (Command.writeArtifacts root (g ++ g')) = (.ok paths, s') →
    placeOf s.files.workingDirectory (joinPath root (artifactStem a)) =
      placeOf s.files.workingDirectory (joinPath root (artifactStem b)) →
    ∀ x ∈ g, ∀ y ∈ g', x.family = y.family →
      s'.files.read (.ofText (x.target root)) = .ok y.contents.toUTF8
  /-- For names without slashes, the places are different exactly if the paths are. -/
  place_eq_iff : '/' ∉ a.toList → '/' ∉ b.toList → ∀ cwd root,
    placeOf cwd (joinPath root (artifactStem a)) = placeOf cwd (joinPath root (artifactStem b)) ↔
      Name.snake a = Name.snake b

/-- The artifacts of two unions have the same paths if the names of the unions are the same in
    snake case, and no path in common otherwise. Written to one directory, all of them are kept
    if the paths lead to different places; else those of the second union are found at all of
    these paths. -/
theorem artifacts_meet (ha : generate d a p = .ok g) (hb : generate d b q = .ok g') :
    MeetByName a b g.artifacts g'.artifacts where
  path_ne_iff := by
    constructor
    · intro h hsnake
      have hcore : Family.core ∈ Family.ofNamed := List.mem_cons_self
      obtain ⟨x, hx, hxf⟩ := List.mem_map.mp ((map_family_artifacts ha).symm ▸ hcore)
      obtain ⟨y, hy, hyf⟩ := List.mem_map.mp ((map_family_artifacts hb).symm ▸ hcore)
      apply h x hx y hy
      rw [(path_of_mem_artifacts ha hx).2, (path_of_mem_artifacts hb hy).2, hsnake, hxf, hyf]
    · intro hne x hx y hy hpath
      obtain ⟨hxf, hxpath⟩ := path_of_mem_artifacts ha hx
      obtain ⟨hyf, hypath⟩ := path_of_mem_artifacts hb hy
      rw [hxpath, hypath] at hpath
      exact hne ((Family.append_ending_inj hxf hyf).mp hpath).2
  kept := by
    intro root s s' paths h hne x hx
    rw [← List.nil_append (g.artifacts ++ g'.artifacts)] at h
    refine Command.read_of_nodup h ?_ hx hx rfl
    rw [List.map_append]
    apply (nodup_places ha _ root).append (nodup_places hb _ root)
    intro l hl hl'
    obtain ⟨x, hx, rfl⟩ := List.mem_map.mp hl
    obtain ⟨y, hy, hplace⟩ := List.mem_map.mp hl'
    exact hne ((place_eq_iff ha hb _ root hx hy).mp hplace.symm).2
  overwritten := by
    intro root s s' paths h heq x hx y hy hfamily
    have hplace := (place_eq_iff ha hb s.files.workingDirectory root hx hy).mpr ⟨hfamily, heq⟩
    exact Command.read_of_nodup h (nodup_places hb _ root) (List.mem_append_left _ hx) hy hplace
  place_eq_iff := fun ha hb cwd root => place_artifactStem_eq_iff ha hb cwd root

end places

/-- A document with unions whose names are alike. -/
def alike : Document :=
  (Document.empty "demo").run
    [.addType { name := "Run", kind := .record },
      .addType { name := "Stop", kind := .record },
      .addUnion { scope := "demo", name := "Job", cases := ["Run", "Stop"] },
      .addUnion { scope := "demo", name := "JobUnion", cases := ["Run", "Stop"] },
      .addUnion { scope := "demo", name := "job", cases := ["Run", "Stop"] }]

/-- What is emitted for a union of that document. -/
def alikeGenerated (name : String) : Generated :=
  let u := (⟨"demo", name, true, ["Run", "Stop"]⟩ : UnionDeclaration).resolveIn alike
  ⟨u.populate.artifacts defaultRuntimePath, u.validate.diagnostics⟩

/-- The ending of one path does not meet the name of another union: all twelve files are written
    into an empty tree and found there. -/
theorem artifacts_meet_alike :
    generate alike "Job" defaultRuntimePath = .ok (alikeGenerated "Job") ∧
    generate alike "JobUnion" defaultRuntimePath = .ok (alikeGenerated "JobUnion") ∧
    ∃ s', ∃ paths, (Session.begin (.empty ["home"]) []).perform (Command.writeArtifacts "out"
        ((alikeGenerated "Job").artifacts ++ (alikeGenerated "JobUnion").artifacts)) =
          (.ok paths, s') ∧
      ∀ x ∈ (alikeGenerated "Job").artifacts ++ (alikeGenerated "JobUnion").artifacts,
        s'.files.read (.ofText (x.target "out")) = .ok x.contents.toUTF8 := by
  have hjob : alike.union? "Job" = some ⟨"demo", "Job", true, ["Run", "Stop"]⟩ := rfl
  have hunion : alike.union? "JobUnion" = some ⟨"demo", "JobUnion", true, ["Run", "Stop"]⟩ := rfl
  have hfirst : generate alike "Job" defaultRuntimePath = .ok (alikeGenerated "Job") :=
    generate_of_union? hjob defaultRuntimePath
  have hsecond : generate alike "JobUnion" defaultRuntimePath = .ok (alikeGenerated "JobUnion") :=
    generate_of_union? hunion defaultRuntimePath
  have hmeet := artifacts_meet hfirst hsecond
  have hwritten : ((Session.begin (.empty ["home"]) []).perform (Command.writeArtifacts "out"
      ((alikeGenerated "Job").artifacts ++ (alikeGenerated "JobUnion").artifacts))).1.isOk = true :=
    by decide +kernel
  rcases hrun : (Session.begin (.empty ["home"]) []).perform (Command.writeArtifacts "out"
    ((alikeGenerated "Job").artifacts ++ (alikeGenerated "JobUnion").artifacts)) with ⟨r, s'⟩
  rw [hrun] at hwritten
  cases r with
  | error e => cases hwritten
  | ok paths =>
    refine ⟨hfirst, hsecond, s', paths, rfl, hmeet.kept hrun ?_⟩
    intro hplace
    have hsnake := (hmeet.place_eq_iff (by decide) (by decide) _ "out").mp hplace
    revert hsnake
    decide

/-- The names of declared unions are different, but the paths of their artifacts need not be. -/
theorem not_forall_artifacts_apart :
    ¬ ∀ {d : Document} {a b p q : String} {g g' : Generated}, a ≠ b →
      generate d a p = .ok g → generate d b q = .ok g' →
      ∀ x ∈ g.artifacts, ∀ y ∈ g'.artifacts, x.path ≠ y.path := by
  intro h
  have hjob : alike.union? "Job" = some ⟨"demo", "Job", true, ["Run", "Stop"]⟩ := rfl
  have hsmall : alike.union? "job" = some ⟨"demo", "job", true, ["Run", "Stop"]⟩ := rfl
  have hpath := h (by decide) (generate_of_union? hjob defaultRuntimePath)
    (generate_of_union? hsmall defaultRuntimePath) _ List.mem_cons_self _ List.mem_cons_self
  exact hpath (by decide)

/-! ### One union and its directory -/

theorem generateFromText_of_read {text : String} {d : Document} (h : Document.read text = .ok d)
    (name path : String) : generateFromText text name path = generate d name path := by
  unfold generateFromText
  rw [h]

/-- Wherever the artifacts of a union are written to, each one changes files at its place only.
    That place lies below the directory, whichever it is, exactly if the name of the union leads
    inside. -/
theorem artifacts_below_iff {text name path : String} {g : Generated}
    (h : generateFromText text name path = .ok g) :
    ∀ a ∈ g.artifacts,
      (∀ (root : String) (s : Session),
        FileTree.ChangesOnly (· = a.place s.files.workingDirectory root) s.files
          (s.perform (a.writeTo root)).2.files) ∧
      ((∀ cwd root, IsBelow (placeOf cwd root) (a.place cwd root)) ↔ leadsInside name = true) := by
  intro a ha
  refine ⟨fun root s => a.writeTo_changesOnly root s, ?_⟩
  cases hread : Document.read text with
  | error e =>
    unfold generateFromText at h
    rw [hread] at h
    cases h
  | ok d =>
    rw [generateFromText_of_read hread] at h
    unfold Artifact.place Artifact.target
    rw [(path_of_mem_artifacts h ha).2, ← Name.leadsInside_snake]
    exact isBelow_joinPath_iff a.family.isEnding_ending (Name.snake name)

/-- A text with unions whose names contain slashes. -/
def slashed : String :=
  "<unions><type name=\"A\"/><type name=\"B\"/>"
    ++ "<union name=\"billing/Job\" partial=\"true\"><case type=\"A\"/><case type=\"B\"/></union>"
    ++ "<union name=\"../Job\" partial=\"true\"><case type=\"A\"/><case type=\"B\"/></union></unions>"

/-- The document of that text. -/
def slashedDocument : Document :=
  (Document.empty "").run
    [.addType { name := "A" },
      .addType { name := "B" },
      .addUnion { scope := "", name := "billing/Job", cases := ["A", "B"] },
      .addUnion { scope := "", name := "../Job", cases := ["A", "B"] }]

theorem read_slashed : Document.read slashed = .ok slashedDocument := by cbv

theorem artifacts_below_slashed :
    ∃ g, generateFromText slashed "billing/Job" defaultRuntimePath = .ok g ∧
      ∀ a ∈ g.artifacts, ∀ cwd root, IsBelow (placeOf cwd root) (a.place cwd root) := by
  have hjob : slashedDocument.union? "billing/Job" = some ⟨"", "billing/Job", true, ["A", "B"]⟩ :=
    rfl
  have hemitted := (generateFromText_of_read read_slashed _ _).trans
    (generate_of_union? hjob defaultRuntimePath)
  refine ⟨_, hemitted, ?_⟩
  intro a ha
  exact (artifacts_below_iff hemitted a ha).2.mpr (by decide)

/-- Artifacts do not always go below the directory that they are written to: the name of a union
    may lead above it. -/
theorem not_forall_artifacts_below :
    ¬ ∀ {text name path : String} {g : Generated}, generateFromText text name path = .ok g →
      ∀ a ∈ g.artifacts, ∀ cwd root, IsBelow (placeOf cwd root) (a.place cwd root) := by
  intro h
  have habove : slashedDocument.union? "../Job" = some ⟨"", "../Job", true, ["A", "B"]⟩ := rfl
  have hemitted := (generateFromText_of_read read_slashed _ _).trans
    (generate_of_union? habove defaultRuntimePath)
  have hbelow := (h hemitted _ List.mem_cons_self ["home"] "out").1
  revert hbelow
  decide +kernel

end TaggedUnion
