import TaggedUnion.Files.Path

/-! # Trees of files

    A tree of directories and files, known by what it has at each place. A path is walked
    part by part, and every place that it passes must be a directory.

    * **`FileTree.entryAt`** is the view: what there is at a place.
    * **`read`**, **`write`** and **`makeDirectory`** are the operations on one path.
    * **`makeDirectories`** makes what is missing of a path of directories, and keeps what
      it has made where it fails.
-/

namespace TaggedUnion

/-- A place in a tree: the names that lead to it from the root. -/
abbrev Location := List String

/-- What there is at a place. -/
inductive Entry where
  | directory
  | file (contents : ByteArray)

/-- Files are told apart by the bytes of their contents. -/
instance : DecidableEq Entry
  | .directory, .directory => isTrue rfl
  | .directory, .file _ => isFalse nofun
  | .file _, .directory => isFalse nofun
  | .file a, .file b =>
    if h : a.data = b.data then isTrue (congrArg Entry.file (ByteArray.ext h))
    else isFalse fun e => h (congrArg ByteArray.data (Entry.file.inj e))

/-- Directories and files, and the directory where relative paths start. -/
structure FileTree where
  /-- What there is at each place but the root; the first entry for a place counts. -/
  entries : List (Location × Entry)
  workingDirectory : Location
deriving DecidableEq

namespace FileTree

/-- What there is at a place; the root is always a directory. -/
def entryAt (t : FileTree) (l : Location) : Option Entry :=
  if l = [] then some .directory else t.entries.lookup l

/-- A list of entries with one more, or with another one at the same place. -/
def putEntry (l : Location) (e : Entry) : List (Location × Entry) → List (Location × Entry)
  | [] => [(l, e)]
  | (k, d) :: es => if k = l then (k, e) :: es else (k, d) :: putEntry l e es

/-- The tree with an entry at a place. -/
def put (t : FileTree) (l : Location) (e : Entry) : FileTree :=
  { t with entries := putEntry l e t.entries }

theorem lookup_putEntry (l k : Location) (e : Entry) (es : List (Location × Entry)) :
    (putEntry l e es).lookup k = if k = l then some e else es.lookup k := by
  induction es with
  | nil =>
    by_cases h : k = l
    · simp [putEntry, h]
    · simp [putEntry, List.lookup_cons, h, beq_eq_false_iff_ne.2 h]
  | cons d es ih =>
    obtain ⟨j, d⟩ := d
    unfold putEntry
    by_cases hj : j = l
    · subst hj
      by_cases hk : k = j
      · simp [hk]
      · simp [List.lookup_cons, hk, beq_eq_false_iff_ne.2 hk]
    · simp only [hj, if_false, List.lookup_cons, ih]
      by_cases hk : k = j
      · subst hk
        simp [hj]
      · simp [beq_eq_false_iff_ne.2 hk]

/-- After an entry is put, the tree has it there, and elsewhere what it had. -/
theorem entryAt_put (t : FileTree) {l : Location} (h : l ≠ []) (e : Entry) (k : Location) :
    (t.put l e).entryAt k = if k = l then some e else t.entryAt k := by
  unfold entryAt put
  by_cases hk : k = []
  · subst hk
    simp [Ne.symm h]
  · simp [hk, lookup_putEntry]

/-- The tree that holds nothing but the working directory and the directories above it. -/
def empty (workingDirectory : Location) : FileTree where
  entries := (List.range workingDirectory.length).map fun n =>
    (workingDirectory.take (n + 1), .directory)
  workingDirectory := workingDirectory

/-- The files below a place, each with the names that lead to it from there. -/
def filesBelow (t : FileTree) (l : Location) : List (Location × ByteArray) :=
  t.entries.filterMap fun (k, e) =>
    match e with
    | .file contents => (l.isPrefixOf? k).map (·, contents)
    | .directory => none

/-! ### Walking -/

/-- Where a path starts. -/
def start (t : FileTree) (p : Path) : Location :=
  if p.isAbsolute then [] else t.workingDirectory

/-- Where parts lead to from a place. There may be nothing at the end. -/
def walk (t : FileTree) (l : Location) : List String → Except FileError Location
  | [] => .ok l
  | part :: parts =>
    match t.entryAt l with
    | none => .error .notFound
    | some (.file _) => .error .notDirectory
    | some .directory =>
      if Path.isHere part then t.walk l parts
      else if part = Path.above then t.walk l.dropLast parts
      else if Path.nameLimit < part.utf8ByteSize then .error .nameTooLong
      else t.walk (l ++ [part]) parts

/-- Where parts lead to from a place, if there is a directory. -/
def walkInto (t : FileTree) (l : Location) (parts : List String) : Except FileError Location :=
  t.walk l (parts ++ ["."])

/-- A path leads to a directory. -/
def isDirectory (t : FileTree) (p : Path) : Bool :=
  match p.check with
  | .error _ => false
  | .ok () => (t.walkInto (t.start p) p.parts).isOk

/-! ### Reading and writing -/

/-- The contents of the file that a path leads to. -/
def read (t : FileTree) (p : Path) : Except FileError ByteArray := do
  p.check
  let l ← t.walk (t.start p) p.parts
  match t.entryAt l with
  | none => throw .notFound
  | some .directory => throw .isDirectory
  | some (.file contents) => return contents

/-- A list of parts without the empty ones at its end. -/
def dropTrailing (parts : List String) : List String :=
  (parts.reverse.dropWhile (· == "")).reverse

/-- The place that a new entry gets. The directory that it stands in must be there, and its
    path must end in a name, with no slash behind it unless the entry may have one: `unnamed`
    is the cause where it does not. -/
def place (t : FileTree) (p : Path) (slashAllowed : Bool) (unnamed : FileError) :
    Except FileError Location :=
  let parts := dropTrailing p.parts
  match parts.getLast? with
  | none => .error unnamed
  | some name => do
    let directory ← t.walkInto (t.start p) parts.dropLast
    if Path.isHere name || name = Path.above then throw unnamed
    if !slashAllowed && p.parts.getLast? = some "" then throw unnamed
    if Path.nameLimit < name.utf8ByteSize then throw .nameTooLong
    return directory ++ [name]

/-- Writes the file that a path leads to. A path with a slash at its end leads to no
    file. -/
def write (t : FileTree) (p : Path) (contents : ByteArray) : Except FileError FileTree := do
  p.check
  let l ← t.place p false .isDirectory
  if t.entryAt l = some .directory then throw .isDirectory
  return t.put l (.file contents)

/-- Makes the directory that a path leads to. -/
def makeDirectory (t : FileTree) (p : Path) : Except FileError FileTree := do
  p.check
  let l ← t.place p true .alreadyExists
  if (t.entryAt l).isSome then throw .alreadyExists
  return t.put l .directory

/-- Makes a directory, unless there is one. -/
def ensureDirectory (t : FileTree) (p : Path) : Except FileError FileTree :=
  match t.makeDirectory p with
  | .ok made => .ok made
  | .error e => if t.isDirectory p then .ok t else .error e

/-- Makes a directory and those above it that are missing, from the parts of its path in
    reverse. The tree comes back with what has been made, also where this fails. -/
def makeReversed (isAbsolute : Bool) (t : FileTree) :
    List String → FileTree × Except FileError Unit
  | [] => (t, .ok ())
  | part :: upper =>
    if Path.isHere part then makeReversed isAbsolute t upper
    else
      let p : Path := ⟨isAbsolute, (part :: upper).reverse⟩
      match t.ensureDirectory p with
      | .ok made => (made, .ok ())
      | .error .notFound =>
        match makeReversed isAbsolute t upper with
        | (t, .error e) => (t, .error e)
        | (t, .ok ()) =>
          match t.ensureDirectory p with
          | .ok made => (made, .ok ())
          | .error e => (t, .error e)
      | .error e => (t, .error e)

/-- Makes what is missing of the directories that a path leads through to its last part. -/
def makeDirectories (t : FileTree) (p : Path) : FileTree × Except FileError Unit :=
  t.makeReversed p.isAbsolute p.parent.parts.reverse

end FileTree

end TaggedUnion
