/-! # Blanks between markup

    Four characters separate names, attributes and values inside a tag: the space, the tab,
    the line feed and the carriage return. No other white space does.
-/

namespace TaggedUnion.Xml

/-- The four characters that separate the parts of a tag. -/
def isSpace (c : Char) : Bool := c == ' ' || c == '\t' || c == '\r' || c == '\n'

/-- A list without its leading separators. -/
def skipSpace (cs : List Char) : List Char := cs.dropWhile isSpace

theorem length_dropWhile_le (p : Char → Bool) (cs : List Char) :
    (cs.dropWhile p).length ≤ cs.length :=
  (List.dropWhile_suffix p).length_le

theorem length_skipSpace_le (cs : List Char) : (skipSpace cs).length ≤ cs.length :=
  length_dropWhile_le isSpace cs

/-! ### Splitting at a mark -/

/-- Splits a list at the first character equal to `mark`: what stands before it, and what
    follows it. -/
def splitAt? (mark : Char) : List Char → Option (List Char × List Char)
  | [] => none
  | c :: cs => if c = mark then some ([], cs) else (splitAt? mark cs).map fun p => (c :: p.1, p.2)

/-- What follows the characters of `mark` at the start of a list, if they stand there. -/
def after? : List Char → List Char → Option (List Char)
  | [], cs => some cs
  | _ :: _, [] => none
  | m :: mark, c :: cs => if m = c then after? mark cs else none

/-- Splits a list at the first place where the characters of `mark` follow each other. -/
def splitOn? (mark : List Char) : List Char → Option (List Char × List Char)
  | [] => none
  | c :: cs =>
    match after? mark (c :: cs) with
    | some rest => some ([], rest)
    | none => (splitOn? mark cs).map fun p => (c :: p.1, p.2)

/-- A split loses the mark and nothing else. -/
theorem eq_of_splitAt? {mark : Char} {cs : List Char} {p : List Char × List Char}
    (h : splitAt? mark cs = some p) : cs = p.1 ++ mark :: p.2 := by
  induction cs generalizing p with
  | nil => simp [splitAt?] at h
  | cons c cs ih =>
    by_cases hc : c = mark
    · simp only [splitAt?, hc, if_true, Option.some.injEq] at h
      subst h
      simp [hc]
    · simp only [splitAt?, hc, if_false, Option.map_eq_some_iff] at h
      obtain ⟨q, hq, rfl⟩ := h
      simpa using ih hq

/-- What follows the mark completes the list. -/
theorem append_of_after? {mark cs rest : List Char} (h : after? mark cs = some rest) :
    mark ++ rest = cs := by
  induction mark generalizing cs with
  | nil => simpa [after?] using h.symm
  | cons m mark ih =>
    cases cs with
    | nil => simp [after?] at h
    | cons c cs =>
      simp only [after?] at h
      split at h
      · next hmc => rw [List.cons_append, ih h, hmc]
      · simp at h

/-- A split at a run of characters loses the run and nothing else. -/
theorem eq_of_splitOn? {mark cs : List Char} {p : List Char × List Char}
    (h : splitOn? mark cs = some p) : cs = p.1 ++ mark ++ p.2 := by
  induction cs generalizing p with
  | nil => simp [splitOn?] at h
  | cons c cs ih =>
    unfold splitOn? at h
    split at h
    · next rest hrest =>
      simp only [Option.some.injEq] at h
      subst h
      simpa using (append_of_after? hrest).symm
    · simp only [Option.map_eq_some_iff] at h
      obtain ⟨q, hq, rfl⟩ := h
      simpa using ih hq

theorem length_of_splitAt? {mark : Char} {cs : List Char} {p : List Char × List Char}
    (h : splitAt? mark cs = some p) : p.2.length < cs.length := by
  rw [eq_of_splitAt? h]
  simp
  omega

theorem length_of_splitOn? {mark cs : List Char} {p : List Char × List Char}
    (h : splitOn? mark cs = some p) : p.2.length ≤ cs.length := by
  rw [eq_of_splitOn? h]
  simp
  omega

end TaggedUnion.Xml
