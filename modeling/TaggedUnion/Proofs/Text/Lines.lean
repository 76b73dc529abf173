import TaggedUnion.Text.Blank
import TaggedUnion.Text.Parts

/-! # Parts of a text and collapsed text

    What is known about a text that is cut at a mark, and about one whose blanks are collapsed:

    * **`parts_append_mark`**: the text before a mark and the text behind it are cut on their own.
    * **`parts_eq_singleton_iff`**: a text has a second part exactly if it holds the mark.
    * **`eq_space_of_mem_collapse`**: the only blanks of a collapsed text are single spaces, so
      that it stands on one line.
-/

namespace TaggedUnion.Text

/-! ### Parts -/

theorem parts_ne_nil (mark : Char) (cs : List Char) : parts mark cs ≠ [] := by
  cases cs with
  | nil => exact List.cons_ne_nil _ _
  | cons c cs =>
    rw [parts]
    split
    · exact List.cons_ne_nil _ _
    · split <;> exact List.cons_ne_nil _ _

theorem parts_of_not_mem {mark : Char} {cs : List Char} (h : mark ∉ cs) :
    parts mark cs = [cs] := by
  induction cs with
  | nil => rfl
  | cons c cs ih =>
    obtain ⟨hc, hcs⟩ := List.ne_and_not_mem_of_not_mem_cons h
    rw [parts, if_neg hc.symm, ih hcs]

/-- The text before a mark and the text behind it are cut on their own. -/
theorem parts_append_mark (mark : Char) (cs rest : List Char) :
    parts mark (cs ++ mark :: rest) = parts mark cs ++ parts mark rest := by
  induction cs with
  | nil =>
    show parts mark (mark :: rest) = [] :: parts mark rest
    rw [parts, if_pos rfl]
  | cons c cs ih =>
    by_cases hc : c = mark
    · rw [List.cons_append, parts, if_pos hc, ih, parts, if_pos hc, List.cons_append]
    · -- The character goes into the first part, which is there in any case.
      obtain ⟨p, ps, hparts⟩ := List.exists_cons_of_ne_nil (parts_ne_nil mark cs)
      rw [List.cons_append, parts, if_neg hc, ih, parts, if_neg hc, hparts]
      rfl

theorem parts_append {mark : Char} {cs : List Char} (h : mark ∉ cs) (rest : List Char) :
    parts mark (cs ++ mark :: rest) = cs :: parts mark rest := by
  rw [parts_append_mark, parts_of_not_mem h, List.singleton_append]

/-- What stands before the first mark goes into the first part. -/
theorem parts_append_of_not_mem {mark : Char} {before : List Char} (h : mark ∉ before)
    {cs first : List Char} {others : List (List Char)} (hcs : parts mark cs = first :: others) :
    parts mark (before ++ cs) = (before ++ first) :: others := by
  induction before with
  | nil => exact hcs
  | cons c before ih =>
    obtain ⟨hc, hbefore⟩ := List.ne_and_not_mem_of_not_mem_cons h
    rw [List.cons_append, parts, if_neg hc.symm, ih hbefore]
    rfl

/-- There is a further part exactly if there is a mark. -/
theorem parts_eq_singleton_iff {mark : Char} {cs first : List Char} {others : List (List Char)}
    (h : parts mark cs = first :: others) : others = [] ↔ mark ∉ cs := by
  constructor
  · rintro rfl hmem
    obtain ⟨before, after, rfl, hbefore⟩ := List.eq_append_cons_of_mem hmem
    rw [parts_append hbefore] at h
    exact parts_ne_nil mark after (List.cons.inj h).2
  · intro hmem
    rw [parts_of_not_mem hmem] at h
    exact (List.cons.inj h).2.symm

/-- What stands behind a text without a mark goes into the last part. -/
theorem exists_parts_append (mark : Char) (cs : List Char) :
    ∃ ps last, parts mark cs = ps ++ [last] ∧
      ∀ ending, mark ∉ ending → parts mark (cs ++ ending) = ps ++ [last ++ ending] := by
  induction cs with
  | nil => exact ⟨[], [], rfl, fun ending h => parts_of_not_mem h⟩
  | cons c cs ih =>
    obtain ⟨ps, last, hparts, happend⟩ := ih
    by_cases hc : c = mark
    · refine ⟨[] :: ps, last, by simp [parts, hc, hparts], ?_⟩
      intro ending hending
      simp [parts, hc, happend ending hending]
    · cases ps with
      | nil =>
        refine ⟨[], c :: last, by simp [parts, hc, hparts], ?_⟩
        intro ending hending
        simp [parts, hc, happend ending hending]
      | cons p ps =>
        refine ⟨(c :: p) :: ps, last, by simp [parts, hc, hparts], ?_⟩
        intro ending hending
        simp [parts, hc, happend ending hending]

theorem length_le_of_mem_parts {mark : Char} {cs p : List Char} (h : p ∈ parts mark cs) :
    p.length ≤ cs.length := by
  induction cs generalizing p with
  | nil => simp_all [parts]
  | cons c cs ih =>
    obtain ⟨q, qs, hparts⟩ := List.exists_cons_of_ne_nil (parts_ne_nil mark cs)
    rw [hparts] at ih
    by_cases hc : c = mark
    · rw [parts, if_pos hc, hparts] at h
      rcases List.mem_cons.mp h with rfl | h
      · exact Nat.zero_le _
      · exact Nat.le_succ_of_le (ih h)
    · rw [parts, if_neg hc, hparts] at h
      rcases List.mem_cons.mp h with rfl | h
      · exact Nat.succ_le_succ (ih List.mem_cons_self)
      · exact Nat.le_succ_of_le (ih (List.mem_cons_of_mem q h))

/-! ### Collapsed text -/

/-- Words are made of characters that are not blank. -/
theorem isBlank_of_mem_wordsFrom {word cs w : List Char} (hword : ∀ c ∈ word, isBlank c = false)
    (hw : w ∈ wordsFrom word cs) : ∀ c ∈ w, isBlank c = false := by
  induction cs generalizing word with
  | nil =>
    by_cases hempty : word.isEmpty
    · rw [wordsFrom, if_pos hempty] at hw
      cases hw
    · rw [wordsFrom, if_neg hempty] at hw
      rwa [List.mem_singleton.mp hw]
  | cons d cs ih =>
    by_cases hd : isBlank d
    · have hnext (hw : w ∈ wordsFrom [] cs) : ∀ c ∈ w, isBlank c = false :=
        ih (by simp) hw
      rw [wordsFrom, if_pos hd] at hw
      by_cases hempty : word.isEmpty
      · rw [if_pos hempty] at hw
        exact hnext hw
      · rw [if_neg hempty] at hw
        rcases List.mem_cons.mp hw with rfl | hw
        · exact hword
        · exact hnext hw
    · rw [wordsFrom, if_neg hd] at hw
      refine ih ?_ hw
      intro c hc
      rcases List.mem_append.mp hc with hc | hc
      · exact hword c hc
      · rw [List.mem_singleton.mp hc]
        exact Bool.eq_false_iff.mpr hd

/-- What stands in texts with a separator between neighbours stands in one of the texts or in the
    separator. -/
theorem mem_intercalate {α : Type} {sep : List α} {xss : List (List α)} {x : α}
    (h : x ∈ sep.intercalate xss) : x ∈ sep ∨ ∃ xs ∈ xss, x ∈ xs := by
  induction xss with
  | nil => cases h
  | cons xs xss ih =>
    cases xss with
    | nil =>
      rw [List.intercalate_singleton] at h
      exact .inr ⟨xs, List.mem_cons_self, h⟩
    | cons ys xss =>
      rw [List.intercalate_cons_cons] at h
      rcases List.mem_append.mp h with h | h
      · rcases List.mem_append.mp h with h | h
        · exact .inr ⟨xs, List.mem_cons_self, h⟩
        · exact .inl h
      · rcases ih h with hsep | ⟨zs, hzs, hx⟩
        · exact .inl hsep
        · exact .inr ⟨zs, List.mem_cons_of_mem xs hzs, hx⟩

/-- The only blanks of a collapsed text are spaces. -/
theorem eq_space_of_mem_collapse {s : String} {c : Char} (h : c ∈ (collapse s).toList)
    (hblank : isBlank c) : c = ' ' := by
  rw [collapse, words, String.toList_intercalate, List.map_map] at h
  rcases mem_intercalate h with hspace | ⟨w, hw, hc⟩
  · exact List.mem_singleton.mp hspace
  · obtain ⟨cs, hcs, rfl⟩ := List.mem_map.mp hw
    rw [Function.comp_apply, String.toList_ofList] at hc
    have hnot := isBlank_of_mem_wordsFrom (by simp) hcs c hc
    rw [hblank] at hnot
    cases hnot

end TaggedUnion.Text
