import Mathlib.Data.List.DropRight
import TaggedUnion.Proofs.Emit.FunctionNames
import TaggedUnion.Proofs.Text.Numerals

/-! # Fresh names

    A fresh name is a base with underscores behind it, as many as keep it from being a name that
    the shape uses for a type:

    * **`Shape.exists_fresh`**: how many these are, and that there are never more than the shape
      has names.
    * **`Shape.lengthen`**: the loop that sets one underscore after the other, and
      **`Shape.lengthen_eq_fresh`** where it ends.
    * **`Shape.fresh_inj`**: bases that do not end in an underscore are told from the fresh names
      that they lead to.
    * **`Shape.newNames`**: the fresh names that the emitters ask for, all of them distinct
      (**`Shape.nodup_newNames`**).

    The candidates for one base have different lengths, so that they cannot all be taken.
-/

namespace TaggedUnion

namespace Shape

/-! ### Candidates -/

theorem length_underscored (base : String) (count : Nat) :
    (underscored base count).length = base.length + count := by
  rw [underscored, String.length_append, String.length_ofList, List.length_replicate]

theorem underscored_injective (base : String) : Function.Injective (underscored base) := by
  intro i j h
  have hlength := congrArg String.length h
  rw [length_underscored, length_underscored] at hlength
  omega

theorem underscored_zero (base : String) : underscored base 0 = base := String.append_empty

theorem underscored_succ (base : String) (count : Nat) :
    underscored base (count + 1) = (underscored base count).push '_' := by
  rw [← String.toList_inj]
  simp [underscored, List.replicate_succ', ← List.append_assoc]

/-- One more candidate than there are names is not among them. -/
theorem exists_underscored_notMem (taken : List String) (base : String) :
    ∃ count ∈ List.range (taken.length + 1), underscored base count ∉ taken := by
  by_contra hall
  have htaken : (List.range (taken.length + 1)).map (underscored base) ⊆ taken := by
    intro name hname
    obtain ⟨count, hcount, rfl⟩ := List.mem_map.mp hname
    by_contra hfree
    exact hall ⟨count, hcount, hfree⟩
  have hnodup : ((List.range (taken.length + 1)).map (underscored base)).Nodup :=
    List.nodup_range.map (underscored_injective base)
  have hlength := hnodup.length_le_of_subset htaken
  rw [List.length_map, List.length_range] at hlength
  omega

/-! ### The fresh name of a base -/

variable (s : Shape)

theorem length_takenNames : s.takenNames.length = 2 * s.cases.length + 1 := by
  simp [takenNames, List.length_flatMap, Nat.mul_comm]

theorem mem_takenNames_iff {name : String} :
    name ∈ s.takenNames ↔ name = s.name ∨ ∃ c ∈ s.cases, name = c.typeName ∨ name = c.variant := by
  simp [takenNames]

/-- A fresh name is the first candidate that is not taken. -/
theorem exists_fresh (base : String) :
    ∃ count ≤ s.takenNames.length, s.fresh base = underscored base count ∧
      underscored base count ∉ s.takenNames ∧
      ∀ fewer < count, underscored base fewer ∈ s.takenNames := by
  obtain ⟨free, hmem, hfree⟩ := exists_underscored_notMem s.takenNames base
  -- A candidate in range is free, so the search does not run out of them.
  have hfound : ((List.range (s.takenNames.length + 1)).find?
      ((fun name => decide (name ∉ s.takenNames)) ∘ underscored base)).isSome := by
    rw [List.find?_isSome]
    exact ⟨free, hmem, by simpa using hfree⟩
  obtain ⟨count, hcount⟩ := Option.isSome_iff_exists.mp hfound
  obtain ⟨hfirst, hrange, hearlier⟩ := List.find?_range_eq_some.mp hcount
  refine ⟨count, Nat.lt_succ_iff.mp (List.mem_range.mp hrange), ?_, ?_, ?_⟩
  · rw [fresh, List.find?_map, hcount]
    rfl
  · simpa using hfirst
  · intro fewer hlt
    simpa using hearlier fewer hlt

theorem fresh_notMem (base : String) : s.fresh base ∉ s.takenNames := by
  obtain ⟨count, -, hfresh, hfree, -⟩ := s.exists_fresh base
  rw [hfresh]
  exact hfree

/-! ### The loop -/

/-- Of the names that are as long as a candidate there are fewer once it is longer, if the
    candidate is one of them. -/
theorem length_filter_push_lt {taken : List String} {candidate : String}
    (h : candidate ∈ taken) :
    (taken.filter fun name => (candidate.push '_').length ≤ name.length).length <
      (taken.filter fun name => candidate.length ≤ name.length).length := by
  have hsplit : (taken.filter fun name => (candidate.push '_').length ≤ name.length) =
      (taken.filter fun name => candidate.length ≤ name.length).filter
        fun name => (candidate.push '_').length ≤ name.length := by
    rw [List.filter_filter]
    refine List.filter_congr ?_
    intro name _
    rw [String.length_push]
    by_cases hle : candidate.length + 1 ≤ name.length
    · have : candidate.length ≤ name.length := by omega
      simp [hle, this]
    · simp [hle]
  rw [hsplit, List.length_filter_lt_length_iff_exists]
  refine ⟨candidate, List.mem_filter.mpr ⟨h, by simp⟩, ?_⟩
  simp [String.length_push]

/-- Sets underscores behind a candidate for as long as it is a taken name. This ends, since ever
    fewer of these names are as long as the candidate. -/
def lengthen (taken : List String) (candidate : String) : String :=
  if candidate ∈ taken then lengthen taken (candidate.push '_') else candidate
termination_by (taken.filter fun name => candidate.length ≤ name.length).length
decreasing_by exact length_filter_push_lt ‹_›

/-- From a candidate on, the loop runs up to the first one that is free. -/
theorem lengthen_underscored {taken : List String} {base : String} {i count : Nat}
    (hle : i ≤ count) (hfree : underscored base count ∉ taken)
    (htaken : ∀ fewer < count, underscored base fewer ∈ taken) :
    lengthen taken (underscored base i) = underscored base count := by
  induction hle using Nat.decreasingInduction with
  | self => rw [lengthen, if_neg hfree]
  | of_succ i hlt ih => rw [lengthen, if_pos (htaken i hlt), ← underscored_succ, ih]

theorem lengthen_eq_fresh (base : String) : lengthen s.takenNames base = s.fresh base := by
  obtain ⟨count, -, hfresh, hfree, htaken⟩ := s.exists_fresh base
  have hrun := lengthen_underscored (Nat.zero_le count) hfree htaken
  rw [underscored_zero] at hrun
  rw [hrun, hfresh]

example : (generic 2 defaultRuntimePath).fresh "T1" = "T1_" := by decide

/-! ### Bases -/

/-- A base that does not end in an underscore. -/
def IsBare (base : String) : Prop := base.toList.rdropWhile (· == '_') = base.toList

instance (base : String) : Decidable (IsBare base) :=
  inferInstanceAs (Decidable (base.toList.rdropWhile (· == '_') = base.toList))

/-- Without the underscores behind it a candidate is its base. -/
theorem rdropWhile_underscored {base : String} (h : IsBare base) (count : Nat) :
    (underscored base count).toList.rdropWhile (· == '_') = base.toList := by
  induction count with
  | zero =>
    rw [underscored_zero]
    exact h
  | succ count ih =>
    rw [underscored_succ, String.toList_push, List.rdropWhile_concat_pos _ _ _ rfl]
    exact ih

/-- Fresh names of different bases are different, however many underscores each of them has. -/
theorem fresh_inj {a b : String} (ha : IsBare a) (hb : IsBare b) (h : s.fresh a = s.fresh b) :
    a = b := by
  obtain ⟨i, -, hi, -⟩ := s.exists_fresh a
  obtain ⟨j, -, hj, -⟩ := s.exists_fresh b
  rw [← String.toList_inj, ← rdropWhile_underscored ha i, ← rdropWhile_underscored hb j, ← hi,
    ← hj, h]

/-- What ends in a numeral ends in a digit. -/
theorem isBare_append_toString (base : String) (n : Nat) : IsBare (base ++ toString n) := by
  have hne : (toString n).toList ≠ [] := by simp
  rw [IsBare, List.rdropWhile_eq_self_iff, String.toList_append]
  intro _ hlast
  rw [List.getLast_append_right hne, beq_iff_eq] at hlast
  have hdigit := Text.isDigit_of_mem_toString (List.getLast_mem hne)
  rw [hlast] at hdigit
  exact absurd hdigit (by decide)

/-! ### The bases of type parameters -/

/-- A base for every case, numbered from one. -/
def numbered (base : String) : List String :=
  (List.range' 1 s.arity).map fun i => base ++ toString i

theorem map_fresh_numbered (base : String) :
    (s.numbered base).map s.fresh = s.freshNumbered base := List.map_map

/-- The bases that stand for themselves. -/
def loneBases : List String := ["R", "I", "Pending", "U", "Fut"]

/-- The bases of all type parameters that the emitters add. -/
def bases : List String := loneBases ++ (s.numbered "U" ++ s.numbered "Fut")

theorem nodup_numbered (base : String) : (s.numbered base).Nodup := by
  refine List.Nodup.map ?_ List.nodup_range'
  intro i j h
  exact Text.toString_injective ((String.append_right_inj base).mp h)

theorem nodup_bases : s.bases.Nodup := by
  -- A numbered base has a digit in it.
  have hdigit (base : String) {name : String} (h : name ∈ s.numbered base) :
      name.toList.any Char.isDigit = true := by
    obtain ⟨i, -, rfl⟩ := List.mem_map.mp h
    obtain ⟨c, hc⟩ := List.exists_mem_of_ne_nil (toString i).toList (by simp)
    rw [String.toList_append, List.any_append, Bool.or_eq_true]
    exact .inr (List.any_eq_true.mpr ⟨c, hc, Text.isDigit_of_mem_toString hc⟩)
  have hlone : ∀ base ∈ loneBases, base.toList.any Char.isDigit = false := by decide
  have hapart : ∀ a ∈ s.numbered "U", ∀ b ∈ s.numbered "Fut", a ≠ b := by
    intro a ha b hb
    obtain ⟨i, -, rfl⟩ := List.mem_map.mp ha
    obtain ⟨j, -, rfl⟩ := List.mem_map.mp hb
    exact append_ne_append (by decide) (by decide) _ _
  refine List.nodup_append.mpr ⟨by decide, ?_, ?_⟩
  · exact List.nodup_append.mpr ⟨s.nodup_numbered "U", s.nodup_numbered "Fut", hapart⟩
  · intro base hbase name hname heq
    have hname : name.toList.any Char.isDigit = true := by
      rcases List.mem_append.mp hname with hname | hname
      · exact hdigit "U" hname
      · exact hdigit "Fut" hname
    rw [← heq, hlone base hbase] at hname
    cases hname

theorem isBare_of_mem_bases {base : String} (h : base ∈ s.bases) : IsBare base := by
  have hlone : ∀ base ∈ loneBases, IsBare base := by decide
  rcases List.mem_append.mp h with h | h
  · exact hlone base h
  · rcases List.mem_append.mp h with h | h
    · obtain ⟨i, -, rfl⟩ := List.mem_map.mp h
      exact isBare_append_toString "U" i
    · obtain ⟨i, -, rfl⟩ := List.mem_map.mp h
      exact isBare_append_toString "Fut" i

/-- The type parameters that the emitters add. -/
def newNames : List String := s.bases.map s.fresh

/-- Different bases lead to different names, however they are lengthened. -/
theorem nodup_newNames : s.newNames.Nodup := by
  refine List.Nodup.map_on ?_ s.nodup_bases
  intro a ha b hb h
  exact s.fresh_inj (s.isBare_of_mem_bases ha) (s.isBare_of_mem_bases hb) h

theorem notMem_of_mem_newNames {name : String} (h : name ∈ s.newNames) :
    name ∉ s.takenNames := by
  obtain ⟨base, -, rfl⟩ := List.mem_map.mp h
  exact s.fresh_notMem base

end Shape

end TaggedUnion
