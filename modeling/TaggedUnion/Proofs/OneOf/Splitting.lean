import Mathlib
import TaggedUnion.Proofs.OneOf.Looking

/-! # Splitting by case

    Splitting a list of unions keeps every value, once and in the order of the list:

    * **`partition_eq`**: the part of a case has what is found in the list when it is looked through
      for that case.
    * **`map_ofCase_partition`**: put back into their case, these values are the unions of the list
      that have its tag.
    * **`Splits`**: these facts, with what follows from them for lengths and for a list that is put
      together from two.
-/

namespace TaggedUnion.OneOf

variable {n : Nat} {α : Fin n → Type}

/-! ### One union -/

theorem partition_nil (k : Fin n) : partition ([] : List (OneOf α)) k = [] := rfl

theorem partition_cons (u : OneOf α) (us : List (OneOf α)) (k : Fin n) :
    partition (u :: us) k = (u.get? k).toList ++ partition us k := by
  show u.consInto (partition us) k = _
  rcases held_or_other k u with ⟨a, rfl⟩ | hu
  · rw [get?_ofCase]
    exact dif_pos rfl
  · rw [get?_other hu]
    exact dif_neg hu

/-! ### A list of unions -/

theorem partition_eq (us : List (OneOf α)) (k : Fin n) :
    partition us k = us.filterMap (·.get? k) := by
  induction us with
  | nil => rfl
  | cons u us ih =>
    rw [partition_cons, ih, List.filterMap_cons]
    cases u.get? k with
    | none => rfl
    | some a => rfl

theorem partition_append (us vs : List (OneOf α)) (k : Fin n) :
    partition (us ++ vs) k = partition us k ++ partition vs k := by
  rw [partition_eq, List.filterMap_append, ← partition_eq, ← partition_eq]

theorem map_ofCase_partition (us : List (OneOf α)) (k : Fin n) :
    (partition us k).map (.ofCase k) = us.filter (·.tag = k.val + 1) := by
  induction us with
  | nil => rfl
  | cons u us ih =>
    rw [partition_cons, List.map_append, ih]
    rcases held_or_other k u with ⟨a, rfl⟩ | hu
    · rw [get?_ofCase, List.filter_cons_of_pos (by simp [tag, ofCase])]
      rfl
    · rw [get?_other hu, List.filter_cons_of_neg (by simpa [tag_eq_iff] using hu)]
      rfl

/-- A union is found in one case. -/
theorem sum_length_get? (u : OneOf α) : ∑ k, (u.get? k).toList.length = 1 := by
  rw [Finset.sum_eq_single u.index]
  · rw [get?_index]
    rfl
  · intro k _ hk
    rw [get?_other hk.symm]
    rfl
  · intro hu
    exact absurd (Finset.mem_univ _) hu

theorem sum_length_partition (us : List (OneOf α)) :
    ∑ k, (partition us k).length = us.length := by
  induction us with
  | nil => simp [partition_nil]
  | cons u us ih =>
    simp only [partition_cons, List.length_append, Finset.sum_add_distrib, sum_length_get?, ih,
      List.length_cons]
    omega

/-- What is said about the parts that lists of unions are split into. -/
structure Splits (α : Fin n → Type) : Prop where
  /-- The part of a case has the values that are found for the case, in the order of the list. -/
  part (us : List (OneOf α)) (k : Fin n) : partition us k = us.filterMap (·.get? k)
  /-- They are the values of the unions with the tag of the case. -/
  tagged (us : List (OneOf α)) (k : Fin n) :
    (partition us k).map (.ofCase k) = us.filter (·.tag = k.val + 1)
  length (us : List (OneOf α)) : ∑ k, (partition us k).length = us.length
  append (us vs : List (OneOf α)) (k : Fin n) :
    partition (us ++ vs) k = partition us k ++ partition vs k

theorem splits (α : Fin n → Type) : Splits α where
  part := partition_eq
  tagged := map_ofCase_partition
  length := sum_length_partition
  append := partition_append

end TaggedUnion.OneOf
