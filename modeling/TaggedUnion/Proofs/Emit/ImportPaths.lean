import TaggedUnion.Proofs.Emit.NestedCode
import TaggedUnion.Proofs.Text.ByteOrder

/-! # The paths of imports

    The union type brings the case types into scope that live elsewhere. Their paths are sorted, and
    of neighbours that are equal only one is kept:

    * **`pairwise_eraseReps`**: so a sorted list has each element once, in strictly ascending order.
    * **`mem_importPaths_iff`**, **`pairwise_importPaths`**: the paths are those of the cases, each
      once, in ascending order of their bytes.
-/

namespace TaggedUnion

/-! ### Repetitions in a sorted list -/

section repetitions

variable {α : Type}

/-- The loop that drops repetitions loses no element: what it passes over is what it keeps. -/
theorem mem_loop_of_mem [BEq α] [LawfulBEq α] {x : α} {xs kept : List α} {a : α}
    (h : x ∈ kept ∨ x ∈ a :: xs) : x ∈ List.eraseRepsBy.loop (· == ·) a xs kept := by
  induction xs generalizing a kept with
  | nil =>
    rw [List.eraseRepsBy.loop, List.mem_reverse, List.mem_cons]
    exact h.symm.imp_left List.mem_singleton.mp
  | cons b xs ih =>
    rw [List.eraseRepsBy.loop]
    split
    · next heq =>
      obtain rfl := eq_of_beq heq
      -- The element that is passed over is the one the loop is at.
      apply ih
      simpa using h
    · apply ih
      simp only [List.mem_cons] at h ⊢
      tauto

theorem mem_eraseReps_iff [BEq α] [LawfulBEq α] {xs : List α} {x : α} :
    x ∈ xs.eraseReps ↔ x ∈ xs := by
  refine ⟨mem_eraseReps, ?_⟩
  intro h
  cases xs with
  | nil => exact h
  | cons a xs => exact mem_loop_of_mem (.inr h)

variable [LinearOrder α]

/-- What the loop has kept descends to what it is at, and what is left ascends from there. -/
theorem pairwise_loop {xs kept : List α} {a : α} (hkept : (a :: kept).Pairwise (· > ·))
    (hsorted : (a :: xs).Pairwise (· ≤ ·)) :
    (List.eraseRepsBy.loop (· == ·) a xs kept).Pairwise (· < ·) := by
  induction xs generalizing a kept with
  | nil =>
    rw [List.eraseRepsBy.loop]
    exact List.pairwise_reverse.mpr hkept
  | cons b xs ih =>
    obtain ⟨hfirst, htail⟩ := List.pairwise_cons.mp hsorted
    rw [List.eraseRepsBy.loop]
    split
    · next heq =>
      obtain rfl := eq_of_beq heq
      exact ih hkept htail
    · next hne =>
      have hlt : a < b := by
        apply lt_of_le_of_ne (hfirst b List.mem_cons_self)
        simpa using hne
      refine ih (List.pairwise_cons.mpr ⟨?_, hkept⟩) htail
      intro x hx
      rcases List.mem_cons.mp hx with rfl | hx
      · exact hlt
      · exact ((List.pairwise_cons.mp hkept).1 x hx).trans hlt

theorem pairwise_eraseReps {xs : List α} (h : xs.Pairwise (· ≤ ·)) :
    xs.eraseReps.Pairwise (· < ·) := by
  cases xs with
  | nil => exact List.Pairwise.nil
  | cons a xs => exact pairwise_loop (List.pairwise_singleton _ a) h

end repetitions

/-! ### Sorted paths -/

namespace Emit

theorem mem_importPaths_iff {s : Shape} {path : String} :
    path ∈ importPaths s ↔ ∃ c ∈ s.cases, c.importPath = some path := by
  rw [importPaths, mem_eraseReps_iff, List.mem_mergeSort, List.mem_filterMap]

/-- The paths are listed once each, in the order of their bytes. -/
theorem pairwise_importPaths (s : Shape) :
    (importPaths s).Pairwise fun p q => Text.bytes p < Text.bytes q := by
  have hsorted := List.pairwise_mergeSort' (· ≤ ·) (s.cases.filterMap (·.importPath))
  exact (pairwise_eraseReps hsorted).imp Text.bytes_lt_bytes

end Emit

end TaggedUnion
