import Mathlib.Data.Finset.Sort
import Mathlib.Data.List.Sort
import TaggedUnion.Generate

/-! # Sweeps of generic unions

    The generic unions of several arities are emitted into one file per family. This module says
    that the files depend on the set of arities alone, and how they are put together:

    * **`ascending_eq_sort`**: the arities are taken from the least to the greatest, each once.
    * **`sweep_eq_ok_iff`**, **`sweep_eq_of_isLeast`**: which sweeps are emitted, and which
      arity is named where one is too small.
    * **`sweepsBy`**: a file holds what is emitted for each arity alone, one arity behind the
      other, so that sweeps of smaller and of greater arities can be joined.
-/

namespace TaggedUnion

/-! ### Ascending lists -/

theorem mem_insertAscending {n m : Nat} {ms : List Nat} :
    m ∈ insertAscending n ms ↔ m = n ∨ m ∈ ms := by
  induction ms with
  | nil => simp [insertAscending]
  | cons k ks ih =>
    by_cases hlt : n < k
    · simp [insertAscending, hlt]
    · by_cases heq : n = k
      · simp [insertAscending, heq]
      · rw [insertAscending, if_neg hlt, if_neg heq, List.mem_cons, ih, List.mem_cons]
        exact or_left_comm

theorem pairwise_insertAscending (n : Nat) {ms : List Nat} (h : ms.Pairwise (· < ·)) :
    (insertAscending n ms).Pairwise (· < ·) := by
  induction ms with
  | nil => exact List.pairwise_singleton _ n
  | cons k ks ih =>
    obtain ⟨hk, hks⟩ := List.pairwise_cons.mp h
    by_cases hlt : n < k
    · rw [insertAscending, if_pos hlt]
      refine List.pairwise_cons.mpr ⟨?_, h⟩
      intro m hm
      rcases List.mem_cons.mp hm with rfl | hm
      · exact hlt
      · exact hlt.trans (hk m hm)
    · by_cases heq : n = k
      · rwa [insertAscending, if_neg hlt, if_pos heq]
      · rw [insertAscending, if_neg hlt, if_neg heq]
        refine List.pairwise_cons.mpr ⟨?_, ih hks⟩
        intro m hm
        rcases mem_insertAscending.mp hm with rfl | hm
        · omega
        · exact hk m hm

@[simp] theorem mem_ascending {n : Nat} {ns : List Nat} : n ∈ ascending ns ↔ n ∈ ns := by
  induction ns with
  | nil => rfl
  | cons m ms ih =>
    show n ∈ insertAscending m (ascending ms) ↔ _
    rw [mem_insertAscending, ih, List.mem_cons]

theorem pairwise_ascending (ns : List Nat) : (ascending ns).Pairwise (· < ·) := by
  induction ns with
  | nil => exact List.Pairwise.nil
  | cons n ns ih => exact pairwise_insertAscending n ih

/-- The numbers of a list are taken from the least to the greatest, each once. -/
theorem ascending_eq_sort (ns : List Nat) : ascending ns = ns.toFinset.sort := by
  refine (pairwise_ascending ns).eq_of_mem_iff (Finset.sortedLT_sort _).pairwise ?_
  intro n
  rw [mem_ascending, Finset.mem_sort, List.mem_toFinset]

/-- Where all numbers of one list are less than those of another one, the one list is put in
    order before the other. -/
theorem ascending_append {as bs : List Nat} (h : ∀ a ∈ as, ∀ b ∈ bs, a < b) :
    ascending (as ++ bs) = ascending as ++ ascending bs := by
  refine (pairwise_ascending _).eq_of_mem_iff ?_ ?_
  · refine List.pairwise_append.mpr ⟨pairwise_ascending as, pairwise_ascending bs, ?_⟩
    intro a ha b hb
    exact h a (mem_ascending.mp ha) b (mem_ascending.mp hb)
  · intro n
    simp only [mem_ascending, List.mem_append]

/-! ### What comes of a sweep -/

/-- The artifacts of a sweep, one for each of the eight families, from the body of each. -/
def sweepArtifacts (body : Family → String) : List Artifact :=
  Family.all.map fun f => .ofBody f f.sweepPath (body f)

/-- The bodies can be read off the artifacts. -/
theorem sweepArtifacts_inj {p q : Family → String} :
    sweepArtifacts p = sweepArtifacts q ↔ p = q := by
  constructor
  · intro h
    funext f
    have hf : f ∈ Family.all := by cases f <;> decide
    have hartifact := List.map_inj_left.mp h f hf
    exact (String.append_right_inj _).mp (congrArg Artifact.contents hartifact)
  · rintro rfl
    rfl

theorem sweep_nil (path : String) : sweep [] path = .error .noArities := rfl

/-- A sweep with arities is told by the least one: it is the first of those in ascending order. -/
theorem sweep_eq_of_isLeast {arities : List Nat} {least : Nat} (hmem : least ∈ arities)
    (hleast : ∀ n ∈ arities, least ≤ n) (path : String) :
    sweep arities path =
      if least < minArity then .error (.invalidArity least)
      else .ok (sweepArtifacts (sweepText (ascending arities) path)) := by
  have hascending := pairwise_ascending arities
  cases hns : ascending arities with
  | nil =>
    have := mem_ascending.mpr hmem
    rw [hns] at this
    cases this
  | cons n ns =>
    have hn : n ∈ arities := mem_ascending.mp (hns ▸ List.mem_cons_self)
    have hfirst : n ≤ least := by
      rw [hns, List.pairwise_cons] at hascending
      rcases List.mem_cons.mp (hns ▸ mem_ascending.mpr hmem) with rfl | htail
      · exact le_rfl
      · exact (hascending.1 least htail).le
    obtain rfl : n = least := le_antisymm hfirst (hleast n hn)
    rw [sweep, hns]
    rfl

/-- Among the numbers of a list that has any, one is the least. -/
theorem exists_isLeast {ns : List Nat} (h : ns ≠ []) : ∃ least ∈ ns, ∀ n ∈ ns, least ≤ n := by
  have hnonempty : ns.toFinset.Nonempty := List.toFinset_nonempty_iff ns |>.mpr h
  simpa using ns.toFinset.exists_min_image id hnonempty

/-- A sweep with arities, none of them too small, is emitted, and no other one. -/
theorem sweep_eq_ok_iff {arities : List Nat} {path : String} {artifacts : List Artifact} :
    sweep arities path = .ok artifacts ↔
      arities ≠ [] ∧ (∀ n ∈ arities, minArity ≤ n) ∧
        artifacts = sweepArtifacts (sweepText (ascending arities) path) := by
  by_cases hempty : arities = []
  · subst hempty
    simp [sweep_nil]
  · obtain ⟨least, hmem, hleast⟩ := exists_isLeast hempty
    rw [sweep_eq_of_isLeast hmem hleast]
    by_cases hsmall : least < minArity
    · have hbound : ¬ ∀ n ∈ arities, minArity ≤ n := fun h => (h least hmem).not_gt hsmall
      simp [hsmall, hbound]
    · have hbound : ∀ n ∈ arities, minArity ≤ n :=
        fun n hn => (not_lt.mp hsmall).trans (hleast n hn)
      simp [hsmall, hempty, eq_true hbound, eq_comm]

/-! ### Sweeps by arities -/

theorem sweepText_append (as bs : List Nat) (path : String) (f : Family) :
    sweepText (as ++ bs) path f = sweepText as path f ++ sweepText bs path f := by
  rw [sweepText, List.map_append, String.join_append]
  rfl

/-- The sweeps for a run-time path, told by what is emitted for each arity alone. -/
structure SweepsBy (path : String) (body : Nat → Family → String) : Prop where
  /-- One arity alone is emitted, unless it is too small. -/
  alone : ∀ n, minArity ≤ n → sweep [n] path = .ok (sweepArtifacts (body n))
  /-- Without arities nothing is emitted. -/
  nothing : sweep [] path = .error .noArities
  /-- Where an arity is too small nothing is emitted, and the least one is named. -/
  tooSmall : ∀ (arities : List Nat), (∃ n ∈ arities, n < minArity) →
    ∃ least ∈ arities, (∀ n ∈ arities, least ≤ n) ∧
      sweep arities path = .error (.invalidArity least)
  /-- Otherwise a family has its body for each arity, from the least arity to the greatest, each
      once. -/
  emitted : ∀ (arities : List Nat), arities ≠ [] → (∀ n ∈ arities, minArity ≤ n) →
    sweep arities path =
      .ok (sweepArtifacts fun f => String.join (arities.toFinset.sort.map (body · f)))
  /-- Neither the order of the arities nor repetitions matter. -/
  congr : ∀ (as bs : List Nat), (∀ n, n ∈ as ↔ n ∈ bs) → sweep as path = sweep bs path
  /-- The bodies for smaller arities stand before those for greater ones. -/
  append : ∀ (as bs : List Nat), (∀ a ∈ as, ∀ b ∈ bs, a < b) → ∀ p q : Family → String,
    sweep as path = .ok (sweepArtifacts p) → sweep bs path = .ok (sweepArtifacts q) →
    sweep (as ++ bs) path = .ok (sweepArtifacts fun f => p f ++ q f)

/-- For every run-time path, a sweep puts together what is emitted for each arity alone. -/
theorem sweepsBy (path : String) : SweepsBy path fun n f => f.text (.generic n path) where
  alone := by
    intro n hn
    refine sweep_eq_ok_iff.mpr ⟨List.cons_ne_nil n [], by simpa using hn, ?_⟩
    exact congrArg sweepArtifacts (funext fun f => (String.empty_append).symm)
  nothing := sweep_nil path
  tooSmall := by
    rintro arities ⟨n, hn, hsmall⟩
    obtain ⟨least, hmem, hleast⟩ := exists_isLeast (List.ne_nil_of_mem hn)
    refine ⟨least, hmem, hleast, ?_⟩
    rw [sweep_eq_of_isLeast hmem hleast, if_pos ((hleast n hn).trans_lt hsmall)]
  emitted := by
    intro arities hne hbound
    rw [← ascending_eq_sort]
    exact sweep_eq_ok_iff.mpr ⟨hne, hbound, rfl⟩
  congr := by
    intro as bs h
    have hsame : ascending as = ascending bs := by
      rw [ascending_eq_sort, ascending_eq_sort, List.toFinset.ext h]
    rw [sweep, sweep, hsame]
  append := by
    intro as bs hlt p q hp hq
    obtain ⟨hne, ha, hp⟩ := sweep_eq_ok_iff.mp hp
    obtain ⟨-, hb, hq⟩ := sweep_eq_ok_iff.mp hq
    obtain rfl := sweepArtifacts_inj.mp hp
    obtain rfl := sweepArtifacts_inj.mp hq
    refine sweep_eq_ok_iff.mpr ⟨List.append_ne_nil_of_left_ne_nil hne bs, ?_, ?_⟩
    · intro n hn
      exact (List.mem_append.mp hn).elim (ha n) (hb n)
    · rw [ascending_append hlt]
      exact congrArg sweepArtifacts (funext fun f => (sweepText_append _ _ path f).symm)

end TaggedUnion
