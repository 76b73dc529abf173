import Mathlib
import TaggedUnion.Proofs.OneOf.Records
import TaggedUnion.Proofs.Text.Numerals
import TaggedUnion.Status

/-! # Looking into a union

    There are many ways to ask a union for the case that it holds, and all of them give one answer:

    * **`index_eq_iff`**: a case is held exactly if the union is a value of that case. Each function
      that looks for a case is characterized by it.
    * **`OneStory`**: what all functions say about a union together.
    * **`oneStory`**: they do so for every number of cases, where no two cases have one name.
    * **`Status.isTerminal_tfae`**: the status of a job is terminal if the job was given up.
-/

namespace TaggedUnion.OneOf

variable {n : Nat} {α : Fin n → Type} {u : OneOf α} {k : Fin n}

/-! ### One case -/

theorem index_eq_iff : u.index = k ↔ ∃ a, u = .ofCase k a := by
  constructor
  · intro hu
    exact (held_or_other k u).resolve_right fun hne => hne hu
  · rintro ⟨a, rfl⟩
    rfl

theorem isCase_iff : u.isCase k = true ↔ u.index = k := beq_iff_eq

theorem tag_eq_iff : u.tag = k.val + 1 ↔ u.index = k := by
  rw [tag, Nat.succ_inj, Fin.val_inj]

theorem holds_iff : u.holds (k.val + 1) = true ↔ u.index = k := by
  rw [holds, beq_iff_eq, tag_eq_iff]

theorem caseName_eq_iff {labels : Labels n} (hlabels : Function.Injective labels.caseName) :
    u.caseName labels = labels.caseName k ↔ u.index = k := hlabels.eq_iff

@[simp] theorem get?_ofCase (a : α k) : (ofCase k a).get? k = some a := dif_pos rfl

theorem get?_index (u : OneOf α) : u.get? u.index = some u.value := get?_ofCase u.value

theorem get?_other (hu : u.index ≠ k) : u.get? k = none := dif_neg hu

@[simp] theorem tryInto_ofCase (a : α k) : (ofCase k a).tryInto k = .ok a := dif_pos rfl

theorem tryInto_other (hu : u.index ≠ k) : u.tryInto k = .error u := dif_neg hu

theorem ofCase_inj {a b : α k} : ofCase k a = ofCase k b ↔ a = b := by simp [ofCase]

theorem get?_eq_some_iff {a : α k} : u.get? k = some a ↔ u = .ofCase k a := by
  rcases held_or_other k u with ⟨b, rfl⟩ | hu
  · rw [get?_ofCase, Option.some_inj, ofCase_inj]
  · rw [get?_other hu]
    simpa using fun heq => hu (index_eq_iff.mpr ⟨a, heq⟩)

theorem tryInto_eq_ok_iff {a : α k} : u.tryInto k = .ok a ↔ u = .ofCase k a := by
  rcases held_or_other k u with ⟨b, rfl⟩ | hu
  · rw [tryInto_ofCase, Except.ok.injEq, ofCase_inj]
  · rw [tryInto_other hu]
    simpa using fun heq => hu (index_eq_iff.mpr ⟨a, heq⟩)

/-! ### All cases -/

/-- What is said about the cases of a union that goes by some names. -/
structure OneStory (labels : Labels n) (α : Fin n → Type) : Prop where
  /-- All functions agree on whether a case is held. -/
  agree (u : OneOf α) (k : Fin n) : [u.isCase k = true, u.tag = k.val + 1,
    u.caseName labels = labels.caseName k, u.holds (k.val + 1) = true,
    (∃ a, u.get? k = some a), ∃ a, u.tryInto k = .ok a].TFAE
  /-- The value that is found is the one that is held. -/
  found (u : OneOf α) (k : Fin n) (a : α k) :
    (u.get? k = some a ↔ u = .ofCase k a) ∧ (u.tryInto k = .ok a ↔ u = .ofCase k a)
  /-- No value of another case is found, and the union is given back. -/
  other (u : OneOf α) (k : Fin n) (h : u.isCase k = false) :
    u.get? k = none ∧ u.tryInto k = .error u
  /-- One case is held, the one that the tag tells. -/
  one (u : OneOf α) : ∃! k : Fin n, u.isCase k = true
  /-- What is built from a value holds the value. -/
  built (k : Fin n) (a : α k) : (OneOf.ofCase k a).tag = k.val + 1 ∧
    (OneOf.ofCase k a).get? k = some a ∧ (OneOf.ofCase k a).tryInto k = .ok a
  /-- Building from the held value gives the union again. -/
  rebuilt (u : OneOf α) : ∃ k a, u.tag = k.val + 1 ∧ u.get? k = some a ∧ .ofCase k a = u

theorem oneStory {labels : Labels n} (hlabels : Function.Injective labels.caseName)
    (α : Fin n → Type) : OneStory labels α where
  agree u k := by
    -- Each of them is the same as a statement on the index.
    have hindex : ∀ p ∈ [u.isCase k = true, u.tag = k.val + 1,
        u.caseName labels = labels.caseName k, u.holds (k.val + 1) = true,
        (∃ a, u.get? k = some a), ∃ a, u.tryInto k = .ok a], p ↔ u.index = k := by
      simp [isCase_iff, tag_eq_iff, caseName_eq_iff hlabels, holds_iff, get?_eq_some_iff,
        tryInto_eq_ok_iff, index_eq_iff]
    intro p hp q hq
    exact (hindex p hp).trans (hindex q hq).symm
  found u k a := ⟨get?_eq_some_iff, tryInto_eq_ok_iff⟩
  other u k h := by
    have hu : u.index ≠ k := fun hu => by simp [isCase_iff.mpr hu] at h
    exact ⟨get?_other hu, tryInto_other hu⟩
  one u := ⟨u.index, isCase_iff.mpr rfl, fun _ hk => (isCase_iff.mp hk).symm⟩
  built k a := ⟨rfl, get?_ofCase a, tryInto_ofCase a⟩
  rebuilt u := ⟨u.index, u.value, rfl, u.get?_index, rfl⟩

theorem caseName_generic_injective (n : Nat) : Function.Injective (Labels.generic n).caseName := by
  intro i j h
  have hnumber : i.val + 1 = j.val + 1 :=
    Text.toString_injective ((String.append_right_inj "Case").mp h)
  exact Fin.ext (Nat.succ.inj hnumber)

end TaggedUnion.OneOf

/-! ### The status of a job -/

namespace TaggedUnion.Status

theorem caseName_injective : Function.Injective labels.caseName := by decide

/-- A status is terminal exactly if the job was given up. -/
theorem isTerminal_tfae (s : Status) : [s.isTerminal = true, s.holds 3 = true,
    s.caseName labels = "Aborted", ∃ a, s = .ofAborted a].TFAE := by
  have hcase : s.isTerminal = true ↔ s.index = 2 := OneOf.isCase_iff
  tfae_have 1 ↔ 4 := hcase.trans OneOf.index_eq_iff
  tfae_have 1 ↔ 2 := hcase.trans (OneOf.holds_iff (k := 2)).symm
  tfae_have 1 ↔ 3 := hcase.trans (OneOf.caseName_eq_iff (k := 2) caseName_injective).symm
  tfae_finish

end TaggedUnion.Status
