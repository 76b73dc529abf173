import Mathlib
import TaggedUnion.Name

/-! # Names in snake case twice

    Snake case sets an underscore before a capital by what stands before it, and then writes only
    the capitals `A` to `Z` small. A capital of another alphabet stays, so that it is a capital
    before which a further pass may set an underscore:

    * **`Text.isLasting`**: the capitals that have no small form in snake case.
    * **`filter_isUppercase_snakeFrom`**: these, and no other ones, are the capitals in snake case.
    * **`snakeFrom_snakeFrom_eq_iff`**: a second pass changes something exactly if a lasting capital
      stands right behind one that does not last: it sees a small letter there.
    * **`settles_snake`**: the same for names, and that a third pass changes nothing.
    * **`not_forall_snake_settled`**: a name with a capital in snake case, which a second pass
      changes.
-/

namespace TaggedUnion

namespace Text

/-! ### Capitals that last -/

/-- A capital outside of `A` to `Z`. -/
def isLasting (c : Char) : Bool := isUppercase c && !c.isUpper

theorem toNat_of_isUpper {c : Char} (h : c.isUpper) : 0x41 ≤ c.toNat ∧ c.toNat ≤ 0x5a := by
  unfold Char.isUpper at h
  exact of_decide_eq_true h

theorem isUppercase_of_isUpper {c : Char} (h : c.isUpper) : isUppercase c = true := by
  obtain ⟨hfirst, hlast⟩ := toNat_of_isUpper h
  have hrun : (⟨0x41, 0x5a, 1⟩ : Run).contains c.toNat = true := by
    simp [Run.contains, hfirst, hlast, Nat.mod_one]
  exact List.any_eq_true.mpr ⟨_, List.mem_cons_self, hrun⟩

theorem isUppercase_eq_isUpper_or_isLasting (c : Char) :
    isUppercase c = (c.isUpper || isLasting c) := by
  unfold isLasting
  cases hupper : c.isUpper with
  | false => simp
  | true => simp [isUppercase_of_isUpper hupper]

theorem isLasting_eq_false_of_isUpper {c : Char} (h : c.isUpper) : isLasting c = false := by
  simp [isLasting, h]

/-- The small forms of `A` to `Z` are small letters and no capitals. -/
theorem small_toLower {c : Char} (h : c.isUpper) :
    isUppercase c.toLower = false ∧ isLowercase c.toLower = true := by
  have hall : ∀ i < 26, isUppercase (Char.ofNat (0x61 + i)) = false ∧
      isLowercase (Char.ofNat (0x61 + i)) = true := by decide +kernel
  obtain ⟨hfirst, hlast⟩ := toNat_of_isUpper h
  have hcode : c.toNat + 32 = 0x61 + (c.toNat - 0x41) := by omega
  rw [Char.toLower_eq_of_isUpper h, hcode]
  exact hall _ (by omega)

/-- A lasting capital has no other form in snake case. -/
theorem toLower_of_isLasting {c : Char} (h : isLasting c) : c.toLower = c := by
  apply Char.toLower_eq_of_not_isUpper
  intro hupper
  rw [isLasting_eq_false_of_isUpper hupper] at h
  cases h

/-- The underscore is neither a capital nor a small letter. -/
theorem isUppercase_underscore : isUppercase '_' = false := by decide

theorem isLowercase_underscore : isLowercase '_' = false := by decide

end Text

namespace Name

open Text

/-! ### What one pass does -/

section passes

variable {c : Char} (afterSmall : Bool) (cs : List Char)

theorem snakeFrom_of_isUppercase (h : isUppercase c) :
    snakeFrom afterSmall (c :: cs) =
      (if afterSmall then ['_'] else []) ++ c.toLower :: snakeFrom false cs := by
  cases afterSmall <;> simp [snakeFrom, h]

theorem snakeFrom_of_not_isUppercase (h : isUppercase c = false) :
    snakeFrom afterSmall (c :: cs) = c :: snakeFrom (isLowercase c || c.isDigit) cs := by
  simp [snakeFrom, h]

/-- The underscore that is set before a capital is passed over, and nothing is set behind it. -/
theorem snakeFrom_underscore : snakeFrom afterSmall ('_' :: cs) = '_' :: snakeFrom false cs := by
  rw [snakeFrom_of_not_isUppercase afterSmall cs isUppercase_underscore, isLowercase_underscore]
  rfl

/-- The small form of `A` to `Z` is passed over, and counts as a small letter. -/
theorem snakeFrom_toLower (h : c.isUpper) :
    snakeFrom afterSmall (c.toLower :: cs) = c.toLower :: snakeFrom true cs := by
  obtain ⟨hupper, hlower⟩ := small_toLower h
  rw [snakeFrom_of_not_isUppercase afterSmall cs hupper, hlower, Bool.true_or]

end passes

/-- The capitals in snake case are the lasting ones of the name. -/
theorem filter_isUppercase_snakeFrom (afterSmall : Bool) (cs : List Char) :
    (snakeFrom afterSmall cs).filter isUppercase = cs.filter isLasting := by
  induction cs generalizing afterSmall with
  | nil => rfl
  | cons c cs ih =>
    cases hc : isUppercase c with
    | false =>
      have hlasting : isLasting c = false := by simp [isLasting, hc]
      rw [snakeFrom_of_not_isUppercase afterSmall cs hc, List.filter_cons_of_neg (by simp [hc]),
        List.filter_cons_of_neg (by simp [hlasting])]
      exact ih _
    | true =>
      have hmark : (if afterSmall then ['_'] else []).filter isUppercase = [] := by
        cases afterSmall <;> simp [isUppercase_underscore]
      rw [snakeFrom_of_isUppercase afterSmall cs hc, List.filter_append, hmark, List.nil_append]
      cases hupper : c.isUpper with
      | true =>
        have hsmall := (small_toLower hupper).1
        have hlasting := isLasting_eq_false_of_isUpper hupper
        rw [List.filter_cons_of_neg (by simp [hsmall]),
          List.filter_cons_of_neg (by simp [hlasting])]
        exact ih _
      | false =>
        have hlasting : isLasting c = true := by simp [isLasting, hc, hupper]
        rw [toLower_of_isLasting hlasting, List.filter_cons_of_pos hc,
          List.filter_cons_of_pos hlasting, ih]

/-! ### What a second pass does -/

/-- A second pass reads two neighbours as the first one did: a lasting capital does not stand right
    behind one of `A` to `Z`, which is a small letter by then. -/
def ReadAlike (a b : Char) : Prop := a.isUpper → isLasting b = false

instance (a b : Char) : Decidable (ReadAlike a b) := inferInstanceAs (Decidable (_ → _))

/-- A second pass changes nothing exactly if it reads all neighbours alike; `afterCapital` tells
    whether a capital of `A` to `Z` stands before the characters. -/
theorem snakeFrom_snakeFrom_eq_iff (cs : List Char) (afterSmall afterCapital : Bool)
    (h : afterCapital → afterSmall = false) :
    snakeFrom (afterSmall || afterCapital) (snakeFrom afterSmall cs) = snakeFrom afterSmall cs ↔
      (afterCapital → ∀ b ∈ cs.head?, isLasting b = false) ∧ cs.IsChain ReadAlike := by
  -- Both flags change from character to character, and they are never set at once: behind a capital
  -- the first pass sees no small letter, while the second one sees its small form.
  induction cs generalizing afterSmall afterCapital with
  | nil => simp [snakeFrom]
  | cons c cs ih =>
    have hchain : (c :: cs).IsChain ReadAlike ↔
        (c.isUpper → ∀ b ∈ cs.head?, isLasting b = false) ∧ cs.IsChain ReadAlike := by
      rw [List.isChain_cons]
      exact and_congr_left fun _ => ⟨fun h hc b hb => h b hb hc, fun h b hb hc => h hc b hb⟩
    rw [hchain]
    cases hc : isUppercase c with
    | false =>
      have hupper : c.isUpper = false := by
        rw [isUppercase_eq_isUpper_or_isLasting, Bool.or_eq_false_iff] at hc
        exact hc.1
      have hlasting : isLasting c = false := by simp [isLasting, hc]
      have hrest := ih (isLowercase c || c.isDigit) false (by simp)
      rw [Bool.or_false] at hrest
      rw [snakeFrom_of_not_isUppercase _ _ hc, snakeFrom_of_not_isUppercase _ _ hc, hupper]
      simpa [hlasting] using hrest
    | true =>
      rw [snakeFrom_of_isUppercase _ _ hc]
      cases hupper : c.isUpper with
      | true =>
        have hlasting := isLasting_eq_false_of_isUpper hupper
        have hrest := ih false true (by simp)
        rw [Bool.false_or] at hrest
        -- The second pass goes on behind a small letter, whether an underscore was set or not.
        cases afterSmall <;>
          simpa [snakeFrom_underscore, snakeFrom_toLower _ _ hupper, hlasting] using hrest
      | false =>
        have hlasting : isLasting c = true := by simp [isLasting, hc, hupper]
        have hrest := ih false false (by simp)
        rw [Bool.false_or] at hrest
        have hne : c ≠ '_' := by
          rintro rfl
          rw [isUppercase_underscore] at hc
          cases hc
        rw [toLower_of_isLasting hlasting]
        cases afterCapital with
        | false =>
          -- The second pass meets the capital as the first one did, or behind the underscore.
          cases afterSmall <;>
            simpa [snakeFrom_underscore, snakeFrom_of_isUppercase _ _ hc,
              toLower_of_isLasting hlasting] using hrest
        | true =>
          -- The first pass set no underscore here, and the second one does.
          rw [h rfl]
          simp [snakeFrom_of_isUppercase _ _ hc, hlasting, hne.symm]

/-! ### Names -/

theorem filter_isUppercase_snake (name : String) :
    (snake name).toList.filter isUppercase = name.toList.filter isLasting := by
  rw [snake, String.toList_ofList, filter_isUppercase_snakeFrom]

theorem snake_snake_eq_iff (name : String) :
    snake (snake name) = snake name ↔ name.toList.IsChain ReadAlike := by
  have hpass := snakeFrom_snakeFrom_eq_iff name.toList false false (by simp)
  rw [← String.toList_inj]
  simpa [snake] using hpass

/-- In snake case no capital of `A` to `Z` is left, so that a second pass has settled the name. -/
theorem isChain_readAlike_snake (name : String) : (snake name).toList.IsChain ReadAlike := by
  have hnone : ∀ c ∈ (snake name).toList, c.isUpper = false := by
    intro c hc
    cases hupper : c.isUpper with
    | false => rfl
    | true =>
      have hmem : c ∈ (snake name).toList.filter isUppercase :=
        List.mem_filter.mpr ⟨hc, isUppercase_of_isUpper hupper⟩
      rw [filter_isUppercase_snake] at hmem
      have hlasting := (List.mem_filter.mp hmem).2
      rw [isLasting_eq_false_of_isUpper hupper] at hlasting
      cases hlasting
  apply List.Pairwise.isChain
  apply List.pairwise_of_forall_mem_list
  intro a ha b _ hupper
  rw [hnone a ha] at hupper
  cases hupper

/-- Snake case leaves the capitals outside of `A` to `Z`, in order, and no other ones; so a name in
    snake case has no capital exactly if all capitals of the name are from `A` to `Z`. A second pass
    changes nothing exactly if no other capital stands right behind one of these, and a third pass
    changes nothing in any case. -/
theorem settles_snake (name : String) :
    (snake name).toList.filter isUppercase = name.toList.filter isLasting ∧
    ((∀ c ∈ (snake name).toList, isUppercase c = false) ↔
      ∀ c ∈ name.toList, isUppercase c → c.isUpper) ∧
    (snake (snake name) = snake name ↔
      ¬ ∃ before a b after, name.toList = before ++ a :: b :: after ∧
        a.isUpper ∧ isUppercase b ∧ ¬ b.isUpper) ∧
    snake (snake (snake name)) = snake (snake name) := by
  have hcapitals := filter_isUppercase_snake name
  refine ⟨hcapitals, ?_, ?_, (snake_snake_eq_iff _).mpr (isChain_readAlike_snake name)⟩
  · have hnone : (∀ c ∈ (snake name).toList, isUppercase c = false) ↔
        name.toList.filter isLasting = [] := by
      rw [← hcapitals]
      simp [List.filter_eq_nil_iff]
    rw [hnone]
    simp [List.filter_eq_nil_iff, isLasting]
  · rw [snake_snake_eq_iff, List.isChain_iff_forall_rel_of_append_cons_cons]
    constructor
    · rintro hchain ⟨before, a, b, after, hname, ha, hb, hother⟩
      have hlasting := hchain hname ha
      simp [isLasting, hb, hother] at hlasting
    · intro hnone a b before after hname ha
      cases hlasting : isLasting b with
      | false => rfl
      | true =>
        rw [isLasting, Bool.and_eq_true, Bool.not_eq_true'] at hlasting
        exact absurd ⟨before, a, b, after, hname, ha, hlasting.1, by simp [hlasting.2]⟩ hnone

/-- Snake case may leave a capital, and a second pass may change the name once more: a capital
    outside of `A` to `Z` has no underscore before it until the letter before it is small. -/
theorem not_forall_snake_settled :
    (¬ ∀ name, ∀ c ∈ (snake name).toList, isUppercase c = false) ∧
      ¬ ∀ name, snake (snake name) = snake name := by
  have hsnake : snake "A\u00c9" = "a\u00c9" := by decide +kernel
  constructor
  · intro h
    have hcapital := h "A\u00c9" '\u00c9' (by rw [hsnake]; decide)
    revert hcapital
    decide +kernel
  · intro h
    have hsettled := h "A\u00c9"
    rw [hsnake] at hsettled
    revert hsettled
    decide +kernel

end Name

end TaggedUnion
