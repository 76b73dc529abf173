import Mathlib
import TaggedUnion.Text.Blank
import TaggedUnion.Text.Natural

/-! # Written numbers

    In how many ways a number can be written where it is read with the blanks around it dropped:

    * **`Writing`**: blanks, at most one plus sign, digits, and blanks again.
    * **`strip_append`**: blanks are dropped up to a character at each end that is none.
    * **`natural?_trim_eq_some_iff`**: these writings are read, and nothing else is.
-/

namespace TaggedUnion.Text

/-! ### Ways to write a number -/

/-- A way to write a number. -/
structure Writing where
  before : List Char
  /-- There is a plus sign before the digits. -/
  isSigned : Bool
  digits : List Char
  after : List Char

namespace Writing

/-- What stands between the blanks. -/
def core (w : Writing) : List Char := if w.isSigned then '+' :: w.digits else w.digits

/-- The characters that are written. -/
def chars (w : Writing) : List Char := w.before ++ w.core ++ w.after

/-- The writing is one of a number: it has blanks at its ends and decimal digits between them, one
    or more, with any number of zeros at their beginning. -/
structure IsOf (w : Writing) (n : Nat) : Prop where
  isBlank : ∀ c ∈ w.before ++ w.after, isBlank c = true
  isDigit : ∀ c ∈ w.digits, c.isDigit = true
  digits_ne_nil : w.digits ≠ []
  value : Nat.ofDigitChars 10 w.digits 0 = n

end Writing

/-! ### Digits -/

theorem digitsValue_eq (value : Nat) (cs : List Char) :
    digitsValue value cs =
      if ∀ c ∈ cs, c.isDigit = true then some (Nat.ofDigitChars 10 cs value) else none := by
  induction cs generalizing value with
  | nil => simp [digitsValue]
  | cons c cs ih =>
    rw [digitsValue, ih, Nat.mul_comm value 10, Nat.ofDigitChars_cons]
    by_cases hc : c.isDigit
    · simp [hc]
    · simp [hc]

theorem digits?_eq_some_iff {cs : List Char} {n : Nat} :
    digits? cs = some n ↔ cs ≠ [] ∧ (∀ c ∈ cs, c.isDigit = true) ∧
      Nat.ofDigitChars 10 cs 0 = n ∧ n < naturalBound := by
  unfold digits?
  by_cases hnil : cs = []
  · simp [hnil]
  rw [if_neg (by simpa using hnil), Option.filter_eq_some_iff, digitsValue_eq, decide_eq_true_iff]
  simp [hnil, and_assoc]

theorem natural?_eq_some_iff {s : String} {n : Nat} :
    natural? s = some n ↔ ∃ isSigned digits, s.toList = (Writing.mk [] isSigned digits []).core ∧
      digits? digits = some n := by
  unfold natural?
  split
  · next cs hcs =>
    constructor
    · exact fun h => ⟨true, cs, hcs, h⟩
    · rintro ⟨isSigned, digits, hs, h⟩
      rw [hcs] at hs
      cases isSigned with
      | true =>
        obtain rfl := (List.cons.inj hs).2
        exact h
      | false =>
        -- A plus sign is no digit.
        obtain rfl : '+' :: cs = digits := hs
        have hdigit := (digits?_eq_some_iff.mp h).2.1 '+' List.mem_cons_self
        exact absurd hdigit (by decide)
  · next hcs =>
    constructor
    · exact fun h => ⟨false, s.toList, rfl, h⟩
    · rintro ⟨isSigned, digits, hs, h⟩
      cases isSigned with
      | true => exact absurd hs (hcs digits)
      | false => rwa [hs]

/-! ### Dropping blanks -/

theorem exists_eq_strip (p : Char → Bool) (cs : List Char) :
    ∃ before after, cs = before ++ strip p cs ++ after ∧ ∀ c ∈ before ++ after, p c = true := by
  refine ⟨cs.takeWhile p, ((cs.dropWhile p).reverse.takeWhile p).reverse, ?_, ?_⟩
  · rw [strip, List.append_assoc, ← List.reverse_append, List.takeWhile_append_dropWhile,
      List.reverse_reverse, List.takeWhile_append_dropWhile]
  · intro c hc
    rcases List.mem_append.mp hc with hc | hc
    · exact List.mem_takeWhile_imp hc
    · exact List.mem_takeWhile_imp (List.mem_reverse.mp hc)

/-- What is dropped ends where a character stays. -/
theorem strip_append {p : Char → Bool} {before core after : List Char}
    (hdropped : ∀ c ∈ before ++ after, p c = true) (hcore : core ≠ [])
    (hkept : ∀ c ∈ core, p c = false) : strip p (before ++ core ++ after) = core := by
  have hbefore : ∀ c ∈ before, p c = true := fun c hc => hdropped c (List.mem_append_left _ hc)
  have hafter : ∀ c ∈ after.reverse, p c = true :=
    fun c hc => hdropped c (List.mem_append_right _ (List.mem_reverse.mp hc))
  have hstop {cs : List Char} (hne : cs ≠ []) (hcs : ∀ c ∈ cs, p c = false) (rest : List Char) :
      (cs ++ rest).dropWhile p = cs ++ rest := by
    obtain ⟨c, cs, rfl⟩ := List.exists_cons_of_ne_nil hne
    rw [List.cons_append, List.dropWhile_cons_of_neg (by simp [hcs c List.mem_cons_self])]
  have hreversed : core.reverse.dropWhile p = core.reverse := by
    have hend := hstop (List.reverse_ne_nil_iff.mpr hcore)
      (fun c hc => hkept c (List.mem_reverse.mp hc)) []
    rwa [List.append_nil] at hend
  rw [strip, List.append_assoc, List.dropWhile_append_of_pos hbefore, hstop hcore hkept,
    List.reverse_append, List.dropWhile_append_of_pos hafter, hreversed, List.reverse_reverse]

theorem isBlank_of_isDigit {c : Char} (h : c.isDigit = true) : isBlank c = false := by
  have hrange : 48 ≤ c.toNat ∧ c.toNat ≤ 57 := by
    simpa [Char.isDigit, UInt32.le_iff_toNat_le] using h
  rw [isBlank, inRuns, List.any_eq_false]
  intro r hr hcontains
  simp only [blankRuns, List.mem_cons, List.not_mem_nil, or_false] at hr
  simp only [Run.contains, Bool.and_eq_true, decide_eq_true_eq] at hcontains
  obtain ⟨⟨hfirst, hlast⟩, -⟩ := hcontains
  rcases hr with rfl | rfl | rfl | rfl | rfl | rfl | rfl | rfl | rfl | rfl <;>
    dsimp only at hfirst hlast <;> omega

theorem Writing.IsOf.core_ne_nil {w : Writing} {n : Nat} (h : w.IsOf n) : w.core ≠ [] := by
  unfold core
  split
  · exact List.cons_ne_nil _ _
  · exact h.digits_ne_nil

theorem Writing.IsOf.isBlank_core {w : Writing} {n : Nat} (h : w.IsOf n) :
    ∀ c ∈ w.core, Text.isBlank c = false := by
  have hdigits : ∀ c ∈ w.digits, Text.isBlank c = false :=
    fun c hc => isBlank_of_isDigit (h.isDigit c hc)
  unfold core
  split
  · exact List.forall_mem_cons.mpr ⟨by decide, hdigits⟩
  · exact hdigits

/-- A text is read as a number, the blanks at its ends dropped, exactly if it is a writing of the
    number, and the number fits. -/
theorem natural?_trim_eq_some_iff {t : String} {n : Nat} :
    natural? (trim t) = some n ↔
      n < naturalBound ∧ ∃ w : Writing, w.IsOf n ∧ t.toList = w.chars := by
  rw [natural?_eq_some_iff, trim, String.toList_ofList]
  constructor
  · rintro ⟨isSigned, digits, hcore, h⟩
    obtain ⟨hne, hdigits, hvalue, hbound⟩ := digits?_eq_some_iff.mp h
    obtain ⟨before, after, hsplit, hblank⟩ := exists_eq_strip isBlank t.toList
    refine ⟨hbound, ⟨before, isSigned, digits, after⟩, ⟨hblank, hdigits, hne, hvalue⟩, ?_⟩
    rw [hcore] at hsplit
    exact hsplit
  · rintro ⟨hbound, w, hw, hchars⟩
    refine ⟨w.isSigned, w.digits, ?_, ?_⟩
    · rw [hchars, Writing.chars, strip_append hw.isBlank hw.core_ne_nil hw.isBlank_core]
      rfl
    · exact digits?_eq_some_iff.mpr ⟨hw.digits_ne_nil, hw.isDigit, hw.value, hbound⟩

/-- Zeros at the beginning and blanks that are not ASCII are read over. -/
example : natural? (trim "\u3000+0015\u2003\r\n") = some 15 := by decide

end TaggedUnion.Text
