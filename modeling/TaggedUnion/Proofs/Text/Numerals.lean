import Mathlib.Data.Nat.Digits.Defs

/-! # Numerals in names

    A numeral in a name ends where the next character is no digit, so that the number and what
    stands behind it can be told from the name (`toString_append_inj`).
-/

namespace TaggedUnion.Text

theorem isDigit_of_mem_toString {n : Nat} {c : Char} (h : c ∈ (toString n).toList) :
    c.isDigit = true := by
  have hrepr : (toString n).toList = Nat.toDigits 10 n := String.toList_ofList
  rw [hrepr] at h
  exact Nat.isDigit_of_mem_toDigits (by decide) (by decide) h

theorem toString_injective : Function.Injective (toString : Nat → String) := by
  intro n m h
  have hdigits : Nat.toDigits 10 n = Nat.toDigits 10 m := String.ofList_injective h
  simpa using congrArg (Nat.ofDigitChars 10 · 0) hdigits

/-- A text can stand behind a numeral without becoming part of it. -/
def endsNumeral (s : String) : Bool := !s.toList.head?.any Char.isDigit

theorem takeWhile_of_endsNumeral {s : String} (h : endsNumeral s) :
    s.toList.takeWhile Char.isDigit = [] := by
  rw [endsNumeral] at h
  cases hs : s.toList with
  | nil => rfl
  | cons c cs =>
    rw [List.takeWhile_cons_of_neg]
    simpa [hs] using h

/-- A numeral and a text behind it determine each other. -/
theorem toString_append_inj {n m : Nat} {x y : String} (hx : endsNumeral x) (hy : endsNumeral y) :
    toString n ++ x = toString m ++ y ↔ n = m ∧ x = y := by
  constructor
  · intro h
    -- The digits at the beginning are the numeral.
    have hdigits (k : Nat) (z : String) (hz : endsNumeral z) :
        (toString k ++ z).toList.takeWhile Char.isDigit = (toString k).toList := by
      rw [String.toList_append,
        List.takeWhile_append_of_pos fun _ => isDigit_of_mem_toString,
        takeWhile_of_endsNumeral hz, List.append_nil]
    have hnumeral : (toString n).toList = (toString m).toList := by
      rw [← hdigits n x hx, ← hdigits m y hy, h]
    obtain rfl : n = m := toString_injective (String.toList_injective hnumeral)
    exact ⟨rfl, (String.append_right_inj _).mp h⟩
  · rintro ⟨rfl, rfl⟩
    rfl

end TaggedUnion.Text
