import Mathlib.Data.Nat.Notation

/-!
# Decimal digits of natural numbers

What readers of numbers need to know about the digits that a number is written with: they are digits,
there is no zero in front of others, and the value of a row of digits grows with its length.
-/

namespace Cadence.Text

theorem digits_isDigit {n : ℕ} {c : Char} (h : c ∈ Nat.toDigits 10 n) : c.isDigit = true :=
  Nat.isDigit_of_mem_toDigits (by decide) (by decide) h

theorem toList_toString (n : ℕ) : (toString n).toList = Nat.toDigits 10 n := by
  rw [Nat.toString_eq_ofList_toDigits, String.toList_ofList]

theorem digit_ne {c d : Char} (hdigit : c.isDigit = true) (hother : d.isDigit = false) : c ≠ d := by
  rintro rfl
  rw [hdigit] at hother
  cases hother

/-- A number does not start with a zero, unless it is zero. -/
theorem head_toDigits {n : ℕ} (hpos : 0 < n) {c : Char} {ds : List Char}
    (hsplit : Nat.toDigits 10 n = c :: ds) : c ≠ '0' := by
  induction n using Nat.strongRecOn generalizing ds with
  | ind n ih =>
    rcases Nat.lt_or_ge n 10 with hshort | hlong
    · rw [Nat.toDigits_of_lt_base hshort] at hsplit
      cases hsplit
      have heach : ∀ n < 10, 0 < n → n.digitChar ≠ '0' := by decide
      exact heach n hshort hpos
    · rw [Nat.toDigits_of_base_le (by decide) hlong] at hsplit
      cases hfront : Nat.toDigits 10 (n / 10) with
      | nil => exact absurd hfront Nat.toDigits_ne_nil
      | cons d front' =>
        rw [hfront] at hsplit
        cases hsplit
        exact ih (n / 10) (by omega) (by omega) hfront

/-- Digits make a number larger. -/
theorem le_ofDigitChars (ds : List Char) (n : ℕ) : n ≤ Nat.ofDigitChars 10 ds n := by
  rw [Nat.ofDigitChars_eq_ofDigitChars_zero]
  have hscaled : n ≤ 10 ^ ds.length * n := Nat.le_mul_of_pos_left n (Nat.pow_pos (by decide))
  omega

end Cadence.Text
