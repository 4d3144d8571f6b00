import Cadence.Duration
import Cadence.Proofs.Number.Doubles
import Cadence.Proofs.Number.Errors

/-!
# Doubles of natural numbers

A number between one and the largest double is rounded to a positive, finite double next to it
(`exists_nearest`), and a natural number that fits in a word is rounded to such a one, without a change
if it has few enough digits (`exists_significand`).
-/

namespace Cadence.Number

open Format

/-! ## 1. Numbers in range -/

theorem value_largest :
    binary64.value (binary64.infinityBits - 1) = ((2 ^ 53 - 1) * 2 ^ 971 : ℕ) := by
  have hparts : binary64.Parts (binary64.infinityBits - 1) 2045 (2 ^ 53 - 1) := by
    refine ⟨?_, ?_, .inr ?_⟩
    · rw [infinityBits_eq]
      decide
    · decide
    · decide
  rw [hparts.value_eq, leastExponent_eq, Nat.cast_mul, Nat.cast_pow]
  rfl

theorem tenPow_le_largest : (10 : ℚ) ^ 308 ≤ binary64.value (binary64.infinityBits - 1) := by
  have hlargest : 10 ^ 308 ≤ (2 ^ 53 - 1) * 2 ^ 971 := by decide +kernel
  have hcast : (10 : ℚ) ^ 308 = ((10 ^ 308 : ℕ) : ℚ) := by
    rw [Nat.cast_pow]
    rfl
  rw [value_largest, hcast]
  exact Nat.cast_le.2 hlargest

theorem two_pow_le_largest : (2 : ℚ) ^ 64 ≤ binary64.value (binary64.infinityBits - 1) := by
  calc (2 : ℚ) ^ 64 ≤ 10 ^ 20 := by norm_num
    _ ≤ 10 ^ 308 := pow_le_pow_right₀ (by norm_num) (by norm_num)
    _ ≤ binary64.value (binary64.infinityBits - 1) := tenPow_le_largest

theorem word_le_largest {n : ℕ} (hfits : n ≤ maxWord) :
    (n : ℚ) ≤ binary64.value (binary64.infinityBits - 1) := by
  calc (n : ℚ) ≤ maxWord := Nat.cast_le.2 hfits
    _ ≤ 2 ^ 64 := by norm_num [maxWord]
    _ ≤ binary64.value (binary64.infinityBits - 1) := two_pow_le_largest

theorem value_leastNormal_double : binary64.value binary64.leastNormal = 2 ^ (-1022 : ℤ) := by
  rw [value_leastNormal, leastExponent_eq, ← zpow_natCast, ← zpow_add₀ two_ne_zero]
  rfl

theorem value_leastNormal_le_one : binary64.value binary64.leastNormal ≤ 1 := by
  rw [value_leastNormal_double]
  exact zpow_le_one_of_nonpos₀ (by norm_num) (by norm_num)

/-- A number between one and the largest double is the nearest of a positive, finite one. -/
theorem exists_nearest {num den : ℕ} (hden : 0 < den) (hone : (1 : ℚ) ≤ num / den)
    (hrange : (num : ℚ) / den ≤ binary64.value (binary64.infinityBits - 1)) :
    ∃ a, 0 < a ∧ a < binary64.infinityBits ∧ binary64.NearestTo (num / den) a ∧
      Within binary64.roundingRatio (binary64.value a) (num / den) ∧
      binary64.nearest num den = a := by
  obtain ⟨a, hnear, hfound⟩ := nearest_spec (f := binary64) (by decide) num hden
  have hleast := value_leastNormal_le_one.trans hone
  have hnormal : binary64.leastNormal ≤ a := (nearestTo_value _ _).mono hnear hleast
  have hfinite : a ≤ binary64.infinityBits - 1 := hnear.mono (nearestTo_value _ _) hrange
  have hpos : 0 < binary64.leastNormal := by decide
  have hinfinity := infinityBits_eq
  refine ⟨a, by omega, by omega, hnear, hnear.within hleast, ?_⟩
  rw [hfound, min_eq_left (by omega)]

/-- The double of a significand. -/
theorem exists_significand {n : ℕ} (hpos : 0 < n) (hfits : n ≤ maxWord) :
    ∃ a, 0 < a ∧ a < binary64.infinityBits ∧ ofNat64 n = double a ∧ binary64.NearestTo n a ∧
      Within binary64.roundingRatio (binary64.value a) n ∧ (n ≤ 2 ^ 53 → binary64.value a = n) := by
  have hone : (1 : ℚ) ≤ (n : ℚ) / (1 : ℕ) := by
    rw [Nat.cast_one, div_one]
    exact_mod_cast hpos
  have hrange : (n : ℚ) / (1 : ℕ) ≤ binary64.value (binary64.infinityBits - 1) := by
    rw [Nat.cast_one, div_one]
    exact word_le_largest hfits
  obtain ⟨a, ha, ha', hnear, hwithin, hfound⟩ := exists_nearest Nat.one_pos hone hrange
  rw [Nat.cast_one, div_one] at hnear hwithin
  refine ⟨a, ha, ha', ?_, hnear, hwithin, fun hshort => ?_⟩
  · rw [ofNat64, hfound, double]
  · have hscaled : binary64.NearestTo (n * 2 ^ (0 : ℤ)) a := by
      rw [zpow_zero, mul_one]
      exact hnear
    have hexact := hscaled.exact hshort (by rw [leastExponent_eq]; decide)
    rw [hexact, zpow_zero, mul_one]

/-! ## 2. Below a power of two -/

theorem exists_value_two_pow (j : ℕ) : ∃ b, binary64.value b = 2 ^ j := by
  obtain ⟨b, hsame⟩ := exists_value (f := binary64) (m := 1) Nat.one_le_two_pow (1074 + j)
  refine ⟨b, ?_⟩
  rw [hsame, leastExponent_eq, Nat.cast_one, one_mul, ← zpow_natCast]
  congr 1
  omega

section

variable {x : ℚ} {c j : ℕ} (hnear : binary64.NearestTo x c) (hle : x ≤ 2 ^ j)

include hnear hle

/-- A power of two is not changed by rounding, so what is below it stays below it. -/
theorem value_le_two_pow : binary64.value c ≤ 2 ^ j := by
  obtain ⟨b, hsame⟩ := exists_value_two_pow j
  rw [← hsame] at hle ⊢
  exact (value_strictMono _).monotone (hnear.mono (nearestTo_value _ b) hle)

theorem finite_of_le_two_pow (hsmall : j ≤ 64) : c < binary64.infinityBits := by
  have hrange : x ≤ binary64.value (binary64.infinityBits - 1) := by
    calc x ≤ 2 ^ j := hle
      _ ≤ 2 ^ 64 := pow_le_pow_right₀ (by norm_num) hsmall
      _ ≤ binary64.value (binary64.infinityBits - 1) := two_pow_le_largest
  have hmost : c ≤ binary64.infinityBits - 1 := hnear.mono (nearestTo_value _ _) hrange
  have hinfinity := infinityBits_eq
  omega

theorem abs_sub_le_two_pow : |binary64.value c - x| ≤ 2 ^ j / 2 ^ 54 := by
  have hpower : (2 : ℚ) ^ (binary64.leastExponent + ((1021 + j : ℕ) : ℤ)) = 2 ^ j / 2 ^ 53 := by
    rw [leastExponent_eq, ← zpow_natCast, ← zpow_natCast, ← zpow_sub₀ two_ne_zero]
    congr 1
    push_cast
    ring
  have hdigits : binary64.fractionBits + 1 = 53 := rfl
  have herror := hnear.abs_sub_le_half (k := 1021 + j) (by
    rw [hpower, hdigits, mul_div_cancel₀ _ (by norm_num)]
    exact hle)
  rw [hpower, div_div, ← pow_succ] at herror
  exact herror

end

end Cadence.Number
