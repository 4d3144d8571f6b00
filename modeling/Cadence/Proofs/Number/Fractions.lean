import Mathlib.Algebra.Order.Ring.Int
import Mathlib.Tactic.Linarith
import Mathlib.Tactic.LinearCombination
import Mathlib.Tactic.Ring

/-!
# Fractions around a quotient

Two neighbouring fractions around a quotient leave no room for a third one with a small denominator
(`Holds.cases`), so multiples of the quotient by small factors stay away from whole numbers by what the
two leave (`Holds.apart`).  Mediants narrow the two down (`Holds.narrowed`).
-/

namespace Cadence.Number

structure Bracket where
  low : ℕ × ℕ
  high : ℕ × ℕ

namespace Bracket

/-- The two fractions enclose the quotient and are neighbours: none between them has a smaller
denominator than their mediant. -/
structure Holds (s : Bracket) (num den : ℕ) : Prop where
  low : s.low.1 * den ≤ num * s.low.2
  high : num * s.high.2 < s.high.1 * den
  adjacent : s.high.1 * s.low.2 = s.low.1 * s.high.2 + 1

def widest : Bracket := ⟨(0, 1), (1, 0)⟩

def narrow (num den : ℕ) (s : Bracket) : Bracket :=
  if (s.low.1 + s.high.1) * den ≤ num * (s.low.2 + s.high.2) then
    { s with low := (s.low.1 + s.high.1, s.low.2 + s.high.2) }
  else { s with high := (s.low.1 + s.high.1, s.low.2 + s.high.2) }

/-- Narrow a bracket down until its mediant reaches a bound, or a number of times. -/
def narrowed (num den bound : ℕ) : ℕ → Bracket → Bracket
  | 0, s => s
  | fuel + 1, s =>
    if bound * den ≤ num * (s.low.2 + s.high.2) then s
    else narrowed num den bound fuel (s.narrow num den)

theorem holds_widest (num : ℕ) {den : ℕ} (hpos : 0 < den) : widest.Holds num den :=
  ⟨by simp [widest], by simpa [widest] using hpos, rfl⟩

variable {s : Bracket} {num den : ℕ}

theorem Holds.narrow (h : s.Holds num den) : (s.narrow num den).Holds num den := by
  obtain ⟨hlow, hhigh, hadjacent⟩ := h
  rw [Bracket.narrow]
  split
  · rename_i hbelow
    refine ⟨hbelow, hhigh, ?_⟩
    show s.high.1 * (s.low.2 + s.high.2) = (s.low.1 + s.high.1) * s.high.2 + 1
    linarith
  · rename_i habove
    refine ⟨hlow, not_le.1 habove, ?_⟩
    show (s.low.1 + s.high.1) * s.low.2 = s.low.1 * (s.low.2 + s.high.2) + 1
    linarith

theorem Holds.narrowed (h : s.Holds num den) (bound fuel : ℕ) :
    (narrowed num den bound fuel s).Holds num den := by
  induction fuel generalizing s with
  | zero => exact h
  | succ fuel ih =>
    rw [Bracket.narrowed]
    split
    · exact h
    · exact ih h.narrow

def lowGap (s : Bracket) (num den : ℕ) : ℤ := num * s.low.2 - s.low.1 * den

def highGap (s : Bracket) (num den : ℕ) : ℤ := s.high.1 * den - num * s.high.2

section Apart

variable (h : s.Holds num den)
include h

theorem Holds.lowGap_nonneg : 0 ≤ s.lowGap num den := by
  rw [lowGap, sub_nonneg]
  exact_mod_cast h.low

theorem Holds.highGap_pos : 0 < s.highGap num den := by
  rw [highGap, sub_pos]
  exact_mod_cast h.high

/-- Any two numbers are a combination of the two fractions. -/
theorem Holds.combination (n m : ℕ) :
    ∃ u w : ℤ, n = u * s.low.2 + w * s.high.2 ∧ m = u * s.low.1 + w * s.high.1 ∧
      (n * num - m * den : ℤ) = u * s.lowGap num den - w * s.highGap num den := by
  have hadjacent : (s.high.1 * s.low.2 : ℤ) = s.low.1 * s.high.2 + 1 := by exact_mod_cast h.adjacent
  obtain ⟨u, hu⟩ : ∃ u : ℤ, u = n * s.high.1 - m * s.high.2 := ⟨_, rfl⟩
  obtain ⟨w, hw⟩ : ∃ w : ℤ, w = m * s.low.2 - n * s.low.1 := ⟨_, rfl⟩
  have hdenominator : (n : ℤ) = u * s.low.2 + w * s.high.2 := by
    rw [hu, hw]
    linear_combination -(n : ℤ) * hadjacent
  have hnumerator : (m : ℤ) = u * s.low.1 + w * s.high.1 := by
    rw [hu, hw]
    linear_combination -(m : ℤ) * hadjacent
  refine ⟨u, w, hdenominator, hnumerator, ?_⟩
  rw [lowGap, highGap]
  linear_combination (num : ℤ) * hdenominator - den * hnumerator

/-- A multiple of the quotient by a small factor stays above the whole numbers below it by the lower gap
and below those above it by both gaps, except from multiples of the upper fraction. -/
theorem Holds.cases {n : ℕ} (m : ℕ) (hpos : 0 < n) (hsmall : n < s.low.2 + s.high.2) :
    s.lowGap num den ≤ n * num - m * den ∨
      s.lowGap num den + s.highGap num den ≤ m * den - n * num ∨
      ∃ u : ℕ, 0 < u ∧ n = u * s.high.2 ∧ m = u * s.high.1 := by
  have hlowGap := h.lowGap_nonneg
  have hhighGap := h.highGap_pos
  have hlowDen : (0 : ℤ) ≤ s.low.2 := Int.natCast_nonneg _
  have hhighDen : (0 : ℤ) ≤ s.high.2 := Int.natCast_nonneg _
  have hsome : (0 : ℤ) < n := by exact_mod_cast hpos
  have hfits : (n : ℤ) < s.low.2 + s.high.2 := by exact_mod_cast hsmall
  obtain ⟨u, w, hdenominator, hnumerator, htotal⟩ := h.combination n m
  -- Both coefficients cannot be positive, for `n` is less than the sum of the denominators.
  rcases le_or_gt w 0 with hnone | habove
  · left
    have hbelow : 1 ≤ u := by
      by_contra hfew
      nlinarith
    nlinarith
  · have hfew : u ≤ 0 := by
      by_contra hmore
      nlinarith
    right
    rcases hfew.lt_or_eq with hnegative | rfl
    · left
      nlinarith
    · right
      refine ⟨w.toNat, by omega, ?_, ?_⟩
      · zify
        rw [Int.toNat_of_nonneg habove.le, hdenominator]
        ring
      · zify
        rw [Int.toNat_of_nonneg habove.le, hnumerator]
        ring

/-- A multiple of the quotient by a small factor is as far from any whole number as the nearer bound. -/
theorem Holds.apart {n : ℕ} (m : ℕ) (hpos : 0 < n) (hsmall : n < s.low.2 + s.high.2) :
    min (s.lowGap num den) (s.highGap num den) ≤ |(n * num - m * den : ℤ)| := by
  have hlowGap := h.lowGap_nonneg
  have hhighGap := h.highGap_pos
  rcases h.cases m hpos hsmall with habove | hbelow | ⟨u, hsome, hdenominator, hnumerator⟩
  · exact (min_le_left _ _).trans (habove.trans (le_abs_self _))
  · rw [abs_sub_comm]
    exact (min_le_left _ _).trans (le_trans (by linarith) (le_abs_self _))
  · have htotal : (m * den - n * num : ℤ) = u * s.highGap num den := by
      rw [hdenominator, hnumerator, Bracket.highGap]
      push_cast
      ring
    have hone : (1 : ℤ) ≤ u := by exact_mod_cast hsome
    rw [abs_sub_comm, htotal]
    exact (min_le_right _ _).trans
      ((le_mul_of_one_le_left hhighGap.le hone).trans (le_abs_self _))

end Apart

end Bracket

end Cadence.Number
