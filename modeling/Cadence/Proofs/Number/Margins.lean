import Cadence.Proofs.Number.Fractions
import Cadence.Proofs.Number.Shortest
import Mathlib.Tactic.NormNum
import Mathlib.Tactic.Zify

/-!
# Decimals between singles

A shortest decimal of a single is either one of the two means between the single and its neighbours, or
stays away from both by a margin (`shortest_apart`), so that it may be changed by a little and still
rounds to the single.  The one decimal that comes too near is known.

A decimal near such a mean has a power of ten that is not much smaller than the place of the single.  So
for each power of ten there is one question: how near can its multiples be to whole numbers, counted in
a power of two that goes into it twice (`apart`)?  The fractions around the quotient of the two powers
answer it.
-/

namespace Cadence.Number

open Format

/-! ## 1. A power of ten in units of a power of two -/

/-- The exponent of a power of two that goes into a power of ten at least twice and less than four
times. -/
def unitPlace (e : ℤ) : ℤ := e * 217706 / 65536 - 1

def unitNum (e : ℤ) : ℕ := 10 ^ e.toNat * 2 ^ (-unitPlace e).toNat

def unitDen (e : ℤ) : ℕ := 10 ^ (-e).toNat * 2 ^ (unitPlace e).toNat

theorem unitDen_pos (e : ℤ) : 0 < unitDen e := by
  rw [unitDen]
  positivity

theorem unit_eq (e : ℤ) : (unitNum e * 2 ^ unitPlace e : ℚ) = unitDen e * 10 ^ e := by
  have hten : (10 : ℚ) ^ e.toNat = 10 ^ e * 10 ^ (-e).toNat := pow_toNat (by norm_num) e
  have htwo : (2 : ℚ) ^ (unitPlace e).toNat = 2 ^ unitPlace e * 2 ^ (-unitPlace e).toNat :=
    pow_toNat two_ne_zero _
  rw [unitNum, unitDen]
  push_cast
  rw [hten, htwo]
  ring

/-- The numbers of units that are asked about: twice a mantissa of a single, and a little more. -/
def unitLimit : ℕ := 2 ^ 25 + 3

/-- The part of a unit that decimals stay away by; the smaller ones are read with fewer errors. -/
def margin (e : ℤ) : ℕ :=
  if e.natAbs ≤ 22 then 2 ^ 28 - 2 ^ 6 else 2 ^ 27 - 2 ^ 5

def unitBracket (e : ℤ) : Bracket :=
  Bracket.narrowed (unitNum e) (unitDen e) unitLimit 1400 .widest

def Occurs (e : ℤ) : Prop := -45 ≤ e ∧ e ≤ 38

theorem forall_occurs {p : ℤ → Prop} (hall : ∀ k : ℕ, k < 84 → p (k - 45)) {e : ℤ} (hoccurs : Occurs e) :
    p e := by
  obtain ⟨hlow, hhigh⟩ := hoccurs
  have hindex := hall (e + 45).toNat (by omega)
  rwa [Int.toNat_of_nonneg (by omega), Int.add_sub_cancel] at hindex

/-- No power of ten is just below a power of two. -/
theorem unitNum_lt {e : ℤ} (hoccurs : Occurs e) :
    (2 ^ 20 + 1) * unitNum e < 4 * 2 ^ 20 * unitDen e := by
  refine forall_occurs (p := fun e => (2 ^ 20 + 1) * unitNum e < 4 * 2 ^ 20 * unitDen e) ?_ hoccurs
  decide

/-- For small powers of ten the common divisors leave a margin. -/
theorem gcd_margin {e : ℤ} (hshort : e.natAbs ≤ 12) :
    unitDen e ≤ margin e * Nat.gcd (unitNum e) (unitDen e) := by
  have hall : ∀ k : ℕ, k < 84 → ((k - 45 : ℤ).natAbs ≤ 12 → unitDen (k - 45) ≤
      margin (k - 45) * Nat.gcd (unitNum (k - 45)) (unitDen (k - 45))) := by
    decide
  exact forall_occurs (p := fun e => e.natAbs ≤ 12 → unitDen e ≤
    margin e * Nat.gcd (unitNum e) (unitDen e)) hall ⟨by omega, by omega⟩ hshort

structure Leaves (e : ℤ) (num den : ℕ) (s : Bracket) : Prop where
  reaches : unitLimit * den ≤ num * (s.low.2 + s.high.2)
  low : (den : ℤ) ≤ margin e * s.lowGap num den
  high : (den : ℤ) ≤ margin e * s.highGap num den ∨ e = -32 ∧ s.high = (22841339, 7038531)

instance (e : ℤ) (num den : ℕ) (s : Bracket) : Decidable (Leaves e num den s) :=
  decidable_of_iff (unitLimit * den ≤ num * (s.low.2 + s.high.2) ∧
    (den : ℤ) ≤ margin e * s.lowGap num den ∧
    ((den : ℤ) ≤ margin e * s.highGap num den ∨ e = -32 ∧ s.high = (22841339, 7038531)))
    ⟨fun ⟨hreaches, hlow, hhigh⟩ => ⟨hreaches, hlow, hhigh⟩,
      fun ⟨hreaches, hlow, hhigh⟩ => ⟨hreaches, hlow, hhigh⟩⟩

/-- For the other powers of ten the fractions around the quotient leave a margin, but for one. -/
theorem bracket_margin {e : ℤ} (hoccurs : Occurs e) (hlong : 12 < e.natAbs) :
    Leaves e (unitNum e) (unitDen e) (unitBracket e) := by
  have hall : ∀ k : ℕ, k < 84 → (12 < (k - 45 : ℤ).natAbs →
      Leaves (k - 45) (unitNum (k - 45)) (unitDen (k - 45)) (unitBracket (k - 45))) := by
    decide +kernel
  exact forall_occurs (p := fun e => 12 < e.natAbs →
    Leaves e (unitNum e) (unitDen e) (unitBracket e)) hall hoccurs hlong

/-! ## 2. Multiples of a power of ten -/

def IsExceptional (n : ℕ) (e : ℤ) : Prop := n = 7038531 ∧ e = -32

theorem margin_pos (e : ℤ) : 0 < margin e := by
  rw [margin]
  split <;> decide

/-- A multiple of a divisor is zero or at least as large. -/
theorem gcd_le (num den n m : ℕ) :
    n * num = m * den ∨ (Nat.gcd num den : ℤ) ≤ |(n * num - m * den : ℤ)| := by
  have hdivides : (Nat.gcd num den : ℤ) ∣ (n * num - m * den : ℤ) :=
    dvd_sub (Dvd.dvd.mul_left (Int.natCast_dvd_natCast.2 (Nat.gcd_dvd_left num den)) n)
      (Dvd.dvd.mul_left (Int.natCast_dvd_natCast.2 (Nat.gcd_dvd_right num den)) m)
  rcases eq_or_ne (n * num - m * den : ℤ) 0 with hzero | hnonzero
  · left
    zify
    exact sub_eq_zero.1 hzero
  · exact .inr (Int.le_of_dvd (abs_pos.2 hnonzero) ((dvd_abs _ _).2 hdivides))

/-- A small multiple is kept away by the fractions around the quotient. -/
theorem apart_small {e : ℤ} (hoccurs : Occurs e) (hlong : 12 < e.natAbs) {n m : ℕ} (hpos : 0 < n)
    (hfew : n < (unitBracket e).low.2 + (unitBracket e).high.2) (hsmall : m < unitLimit) :
    IsExceptional n e ∨
      (unitDen e : ℤ) ≤ margin e * |(n * unitNum e - m * unitDen e : ℤ)| := by
  have hfactor : (0 : ℤ) ≤ margin e := Int.natCast_nonneg _
  have hholds : (unitBracket e).Holds (unitNum e) (unitDen e) :=
    (Bracket.holds_widest _ (unitDen_pos e)).narrowed _ _
  have hhighGap := hholds.highGap_pos
  obtain ⟨-, hlow, hhigh⟩ := bracket_margin hoccurs hlong
  -- The fraction above is far enough away, but for one power of ten.
  rcases hhigh with hhigh | ⟨honly, hbound⟩
  · right
    refine le_trans ?_ (mul_le_mul_of_nonneg_left (hholds.apart m hpos hfew) hfactor)
    rw [mul_min_of_nonneg _ _ hfactor]
    exact le_min hlow hhigh
  · rcases hholds.cases m hpos hfew with habove | hbelow | ⟨u, hsome, hdenominator, hnumerator⟩
    · right
      refine hlow.trans (mul_le_mul_of_nonneg_left ?_ hfactor)
      exact habove.trans (le_abs_self _)
    · right
      refine hlow.trans (mul_le_mul_of_nonneg_left ?_ hfactor)
      rw [abs_sub_comm]
      exact le_trans (by linarith) (le_abs_self _)
    · left
      rw [hbound] at hdenominator hnumerator
      rw [unitLimit] at hsmall
      refine ⟨?_, honly⟩
      -- Twice that decimal would be more than the units asked about.
      have hsingle : u = 1 := by omega
      rw [hdenominator, hsingle, Nat.one_mul]

/-- A multiple of a power of ten is a number of units, or the exceptional one, or away from all of them
by the margin: counted in parts of a unit. -/
theorem apart_parts {e : ℤ} (hoccurs : Occurs e) {n m : ℕ} (hpos : 0 < n) (hsmall : m < unitLimit) :
    n * unitNum e = m * unitDen e ∧ e.natAbs ≤ 12 ∨ IsExceptional n e ∨
      (unitDen e : ℤ) ≤ margin e * |(n * unitNum e - m * unitDen e : ℤ)| := by
  rcases Nat.lt_or_ge 12 e.natAbs with hlong | hshort
  · right
    rcases Nat.lt_or_ge n ((unitBracket e).low.2 + (unitBracket e).high.2) with hfew | hmany
    · exact apart_small hoccurs hlong hpos hfew hsmall
    · -- So many of them are more than the largest number of units.
      right
      have hbeyond : unitLimit * unitDen e ≤ n * unitNum e := by
        refine (bracket_margin hoccurs hlong).reaches.trans ?_
        rw [Nat.mul_comm]
        exact Nat.mul_le_mul_right _ hmany
      have hnext : (m + 1) * unitDen e ≤ unitLimit * unitDen e := Nat.mul_le_mul_right _ hsmall
      have habove : (unitDen e : ℤ) ≤ n * unitNum e - m * unitDen e := by
        zify at hbeyond hnext
        linarith
      have hone : (1 : ℤ) ≤ margin e := by exact_mod_cast margin_pos e
      exact (habove.trans (le_abs_self _)).trans (le_mul_of_one_le_left (abs_nonneg _) hone)
  · -- For small powers the greatest common divisor tells how near multiples can come.
    have hdivisors := gcd_margin hshort
    rcases gcd_le (unitNum e) (unitDen e) n m with hsame | hfar
    · exact .inl ⟨hsame, hshort⟩
    · right
      right
      zify at hdivisors
      exact hdivisors.trans (mul_le_mul_of_nonneg_left hfar (Int.natCast_nonneg _))

/-- A multiple of a power of ten is a number of units of some power of two, or the exceptional one, or
away from all of them by the margin. -/
theorem apart {e : ℤ} (hoccurs : Occurs e) {p : ℤ} (hinside : p ≤ unitPlace e) {n m : ℕ}
    (hpos : 0 < n) (hsmall : m < unitLimit) :
    (n * 10 ^ e : ℚ) = m * 2 ^ p ∧ e.natAbs ≤ 12 ∨ IsExceptional n e ∨
      (2 ^ p : ℚ) ≤ margin e * |(n * 10 ^ e - m * 2 ^ p : ℚ)| := by
  obtain ⟨k, hplace⟩ := Int.le.dest hinside
  have hunit : (0 : ℚ) < 2 ^ p := by positivity
  have hden : (0 : ℚ) < unitDen e := by exact_mod_cast unitDen_pos e
  have hpower : (2 : ℚ) ^ unitPlace e = 2 ^ p * 2 ^ k := by
    rw [← hplace, zpow_add₀ two_ne_zero, zpow_natCast]
  have hparts : ((n * 2 ^ k : ℕ) * unitNum e - m * unitDen e : ℚ) * 2 ^ p =
      unitDen e * (n * 10 ^ e - m * 2 ^ p) := by
    have hscale := unit_eq e
    rw [hpower] at hscale
    push_cast
    linear_combination (n : ℚ) * hscale
  rcases apart_parts hoccurs (Nat.mul_pos hpos (Nat.two_pow_pos k)) hsmall with
    ⟨hsame, hshort⟩ | ⟨hdigits, honly⟩ | hfar
  · left
    refine ⟨?_, hshort⟩
    have hcast : ((n * 2 ^ k : ℕ) * unitNum e : ℚ) = m * unitDen e := by exact_mod_cast hsame
    rw [hcast, sub_self, zero_mul] at hparts
    have hzero := (mul_eq_zero.1 hparts.symm).resolve_left hden.ne'
    linarith
  · right
    left
    refine ⟨?_, honly⟩
    -- The exceptional digits are odd.
    cases k with
    | zero => simpa using hdigits
    | succ k =>
      rw [pow_succ, ← mul_assoc] at hdigits
      omega
  · right
    right
    have hcast : (unitDen e : ℚ) ≤ margin e * |((n * 2 ^ k : ℕ) * unitNum e - m * unitDen e : ℚ)| := by
      exact_mod_cast hfar
    have htotal : |((n * 2 ^ k : ℕ) * unitNum e - m * unitDen e : ℚ)| * 2 ^ p =
        unitDen e * |(n * 10 ^ e - m * 2 ^ p : ℚ)| := by
      rw [← abs_of_pos hunit, ← abs_mul, hparts, abs_mul, abs_of_pos hunit, abs_of_pos hden]
    refine le_of_mul_le_mul_left ?_ hden
    calc (unitDen e * 2 ^ p : ℚ)
        ≤ margin e * |((n * 2 ^ k : ℕ) * unitNum e - m * unitDen e : ℚ)| * 2 ^ p :=
          mul_le_mul_of_nonneg_right hcast hunit.le
      _ = unitDen e * (margin e * |(n * 10 ^ e - m * 2 ^ p : ℚ)|) := by
          rw [mul_assoc, htotal]
          ring

/-! ## 3. Shortest decimals -/

/-- The next smaller number is not further away than the next larger one. -/
theorem gap_le_gap {f : Format} {b : ℕ} (hpos : 0 < b) :
    f.value b - f.value (b - 1) ≤ f.value (b + 1) - f.value b := by
  have hunit : (0 : ℚ) < 2 ^ f.place b := by positivity
  rw [value_succ, value_pred hpos]
  split <;> linarith

section Shortest

variable {f : Format} {b : ℕ} {d : Decimal} (hshortest : IsShortest f b d) (hpos : 0 < b) {ε : ℚ}
include hshortest hpos

/-- The grid point below a decimal that is next to the upper mean is further from the float, or too
low. -/
theorem IsShortest.gap_le_of_upper
    (hclose : |d.digits * 10 ^ d.exponent - (f.value b + f.value (b + 1)) / 2| ≤ ε) :
    f.value b - f.value (b - 1) - 2 * ε ≤ 10 ^ d.exponent := by
  have hstep : (0 : ℚ) < 10 ^ d.exponent := by positivity
  have hgap := gap_le_gap (f := f) hpos
  obtain ⟨hnear, hfar⟩ := abs_le.1 hclose
  rcases lt_or_ge (d.digits * 10 ^ d.exponent : ℚ) (f.value b) with hlow | hhigh
  · linarith
  have hbefore : ((d.digits - 1 : ℕ) * 10 ^ d.exponent : ℚ) =
      d.digits * 10 ^ d.exponent - 10 ^ d.exponent := by
    rw [Nat.cast_pred (hshortest.digits_pos hpos)]
    ring
  -- If the point below counts as well, it is not nearer; if not, it lies beyond the interval.
  by_cases hhit : f.NearestTo ((d.digits - 1 : ℕ) * 10 ^ d.exponent) b
  · have hclosest := hshortest.closest _ hhit
    rw [hbefore, abs_of_nonneg (by linarith)] at hclosest
    rcases le_total (f.value b) (d.digits * 10 ^ d.exponent - 10 ^ d.exponent) with habove | hbelow
    · rw [abs_of_nonneg (by linarith)] at hclosest
      linarith
    · rw [abs_of_nonpos (by linarith)] at hclosest
      linarith
  · rw [hbefore] at hhit
    rcases le_total (f.value b) (d.digits * 10 ^ d.exponent - 10 ^ d.exponent) with habove | hbelow
    · have hbeyond := ge_of_not_nearestTo hhit habove
      linarith [hshortest.nearest.upper]
    · have hbeyond := le_of_not_nearestTo hhit hbelow
      linarith

/-- The grid point above a decimal that is next to the lower mean is further from the float, or too
high. -/
theorem IsShortest.gap_le_of_lower
    (hclose : |d.digits * 10 ^ d.exponent - (f.value (b - 1) + f.value b) / 2| ≤ ε) :
    f.value b - f.value (b - 1) - 2 * ε ≤ 10 ^ d.exponent := by
  have hstep : (0 : ℚ) < 10 ^ d.exponent := by positivity
  have hgap := gap_le_gap (f := f) hpos
  obtain ⟨hnear, hfar⟩ := abs_le.1 hclose
  rcases lt_or_ge (f.value b) (d.digits * 10 ^ d.exponent : ℚ) with hhigh | hlow
  · linarith
  have hafter : ((d.digits + 1 : ℕ) * 10 ^ d.exponent : ℚ) =
      d.digits * 10 ^ d.exponent + 10 ^ d.exponent := by
    push_cast
    ring
  -- If the point above counts as well, it is not nearer; if not, it lies beyond the interval.
  by_cases hhit : f.NearestTo ((d.digits + 1 : ℕ) * 10 ^ d.exponent) b
  · have hclosest := hshortest.closest _ hhit
    rw [hafter, abs_of_nonpos (by linarith)] at hclosest
    rcases le_total (f.value b) (d.digits * 10 ^ d.exponent + 10 ^ d.exponent) with habove | hbelow
    · rw [abs_of_nonneg (by linarith)] at hclosest
      linarith
    · rw [abs_of_nonpos (by linarith)] at hclosest
      linarith
  · rw [hafter] at hhit
    rcases le_total (f.value b) (d.digits * 10 ^ d.exponent + 10 ^ d.exponent) with habove | hbelow
    · have hbeyond := ge_of_not_nearestTo hhit habove
      linarith
    · have hbeyond := le_of_not_nearestTo hhit hbelow
      linarith [hshortest.nearest.lower]

end Shortest

/-- The means between a single and its neighbours, in units that are half of the smaller gap. -/
structure Means (b : ℕ) (p : ℤ) (lo hi : ℕ) : Prop where
  gap : binary32.value b - binary32.value (b - 1) = 2 * 2 ^ p
  lower : (binary32.value (b - 1) + binary32.value b) / 2 = lo * 2 ^ p
  upper : (binary32.value b + binary32.value (b + 1)) / 2 = hi * 2 ^ p
  small : lo < unitLimit ∧ hi < unitLimit
  least : -151 ≤ p

theorem Means.nearestTo {b : ℕ} {p : ℤ} {lo hi : ℕ} (hmeans : Means b p lo hi) {x : ℚ}
    (habove : lo * 2 ^ p < x) (hbelow : x < hi * 2 ^ p) : binary32.NearestTo x b := by
  have hlower := hmeans.lower
  have hupper := hmeans.upper
  exact ⟨by linarith, by linarith, fun _ => ⟨by linarith, by linarith⟩⟩

theorem leastExponent_single : binary32.leastExponent = -149 := by decide

theorem mantissa_single_lt (b : ℕ) : binary32.mantissa b < 2 ^ 24 := by
  obtain ⟨k, m, hparts⟩ := exists_parts binary32 b
  rw [hparts.mantissa_eq]
  exact hparts.small

/-- The first number of a row has the least mantissa that has all digits. -/
theorem mantissa_narrow {b : ℕ} (hfirst : binary32.narrow b = true) : binary32.mantissa b = 2 ^ 23 := by
  obtain ⟨hnone, hmany⟩ := of_decide_eq_true hfirst
  rw [mantissa, if_neg (by omega), hnone]
  rfl

/-- Every single but zero has its means with its neighbours. -/
theorem exists_means {b : ℕ} (hpos : 0 < b) : ∃ p lo hi, Means b p lo hi := by
  have hsome := mantissa_pos (f := binary32) hpos
  have hsmall := mantissa_single_lt b
  have hleast := leastExponent_le_place binary32 b
  have hlimit : unitLimit = 2 ^ 25 + 3 := rfl
  rw [leastExponent_single] at hleast
  have hhalf : (2 : ℚ) ^ (binary32.place b - 1) = 2 ^ binary32.place b / 2 := by
    rw [zpow_sub_one₀ (by norm_num)]
    ring
  have hquarter : (2 : ℚ) ^ (binary32.place b - 2) = 2 ^ binary32.place b / 4 := by
    rw [zpow_sub₀ (by norm_num)]
    norm_num
  -- Below the first number of a row the gap is half as wide, so the unit is a quarter.
  cases hfirst : binary32.narrow b with
  | false =>
    refine ⟨binary32.place b - 1, 2 * binary32.mantissa b - 1, 2 * binary32.mantissa b + 1, ?_, ?_, ?_,
      ⟨by omega, by omega⟩, by omega⟩
    · rw [value_pred hpos, hfirst, hhalf, if_neg Bool.false_ne_true]
      ring
    · rw [value_pred hpos, hfirst, hhalf, value, if_neg Bool.false_ne_true, Nat.cast_sub (by omega)]
      push_cast
      ring
    · rw [value_succ, hhalf, value]
      push_cast
      ring
  | true =>
    have hfull := mantissa_narrow hfirst
    refine ⟨binary32.place b - 2, 4 * binary32.mantissa b - 1, 4 * binary32.mantissa b + 2, ?_, ?_, ?_,
      ⟨by omega, by omega⟩, by omega⟩
    · rw [value_pred hpos, hfirst, hquarter, if_pos rfl]
      ring
    · rw [value_pred hpos, hfirst, hquarter, value, if_pos rfl, Nat.cast_sub (by omega)]
      push_cast
      ring
    · rw [value_succ, hquarter, value]
      push_cast
      ring

/-- A power of ten that is nearly twice a power of two has that as a unit or a multiple of one. -/
theorem le_unitPlace {e : ℤ} (hoccurs : Occurs e) {p : ℤ}
    (hnearly : (2 * 2 ^ p - 2 * (2 ^ p / 2 ^ 22) : ℚ) ≤ 10 ^ e) : p ≤ unitPlace e := by
  by_contra hbeyond
  have hunit : (0 : ℚ) < 2 ^ p := by positivity
  have hden : (0 : ℚ) < unitDen e := by exact_mod_cast unitDen_pos e
  have htwice : (2 * 2 ^ unitPlace e : ℚ) ≤ 2 ^ p := by
    rw [mul_comm, ← zpow_add_one₀ two_ne_zero]
    exact zpow_le_zpow_right₀ (by norm_num) (by omega)
  have hbelow : ((2 ^ 20 + 1) * unitNum e : ℚ) < 4 * 2 ^ 20 * unitDen e := by
    exact_mod_cast unitNum_lt hoccurs
  have hplace : (0 : ℚ) < 2 ^ unitPlace e := by positivity
  have hscaled : (2 ^ 20 + 1) * (10 : ℚ) ^ e < 4 * 2 ^ 20 * 2 ^ unitPlace e := by
    refine lt_of_mul_lt_mul_left ?_ hden.le
    calc (unitDen e * ((2 ^ 20 + 1) * 10 ^ e) : ℚ) = (2 ^ 20 + 1) * unitNum e * 2 ^ unitPlace e := by
          rw [mul_left_comm, ← unit_eq, mul_assoc]
      _ < 4 * 2 ^ 20 * unitDen e * 2 ^ unitPlace e := mul_lt_mul_of_pos_right hbelow hplace
      _ = unitDen e * (4 * 2 ^ 20 * 2 ^ unitPlace e) := by ring
  linarith

theorem value_infinity_single : binary32.value binary32.infinityBits = 2 ^ 128 := by
  have hparts : binary32.Parts binary32.infinityBits 254 (2 ^ 23) :=
    ⟨by decide, by decide, .inr le_rfl⟩
  rw [hparts.value_eq, leastExponent_single]
  norm_num

section Singles

variable {b : ℕ} {d : Decimal} (hshortest : IsShortest binary32 b d) (hpos : 0 < b)
  (hfinite : b < binary32.infinityBits)
include hshortest hpos hfinite

theorem occurs_of_shortest : Occurs d.exponent ∧ d.digits ≤ 2 ^ 28 := by
  have hhigh : d.exponent < 39 := by
    refine hshortest.exponent_lt hpos hfinite ?_
    rw [value_infinity_single]
    norm_num
  have hlow : -45 ≤ d.exponent := by
    refine hshortest.le_exponent hpos ?_ (by decide)
    have hsmall : (4 * 10 ^ (-(45 : ℕ) : ℤ) : ℚ) < 3 * 2 ^ (-(149 : ℕ) : ℤ) :=
      grid_small (by decide)
    rw [leastExponent_single]
    exact hsmall
  have hdigits := hshortest.digits_le hpos (by omega)
  have hmantissa := mantissa_single_lt b
  exact ⟨⟨hlow, by omega⟩, by omega⟩

/-- A shortest decimal of a single is one of the means between it and its neighbours, or the exceptional
one, or stays away from that mean by the margin. -/
theorem shortest_apart {p : ℤ} {lo hi m : ℕ} (hmeans : Means b p lo hi) (hmean : m = lo ∨ m = hi) :
    (d.digits * 10 ^ d.exponent : ℚ) = m * 2 ^ p ∧ d.exponent.natAbs ≤ 12 ∨
      IsExceptional d.digits d.exponent ∨
      (2 ^ p : ℚ) ≤ margin d.exponent * |(d.digits * 10 ^ d.exponent - m * 2 ^ p : ℚ)| := by
  obtain ⟨hoccurs, -⟩ := occurs_of_shortest hshortest hpos hfinite
  have hsmall : m < unitLimit := by
    rcases hmean with rfl | rfl
    · exact hmeans.small.1
    · exact hmeans.small.2
  by_cases hfar : (2 ^ p : ℚ) ≤ margin d.exponent * |(d.digits * 10 ^ d.exponent - m * 2 ^ p : ℚ)|
  · exact .inr (.inr hfar)
  -- Close to a mean, the power of ten is not much smaller than the gap.
  refine apart hoccurs (le_unitPlace hoccurs ?_) (hshortest.digits_pos hpos) hsmall
  rw [← hmeans.gap]
  have hwide : (2 ^ 22 : ℚ) ≤ margin d.exponent := by
    rw [margin]
    split <;> norm_num
  have hclose : |(d.digits * 10 ^ d.exponent - m * 2 ^ p : ℚ)| ≤ 2 ^ p / 2 ^ 22 := by
    rw [le_div_iff₀ (by positivity)]
    have hscaled := mul_le_mul_of_nonneg_right hwide
      (abs_nonneg (d.digits * 10 ^ d.exponent - m * 2 ^ p : ℚ))
    linarith
  rcases hmean with rfl | rfl
  · rw [← hmeans.lower] at hclose
    exact hshortest.gap_le_of_lower hpos hclose
  · rw [← hmeans.upper] at hclose
    exact hshortest.gap_le_of_upper hpos hclose

end Singles

end Cadence.Number
