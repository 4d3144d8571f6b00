import Cadence.Json.Number
import Cadence.Proofs.Number.Naturals

/-!
# The double for a significand and a power of ten

The significand and the power of ten are each rounded, and so is their product or quotient.  The
result is the pattern nearest to a number that is within a small ratio of the exact one
(`exists_scaled`), and of the exact one itself where both have few enough digits.
-/

namespace Cadence.Json

open Number Number.Format

/-! ## 1. Rounded operands -/

/-- The double of a power of ten. -/
theorem exists_power {k : ℕ} (hsmall : k ≤ 308) :
    ∃ a, 0 < a ∧ a < binary64.infinityBits ∧ powerOfTen k = double a ∧
      Within binary64.roundingRatio (binary64.value a) (10 ^ k) ∧
      (k ≤ 22 → binary64.value a = 10 ^ k) := by
  have hcast : ((10 ^ k : ℕ) : ℚ) / (1 : ℕ) = 10 ^ k := by
    rw [Nat.cast_one, div_one, Nat.cast_pow]
    rfl
  have hone : (1 : ℚ) ≤ ((10 ^ k : ℕ) : ℚ) / (1 : ℕ) := by
    rw [hcast]
    exact one_le_pow₀ (by norm_num)
  have hrange : ((10 ^ k : ℕ) : ℚ) / (1 : ℕ) ≤ binary64.value (binary64.infinityBits - 1) := by
    rw [hcast]
    exact (pow_le_pow_right₀ (by norm_num) hsmall).trans tenPow_le_largest
  obtain ⟨a, ha, ha', hnear, hwithin, hfound⟩ := exists_nearest Nat.one_pos hone hrange
  rw [hcast] at hnear hwithin
  refine ⟨a, ha, ha', ?_, hwithin, fun hshort => ?_⟩
  · have hbits : binary64.nearestDecimal false 1 k = a := by
      rw [← hfound, nearestDecimal, if_neg Bool.false_ne_true, Nat.zero_add, Nat.one_mul,
        Int.toNat_natCast, Int.toNat_neg_natCast]
      rfl
    rw [powerOfTen, ofDecimal64, hbits, double]
  · -- Up to `10 ^ 22` the power of five fits in the mantissa.
    have hsplit : (10 : ℚ) ^ k = (5 ^ k : ℕ) * 2 ^ (k : ℤ) := by
      rw [zpow_natCast, Nat.cast_pow, ← mul_pow]
      norm_num
    rw [hsplit] at hnear
    have hdigits : 5 ^ k ≤ 2 ^ 53 :=
      (Nat.pow_le_pow_right (by decide) hshort).trans (by decide : 5 ^ 22 ≤ 2 ^ 53)
    rw [hnear.exact hdigits (by rw [leastExponent_eq]; omega), hsplit]

/-! ## 2. One step -/

/-- Where the power of ten is in the range of the doubles, a number is scaled in one step. -/
theorem exists_scaled {n : ℕ} (hpos : 0 < n) (hfits : n ≤ maxWord) {e : ℤ} (hsmall : e.natAbs ≤ 308) :
    ∃ y c, binary64.NearestTo y c ∧
      Within (binary64.roundingRatio * binary64.roundingRatio) y (n * 10 ^ e) ∧
      (n ≤ 2 ^ 53 → Within binary64.roundingRatio y (n * 10 ^ e)) ∧
      (n ≤ 2 ^ 53 → e.natAbs ≤ 22 → y = n * 10 ^ e) ∧
      (c < binary64.infinityBits → ∀ fuel, scale (ofNat64 n) e (fuel + 1) = some (double c)) := by
  obtain ⟨a, ha, ha', hsignificand, -, hcloseA, hexactA⟩ := exists_significand hpos hfits
  obtain ⟨p, hp, hp', hpower, hcloseP, hexactP⟩ := exists_power hsmall
  -- A negative power is divided by, since it is not a double itself.
  rcases lt_or_ge e 0 with hnegative | hnonneg
  · have hpowers : (10 : ℚ) ^ e = (10 ^ e.natAbs)⁻¹ := by
      rw [← zpow_natCast, ← zpow_neg]
      congr 1
      omega
    obtain ⟨c, hnear, hquotient⟩ := div_double ha ha' hp hp'
    rw [hpowers, ← div_eq_mul_inv]
    refine ⟨_, c, hnear, hcloseA.div hcloseP, fun hdigits => ?_, fun hdigits hshort => ?_,
      fun hfinite fuel => ?_⟩
    · have htotal := (Within.refl (Nat.cast_pos.2 hpos)).div hcloseP
      rw [one_mul] at htotal
      rw [hexactA hdigits]
      exact htotal
    · rw [hexactA hdigits, hexactP hshort]
    · rw [scale, if_pos hsmall, if_neg (not_le.2 hnegative), hsignificand, hpower, hquotient,
        min_eq_left hfinite.le]
  · have hpowers : (10 : ℚ) ^ e = 10 ^ e.natAbs := by
      rw [← zpow_natCast]
      congr 1
      omega
    obtain ⟨c, hnear, hproduct⟩ := mul_double ha ha' hp hp'
    rw [hpowers]
    refine ⟨_, c, hnear, hcloseA.mul hcloseP, fun hdigits => ?_, fun hdigits hshort => ?_,
      fun hfinite fuel => ?_⟩
    · have htotal := (Within.refl (Nat.cast_pos.2 hpos)).mul hcloseP
      rw [one_mul] at htotal
      rw [hexactA hdigits]
      exact htotal
    · rw [hexactA hdigits, hexactP hshort]
    · rw [scale, if_pos hsmall, if_pos hnonneg, hsignificand, hpower, hproduct, min_eq_left hfinite.le]
      simp only [isInf_double hfinite]
      rfl

/-! ## 3. Two steps -/

def greatestPower : ℕ := 0x7fe1ccf385ebc8a0

def greatestSignificand : ℕ := 5010420900022432

theorem powerOfTen_greatest : powerOfTen 308 = double greatestPower := by
  have hbits : binary64.nearestDecimal false 1 (308 : ℕ) = greatestPower := by decide +kernel
  rw [powerOfTen, ofDecimal64, hbits, double]

theorem value_greatestPower :
    binary64.value greatestPower = ((greatestSignificand * 2 ^ 971 : ℕ) : ℚ) := by
  have hparts : binary64.Parts greatestPower 2045 greatestSignificand :=
    ⟨by decide, by decide, .inr (by decide)⟩
  rw [hparts.value_eq, leastExponent_eq, Nat.cast_mul, Nat.cast_pow]
  rfl

/-- The largest power of ten is rounded by less than others may be. -/
theorem greatestPower_within :
    Within (1 + 1 / (10 * 2 ^ 53)) (binary64.value greatestPower) (10 ^ 308) := by
  have hvalue := value_greatestPower
  have hpower : (10 : ℚ) ^ 308 = ((10 ^ 308 : ℕ) : ℚ) := by
    rw [Nat.cast_pow]
    rfl
  have hscaled {x y : ℕ} (hle : 10 * 2 ^ 53 * x ≤ (10 * 2 ^ 53 + 1) * y) :
      (x : ℚ) ≤ (1 + 1 / (10 * 2 ^ 53)) * y := by
    have hcast : (10 * 2 ^ 53 : ℚ) * x ≤ (10 * 2 ^ 53 + 1) * y := by exact_mod_cast hle
    have hweight : (0 : ℚ) < 10 * 2 ^ 53 := by positivity
    rw [← mul_le_mul_iff_right₀ hweight]
    calc (10 * 2 ^ 53 : ℚ) * x ≤ (10 * 2 ^ 53 + 1) * y := hcast
      _ = 10 * 2 ^ 53 * ((1 + 1 / (10 * 2 ^ 53)) * y) := by ring
  rw [hvalue, hpower]
  refine ⟨⟨?_, ?_⟩, hscaled (by decide +kernel), hscaled (by decide +kernel)⟩
  · rw [greatestSignificand]
    exact Nat.cast_pos.2 (by positivity)
  · exact Nat.cast_pos.2 (by positivity)

/-- A number of few digits above the least place is the value of a pattern. -/
theorem exists_double_value {m : ℕ} (hsmall : m ≤ 2 ^ 53) {q : ℤ} (hleast : -1074 ≤ q) :
    ∃ b, binary64.value b = m * 2 ^ q := by
  obtain ⟨k, hplace⟩ := Int.le.dest hleast
  obtain ⟨b, hvalue⟩ := exists_value (f := binary64) hsmall k
  rw [leastExponent_eq, hplace] at hvalue
  exact ⟨b, hvalue⟩

section Rounded

variable {x : ℚ} {b m : ℕ} (hnear : binary64.NearestTo x b) (hsmall : m ≤ 2 ^ 53) {q : ℤ}
  (hleast : -1074 ≤ q)
include hnear hsmall hleast

theorem value_le (hbelow : x ≤ m * 2 ^ q) : binary64.value b ≤ m * 2 ^ q := by
  obtain ⟨l, hvalue⟩ := exists_double_value hsmall hleast
  rw [← hvalue] at hbelow ⊢
  exact (value_strictMono _).monotone (hnear.mono (nearestTo_value _ l) hbelow)

theorem le_value (habove : m * 2 ^ q ≤ x) : m * 2 ^ q ≤ binary64.value b := by
  obtain ⟨l, hvalue⟩ := exists_double_value hsmall hleast
  rw [← hvalue] at habove ⊢
  exact (value_strictMono _).monotone ((nearestTo_value _ l).mono hnear habove)

/-- A number between two bounds is rounded by half a place of the upper one, and so by no more than that
in relation to the lower one. -/
theorem within_of_bounds (hpos : 0 < m) (habove : m * 2 ^ q ≤ x) {p : ℤ} (hleast' : -1074 ≤ p)
    (hbelow : x ≤ 2 ^ 53 * 2 ^ p) {r : ℚ} (hratio : 2 ^ p ≤ r * (2 * (m * 2 ^ q) : ℚ)) :
    Within (1 + r) (binary64.value b) x := by
  obtain ⟨l, hvalue⟩ := exists_double_value hsmall hleast
  obtain ⟨k, hplace⟩ := Int.le.dest hleast'
  have hunit : (0 : ℚ) < m * 2 ^ q := mul_pos (Nat.cast_pos.2 hpos) (by positivity)
  have hsame : binary64.leastExponent + (k : ℤ) = p := by
    rw [leastExponent_eq, hplace]
  have hclose := hnear.within_of_le (l := l) (k := k) (by rw [hvalue]; exact hunit)
    (by rw [hvalue]; exact habove) (by rw [hsame]; exact hbelow)
  rw [hsame, hvalue] at hclose
  refine hclose.mono (add_le_add_right ?_ 1)
  rwa [div_le_iff₀ (by linarith)]

end Rounded

/-- How far a number divided by the largest power of ten is from the exact quotient. -/
def quotientRatio : ℚ := (1 + 1 / 2 ^ 53) * (1 + 899 / 1000 / 2 ^ 53)

theorem two_zpow_eq {y z : ℤ} (k : ℕ) (hsame : y + k = z) : (2 : ℚ) ^ y = 2 ^ z / 2 ^ k := by
  rw [← hsame, zpow_add₀ two_ne_zero, zpow_natCast, mul_div_cancel_right₀ _ (by positivity)]

section Quotient

variable {x c : ℚ} {y z : ℤ} (hsame : y + 971 = z)
include hsame

theorem divisor_mul (c : ℚ) :
    c * 2 ^ y * binary64.value greatestPower = c * greatestSignificand * 2 ^ z := by
  rw [value_greatestPower, Nat.cast_mul, Nat.cast_pow, two_zpow_eq 971 hsame, Nat.cast_ofNat]
  field_simp

theorem le_quotient : c * 2 ^ y ≤ x / binary64.value greatestPower ↔
    c * greatestSignificand * 2 ^ z ≤ x := by
  rw [le_div_iff₀ greatestPower_within.positive.1, divisor_mul hsame]

theorem quotient_le : x / binary64.value greatestPower ≤ c * 2 ^ y ↔
    x ≤ c * greatestSignificand * 2 ^ z := by
  rw [div_le_iff₀ greatestPower_within.positive.1, divisor_mul hsame]

end Quotient

theorem greatestSignificand_eq : (greatestSignificand : ℚ) = 5010420900022432 := rfl

section Dividend

variable {n a q : ℕ} (hnearA : binary64.NearestTo n a)
  (hnearQ : binary64.NearestTo (binary64.value a / binary64.value greatestPower) q)

theorem quotient_within_of {r s : ℚ} (hfirst : Within (1 + r) (binary64.value a) n)
    (hsecond : Within (1 + s) (binary64.value q) (binary64.value a / binary64.value greatestPower))
    (hsame : (1 + s) * (1 + r) = quotientRatio) :
    Within quotientRatio (binary64.value q) (n / binary64.value greatestPower) := by
  have htotal := hsecond.trans (hfirst.div (Within.refl greatestPower_within.positive.1))
  rwa [mul_one, hsame] at htotal

include hnearA hnearQ

/-- The digits of the dividend are above those of the divisor: it is rounded by less. -/
theorem quotient_within_above {z : ℤ} (hleast : -51 ≤ z)
    (habove : greatestSignificand * 2 ^ z ≤ (n : ℚ)) (hbelow : (n : ℚ) ≤ 2 ^ 53 * 2 ^ z) :
    Within quotientRatio (binary64.value q) (n / binary64.value greatestPower) := by
  have hunit : (0 : ℚ) < 2 ^ z := by positivity
  have hdigits := greatestSignificand_eq
  have hfirst :=
    within_of_bounds hnearA (m := greatestSignificand) (r := 899 / 1000 / 2 ^ 53) (by decide)
    (by omega) (by decide) habove (by omega) hbelow (by rw [hdigits]; linarith)
  have hlow := le_value hnearA (m := greatestSignificand) (by decide) (by omega) habove
  have hhigh := value_le hnearA (m := 2 ^ 53) (q := z) le_rfl (by omega) (by rwa [Nat.cast_pow])
  rw [Nat.cast_pow, Nat.cast_ofNat] at hhigh
  have hlowQ : ((1 : ℕ) * 2 ^ (z - 971) : ℚ) ≤ binary64.value a / binary64.value greatestPower := by
    rw [Nat.cast_one, le_quotient (z := z) (by omega), one_mul]
    exact hlow
  have hhighQ : binary64.value a / binary64.value greatestPower ≤ 2 ^ 53 * 2 ^ (z - 1023) := by
    rw [quotient_le (z := z - 52) (by omega), two_zpow_eq (z := z) 52 (by omega), hdigits]
    linarith
  have hratio : (2 : ℚ) ^ (z - 1023) ≤ 1 / 2 ^ 53 * (2 * ((1 : ℕ) * 2 ^ (z - 971))) := by
    rw [two_zpow_eq (z := z - 971) 52 (by omega), Nat.cast_one]
    linarith
  have hsecond :=
    within_of_bounds hnearQ (by decide) (by omega) (by decide) hlowQ (by omega) hhighQ hratio
  exact quotient_within_of hfirst hsecond (by rw [quotientRatio])

/-- The digits of the dividend are below those of the divisor: the quotient is rounded by less. -/
theorem quotient_within_below {z : ℤ} (hleast : -50 ≤ z) (habove : 2 ^ 52 * 2 ^ z ≤ (n : ℚ))
    (hbelow : (n : ℚ) ≤ greatestSignificand * 2 ^ z) :
    Within quotientRatio (binary64.value q) (n / binary64.value greatestPower) := by
  have hunit : (0 : ℚ) < 2 ^ z := by positivity
  have hdigits := greatestSignificand_eq
  have habove' : ((2 ^ 52 : ℕ) * 2 ^ z : ℚ) ≤ n := by rwa [Nat.cast_pow]
  have hfirst := within_of_bounds hnearA (p := z) (r := 1 / 2 ^ 53) (by decide) (by omega) (by decide)
    habove' (by omega) (by rw [hdigits] at hbelow; linarith) (by push_cast; linarith)
  have hlow := le_value hnearA (by decide) (by omega) habove'
  have hhigh := value_le hnearA (m := greatestSignificand) (by decide) (by omega) hbelow
  rw [Nat.cast_pow, Nat.cast_ofNat] at hlow
  -- The quotient lies in a row whose unit is small against it.
  have hlowQ : ((3 : ℕ) * 2 ^ (z - 973) : ℚ) ≤ binary64.value a / binary64.value greatestPower := by
    rw [le_quotient (z := z - 2) (by omega), two_zpow_eq (z := z) 2 (by omega), hdigits]
    push_cast
    linarith
  have hhighQ : binary64.value a / binary64.value greatestPower ≤ 2 ^ 53 * 2 ^ (z - 1024) := by
    rw [quotient_le (z := z - 53) (by omega), two_zpow_eq (z := z) 53 (by omega)]
    linarith
  have hratio : (2 : ℚ) ^ (z - 1024) ≤ 899 / 1000 / 2 ^ 53 * (2 * ((3 : ℕ) * 2 ^ (z - 973))) := by
    have hstep : (0 : ℚ) < 2 ^ (z - 973) := by positivity
    rw [two_zpow_eq (z := z - 973) 51 (by omega)]
    push_cast
    linarith
  have hsecond :=
    within_of_bounds hnearQ (by decide) (by omega) (by decide) hlowQ (by omega) hhighQ hratio
  exact quotient_within_of hfirst hsecond (by rw [quotientRatio, mul_comm])

end Dividend

/-- The dividend and the quotient are not both rounded as much as a number may be. -/
theorem quotient_within {n a q : ℕ} (hsome : 3 ≤ n) (hnearA : binary64.NearestTo n a)
    (hnearQ : binary64.NearestTo (binary64.value a / binary64.value greatestPower) q) :
    Within quotientRatio (binary64.value q) (n / binary64.value greatestPower) := by
  obtain ⟨z, hplace⟩ : ∃ z : ℤ, z + 52 = n.log2 := ⟨n.log2 - 52, by omega⟩
  have hlow : (2 ^ 52 * 2 ^ z : ℚ) ≤ n := by
    rw [mul_comm, two_zpow_eq 52 hplace, div_mul_cancel₀ _ (by positivity), zpow_natCast]
    exact_mod_cast Nat.log2_self_le (by omega : n ≠ 0)
  have hhigh : (n : ℚ) ≤ 2 ^ 53 * 2 ^ z := by
    have hbelow : (n : ℚ) ≤ 2 * 2 ^ n.log2 := by
      rw [mul_comm, ← pow_succ]
      exact_mod_cast (Nat.lt_log2_self (n := n)).le
    rw [two_zpow_eq 52 hplace, zpow_natCast]
    linarith
  have hleast : -51 ≤ z := by
    have hone : 1 ≤ n.log2 := (Nat.le_log2 (by omega)).2 (by omega)
    omega
  rcases le_or_gt ((greatestSignificand : ℚ) * 2 ^ z) n with hmore | hless
  · exact quotient_within_above hnearA hnearQ hleast hmore hhigh
  · refine quotient_within_below hnearA hnearQ ?_ hlow hless.le
    -- Three is above the digits of the divisor.
    by_contra htwo
    have hplace : z = -51 := by omega
    have hthree : (3 : ℚ) ≤ n := by exact_mod_cast hsome
    rw [hplace, greatestSignificand_eq] at hless
    norm_num at hless
    linarith

theorem one_le_greatestPower : 1 ≤ binary64.value greatestPower := by
  rw [value_greatestPower]
  rw [greatestSignificand]
  exact Nat.one_le_cast.2 (Nat.succ_le_of_lt (by positivity))

/-- A lower power of ten is divided by in two steps. -/
theorem exists_scaled_deep {n : ℕ} (hsome : 3 ≤ n) (hfits : n ≤ maxWord) {e : ℤ} (hlow : -324 ≤ e)
    (hdeep : e < -308) :
    ∃ y c, binary64.NearestTo y c ∧
      Within (quotientRatio * (1 + 1 / (10 * 2 ^ 53))) y (n * 10 ^ e) ∧
      (c < binary64.infinityBits → scale (ofNat64 n) e 4 = Option.some (double c)) := by
  obtain ⟨a, ha, ha', hsignificand, hnearA, -, -⟩ := exists_significand (by omega) hfits
  have hp : 0 < greatestPower ∧ greatestPower < binary64.infinityBits := by decide
  obtain ⟨q, hnearQ, hfirst⟩ := div_double ha ha' hp.1 hp.2
  have hcloseQ := quotient_within hsome hnearA hnearQ
  -- The first quotient is a number again: it is not larger than the dividend, and not zero.
  have hfiniteQ : q < binary64.infinityBits := by
    refine (hnearQ.mono (nearestTo_value _ a) ?_).trans_lt ha'
    exact div_le_self (value_nonneg _ _) one_le_greatestPower
  have hpositiveQ : 0 < q := by
    rcases Nat.eq_zero_or_pos q with rfl | hpos
    · have hvalue := hcloseQ.positive.1
      rw [value_zero] at hvalue
      exact absurd hvalue (lt_irrefl 0)
    · exact hpos
  -- What is left of the exponent is so small that its power is exact.
  obtain ⟨p, hp, hp', hpower, -, hexactP⟩ := exists_power (k := (e + 308).natAbs) (by omega)
  obtain ⟨c, hnear, hsecond⟩ := div_double hpositiveQ hfiniteQ hp hp'
  refine ⟨_, c, hnear, ?_, fun hfinite => ?_⟩
  · have hpowers : (10 : ℚ) ^ e = (10 ^ 308)⁻¹ * (10 ^ (e + 308).natAbs)⁻¹ := by
      rw [← mul_inv, ← pow_add, ← zpow_natCast, ← zpow_neg]
      congr 1
      omega
    have hpos : (0 : ℚ) < 10 ^ (e + 308).natAbs := by positivity
    have hexact := (Within.refl (Nat.cast_pos.2 (by omega : 0 < n))).div greatestPower_within
    have htotal := (hcloseQ.trans hexact).div (Within.refl hpos)
    rw [one_mul, mul_one] at htotal
    rw [hexactP (by omega), hpowers, ← mul_assoc, ← div_eq_mul_inv, ← div_eq_mul_inv]
    exact htotal
  · rw [scale, if_neg (by omega), hsignificand, double_beq_zero ha ha', if_neg Bool.false_ne_true,
      if_neg (by omega), powerOfTen_greatest, hfirst, min_eq_left hfiniteQ.le, scale, if_pos (by omega),
      if_neg (by omega), hpower, hsecond, min_eq_left hfinite.le]

end Cadence.Json
