import Cadence.Proofs.Number.Rounding

/-!
# Errors of rounding

Two numbers are within a ratio of each other (`Within`) if neither is more than that many times the
other.  Ratios of products and of quotients multiply, rounding is within a ratio next to one, and
numbers within a small ratio are rounded to bit patterns that are few places apart
(`NearestTo.le_add`).
-/

namespace Cadence.Number

open Format

variable {f : Format}

/-! ## 1. Ratios -/

/-- Neither of two positive numbers is more than `r` times the other. -/
structure Within (r x y : ℚ) : Prop where
  positive : 0 < x ∧ 0 < y
  le : x ≤ r * y
  ge : y ≤ r * x

namespace Within

variable {r s x y z x' y' : ℚ}

theorem refl (hpos : 0 < x) : Within 1 x x :=
  ⟨⟨hpos, hpos⟩, by linarith, by linarith⟩

theorem symm (h : Within r x y) : Within r y x := ⟨h.positive.symm, h.ge, h.le⟩

theorem mono (h : Within r x y) (hle : r ≤ s) : Within s x y :=
  ⟨h.positive, h.le.trans (mul_le_mul_of_nonneg_right hle h.positive.2.le),
    h.ge.trans (mul_le_mul_of_nonneg_right hle h.positive.1.le)⟩

theorem ratio_pos (h : Within r x y) : 0 < r := by
  have hproduct : 0 < r * y := h.positive.1.trans_le h.le
  exact pos_of_mul_pos_left hproduct h.positive.2.le

theorem trans (h : Within r x y) (h' : Within s y z) : Within (r * s) x z := by
  have hr := h.ratio_pos
  have hs := h'.ratio_pos
  refine ⟨⟨h.positive.1, h'.positive.2⟩, ?_, ?_⟩
  · calc x ≤ r * y := h.le
      _ ≤ r * (s * z) := mul_le_mul_of_nonneg_left h'.le hr.le
      _ = r * s * z := by ring
  · calc z ≤ s * y := h'.ge
      _ ≤ s * (r * x) := mul_le_mul_of_nonneg_left h.ge hs.le
      _ = r * s * x := by ring

theorem mul (h : Within r x y) (h' : Within s x' y') : Within (r * s) (x * x') (y * y') := by
  have hr := h.ratio_pos
  have hs := h'.ratio_pos
  obtain ⟨hpx, hpy⟩ := h.positive
  obtain ⟨hpx', hpy'⟩ := h'.positive
  refine ⟨⟨by positivity, by positivity⟩, ?_, ?_⟩
  · calc x * x' ≤ r * y * (s * y') := mul_le_mul h.le h'.le hpx'.le (by positivity)
      _ = r * s * (y * y') := by ring
  · calc y * y' ≤ r * x * (s * x') := mul_le_mul h.ge h'.ge hpy'.le (by positivity)
      _ = r * s * (x * x') := by ring

theorem inv (h : Within r x y) : Within r x⁻¹ y⁻¹ := by
  obtain ⟨hpx, hpy⟩ := h.positive
  refine ⟨⟨by positivity, by positivity⟩, ?_, ?_⟩
  · rw [← div_eq_mul_inv, inv_eq_one_div, div_le_div_iff₀ hpx hpy, one_mul]
    exact h.ge
  · rw [← div_eq_mul_inv, inv_eq_one_div, div_le_div_iff₀ hpy hpx, one_mul]
    exact h.le

theorem div (h : Within r x y) (h' : Within s x' y') : Within (r * s) (x / x') (y / y') := by
  rw [div_eq_mul_inv, div_eq_mul_inv]
  exact h.mul h'.inv

end Within

/-! ## 2. Rounding -/

namespace Format

/-- The most by which rounding changes a number of the normal range. -/
def roundingRatio (f : Format) : ℚ := 1 + 1 / 2 ^ (f.fractionBits + 1)

/-- In the normal range rounding changes a number by a small part of it. -/
theorem NearestTo.within {x : ℚ} {b : ℕ} (hx : f.NearestTo x b)
    (hnormal : f.value f.leastNormal ≤ x) : Within f.roundingRatio (f.value b) x := by
  have hleast : 0 < f.value f.leastNormal := by
    rw [value_leastNormal]
    positivity
  have hpos : 0 < x := hleast.trans_le hnormal
  have herror := hx.abs_sub_le hnormal
  have hweight : (0 : ℚ) < 2 ^ (f.fractionBits + 1) := by positivity
  -- A bound by the ratio is one by the weight of the last digit.
  have hscaled (y z : ℚ) : y ≤ f.roundingRatio * z ↔
      y * 2 ^ (f.fractionBits + 1) ≤ z * 2 ^ (f.fractionBits + 1) + z := by
    rw [← mul_le_mul_iff_left₀ hweight, roundingRatio, add_mul, one_mul, add_mul, mul_right_comm,
      one_div_mul_cancel hweight.ne', one_mul]
  have hreached : f.value f.leastNormal ≤ f.value b :=
    (value_strictMono f).monotone ((nearestTo_value f f.leastNormal).mono hx hnormal)
  refine ⟨⟨hleast.trans_le hreached, hpos⟩, ?_, ?_⟩
  · rw [hscaled]
    rcases le_total (f.value b) x with hlow | hhigh
    · have hgrown := mul_le_mul_of_nonneg_right hlow hweight.le
      linarith
    · rw [abs_of_nonneg (by linarith)] at herror
      linarith
  · rw [hscaled]
    rcases le_total (f.value b) x with hlow | hhigh
    · rw [abs_of_nonpos (by linarith)] at herror
      linarith
    · have hgrown := mul_le_mul_of_nonneg_right hhigh hweight.le
      linarith

theorem place_mono {a b : ℕ} (hle : a ≤ b) : f.place a ≤ f.place b := by
  have hrows : a / 2 ^ f.fractionBits ≤ b / 2 ^ f.fractionBits := Nat.div_le_div_right hle
  rw [place, place]
  omega

/-- Rounding changes a number by no more than half of a place that it does not go beyond. -/
theorem NearestTo.abs_sub_le_half {x : ℚ} {b : ℕ} (hx : f.NearestTo x b) {k : ℕ}
    (hbelow : x ≤ 2 ^ (f.fractionBits + 1) * 2 ^ (f.leastExponent + k)) :
    |f.value b - x| ≤ 2 ^ (f.leastExponent + k) / 2 := by
  have hweight : 0 < 2 ^ f.fractionBits := by positivity
  have htwice := two_pow_succ_eq f.fractionBits
  -- The last pattern with that place, and the first behind it.
  obtain ⟨l, hlast⟩ : ∃ l, l = k * 2 ^ f.fractionBits + (2 ^ (f.fractionBits + 1) - 1) := ⟨_, rfl⟩
  have hparts : f.Parts l k (2 ^ (f.fractionBits + 1) - 1) := ⟨hlast, by omega, .inr (by omega)⟩
  have hnext : f.value (l + 1) = 2 ^ (f.fractionBits + 1) * 2 ^ (f.leastExponent + k) := by
    rw [value_of_split (by omega : l + 1 = k * 2 ^ f.fractionBits + 2 ^ (f.fractionBits + 1)) le_rfl
      (.inr (by omega))]
    push_cast
    rfl
  rw [← hnext] at hbelow
  have hatMost : b ≤ l + 1 := hx.mono (nearestTo_value f _) hbelow
  have hplace {c : ℕ} (hle : c ≤ l) : (2 : ℚ) ^ f.place c ≤ 2 ^ (f.leastExponent + k) := by
    rw [← hparts.place_eq]
    exact zpow_le_zpow_right₀ (by norm_num) (place_mono hle)
  have hgap := place_pred_le f b
  have hunit := hplace (c := b - 1) (by omega)
  have hlower := hx.lower
  have hupper := hx.upper
  rw [abs_le]
  refine ⟨?_, by linarith⟩
  rcases hatMost.lt_or_eq with hbefore | rfl
  · have hunit := hplace (Nat.le_of_lt_succ hbefore)
    rw [value_succ] at hupper
    linarith
  · have hpos : (0 : ℚ) < 2 ^ (f.leastExponent + k) := by positivity
    linarith

/-- Rounding changes a number between two bounds by a part of it that is known from the bounds. -/
theorem NearestTo.within_of_le {x : ℚ} {b l : ℕ} (hx : f.NearestTo x b) (hpos : 0 < f.value l)
    (hreached : f.value l ≤ x) {k : ℕ}
    (hbelow : x ≤ 2 ^ (f.fractionBits + 1) * 2 ^ (f.leastExponent + k)) :
    Within (1 + 2 ^ (f.leastExponent + k) / (2 * f.value l)) (f.value b) x := by
  have herror := abs_le.1 (hx.abs_sub_le_half hbelow)
  have hreached' : f.value l ≤ f.value b :=
    (value_strictMono f).monotone ((nearestTo_value f l).mono hx hreached)
  have henough {y : ℚ} (hle : f.value l ≤ y) :
      2 ^ (f.leastExponent + k) / 2 ≤ 2 ^ (f.leastExponent + k) / (2 * f.value l) * y := by
    rw [div_mul_eq_mul_div, div_le_div_iff₀ (by norm_num) (by linarith)]
    have hunit : (0 : ℚ) < 2 ^ (f.leastExponent + k) := by positivity
    nlinarith
  refine ⟨⟨by linarith, by linarith⟩, ?_, ?_⟩
  · linarith [henough hreached]
  · linarith [henough hreached']

/-- What is rounded from a number not much larger is not many patterns further. -/
theorem NearestTo.le_add {x y : ℚ} {a c d : ℕ} (hx : f.NearestTo x a) (hy : f.NearestTo y c)
    (hclose : (y - x) * (2 * 2 ^ (f.fractionBits + 1) - 1) < 2 * d * x) : c ≤ a + d := by
  by_contra hmore
  obtain ⟨unit, hunit⟩ : ∃ u : ℚ, u = 2 ^ f.place a := ⟨_, rfl⟩
  have hpos : 0 < unit := by
    rw [hunit]
    positivity
  -- From `a` on each pattern is further away by one unit at least.
  have hsteps (n : ℕ) : f.value a + n * unit ≤ f.value (a + n) := by
    induction n with
    | zero => simp
    | succ n ih =>
      have hstep : unit ≤ 2 ^ f.place (a + n) := by
        rw [hunit]
        exact zpow_le_zpow_right₀ (by norm_num) (place_mono (Nat.le_add_right a n))
      rw [← Nat.add_assoc, value_succ]
      push_cast
      linarith
  have hmono := (value_strictMono f).monotone
  have hbefore := (hsteps d).trans (hmono (by omega : a + d ≤ c - 1))
  have hafter := (hsteps (d + 1)).trans (hmono (by omega : a + (d + 1) ≤ c))
  have hlower := hy.lower
  have hupper := hx.upper
  rw [value_succ, ← hunit] at hupper
  have hdigits : f.value a ≤ (2 ^ (f.fractionBits + 1) - 1) * unit := by
    rw [value, ← hunit]
    refine mul_le_mul_of_nonneg_right ?_ hpos.le
    have hsmall : f.mantissa a + 1 ≤ 2 ^ (f.fractionBits + 1) := by
      obtain ⟨k, m, hparts⟩ := exists_parts f a
      rw [hparts.mantissa_eq]
      exact hparts.small
    rw [le_sub_iff_add_le]
    exact_mod_cast hsmall
  push_cast at hafter
  -- If `c` were more than `d` patterns further, `y` would be `d` units away from `x`.
  have hapart : d * unit ≤ y - x := by linarith
  have hweight : (1 : ℚ) ≤ 2 ^ (f.fractionBits + 1) := one_le_pow₀ (by norm_num)
  have hscaled := mul_le_mul_of_nonneg_right hapart
    (by linarith : (0 : ℚ) ≤ 2 * 2 ^ (f.fractionBits + 1) - 1)
  have hsize : 2 * x ≤ (2 * 2 ^ (f.fractionBits + 1) - 1) * unit := by linarith
  have hmany := mul_le_mul_of_nonneg_left hsize (Nat.cast_nonneg (α := ℚ) d)
  linarith

/-! ## 3. Numbers that are not rounded -/

/-- A number with no more digits than a mantissa is the value of a bit pattern. -/
theorem exists_value {m : ℕ} (hsmall : m ≤ 2 ^ (f.fractionBits + 1)) (k : ℕ) :
    ∃ b, f.value b = m * 2 ^ (f.leastExponent + k) := by
  induction k generalizing m with
  | zero => exact ⟨m, value_of_split (by ring) hsmall (.inl rfl)⟩
  | succ k ih =>
    rcases Nat.lt_or_ge m (2 ^ f.fractionBits) with hshort | hfull
    · -- One more digit leaves the exponent one lower.
      obtain ⟨b, hsame⟩ := ih (m := 2 * m) (by rw [two_pow_succ_eq]; omega)
      refine ⟨b, ?_⟩
      rw [hsame]
      push_cast
      rw [← add_assoc, zpow_add_one₀ (by norm_num)]
      ring
    · exact ⟨_, value_of_split rfl hsmall (.inr hfull)⟩

theorem NearestTo.value_eq {x : ℚ} {b c : ℕ} (hx : f.NearestTo x b) (hsame : f.value c = x) :
    f.value b = x := by
  rw [← hsame] at hx ⊢
  rw [hx.unique (nearestTo_value f c)]

/-- A number with no more digits than a mantissa is not changed by rounding. -/
theorem NearestTo.exact {m : ℕ} {q : ℤ} {b : ℕ} (hx : f.NearestTo (m * 2 ^ q) b)
    (hsmall : m ≤ 2 ^ (f.fractionBits + 1)) (hleast : f.leastExponent ≤ q) :
    f.value b = m * 2 ^ q := by
  obtain ⟨k, hplace⟩ := Int.le.dest hleast
  obtain ⟨c, hsame⟩ := exists_value hsmall k
  rw [hplace] at hsame
  exact hx.value_eq hsame

end Format

end Cadence.Number
