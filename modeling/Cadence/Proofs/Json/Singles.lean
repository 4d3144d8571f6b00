import Cadence.Proofs.Json.Floats
import Cadence.Proofs.Json.Scaling
import Cadence.Proofs.Number.Margins

/-!
# Singles as they are read back

The shortest digits of a single are read as a double that rounds to that single (`exists_item_single`):
the errors of reading are smaller than the margin by which the digits stay away from other singles.
-/

namespace Cadence.Json

open Number Number.Format

/-! ## 1. Errors within a margin -/

section Margin

variable {r x y unit : ℚ} {c m : ℕ} (hwithin : Within r x y) (hone : 1 ≤ r)
  (hroom : (r - 1) * (c * m) < 1) (hpos : 0 < unit) (hfar : unit ≤ c * |y - m * unit|)
include hwithin hone hroom hpos hfar

theorem lt_of_margin (habove : m * unit < y) : m * unit < x := by
  rw [abs_of_pos (by linarith)] at hfar
  have hge := hwithin.ge
  by_contra hbelow
  have hscaled : r * x ≤ r * (m * unit) := mul_le_mul_of_nonneg_left (not_lt.1 hbelow) (by linarith)
  have hfactor : (0 : ℚ) ≤ c := Nat.cast_nonneg _
  have hshort : y - m * unit ≤ (r - 1) * (m * unit) := by linarith
  have hcounted := mul_le_mul_of_nonneg_left hshort hfactor
  have htight := mul_lt_mul_of_pos_right hroom hpos
  linarith

theorem gt_of_margin (hbelow : y < m * unit) : x < m * unit := by
  rw [abs_of_neg (by linarith)] at hfar
  have hle := hwithin.le
  have hfactor : (0 : ℚ) ≤ c := Nat.cast_nonneg _
  by_contra habove
  have hshort : m * unit - y ≤ (r - 1) * y := by linarith
  have hmore : (r - 1) * y ≤ (r - 1) * (m * unit) :=
    mul_le_mul_of_nonneg_left hbelow.le (by linarith)
  have hcounted := mul_le_mul_of_nonneg_left (hshort.trans hmore) hfactor
  have htight := mul_lt_mul_of_pos_right hroom hpos
  linarith

end Margin

theorem one_le_roundingRatio : 1 ≤ binary64.roundingRatio := by
  rw [roundingRatio, le_add_iff_nonneg_right]
  positivity

/-- Two roundings stay within the margin, and one within the smaller one. -/
theorem room_of_two {e : ℤ} (hlong : 22 < e.natAbs) {m : ℕ} (hsmall : m < unitLimit) :
    (binary64.roundingRatio * binary64.roundingRatio - 1) * (margin e * m) < 1 := by
  have hmost : (m : ℚ) ≤ 2 ^ 25 + 2 := by exact_mod_cast Nat.le_of_lt_succ hsmall
  have hfew : margin e = 2 ^ 27 - 2 ^ 5 := if_neg (not_le.2 hlong)
  have hratio : binary64.roundingRatio * binary64.roundingRatio - 1 = 2 / 2 ^ 53 + 1 / 2 ^ 106 := by
    show (1 + 1 / 2 ^ 53) * (1 + 1 / 2 ^ 53) - 1 = _
    norm_num
  rw [hfew, hratio]
  norm_num
  linarith

theorem room_of_one {e : ℤ} (hshort : e.natAbs ≤ 22) {m : ℕ} (hsmall : m < unitLimit) :
    (binary64.roundingRatio - 1) * (margin e * m) < 1 := by
  have hmost : (m : ℚ) ≤ 2 ^ 25 + 2 := by exact_mod_cast Nat.le_of_lt_succ hsmall
  have hfew : margin e = 2 ^ 28 - 2 ^ 6 := if_pos hshort
  have hratio : binary64.roundingRatio - 1 = 1 / 2 ^ 53 := by
    show 1 + 1 / 2 ^ 53 - 1 = _
    norm_num
  rw [hfew, hratio]
  norm_num
  linarith

/-! ## 2. The double for a decimal of a single -/

theorem value_leastNormal_small : binary64.value binary64.leastNormal ≤ 1 / 10 ^ 46 := by
  rw [value_leastNormal_double]
  calc (2 : ℚ) ^ (-1022 : ℤ) ≤ 2 ^ (-160 : ℤ) := zpow_le_zpow_right₀ (by norm_num) (by norm_num)
    _ ≤ 1 / 10 ^ 46 := by norm_num

theorem le_value_largest : (2 : ℚ) ^ 130 ≤ binary64.value (binary64.infinityBits - 1) := by
  calc (2 : ℚ) ^ 130 ≤ 10 ^ 40 := by norm_num
    _ ≤ 10 ^ 308 := pow_le_pow_right₀ (by norm_num) (by norm_num)
    _ ≤ binary64.value (binary64.infinityBits - 1) := tenPow_le_largest

/-- A decimal in the range of the singles is read as a double that is closer to it than any margin. -/
theorem exists_scale_single {n : ℕ} (hpos : 0 < n) (hsmall : n ≤ 2 ^ 53) {e : ℤ} (hlow : -45 ≤ e)
    (hhigh : e ≤ 45) (hrange : (n * 10 ^ e : ℚ) ≤ 2 ^ 128) :
    ∃ c < binary64.infinityBits, scale (ofNat64 n) e 4 = some (double c) ∧
      (∃ r, 1 ≤ r ∧ Within r (binary64.value c) (n * 10 ^ e) ∧
        ∀ m < unitLimit, (r - 1) * (margin e * m) < 1) ∧
      (e.natAbs ≤ 22 → binary64.NearestTo (n * 10 ^ e) c) := by
  have hword : 2 ^ 53 ≤ maxWord := by decide
  obtain ⟨y, c, hnear, -, hwithin, hexact, hscaled⟩ :=
    exists_scaled hpos (hsmall.trans hword) (e := e) (by omega)
  have hclose := hwithin hsmall
  have hratio : binary64.roundingRatio ≤ 2 := by
    show 1 + 1 / 2 ^ 53 ≤ (2 : ℚ)
    norm_num
  have hleast : (1 / 10 ^ 45 : ℚ) ≤ n * 10 ^ e := by
    have hpower : (10 : ℚ) ^ (-45 : ℤ) ≤ 10 ^ e := zpow_le_zpow_right₀ (by norm_num) hlow
    have hunit : (10 : ℚ) ^ (-45 : ℤ) = 1 / 10 ^ 45 := by norm_num
    have hone : (1 : ℚ) ≤ n := by exact_mod_cast hpos
    have hstep : (0 : ℚ) < 10 ^ e := by positivity
    rw [hunit] at hpower
    exact hpower.trans (le_mul_of_one_le_left hstep.le hone)
  have hbound := value_leastNormal_small
  have htenth : (1 / 10 ^ 45 : ℚ) = 10 * (1 / 10 ^ 46) := by norm_num
  have hsome : (0 : ℚ) < 1 / 10 ^ 46 := by positivity
  -- The product is far from both ends of the doubles, so every rounding is relative.
  have hnormal : binary64.value binary64.leastNormal ≤ y := by
    have habove := hclose.ge.trans (mul_le_mul_of_nonneg_right hratio hclose.positive.1.le)
    linarith
  have hfinite : c < binary64.infinityBits := by
    have hbelow := hclose.le.trans (mul_le_mul_of_nonneg_right hratio hclose.positive.2.le)
    have hlargest := le_value_largest
    have hlast : c ≤ binary64.infinityBits - 1 := hnear.mono (nearestTo_value _ _) (by linarith)
    have hinfinity := infinityBits_eq
    omega
  have hone := one_le_roundingRatio
  refine ⟨c, hfinite, hscaled hfinite 3, ?_, fun hshort => ?_⟩
  · -- A power that is not exact has been rounded as well, which makes two roundings.
    rcases Nat.lt_or_ge 22 e.natAbs with hlong | hshort
    · refine ⟨_, ?_, (hnear.within hnormal).trans hclose, fun m => room_of_two hlong⟩
      exact hone.trans (le_mul_of_one_le_left (by linarith) hone)
    · rw [hexact hsmall hshort] at hnear
      exact ⟨_, hone, hnear.within (by linarith), fun m => room_of_one hshort⟩
  · rw [← hexact hsmall hshort]
    exact hnear

/-- A double nearest to a decimal that is a double is that decimal. -/
theorem value_eq_of_units {x : ℚ} {c m : ℕ} {p : ℤ} (hnear : binary64.NearestTo x c)
    (hsame : x = m * 2 ^ p) (hsmall : m ≤ 2 ^ 53) (hleast : -1074 ≤ p) : binary64.value c = x := by
  rw [hsame] at hnear ⊢
  exact hnear.exact hsmall (by rw [leastExponent_eq]; exact hleast)

/-! ## 3. Singles -/

section Single

variable {b : ℕ} {d : Decimal} (hshortest : IsShortest binary32 b d)
  (hfinite : b < binary32.infinityBits)
include hshortest hfinite

theorem decimal_le : (d.digits * 10 ^ d.exponent : ℚ) ≤ 2 ^ 128 := by
  have hupper := hshortest.nearest.upper
  have hmono := (value_strictMono binary32).monotone
  have hhere : binary32.value b ≤ binary32.value binary32.infinityBits := hmono hfinite.le
  have hnext : binary32.value (b + 1) ≤ binary32.value binary32.infinityBits := hmono hfinite
  rw [value_infinity_single] at hhere hnext
  linarith

/-- What the exceptional decimal is read as rounds to the same single. -/
theorem narrow_exceptional (hexceptional : IsExceptional d.digits d.exponent) :
    ∃ c < binary64.infinityBits, scale (ofNat64 d.digits) d.exponent 4 = some (double c) ∧
      binary32.NearestTo (binary64.value c) b := by
  obtain ⟨hdigits, hexponent⟩ := hexceptional
  have hnear := hshortest.nearest
  rw [hdigits, hexponent] at hnear ⊢
  have hscaled : scale (ofNat64 7038531) (-32) 4 = some (double 0x3ab5c87fafffffff) := by decide
  -- The single and the rounded double have the same pattern.
  have hfound : binary32.nearest 7038531 (10 ^ 32) = 363742205 := by decide
  have hcast : ((7038531 : ℕ) : ℚ) / (10 ^ 32 : ℕ) = (7038531 : ℕ) * 10 ^ (-32 : ℤ) := by norm_num
  have hsame : b = 363742205 := by
    rw [← hfound]
    exact (nearest_eq (by decide) hnear hfinite.le (by decide) hcast).symm
  have hparts : binary64.Parts 0x3ab5c87fafffffff 938 6131425250115583 :=
    ⟨by decide, by decide, .inr (by decide)⟩
  have hvalue : binary64.value 0x3ab5c87fafffffff = (6131425250115583 : ℕ) / (2 ^ 136 : ℕ) := by
    rw [hparts.value_eq, leastExponent_eq]
    norm_num
  obtain ⟨a, hnearA, hrounded⟩ := nearest_spec (f := binary32) (by decide) 6131425250115583
    (by decide : 0 < 2 ^ 136)
  have hfoundA : binary32.nearest 6131425250115583 (2 ^ 136) = 363742205 := by decide
  have hinfinity : binary32.infinityBits = 2139095040 := by decide
  have hsameA : a = 363742205 := by omega
  refine ⟨_, by decide, hscaled, ?_⟩
  rw [hvalue, hsame]
  rwa [hsameA] at hnearA

omit hfinite in
/-- Away from the means by the margin, a number that is closer to the decimal is on its side of
them. -/
theorem nearestTo_of_apart {p : ℤ} {lo hi : ℕ} (hmeans : Means b p lo hi)
    (hbelow : (2 ^ p : ℚ) ≤ margin d.exponent * |(d.digits * 10 ^ d.exponent - lo * 2 ^ p : ℚ)|)
    (habove : (2 ^ p : ℚ) ≤ margin d.exponent * |(d.digits * 10 ^ d.exponent - hi * 2 ^ p : ℚ)|)
    {r x : ℚ} (hone : 1 ≤ r) (hclose : Within r x (d.digits * 10 ^ d.exponent))
    (hroom : ∀ m < unitLimit, (r - 1) * (margin d.exponent * m) < 1) : binary32.NearestTo x b := by
  have hunit : (0 : ℚ) < 2 ^ p := by positivity
  have hlower := hshortest.nearest.lower
  have hupper := hshortest.nearest.upper
  have hapart {m : ℕ} (hfar : (2 ^ p : ℚ) ≤ margin d.exponent *
      |(d.digits * 10 ^ d.exponent - m * 2 ^ p : ℚ)|) :
      (d.digits * 10 ^ d.exponent : ℚ) ≠ m * 2 ^ p := by
    intro hsame
    rw [hsame, sub_self, abs_zero, mul_zero] at hfar
    linarith
  have hmeanLower := hmeans.lower
  have hmeanUpper := hmeans.upper
  have haboveLower : (lo * 2 ^ p : ℚ) < d.digits * 10 ^ d.exponent :=
    lt_of_le_of_ne (by linarith) (hapart hbelow).symm
  have hbelowUpper : (d.digits * 10 ^ d.exponent : ℚ) < hi * 2 ^ p :=
    lt_of_le_of_ne (by linarith) (hapart habove)
  exact hmeans.nearestTo (lt_of_margin hclose hone (hroom lo hmeans.small.1) hunit hbelow haboveLower)
    (gt_of_margin hclose hone (hroom hi hmeans.small.2) hunit habove hbelowUpper)

/-- The shortest digits of a single are read as a double that rounds to the single. -/
theorem exists_scale_digits (hpos : 0 < b) :
    ∃ c < binary64.infinityBits, scale (ofNat64 d.digits) d.exponent 4 = some (double c) ∧
      binary32.NearestTo (binary64.value c) b := by
  obtain ⟨⟨hlow, hhigh⟩, hfew⟩ := occurs_of_shortest hshortest hpos hfinite
  obtain ⟨p, lo, hi, hmeans⟩ := exists_means hpos
  obtain ⟨c, hfinite', hscaled, ⟨r, hone, hclose, hroom⟩, hnear⟩ :=
    exists_scale_single (hshortest.digits_pos hpos) (hfew.trans (by decide)) hlow (by omega)
      (decimal_le hshortest hfinite)
  have hlimit : unitLimit ≤ 2 ^ 53 := by decide
  -- A mean is read exactly.
  have hexact {m : ℕ} (hmean : m = lo ∨ m = hi)
      (hsame : (d.digits * 10 ^ d.exponent : ℚ) = m * 2 ^ p ∧ d.exponent.natAbs ≤ 12) :
      binary32.NearestTo (binary64.value c) b := by
    have hsmall : m ≤ 2 ^ 53 := by
      have hbelow := hmeans.small
      rcases hmean with rfl | rfl <;> omega
    have hleast := hmeans.least
    rw [value_eq_of_units (hnear (by omega)) hsame.1 hsmall (by omega)]
    exact hshortest.nearest
  rcases shortest_apart hshortest hpos hfinite hmeans (.inl rfl) with hsame | hexceptional | hbelow
  · exact ⟨c, hfinite', hscaled, hexact (.inl rfl) hsame⟩
  · exact narrow_exceptional hshortest hfinite hexceptional
  rcases shortest_apart hshortest hpos hfinite hmeans (.inr rfl) with hsame | hexceptional | habove
  · exact ⟨c, hfinite', hscaled, hexact (.inr rfl) hsame⟩
  · exact narrow_exceptional hshortest hfinite hexceptional
  exact ⟨c, hfinite', hscaled, nearestTo_of_apart hshortest hmeans hbelow habove hone hclose hroom⟩

end Single

/-! ## 4. The text of a single -/

def shortest32 (b : ℕ) : Decimal := (binary32.around b).shortest Style.json32.tie

theorem shortest32_spec {b : ℕ} (hpos : 0 < b) : IsShortest binary32 b (shortest32 b) :=
  shortest_spec (by decide) (by rw [leastExponent_single]; decide) hpos _

/-- The digits of a single, as they are written, are read as a double that rounds to the single. -/
theorem exists_scale_written {b : ℕ} (hpos : 0 < b) (hfinite : b < binary32.infinityBits) :
    ∃ c < binary64.infinityBits,
      scale (ofNat64 (partsRead Style.json32 (shortest32 b)).1)
        (partsRead Style.json32 (shortest32 b)).2 4 = some (double c) ∧
      (partsRead Style.json32 (shortest32 b)).1 ≤ maxWord ∧
      binary32.NearestTo (binary64.value c) b := by
  have hshortest := shortest32_spec hpos
  obtain ⟨hoccurs, hfew⟩ := occurs_of_shortest hshortest hpos hfinite
  have hword : 2 ^ 53 ≤ maxWord := by decide
  have hsome := partsRead_pos (s := Style.json32) (hshortest.digits_pos hpos)
  have hvalue := partsRead_value Style.json32 (shortest32 b)
  rcases partsRead_cases Style.json32 (shortest32 b) with hsame | ⟨hwhole, hpositional, hmore⟩
  · obtain ⟨c, hfinite', hscaled, hnear⟩ := exists_scale_digits hshortest hfinite hpos
    simp only [hsame]
    exact ⟨c, hfinite', hscaled, by omega, hnear⟩
  · -- A whole number is read as itself.
    have hbelow := whole_lt 12 rfl hwhole hpositional
    have hdigits : (partsRead Style.json32 (shortest32 b)).1 ≤ 2 ^ 53 := by
      rw [hmore]
      exact hbelow.le.trans (by decide)
    have hrange := decimal_le hshortest hfinite
    rw [← hvalue] at hrange
    have hpower : (partsRead Style.json32 (shortest32 b)).2 = -1 := by rw [hmore]
    obtain ⟨c, hfinite', hscaled, -, hnear⟩ :=
      exists_scale_single hsome hdigits (by omega) (by omega) hrange
    refine ⟨c, hfinite', hscaled, hdigits.trans hword, ?_⟩
    have hnear := hnear (by omega)
    rw [hvalue] at hnear
    obtain ⟨k, hexponent⟩ := Int.eq_ofNat_of_zero_le hwhole
    have hunits : ((shortest32 b).digits * 10 ^ (shortest32 b).exponent : ℚ) =
        ((shortest32 b).digits * 10 ^ k : ℕ) * 2 ^ (0 : ℤ) := by
      rw [hexponent, zpow_natCast, zpow_zero, mul_one]
      push_cast
      rfl
    have hsmall : (shortest32 b).digits * 10 ^ k ≤ 2 ^ 53 := by
      rw [hexponent, Int.toNat_natCast, pow_succ, ← mul_assoc] at hbelow
      omega
    rw [value_eq_of_units hnear hunits hsmall (by decide)]
    exact hshortest.nearest

/-- The text of a finite single is read as a double that rounds to that single. -/
theorem exists_item_single (negative : Bool) {b : ℕ} (hfinite : b < binary32.infinityBits) :
    ∃ x, (∀ rest, Ends rest → item ((json32 (single (binary32.signed negative b))).toList ++ rest) =
        .ok (.float x, rest)) ∧ narrow x = single (binary32.signed negative b) := by
  rw [json32, decode32_single hfinite]
  rcases Nat.eq_zero_or_pos b with rfl | hpos
  · refine ⟨_, fun rest => item_render_zero rfl negative,
      narrow_double (by decide) negative ?_ hfinite⟩
    rw [value_zero, ← value_zero binary32]
    exact nearestTo_value _ _
  · obtain ⟨c, hfinite', hscaled, hfits, hnear⟩ := exists_scale_written hpos hfinite
    have hshortest := shortest32_spec hpos
    obtain ⟨⟨hlow, hhigh⟩, hfew⟩ := occurs_of_shortest hshortest hpos hfinite
    have hword : 2 ^ 28 ≤ maxWord := by decide
    exact ⟨_, fun rest => item_render (d := shortest32 b) rfl negative hpos rfl
      (hshortest.digits_pos hpos) (hfew.trans hword) (by omega) hfits hfinite' hscaled,
      narrow_double hfinite' negative hnear hfinite⟩

end Cadence.Json
