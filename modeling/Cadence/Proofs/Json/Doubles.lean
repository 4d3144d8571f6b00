import Cadence.Proofs.Json.Floats
import Cadence.Proofs.Json.Scaling

/-!
# Doubles as they are read back

The shortest digits of a double are read as a double with the same sign whose pattern is at most two
places away (`exists_item_double`), and as the same double where these digits and the power of ten that
they are multiplied by are exact themselves.
-/

namespace Cadence.Json

open Number Number.Format

/-! ## 1. How far a scaled number may be off -/

theorem roundingRatio_eq : binary64.roundingRatio = 1 + 1 / 2 ^ 53 := rfl

theorem le_add_two {r x y : ℚ} {a c : ℕ} (hx : binary64.NearestTo x a)
    (hy : binary64.NearestTo y c) (hwithin : Within r x y)
    (hsmall : (r - 1) * (2 * 2 ^ 53 - 1) < 4) : c ≤ a + 2 := by
  refine hx.le_add hy ?_
  show (y - x) * (2 * 2 ^ 53 - 1) < 2 * (2 : ℕ) * x
  have hpos := hwithin.positive.1
  calc (y - x) * (2 * 2 ^ 53 - 1) ≤ (r * x - x) * (2 * 2 ^ 53 - 1) :=
        mul_le_mul_of_nonneg_right (by linarith [hwithin.ge]) (by norm_num)
    _ = (r - 1) * (2 * 2 ^ 53 - 1) * x := by ring
    _ < 4 * x := mul_lt_mul_of_pos_right hsmall hpos
    _ = 2 * (2 : ℕ) * x := by norm_num

/-- One and two, divided by powers of ten below the range of normal doubles, are read exactly. -/
theorem scale_deep_few : ∀ n ∈ [1, 2], ∀ k < 16,
    scale (ofNat64 n) (-((309 + k : ℕ) : ℤ)) 4 =
      some (double (binary64.nearest n (10 ^ (309 + k)))) := by
  decide +kernel

/-- A significand and a power of ten that round to a pattern are read as one at most two places away. -/
theorem exists_scale {n : ℕ} (hpos : 0 < n) (hfits : n ≤ maxWord) {e : ℤ} (hlow : -324 ≤ e)
    (hhigh : e ≤ 308) {b : ℕ} (hnear : binary64.NearestTo (n * 10 ^ e) b)
    (hinRange : b + 2 < binary64.infinityBits) :
    ∃ c, scale (ofNat64 n) e 4 = some (double c) ∧ c ≤ b + 2 ∧ b ≤ c + 2 ∧
      (n ≤ 2 ^ 53 → e.natAbs ≤ 22 → c = b) := by
  -- Below the last power of ten that is a double, the number is divided in two steps.
  rcases lt_or_ge e (-308) with hdeep | honeStep
  · rcases Nat.lt_or_ge n 3 with hfew | hsome
    · -- For one or two the bound on the error is not good enough, but there are few such numbers.
      obtain ⟨k, hlt, rfl⟩ : ∃ k : ℕ, k < 16 ∧ e = -((309 + k : ℕ) : ℤ) :=
        ⟨(-309 - e).toNat, by omega, by omega⟩
      have hcast : (n : ℚ) / (10 ^ (309 + k) : ℕ) = n * 10 ^ (-((309 + k : ℕ) : ℤ)) := by
        rw [zpow_neg, zpow_natCast, Nat.cast_pow, ← div_eq_mul_inv]
        rfl
      have hfound := nearest_eq (by decide) hnear (by omega) (by positivity) hcast
      have hscaled := scale_deep_few n (by simp; omega) k hlt
      rw [hfound] at hscaled
      exact ⟨b, hscaled, by omega, by omega, fun _ _ => rfl⟩
    · obtain ⟨y, c, hnearY, hwithin, hscaled⟩ := exists_scaled_deep hsome hfits hlow hdeep
      have hsmall : (quotientRatio * (1 + 1 / (10 * 2 ^ 53)) - 1) * (2 * 2 ^ 53 - 1) < 4 := by
        rw [quotientRatio]
        norm_num
      have habove := le_add_two hnear hnearY hwithin.symm hsmall
      have hbelow := le_add_two hnearY hnear hwithin hsmall
      exact ⟨c, hscaled (by omega), habove, hbelow, fun _ hshort => by omega⟩
  · obtain ⟨y, c, hnearY, hwithin, -, hexact, hscaled⟩ := exists_scaled hpos hfits (e := e) (by omega)
    have hsmall : (binary64.roundingRatio * binary64.roundingRatio - 1) * (2 * 2 ^ 53 - 1) < 4 := by
      rw [roundingRatio_eq]
      norm_num
    have habove := le_add_two hnear hnearY hwithin.symm hsmall
    have hbelow := le_add_two hnearY hnear hwithin hsmall
    refine ⟨c, hscaled (by omega) 3, habove, hbelow, fun hdigits hshort => ?_⟩
    rw [hexact hdigits hshort] at hnearY
    exact hnearY.unique hnear

/-! ## 2. The shortest digits of a double -/

def shortest64 (b : ℕ) : Decimal := (binary64.around b).shortest Style.json64.tie

section Shortest

variable {b : ℕ} (hpos : 0 < b) (hfinite : b < binary64.infinityBits)
include hpos hfinite

/-- The digits of a shortest decimal fit in a word, and its exponent is in the range of the doubles.
-/
theorem shortest64_bounds :
    0 < (shortest64 b).digits ∧ (shortest64 b).digits ≤ 2 ^ 57 ∧ -324 ≤ (shortest64 b).exponent ∧
      (shortest64 b).exponent ≤ 308 := by
  have hshortest : IsShortest binary64 b (shortest64 b) :=
    shortest_spec (by decide) (by rw [leastExponent_eq]) hpos _
  -- A power of ten beyond all doubles is too coarse a grid.
  have hhigh : (shortest64 b).exponent < 309 := by
    refine hshortest.exponent_lt hpos hfinite ?_
    have hparts : binary64.Parts binary64.infinityBits 2046 (2 ^ 52) :=
      ⟨by decide, by decide, .inr le_rfl⟩
    have htop : binary64.value binary64.infinityBits = ((2 ^ 52 * 2 ^ 972 : ℕ) : ℚ) := by
      rw [hparts.value_eq, leastExponent_eq, Nat.cast_mul, Nat.cast_pow _ 972]
      rfl
    have hpower : (10 : ℚ) ^ (309 : ℤ) = ((10 ^ 309 : ℕ) : ℚ) := by
      rw [Nat.cast_pow]
      rfl
    rw [htop, hpower, Nat.cast_le]
    decide +kernel
  -- A grid finer than the least doubles is not needed.
  have hlow : -324 ≤ (shortest64 b).exponent := by
    refine hshortest.le_exponent hpos ?_ (by decide)
    have hsmall : (4 * 10 ^ (-(324 : ℕ) : ℤ) : ℚ) < 3 * 2 ^ (-(1074 : ℕ) : ℤ) :=
      grid_small (by decide +kernel)
    rw [leastExponent_eq]
    exact hsmall
  have hdigits := hshortest.digits_le hpos hhigh
  have hmantissa : binary64.mantissa b < 2 ^ 53 := by
    obtain ⟨k, m, hparts⟩ := exists_parts binary64 b
    rw [hparts.mantissa_eq]
    exact hparts.small
  exact ⟨hshortest.digits_pos hpos, by omega, hlow, by omega⟩

end Shortest

def parts64 (b : ℕ) : ℕ × ℤ := partsRead Style.json64 (shortest64 b)

/-- Whether the significand and the power of ten that a double is read as are doubles themselves. -/
def ReadExactly (b : ℕ) : Prop :=
  b = 0 ∨ (parts64 b).1 ≤ 2 ^ 53 ∧ (parts64 b).2.natAbs ≤ 22

instance (b : ℕ) : Decidable (ReadExactly b) := inferInstanceAs (Decidable (_ ∨ _))

theorem parts64_bounds {b : ℕ} (hpos : 0 < b) (hfinite : b < binary64.infinityBits) :
    (parts64 b).1 ≤ maxWord ∧ -324 ≤ (parts64 b).2 ∧ (parts64 b).2 ≤ 308 := by
  obtain ⟨-, hdigits, hlow, hhigh⟩ := shortest64_bounds hpos hfinite
  have hword : 10 ^ 17 ≤ maxWord := by decide
  have hword' : 2 ^ 57 ≤ maxWord := by decide
  rcases partsRead_cases Style.json64 (shortest64 b) with hsame | ⟨hwhole, hpositional, hmore⟩
  · simp only [parts64, hsame]
    exact ⟨hdigits.trans hword', hlow, hhigh⟩
  · have hlt := whole_lt 15 rfl hwhole hpositional
    rw [parts64, hmore]
    exact ⟨hlt.le.trans hword, by omega, by omega⟩

/-- The last two patterns before infinity are read as the last one. -/
theorem scale_last : ∀ b ∈ [0x7feffffffffffffe, 0x7fefffffffffffff],
    scale (ofNat64 (parts64 b).1) (parts64 b).2 4 = some (double 0x7fefffffffffffff) ∧
      ¬ ReadExactly b := by
  decide +kernel

/-- The digits of a finite double are read as a double at most two places away. -/
theorem exists_scale_parts {b : ℕ} (hpos : 0 < b) (hfinite : b < binary64.infinityBits) :
    ∃ c < binary64.infinityBits, scale (ofNat64 (parts64 b).1) (parts64 b).2 4 = some (double c) ∧
      c ≤ b + 2 ∧ b ≤ c + 2 ∧ (ReadExactly b → c = b) := by
  rcases Nat.lt_or_ge (b + 2) binary64.infinityBits with hinRange | hlast
  · obtain ⟨hfits, hlow, hhigh⟩ := parts64_bounds hpos hfinite
    obtain ⟨hsome, -⟩ := shortest64_bounds hpos hfinite
    have hshortest : IsShortest binary64 b (shortest64 b) :=
      shortest_spec (by decide) (by rw [leastExponent_eq]) hpos _
    have hnear := hshortest.nearest
    rw [← partsRead_value Style.json64] at hnear
    obtain ⟨c, hscaled, habove, hbelow, hexact⟩ :=
      exists_scale (partsRead_pos hsome) hfits hlow hhigh hnear hinRange
    refine ⟨c, by omega, hscaled, habove, hbelow, ?_⟩
    rintro (hzero | ⟨hdigits, hshort⟩)
    · omega
    · exact hexact hdigits hshort
  · rw [infinityBits_eq] at *
    have hmem : b ∈ [0x7feffffffffffffe, 0x7fefffffffffffff] := by
      simp
      omega
    obtain ⟨hscaled, hinexact⟩ := scale_last b hmem
    exact ⟨_, by omega, hscaled, by omega, by omega, fun hexact => absurd hexact hinexact⟩

/-! ## 3. Doubles -/

theorem item_double {b c : ℕ} (hpos : 0 < b) (hfinite : b < binary64.infinityBits)
    (hfinite' : c < binary64.infinityBits)
    (hscaled : scale (ofNat64 (parts64 b).1) (parts64 b).2 4 = some (double c)) (negative : Bool)
    (rest : List Char) (hends : Ends rest) :
    item ((json64 (double (binary64.signed negative b))).toList ++ rest) =
      .ok (.float (double (binary64.signed negative c)), rest) := by
  obtain ⟨hdigits, hfew, hlow, hhigh⟩ := shortest64_bounds hpos hfinite
  obtain ⟨hfits, -⟩ := parts64_bounds hpos hfinite
  have hword : 2 ^ 57 ≤ maxWord := by decide
  rw [json64, decode64_double hfinite]
  exact item_render (d := shortest64 b) rfl negative hpos rfl hdigits (hfew.trans hword) (by omega)
    hfits hfinite' hscaled hends

/-- The text of a finite double is read as a double with the same sign, at most two places away. -/
theorem exists_item_double (negative : Bool) {b : ℕ} (hfinite : b < binary64.infinityBits) :
    ∃ c < binary64.infinityBits,
      (∀ rest, Ends rest → item ((json64 (double (binary64.signed negative b))).toList ++ rest) =
        .ok (.float (double (binary64.signed negative c)), rest)) ∧
      c ≤ b + 2 ∧ b ≤ c + 2 ∧ (ReadExactly b → c = b) := by
  rcases Nat.eq_zero_or_pos b with rfl | hpos
  · rw [json64, decode64_double hfinite]
    exact ⟨0, hfinite, fun rest => item_render_zero rfl negative, by omega, by omega, fun _ => rfl⟩
  · obtain ⟨c, hfinite', hscaled, habove, hbelow, hexact⟩ := exists_scale_parts hpos hfinite
    exact ⟨c, hfinite', item_double hpos hfinite hfinite' hscaled negative, habove, hbelow, hexact⟩

end Cadence.Json
