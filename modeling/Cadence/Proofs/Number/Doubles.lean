import Cadence.Proofs.Number.Rounding
import Mathlib

/-!
# Arithmetic of doubles

Products and quotients of doubles are the exact ones rounded to the nearest bit pattern (`mul_double`,
`div_double`).  The core library computes them by shifting a mantissa to the right, with two bits for
what is shifted out; these two bits tell all that rounding needs to know (`Represents`).
-/

namespace Cadence.Number

open Cadence.Number.Format Float.Model.UnpackedFloat

abbrev doubles : Float.Model.Format := Float.Model.Format.binary64

/-! ## 1. Mantissas with residual bits -/

/-- A rational as a mantissa with what comes behind it: nothing, less than a half, a half, or more. -/
def Represents (em : ExtendedMantissa) (t : ℚ) : Prop :=
  match em.roundBit, em.stickyBit with
  | false, false => t = em.mantissa
  | false, true => em.mantissa < t ∧ 2 * t < 2 * em.mantissa + 1
  | true, false => 2 * t = 2 * em.mantissa + 1
  | true, true => 2 * em.mantissa + 1 < 2 * t ∧ t < em.mantissa + 1

theorem represents_exact (m : ℕ) : Represents (.ofMantissaAndAccuracy m .exact) m := rfl

/-- The core library rounds by what stands behind a mantissa, and that is to the nearest. -/
theorem Represents.roundsTo {em : ExtendedMantissa} {t : ℚ} (h : Represents em t) :
    RoundsTo t em.roundedMantissa := by
  obtain ⟨m, round, sticky⟩ := em
  have hnext : ((m + 1 : ℕ) : ℚ) = m + 1 := Nat.cast_succ m
  -- The first bit behind the mantissa tells on which side of the half the rest is, the other whether
  -- there is more.
  cases round with
  | false =>
    cases sticky with
    | false =>
      have hsame : t = m := h
      show RoundsTo t m
      exact ⟨by linarith, by linarith, fun _ => ⟨by linarith, by linarith⟩⟩
    | true =>
      obtain ⟨hlow, hhigh⟩ : (m : ℚ) < t ∧ 2 * t < 2 * m + 1 := h
      show RoundsTo t m
      exact ⟨by linarith, by linarith, fun _ => ⟨by linarith, by linarith⟩⟩
  | true =>
    cases sticky with
    | false =>
      have hhalf : 2 * t = 2 * m + 1 := h
      show RoundsTo t (m + m % 2)
      rcases Nat.mod_two_eq_zero_or_one m with heven | hodd
      · rw [heven, Nat.add_zero]
        exact ⟨by linarith, by linarith, fun hodd => by omega⟩
      · rw [hodd]
        exact ⟨by linarith, by linarith, fun hodd => by omega⟩
    | true =>
      obtain ⟨hlow, hhigh⟩ : 2 * (m : ℚ) + 1 < 2 * t ∧ t < m + 1 := h
      show RoundsTo t (m + 1)
      exact ⟨by linarith, by linarith, fun _ => ⟨by linarith, by linarith⟩⟩

/-- A mantissa that is shifted represents half of the rational. -/
theorem Represents.shiftRightOne {em : ExtendedMantissa} {t : ℚ} (h : Represents em t) :
    Represents em.shiftRightOne (t / 2) := by
  obtain ⟨m, round, sticky⟩ := em
  obtain ⟨d, hdigit⟩ : ∃ d, m = 2 * d + m % 2 := ⟨m / 2, by omega⟩
  have hhalf : m / 2 = d := by omega
  have hcast : (m : ℚ) = 2 * d + (m % 2 : ℕ) := by exact_mod_cast hdigit
  -- The last bit of the mantissa becomes the first one behind it.
  rcases Nat.mod_two_eq_zero_or_one m with heven | hodd
  · rw [heven] at hcast
    cases round <;> cases sticky <;>
      simp only [Represents, ExtendedMantissa.shiftRightOne, heven, hhalf, Nat.cast_zero, add_zero,
        bne_self_eq_false, Bool.or_false, Bool.or_true] at h hcast ⊢
    · linarith
    · constructor <;> linarith
    · constructor <;> linarith
    · constructor <;> linarith
  · rw [hodd] at hcast
    have hset : (1 != 0) = true := rfl
    cases round <;> cases sticky <;>
      simp only [Represents, ExtendedMantissa.shiftRightOne, hodd, hhalf, hset, Nat.cast_one,
        Bool.or_false, Bool.or_true] at h hcast ⊢
    · linarith
    · constructor <;> linarith
    · constructor <;> linarith
    · constructor <;> linarith

theorem Represents.shiftRight {em : ExtendedMantissa} {t : ℚ} (h : Represents em t) (n : ℕ) :
    Represents (em >>> n) (t / 2 ^ n) := by
  show Represents (n.repeat ExtendedMantissa.shiftRightOne em) _
  induction n with
  | zero => simpa [Nat.repeat] using h
  | succ n ih =>
    have hone := ih.shiftRightOne
    rw [div_div, ← pow_succ] at hone
    exact hone

/-- The quotient of a division with rest. -/
theorem represents_quotient (num : ℕ) {den : ℕ} (hpos : 0 < den) :
    Represents (.ofMantissaAndAccuracy (num / den) (accuracyOfFraction (num % den) den))
      (num / den) := by
  obtain ⟨rest, hwhole, hscaled⟩ := exists_rest num hpos
  obtain ⟨hnonneg, hfull, hzero, hleast, hmost⟩ := rest_cases hpos hscaled
  rw [hwhole, accuracyOfFraction]
  generalize num / den = q
  split
  · rename_i hnone
    rw [hzero.2 hnone, add_zero]
    exact represents_exact _
  · rename_i hsome
    have hrestPositive : 0 < rest := hnonneg.lt_of_ne fun hsame => hsome (hzero.1 hsame.symm)
    -- Twice the remainder is compared with the divisor, as the rest with a half.
    rcases Nat.lt_trichotomy (2 * (num % den)) den with hless | hhalf | hmore
    · rw [Nat.compare_eq_lt.2 hless]
      have hsmall := hleast.2 hless
      show (q : ℚ) < q + rest ∧ 2 * (q + rest) < 2 * q + 1
      constructor <;> linarith
    · rw [Nat.compare_eq_eq.2 hhalf]
      have hnotLess := mt hleast.1 (by omega)
      have hnotMore := mt hmost.1 (by omega)
      show 2 * (q + rest) = 2 * q + 1
      linarith
    · rw [Nat.compare_eq_gt.2 hmore]
      have hlarge := hmost.2 hmore
      show 2 * (q : ℚ) + 1 < 2 * (q + rest) ∧ q + rest < q + 1
      constructor <;> linarith

theorem Represents.bounds {em : ExtendedMantissa} {t : ℚ} (h : Represents em t) :
    em.mantissa ≤ t ∧ t < em.mantissa + 1 := by
  obtain ⟨m, round, sticky⟩ := em
  cases round <;> cases sticky <;> simp only [Represents] at h
  · constructor <;> linarith
  · constructor <;> linarith
  · constructor <;> linarith
  · constructor <;> linarith

/-! ## 2. Packing -/

/-- The last place that is taken for a number of so many binary digits. -/
theorem target_eq (m : ℕ) (e : ℤ) :
    doubles.targetExponent (Float.Model.totalExponent m e) = max (m.log2 + e - 52) (-1074) := by
  have hleast : doubles.minExponent = -1074 := by decide
  have hdigits : doubles.mantissaBits = 53 := by decide
  rw [Float.Model.Format.targetExponent, Float.Model.totalExponent, hleast, hdigits]
  congr 1
  omega

theorem toNat_packComponents (sign : Sign) (exponent : BitVec 11) (fraction : BitVec 52) :
    (packComponents doubles sign exponent fraction).toNat =
      sign.toBitVec.toNat * 2 ^ 63 + exponent.toNat * 2 ^ 52 + fraction.toNat := by
  rw [packComponents]
  rw [BitVec.toNat_append, BitVec.toNat_append, ← Nat.shiftLeft_add_eq_or_of_lt fraction.isLt,
    ← Nat.shiftLeft_add_eq_or_of_lt exponent.isLt, Nat.shiftLeft_eq, Nat.shiftLeft_eq]
  ring

theorem infinityBits_eq : binary64.infinityBits = 2047 * 2 ^ 52 := by decide

/-- A number above the last row is packed as infinity, and so is the pattern that it would have. -/
theorem toNat_pack_finite {b k m : ℕ} (hparts : binary64.Parts b k m) (hpos : 0 < m) {e : ℤ}
    (hplace : e = -1074 + k) :
    (pack doubles (.finite .positive m e hpos)).toNat = min b binary64.infinityBits := by
  have hbias : (e + doubles.exponentBias + (52 : ℕ)).toNat = k + 1 := by
    have hsame : doubles.exponentBias = 1023 := by decide
    omega
  have hdigits : doubles.mantissaBits = 53 := by decide
  have hsplit : b = k * 2 ^ 52 + m := hparts.split
  have hsmall : m < 2 ^ 53 := hparts.small
  have hnormal : k = 0 ∨ 2 ^ 52 ≤ m := hparts.normal
  rw [infinityBits_eq, pack]
  simp only [hbias, hdigits]
  split
  · rename_i habove
    have hbeyond : 2 ^ 11 ≤ k + 1 + 1 := habove
    have hinfinite : (packedInfinity doubles .positive).toNat = 2047 * 2 ^ 52 := by decide
    rw [hinfinite]
    omega
  · split
    · -- A number with all its digits leaves the first one out.
      rename_i hwithin hfull
      have hinRange : ¬ 2 ^ 11 ≤ k + 1 + 1 := hwithin
      have hleast : 2 ^ 52 ≤ m := by
        have hfirst := Nat.log2_self_le hpos.ne'
        rw [Nat.succ_injective hfull] at hfirst
        exact hfirst
      rw [toNat_packComponents]
      show 0 * 2 ^ 63 + (k + 1) % 2 ^ 11 * 2 ^ 52 + m % 2 ^ 52 = min b (2047 * 2 ^ 52)
      omega
    · -- Only numbers of the least place have fewer.
      rename_i hwithin hnotFull
      have hinRange : ¬ 2 ^ 11 ≤ k + 1 + 1 := hwithin
      have hlow : m < 2 ^ 52 := by
        by_contra hhigh
        refine hnotFull ?_
        rw [(Nat.log2_eq_iff hpos.ne').2 ⟨not_lt.1 hhigh, hsmall⟩]
      rw [toNat_packComponents]
      show 0 * 2 ^ 63 + 0 * 2 ^ 52 + m % 2 ^ 52 = min b (2047 * 2 ^ 52)
      omega

theorem leastExponent_eq : binary64.leastExponent = -1074 := by decide

/-- How far a mantissa is shifted to reach its last place. -/
theorem shift_eq {m : ℕ} {e : ℤ} {k n : ℕ} (accuracy : Accuracy)
    (htarget : max ((m.log2 : ℤ) + e - 52) (-1074) = -1074 + k) (hshift : e + n = -1074 + k) :
    shiftToTargetExponent doubles m e accuracy =
      (ExtendedMantissa.ofMantissaAndAccuracy m accuracy >>> n, -1074 + (k : ℤ)) := by
  have hamount : (-1074 + (k : ℤ) - e).toNat = n := by omega
  simp only [shiftToTargetExponent, target_eq, htarget, shiftToExponent, hamount, hshift]

/-- The last place that is taken leaves 53 binary digits, or is the least. -/
theorem target_spec {m : ℕ} {e : ℤ} {k : ℕ} {t : ℚ} (henough : 52 ≤ m.log2 ∨ e ≤ -1074)
    (hbounds : (m : ℚ) ≤ t ∧ t < m + 1)
    (htarget : max ((m.log2 : ℤ) + e - 52) (-1074) = -1074 + k) :
    t * 2 ^ e < 2 ^ 53 * 2 ^ (-1074 + (k : ℤ)) ∧
      (k = 0 ∨ 2 ^ 52 * 2 ^ (-1074 + (k : ℤ)) ≤ t * 2 ^ e) := by
  have hunit : (0 : ℚ) < 2 ^ e := by positivity
  have hpower (a : ℕ) (b : ℤ) : (2 : ℚ) ^ a * 2 ^ b = 2 ^ (a + b) := by
    rw [zpow_add₀ (by norm_num), zpow_natCast]
  have hhigh : (m : ℚ) + 1 ≤ 2 ^ (m.log2 + 1) := by exact_mod_cast Nat.lt_log2_self (n := m)
  constructor
  · calc t * 2 ^ e < 2 ^ (m.log2 + 1) * 2 ^ e :=
          mul_lt_mul_of_pos_right (hbounds.2.trans_le hhigh) hunit
      _ ≤ 2 ^ 53 * 2 ^ (-1074 + (k : ℤ)) := by
          rw [hpower, hpower]
          exact zpow_le_zpow_right₀ (by norm_num) (by omega)
  · rcases Nat.eq_zero_or_pos k with hzero | hsome
    · exact .inl hzero
    · right
      have hnonzero : m ≠ 0 := by
        rintro rfl
        have hlog : Nat.log2 0 = 0 := by decide
        omega
      have hlow : (2 : ℚ) ^ m.log2 ≤ m := by exact_mod_cast Nat.log2_self_le hnonzero
      calc (2 : ℚ) ^ 52 * 2 ^ (-1074 + (k : ℤ)) = 2 ^ m.log2 * 2 ^ e := by
            rw [hpower, hpower]
            congr 1
            omega
        _ ≤ t * 2 ^ e := mul_le_mul_of_nonneg_right (hlow.trans hbounds.1) hunit.le

/-- What is left after rounding is shifted once more where it has become a power of two. -/
theorem pack_shifted {k r : ℕ} (hatMost : r ≤ 2 ^ 53) (hfull : k = 0 ∨ 2 ^ 52 ≤ r)
    {em : ExtendedMantissa} {e : ℤ}
    (hshifted : shiftToTargetExponent doubles r (-1074 + k) .exact = (em, e)) :
    (pack doubles (if h : em.mantissa = 0 then .zero .positive
        else .finite .positive em.mantissa e (Nat.pos_of_ne_zero h))).toNat =
      min (k * 2 ^ 52 + r) binary64.infinityBits := by
  -- Rounding up a full mantissa makes it a power of two, with one digit too many.
  rcases hatMost.lt_or_eq with hlt | rfl
  · have hsame : shiftToTargetExponent doubles r (-1074 + k) .exact =
        (⟨r, false, false⟩, -1074 + (k : ℤ)) := by
      refine shift_eq (n := 0) .exact ?_ (by omega)
      have hdigits : r.log2 ≤ 52 := by
        rcases Nat.eq_zero_or_pos r with rfl | hsome
        · decide
        · exact Nat.le_of_lt_succ ((Nat.log2_lt hsome.ne').2 hlt)
      rcases hfull with rfl | hleast
      · omega
      · have hlog : r.log2 = 52 := (Nat.log2_eq_iff (by omega)).2 ⟨hleast, hlt⟩
        omega
    obtain ⟨rfl, rfl⟩ := Prod.mk.inj (hshifted.symm.trans hsame)
    split
    · rename_i hzero
      have hnone : r = 0 := hzero
      have hfirst : k = 0 := by omega
      rw [hnone, hfirst]
      decide
    · rename_i hsome
      exact toNat_pack_finite ⟨rfl, hlt, hfull⟩ (Nat.pos_of_ne_zero hsome) rfl
  · have hnext : shiftToTargetExponent doubles (2 ^ 53) (-1074 + k) .exact =
        (⟨2 ^ 52, false, false⟩, -1074 + ((k + 1 : ℕ) : ℤ)) := by
      have hlog : (2 ^ 53).log2 = 53 := by decide
      refine shift_eq (n := 1) .exact ?_ (by omega)
      omega
    obtain ⟨rfl, rfl⟩ := Prod.mk.inj (hshifted.symm.trans hnext)
    have hparts : binary64.Parts (k * 2 ^ 52 + 2 ^ 53) (k + 1) (2 ^ 52) := by
      refine ⟨?_, by decide, .inr le_rfl⟩
      show k * 2 ^ 52 + 2 ^ 53 = (k + 1) * 2 ^ 52 + 2 ^ 52
      omega
    exact toNat_pack_finite hparts (by decide) rfl

theorem mantissa_ofMantissaAndAccuracy (m : ℕ) (accuracy : Accuracy) :
    (ExtendedMantissa.ofMantissaAndAccuracy m accuracy).mantissa = m := by
  match accuracy with
  | .exact => rfl
  | .inexact .lt => rfl
  | .inexact .eq => rfl
  | .inexact .gt => rfl

/-- What is packed after rounding is the pattern nearest to the exact number, where enough digits are
there to round. -/
theorem pack_roundWithAccuracy {m : ℕ} {e : ℤ} {accuracy : Accuracy} {t : ℚ}
    (henough : 52 ≤ m.log2 ∨ e ≤ -1074)
    (hrepresents : Represents (.ofMantissaAndAccuracy m accuracy) t) :
    ∃ c, binary64.NearestTo (t * 2 ^ e) c ∧
      (pack doubles (roundWithAccuracy doubles .positive m e accuracy)).toNat =
        min c binary64.infinityBits := by
  -- First the shift to the last place, then the rounding, then the shift after it.
  obtain ⟨k, htarget⟩ : ∃ k : ℕ, max ((m.log2 : ℤ) + e - 52) (-1074) = -1074 + k :=
    ⟨(max ((m.log2 : ℤ) + e - 52) (-1074) + 1074).toNat, by omega⟩
  obtain ⟨n, hshift⟩ : ∃ n : ℕ, e + n = -1074 + k := ⟨(-1074 + (k : ℤ) - e).toNat, by omega⟩
  have hfirst := shift_eq accuracy htarget hshift
  have hrounds := (hrepresents.shiftRight n).roundsTo
  have hbounds := hrepresents.bounds
  rw [mantissa_ofMantissaAndAccuracy] at hbounds
  generalize ExtendedMantissa.ofMantissaAndAccuracy m accuracy >>> n = em at hfirst hrounds
  obtain ⟨r, hrounded⟩ : ∃ r, r = em.roundedMantissa := ⟨_, rfl⟩
  rw [← hrounded] at hrounds
  obtain ⟨hsmall, hnormal⟩ := target_spec henough hbounds htarget
  have hunit : t * 2 ^ e / 2 ^ (-1074 + (k : ℤ)) = t / 2 ^ n := by
    rw [← hshift, zpow_add₀ (by norm_num), zpow_natCast]
    field_simp
  have hplace : (0 : ℚ) < 2 ^ (-1074 + (k : ℤ)) := by positivity
  rw [← hunit] at hrounds
  have hnonneg : 0 ≤ t := (Nat.cast_nonneg m).trans hbounds.1
  -- Rounding does not lead over a whole number.
  have hatMost : r ≤ 2 ^ 53 := by
    refine hrounds.le ?_
    rw [div_le_iff₀ hplace]
    push_cast
    exact hsmall.le
  have hfull : k = 0 ∨ 2 ^ 52 ≤ r := by
    refine hnormal.imp_right fun hle => hrounds.ge ?_
    rw [le_div_iff₀ hplace]
    push_cast
    exact hle
  refine ⟨k * 2 ^ 52 + r, ?_, ?_⟩
  · rw [← leastExponent_eq] at hsmall hnormal hrounds
    exact nearestTo_of_roundsTo (by decide) (by positivity) hsmall hnormal hrounds
  · simp only [roundWithAccuracy, hfirst, ← hrounded]
    exact pack_shifted hatMost hfull rfl

/-! ## 3. Unpacking -/

section Fields

variable {format : Float.Model.Format} (b : BitVec format.numBits)

theorem toNat_unpackMantissa :
    (unpackMantissa b).toNat = b.toNat % 2 ^ format.mantissaBitsWithoutImplicit := by
  rw [unpackMantissa_def, BitVec.extractLsb'_toNat, Nat.shiftRight_zero]

theorem toNat_unpackExponent :
    (unpackExponent b).toNat =
      b.toNat / 2 ^ format.mantissaBitsWithoutImplicit % 2 ^ format.exponentBits := by
  rw [unpackExponent_def, BitVec.extractLsb'_toNat, Nat.shiftRight_eq_div_pow]

/-- The exponent field of an infinity or of a NaN is full, and that of no other number. -/
theorem unpackExponent_ne (hfinite : (unpack format b).isFinite = true) :
    unpackExponent b ≠ -1#_ := by
  intro hfull
  simp only [unpack, if_pos hfull] at hfinite
  split at hfinite <;> cases hfinite

/-- Nothing stands behind a full exponent field in a pattern up to that of infinity. -/
theorem isNaNBits_eq_false
    (hnumber : b.toNat % 2 ^ (format.mantissaBitsWithoutImplicit + format.exponentBits) ≤
      (2 ^ format.exponentBits - 1) * 2 ^ format.mantissaBitsWithoutImplicit) :
    isNaNBits b = false := by
  refine decide_eq_false fun ⟨hfull, hnonzero⟩ => hnonzero (BitVec.eq_of_toNat_eq ?_)
  have hexponent := toNat_unpackExponent b
  have hrows : 0 < 2 ^ format.exponentBits := by positivity
  rw [hfull, BitVec.neg_one_eq_allOnes, BitVec.toNat_allOnes] at hexponent
  rw [pow_add, Nat.mod_mul, ← hexponent, Nat.mul_comm _ (2 ^ format.exponentBits - 1)] at hnumber
  rw [toNat_unpackMantissa, BitVec.toNat_zero]
  omega

end Fields

theorem toNat_unpackSign (b : BitVec 64) :
    (@unpackSign doubles b).toNat = b.toNat / 2 ^ 63 % 2 := by
  rw [unpackSign_def, BitVec.extractLsb'_toNat, Nat.shiftRight_eq_div_pow]
  rfl

/-- A finite pattern is unpacked to its sign, and to the mantissa and the last place of the rest. -/
theorem unpack_eq {b : BitVec 64} {c : ℕ} (hrest : b.toNat % 2 ^ 63 = c) (hpos : 0 < c)
    (hfinite : c < binary64.infinityBits) :
    ∃ h, unpack doubles b = .finite (Sign.ofBitVec (@unpackSign doubles b)) (binary64.mantissa c)
      (binary64.place c) h := by
  rw [infinityBits_eq] at hfinite
  -- The fields of a pattern are its quotient and remainder by the weight of the exponent.
  have hexponent : (@unpackExponent doubles b).toNat = b.toNat / 2 ^ 52 % 2 ^ 11 :=
    @toNat_unpackExponent doubles b
  have hfraction : (@unpackMantissa doubles b).toNat = b.toNat % 2 ^ 52 :=
    @toNat_unpackMantissa doubles b
  have hfield : b.toNat / 2 ^ 52 % 2 ^ 11 = c / 2 ^ 52 := by omega
  have hdigits : b.toNat % 2 ^ 52 = c % 2 ^ 52 := by omega
  rw [hfield] at hexponent
  rw [hdigits] at hfraction
  have hnotFull : @unpackExponent doubles b ≠ -1#_ := by
    intro hfull
    rw [hfull] at hexponent
    have hones : 2047 = c / 2 ^ 52 := hexponent
    omega
  have hbias : (doubles.exponentBias : ℤ) = 1023 := by decide
  rw [unpack]
  simp only [if_neg hnotFull]
  split
  · rename_i hzero
    have hnone : c / 2 ^ 52 = 0 := by
      rw [← hexponent, hzero]
      rfl
    have hsame : c % 2 ^ 52 = c := by omega
    split
    · rename_i hempty
      rw [hempty] at hfraction
      have hnothing : 0 = c % 2 ^ 52 := hfraction
      omega
    · have hmantissa : binary64.mantissa c = c := if_pos hnone
      have hplace : binary64.place c = -1074 := by
        rw [Format.place, leastExponent_eq]
        show -1074 + ((c / 2 ^ 52 - 1 : ℕ) : ℤ) = -1074
        omega
      simp only [hexponent, hnone, hfraction, hsame, hmantissa, hplace, hbias]
      exact ⟨hpos, rfl⟩
  · -- From the second row on there is a digit that is not written.
    rename_i hsome
    have hfield : c / 2 ^ 52 ≠ 0 := by
      intro hnone
      rw [hnone] at hexponent
      exact hsome (BitVec.eq_of_toNat_eq hexponent)
    have hmantissa : binary64.mantissa c = 2 ^ 52 + c % 2 ^ 52 := if_neg hfield
    have hplace : binary64.place c = c / 2 ^ 52 - 1075 := by
      rw [Format.place, leastExponent_eq]
      show -1074 + ((c / 2 ^ 52 - 1 : ℕ) : ℤ) = _
      omega
    have hwhole : (1#1 ++ @unpackMantissa doubles b).toNat = 2 ^ 52 + c % 2 ^ 52 := by
      rw [BitVec.toNat_append, ← Nat.shiftLeft_add_eq_or_of_lt (BitVec.isLt _), hfraction]
      rfl
    simp only [hexponent, hwhole, hmantissa, hplace, hbias]
    exact ⟨by omega, rfl⟩

theorem sign_of_lt {b : BitVec 64} (hlow : b.toNat < 2 ^ 63) :
    Sign.ofBitVec (@unpackSign doubles b) = .positive := by
  have hzero : @unpackSign doubles b = 0#1 := by
    apply BitVec.eq_of_toNat_eq
    rw [toNat_unpackSign]
    show b.toNat / 2 ^ 63 % 2 = 0
    omega
  rw [hzero]
  rfl

theorem sign_of_le {b : BitVec 64} (hhigh : 2 ^ 63 ≤ b.toNat) :
    Sign.ofBitVec (@unpackSign doubles b) = .negative := by
  have hone : @unpackSign doubles b = 1#1 := by
    apply BitVec.eq_of_toNat_eq
    have hlt := b.isLt
    rw [toNat_unpackSign]
    show b.toNat / 2 ^ 63 % 2 = 1
    omega
  rw [hone]
  rfl

/-! ## 4. Operations on doubles -/

def double (b : ℕ) : Float := Float.ofBits (UInt64.ofNat b)

/-- A pattern that is no NaN is kept. -/
theorem toBits_double {b : ℕ} (h : b % 2 ^ 63 ≤ binary64.infinityBits) (hlt : b < 2 ^ 64) :
    (double b).toBits = UInt64.ofNat b := by
  have htoNat : (UInt64.ofNat b).toBitVec.toNat = b := UInt64.toNat_ofNat_of_lt hlt
  rw [infinityBits_eq] at h
  have hnumber : @isNaNBits doubles (UInt64.ofNat b).toBitVec = false := by
    refine @isNaNBits_eq_false doubles _ ?_
    rw [htoNat]
    exact h
  have hkept := @pack_unpack doubles (UInt64.ofNat b).toBitVec
  rw [hnumber] at hkept
  exact UInt64.toBitVec_inj.1 hkept

theorem unpack_double {b : ℕ} (hpos : 0 < b) (hfinite : b < binary64.infinityBits) :
    ∃ h, (double b).toModel.unpack = .finite .positive (binary64.mantissa b) (binary64.place b) h := by
  have hinfinity := infinityBits_eq
  have hlt : b < 2 ^ 64 := by omega
  have htoNat : (UInt64.ofNat b).toBitVec.toNat = b := UInt64.toNat_ofNat_of_lt hlt
  have hbits : (double b).toModel.toBits = UInt64.ofNat b := toBits_double (by omega) (by omega)
  have hunpacked := unpack_eq (b := (UInt64.ofNat b).toBitVec) (c := b) (by omega) hpos hfinite
  rw [sign_of_lt (by omega)] at hunpacked
  rw [Float.Model.unpack, hbits]
  exact hunpacked

theorem ofModel_pack {u : Float.Model.UnpackedFloat} {c : ℕ} (hpacked : (pack doubles u).toNat = c)
    (hnumber : c % 2 ^ 63 ≤ binary64.infinityBits) : Float.ofModel (.pack u) = double c := by
  have hlt : c < 2 ^ 64 := by
    rw [← hpacked]
    exact (pack doubles u).isLt
  apply Float.toBits_inj.1
  rw [toBits_double hnumber hlt]
  apply UInt64.toNat_inj.1
  exact hpacked.trans (UInt64.toNat_ofNat_of_lt hlt).symm

theorem finite_of_min (c : ℕ) :
    min c binary64.infinityBits % 2 ^ 63 ≤ binary64.infinityBits := by
  rw [infinityBits_eq]
  omega

/-- A mantissa of a normal number has all its digits; all others have the least place. -/
theorem log2_mantissa (b : ℕ) :
    52 ≤ (binary64.mantissa b).log2 ∨ binary64.place b = -1074 := by
  obtain ⟨k, m, hparts⟩ := exists_parts binary64 b
  have hnormal : k = 0 ∨ 2 ^ 52 ≤ m := hparts.normal
  rw [hparts.mantissa_eq, hparts.place_eq, leastExponent_eq]
  refine hnormal.symm.imp (fun hle => ?_) (fun hzero => by omega)
  exact (Nat.le_log2 (by omega)).2 hle

/-- A product of doubles is the pattern nearest to the product of their values. -/
theorem mul_double {a b : ℕ} (ha : 0 < a) (ha' : a < binary64.infinityBits) (hb : 0 < b)
    (hb' : b < binary64.infinityBits) :
    ∃ c, binary64.NearestTo (binary64.value a * binary64.value b) c ∧
      double a * double b = double (min c binary64.infinityBits) := by
  obtain ⟨hposA, hunpackA⟩ := unpack_double ha ha'
  obtain ⟨hposB, hunpackB⟩ := unpack_double hb hb'
  -- Where neither factor has all its digits, the product is below the least place.
  have henough : 52 ≤ (binary64.mantissa a * binary64.mantissa b).log2 ∨
      binary64.place a + binary64.place b ≤ -1074 := by
    have hnonzero : binary64.mantissa a * binary64.mantissa b ≠ 0 := (Nat.mul_pos hposA hposB).ne'
    rcases log2_mantissa a with hfullA | hleastA
    · left
      rw [Nat.le_log2 hnonzero]
      exact ((Nat.le_log2 hposA.ne').1 hfullA).trans (Nat.le_mul_of_pos_right _ hposB)
    rcases log2_mantissa b with hfullB | hleastB
    · left
      rw [Nat.le_log2 hnonzero]
      exact ((Nat.le_log2 hposB.ne').1 hfullB).trans (Nat.le_mul_of_pos_left _ hposA)
    · right
      omega
  obtain ⟨c, hnearest, hpacked⟩ := pack_roundWithAccuracy henough (represents_exact _)
  refine ⟨c, ?_, ?_⟩
  · have hsame : binary64.value a * binary64.value b =
        (binary64.mantissa a * binary64.mantissa b : ℕ) *
          2 ^ (binary64.place a + binary64.place b) := by
      rw [value, value, zpow_add₀ (by norm_num)]
      push_cast
      ring
    rw [hsame]
    exact hnearest
  · show Float.ofModel (.pack (mul doubles (double a).toModel.unpack (double b).toModel.unpack)) = _
    rw [hunpackA, hunpackB]
    exact ofModel_pack hpacked (finite_of_min c)

/-- A dividend with 53 binary digits more than its divisor leaves at least 53 in the quotient. -/
theorem le_log2_quotient {m n s : ℕ} (hposM : 0 < m) (hposN : 0 < n)
    (hlonger : n.log2 + 53 ≤ m.log2 + s) : 52 ≤ (m * 2 ^ s / n).log2 := by
  have hdigits : n * 2 ^ 52 ≤ m * 2 ^ s :=
    calc n * 2 ^ 52 ≤ 2 ^ (n.log2 + 1) * 2 ^ 52 := Nat.mul_le_mul_right _ Nat.lt_log2_self.le
      _ = 2 ^ (n.log2 + 53) := by rw [← pow_add]
      _ ≤ 2 ^ (m.log2 + s) := Nat.pow_le_pow_right (by decide) hlonger
      _ = 2 ^ m.log2 * 2 ^ s := pow_add _ _ _
      _ ≤ m * 2 ^ s := Nat.mul_le_mul_right _ (Nat.log2_self_le hposM.ne')
  have hquotient : 2 ^ 52 ≤ m * 2 ^ s / n := by
    rw [Nat.le_div_iff_mul_le hposN, Nat.mul_comm]
    exact hdigits
  exact (Nat.le_log2 (by omega)).2 hquotient

/-- A quotient of doubles is the pattern nearest to the quotient of their values. -/
theorem div_double {a b : ℕ} (ha : 0 < a) (ha' : a < binary64.infinityBits) (hb : 0 < b)
    (hb' : b < binary64.infinityBits) :
    ∃ c, binary64.NearestTo (binary64.value a / binary64.value b) c ∧
      double a / double b = double (min c binary64.infinityBits) := by
  obtain ⟨hposA, hunpackA⟩ := unpack_double ha ha'
  obtain ⟨hposB, hunpackB⟩ := unpack_double hb hb'
  show ∃ c, _ ∧ Float.ofModel (.pack (div doubles (double a).toModel.unpack
    (double b).toModel.unpack)) = _
  rw [hunpackA, hunpackB, value, value]
  generalize binary64.mantissa a = m at hposA
  generalize binary64.mantissa b = n at hposB
  obtain ⟨d, hd⟩ : ∃ d, d = binary64.place a - binary64.place b := ⟨_, rfl⟩
  -- The dividend is taken to as many places as leave all digits in the quotient.
  obtain ⟨e, he⟩ : ∃ e, e = min d (max ((m.log2 : ℤ) - n.log2 + d - 53) (-1074)) := ⟨_, rfl⟩
  obtain ⟨s, hs⟩ : ∃ s : ℕ, d - e = s := ⟨(d - e).toNat, by omega⟩
  have htarget : min d (doubles.targetExponent (Float.Model.totalExponent m (binary64.place a) -
      Float.Model.totalExponent n (binary64.place b))) = e := by
    have hleast : doubles.minExponent = -1074 := by decide
    have hdigits : doubles.mantissaBits = 53 := by decide
    rw [he, hd, Float.Model.Format.targetExponent, Float.Model.totalExponent,
      Float.Model.totalExponent, hleast, hdigits]
    congr 2
    omega
  have hcore : divCore doubles m (binary64.place a) n (binary64.place b) =
      (m * 2 ^ s / n, e, accuracyOfFraction (m * 2 ^ s % n) n) := by
    simp only [divCore, ← hd, htarget, hs, Int.toNat_natCast, Nat.shiftLeft_eq]
  have henough : 52 ≤ (m * 2 ^ s / n).log2 ∨ e ≤ -1074 := by
    rcases le_or_gt e (-1074) with hleast | hmore
    · exact .inr hleast
    · exact .inl (le_log2_quotient hposA hposB (by omega))
  obtain ⟨c, hnearest, hpacked⟩ := pack_roundWithAccuracy henough (represents_quotient _ hposB)
  refine ⟨c, ?_, ?_⟩
  · have hsame : m * 2 ^ binary64.place a / (n * 2 ^ binary64.place b) =
        ((m * 2 ^ s : ℕ) : ℚ) / n * 2 ^ e := by
      have hsplit : (2 : ℚ) ^ binary64.place a = 2 ^ s * 2 ^ e * 2 ^ binary64.place b := by
        rw [← zpow_natCast, ← zpow_add₀ (by norm_num), ← zpow_add₀ (by norm_num)]
        congr 1
        omega
      have hnonzero : (n : ℚ) ≠ 0 := by exact_mod_cast hposB.ne'
      have hunit : (2 : ℚ) ^ binary64.place b ≠ 0 := by positivity
      rw [hsplit]
      push_cast
      field_simp
    rw [hsame]
    exact hnearest
  · simp only [div, hcore]
    exact ofModel_pack hpacked (finite_of_min c)

/-- The other sign sets the first bit and nothing else. -/
theorem toNat_pack_negative {m : ℕ} {e : ℤ} (hpos : 0 < m) :
    (pack doubles (.finite .negative m e hpos)).toNat =
      2 ^ 63 + (pack doubles (.finite .positive m e hpos)).toNat := by
  have hsign (exponent : BitVec 11) (fraction : BitVec 52) :
      (packComponents doubles .negative exponent fraction).toNat =
        2 ^ 63 + (packComponents doubles .positive exponent fraction).toNat := by
    rw [toNat_packComponents, toNat_packComponents]
    show 1 * 2 ^ 63 + _ + _ = 2 ^ 63 + (0 * 2 ^ 63 + _ + _)
    ring
  simp only [pack, packedInfinity]
  split
  · exact hsign _ _
  · split
    · exact hsign _ _
    · exact hsign _ _

/-- The negative of a double has the same pattern but for its sign. -/
theorem neg_double {b : ℕ} (hfinite : b < binary64.infinityBits) :
    -(double b) = double (2 ^ 63 + b) := by
  have hinfinity := infinityBits_eq
  rcases Nat.eq_zero_or_pos b with rfl | hpos
  · decide
  · obtain ⟨h, hunpacked⟩ := unpack_double hpos hfinite
    have hbits : (double b).toBits = UInt64.ofNat b := toBits_double (by omega) (by omega)
    have hkept : pack doubles (double b).toModel.unpack = (UInt64.ofNat b).toBitVec :=
      (pack_unpack_of_valid (double b).toModel.valid).trans (congrArg UInt64.toBitVec hbits)
    have hlt : b < 2 ^ 64 := by omega
    have htoNat : (UInt64.ofNat b).toBitVec.toNat = b := UInt64.toNat_ofNat_of_lt hlt
    show Float.ofModel (.pack (neg (double b).toModel.unpack)) = _
    refine ofModel_pack ?_ (by omega)
    rw [hunpacked] at hkept ⊢
    show (pack doubles (.finite .negative _ _ h)).toNat = _
    rw [toNat_pack_negative, hkept, htoNat]

theorem isInf_double {b : ℕ} (hfinite : b < binary64.infinityBits) : (double b).isInf = false := by
  rcases Nat.eq_zero_or_pos b with rfl | hpos
  · decide
  · obtain ⟨h, hunpacked⟩ := unpack_double hpos hfinite
    show isInf (double b).toModel.unpack = false
    rw [hunpacked]
    rfl

theorem double_beq_zero {b : ℕ} (hpos : 0 < b) (hfinite : b < binary64.infinityBits) :
    (double b == 0.0) = false := by
  obtain ⟨h, hunpacked⟩ := unpack_double hpos hfinite
  have hliteral : (0.0 : Float).toBits.toBitVec = packedZero doubles .positive := by decide
  show Float.Model.UnpackedFloat.beq (double b).toModel.unpack
    (unpack doubles (0.0 : Float).toBits.toBitVec) = false
  rw [hunpacked, hliteral, unpack_packedZero]
  rfl

end Cadence.Number
