import Cadence.Proofs.Number.Doubles
import Cadence.Proofs.Number.Shortest

/-!
# Finite floats as patterns

A finite float is a sign and a pattern below that of infinity (`exists_double`, `exists_single`), and is
taken apart into its sign, its mantissa and its last place.  The single that a double is rounded to is
the pattern nearest to its value (`narrow_double`).
-/

namespace Cadence.Number

open Format Float.Model.UnpackedFloat

namespace Format

def signed (f : Format) (negative : Bool) (b : ℕ) : ℕ :=
  (if negative then f.signWeight else 0) + b

theorem signed_false (f : Format) (b : ℕ) : f.signed false b = b := Nat.zero_add b

def parts (f : Format) (negative : Bool) (b : ℕ) : Decoded :=
  .finite negative (f.mantissa b) (f.place b) (f.narrow b)

theorem decode_signed {f : Format} (negative : Bool) {b : ℕ} (hfinite : b < f.infinityBits) :
    f.decode (f.signed negative b) = f.parts negative b :=
  decode_eq negative hfinite

/-- A number below a weight with a sign or without. -/
theorem exists_signed (f : Format) {n : ℕ} (hlt : n < 2 * f.signWeight) :
    ∃ negative b, n = f.signed negative b ∧ b = n % f.signWeight := by
  rcases Nat.lt_or_ge n f.signWeight with hlow | hhigh
  · exact ⟨false, n, (Nat.zero_add n).symm, (Nat.mod_eq_of_lt hlow).symm⟩
  · refine ⟨true, n - f.signWeight, (Nat.add_sub_cancel' hhigh).symm, ?_⟩
    rw [Nat.mod_eq_sub_mod hhigh, Nat.mod_eq_of_lt (by omega)]

theorem signed_mod {f : Format} {b : ℕ} (hfinite : b < f.infinityBits) (negative : Bool) :
    f.signed negative b % f.signWeight = b ∧ f.signed negative b < 2 * f.signWeight := by
  have hlt : b < f.signWeight := hfinite.trans_le (infinityBits_le f)
  cases negative
  · rw [signed_false, Nat.mod_eq_of_lt hlt]
    omega
  · rw [signed, if_pos rfl, Nat.add_mod_left, Nat.mod_eq_of_lt hlt]
    omega

/-- From the pattern of infinity on nothing is finite. -/
theorem decode_ne_finite {f : Format} {n : ℕ} (hle : f.infinityBits ≤ n % f.signWeight) (negative : Bool)
    (m : ℕ) (q : ℤ) (narrow : Bool) : f.decode n ≠ .finite negative m q narrow := by
  have hweight : 0 < twoPow f.fractionBits := Nat.pow_pos (by decide)
  have hsplit : f.signWeight = twoPow f.exponentBits * twoPow f.fractionBits := by
    rw [signWeight, twoPow, Nat.pow_eq, Nat.pow_add, Nat.mul_comm]
    rfl
  have hpos : 0 < f.signWeight := Nat.pow_pos (by decide)
  have hlow : twoPow f.exponentBits - 1 ≤ n % f.signWeight / twoPow f.fractionBits :=
    (Nat.le_div_iff_mul_le hweight).2 hle
  have hhigh : n % f.signWeight / twoPow f.fractionBits < twoPow f.exponentBits := by
    rw [Nat.div_lt_iff_lt_mul hweight, ← hsplit]
    exact Nat.mod_lt n hpos
  rw [decode, if_pos (by omega)]
  by_cases hnone : n % f.signWeight % twoPow f.fractionBits = 0
  · rw [if_pos hnone]
    intro hsame
    cases hsame
  · rw [if_neg hnone]
    intro hsame
    cases hsame

end Format

/-- A number is finite where its pattern without sign is below that of infinity. -/
theorem isFinite_unpack {format : Float.Model.Format} (b : BitVec format.numBits) :
    (unpack format b).isFinite = true ↔
      b.toNat % 2 ^ (format.mantissaBitsWithoutImplicit + format.exponentBits) <
        (2 ^ format.exponentBits - 1) * 2 ^ format.mantissaBitsWithoutImplicit := by
  have hexponent := toNat_unpackExponent b
  have hbelow := (unpackExponent b).isLt
  have hrest := Nat.mod_lt b.toNat (Nat.two_pow_pos format.mantissaBitsWithoutImplicit)
  -- Only a full exponent field stands for no number.
  have hfull : unpackExponent b = -1#_ ↔ (unpackExponent b).toNat = 2 ^ format.exponentBits - 1 := by
    rw [← BitVec.toNat_inj, BitVec.neg_one_eq_allOnes, BitVec.toNat_allOnes]
  rw [pow_add, Nat.mod_mul, ← hexponent]
  constructor
  · intro hfinite
    have hnotFull := (not_congr hfull).1 (unpackExponent_ne b hfinite)
    have hrow : (unpackExponent b).toNat + 1 ≤ 2 ^ format.exponentBits - 1 := by omega
    have hscaled := Nat.mul_le_mul_right (2 ^ format.mantissaBitsWithoutImplicit) hrow
    rw [Nat.succ_mul, Nat.mul_comm (unpackExponent b).toNat] at hscaled
    omega
  · intro hless
    have hnotFull : unpackExponent b ≠ -1#_ := by
      intro hones
      rw [hfull.1 hones, Nat.mul_comm] at hless
      omega
    simp only [unpack, if_neg hnotFull]
    split
    · split <;> rfl
    · rfl

/-! ## 1. Doubles -/

/-- A finite double is a sign and a pattern below that of infinity. -/
theorem exists_double {x : Float} (hfinite : x.isFinite = true) :
    ∃ negative b, b < binary64.infinityBits ∧ x = double (binary64.signed negative b) := by
  obtain ⟨negative, b, hsplit, hrest⟩ := exists_signed binary64 (n := x.toBits.toNat) x.toBits.toNat_lt
  have hbelow := (@isFinite_unpack doubles x.toBits.toBitVec).1 hfinite
  refine ⟨negative, b, ?_, ?_⟩
  · rw [hrest]
    exact hbelow
  · rw [← hsplit, double, UInt64.ofNat_toNat, Float.ofBits_toBits]

theorem toBits_signed {b : ℕ} (hfinite : b < binary64.infinityBits) (negative : Bool) :
    (double (binary64.signed negative b)).toBits.toNat = binary64.signed negative b := by
  obtain ⟨hnumber, hlt⟩ := signed_mod hfinite negative
  rw [toBits_double (hnumber.trans_le hfinite.le) hlt, UInt64.toNat_ofNat_of_lt' hlt]

theorem toNat_toBits_double {b : ℕ} (hfinite : b < binary64.infinityBits) :
    (double b).toBits.toNat = b := by
  have hbits := toBits_signed hfinite false
  rwa [signed_false] at hbits

theorem isFinite_signed {b : ℕ} (hfinite : b < binary64.infinityBits) (negative : Bool) :
    (double (binary64.signed negative b)).isFinite = true := by
  obtain ⟨hnumber, -⟩ := signed_mod hfinite negative
  refine (@isFinite_unpack doubles (double (binary64.signed negative b)).toBits.toBitVec).2 ?_
  have hbits : (double (binary64.signed negative b)).toBits.toBitVec.toNat =
      binary64.signed negative b := toBits_signed hfinite negative
  rw [hbits]
  exact hnumber.trans_lt hfinite

theorem decode64_double {b : ℕ} (hfinite : b < binary64.infinityBits) (negative : Bool) :
    decode64 (double (binary64.signed negative b)) = binary64.parts negative b := by
  rw [decode64, toBits_signed hfinite, decode_signed negative hfinite]

/-- The negative of a double, or the double itself, has that sign and the same pattern. -/
theorem neg_signed {b : ℕ} (hfinite : b < binary64.infinityBits) (minus : Bool) :
    (if minus then -(double b) else double b) = double (binary64.signed minus b) := by
  cases minus
  · exact congrArg double (signed_false _ b).symm
  · exact neg_double hfinite

/-! ## 2. Singles -/

def single (b : ℕ) : Float32 := Float32.ofBits (UInt32.ofNat b)

/-- A finite single is a sign and a pattern below that of infinity. -/
theorem exists_single {x : Float32} (hfinite : x.isFinite = true) :
    ∃ negative b, b < binary32.infinityBits ∧ x = single (binary32.signed negative b) := by
  obtain ⟨negative, b, hsplit, hrest⟩ := exists_signed binary32 (n := x.toBits.toNat) x.toBits.toNat_lt
  have hbelow := (@isFinite_unpack Float.Model.Format.binary32 x.toBits.toBitVec).1 hfinite
  refine ⟨negative, b, ?_, ?_⟩
  · rw [hrest]
    exact hbelow
  · rw [← hsplit, single, UInt32.ofNat_toNat, Float32.ofBits_toBits]

theorem decode32_single {b : ℕ} (hfinite : b < binary32.infinityBits) (negative : Bool) :
    decode32 (single (binary32.signed negative b)) = binary32.parts negative b := by
  obtain ⟨hnumber, hlt⟩ := signed_mod hfinite negative
  have htoNat : (UInt32.ofNat (binary32.signed negative b)).toBitVec.toNat =
      binary32.signed negative b := UInt32.toNat_ofNat_of_lt' hlt
  have hkept := @pack_unpack Float.Model.Format.binary32
    (UInt32.ofNat (binary32.signed negative b)).toBitVec
  rw [@isNaNBits_eq_false Float.Model.Format.binary32 _
    (by rw [htoNat]; exact hnumber.trans_le hfinite.le)] at hkept
  have hbits : (single (binary32.signed negative b)).toBits =
      UInt32.ofNat (binary32.signed negative b) := UInt32.toBitVec_inj.1 hkept
  rw [decode32, hbits, UInt32.toNat_ofNat_of_lt' hlt, decode_signed negative hfinite]

/-- A double is rounded to the single nearest to its value. -/
theorem narrow_double {c : ℕ} (hfinite : c < binary64.infinityBits) (negative : Bool) {b : ℕ}
    (hnear : binary32.NearestTo (binary64.value c) b) (hinRange : b < binary32.infinityBits) :
    narrow (double (binary64.signed negative c)) = single (binary32.signed negative b) := by
  have hrounded : binary32.nearestDyadic negative (binary64.mantissa c) (binary64.place c) =
      binary32.signed negative b := by
    have hcast : ((binary64.mantissa c * twoPow (binary64.place c).toNat : ℕ) : ℚ) /
        (twoPow (-binary64.place c).toNat : ℕ) = binary64.value c := by
      rw [Nat.cast_mul, twoPow_eq, twoPow_eq, value, pow_toNat two_ne_zero]
      field_simp
    have hpos : 0 < twoPow (-binary64.place c).toNat := by
      rw [twoPow]
      exact Nat.pow_pos (by decide)
    rw [nearestDyadic, signed, nearest_eq (by decide) hnear hinRange.le hpos hcast]
  rw [narrow, decode64_double hfinite, parts, single, ← hrounded]

end Cadence.Number
