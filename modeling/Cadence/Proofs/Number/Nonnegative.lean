import Cadence.Proofs.Number.Naturals
import Cadence.Proofs.Number.Patterns

/-!
# Doubles that are not negative

A finite double that is not negative stands for a rational (`StandsFor`).  Such doubles compare as
their rationals do (`StandsFor.le_iff`), their products and quotients are the exact ones rounded to the
nearest double (`StandsFor.mul`, `StandsFor.div`), and they are rounded to natural numbers as their
rationals are.
-/

namespace Cadence.Number

open Format Float.Model.UnpackedFloat

/-! ## 1. Signs and zeros -/

def signOf (negative : Bool) : Sign := if negative then .negative else .positive

/-- A finite double is unpacked into its sign, mantissa and place. -/
theorem unpack_signed {b : ℕ} (hpos : 0 < b) (hfinite : b < binary64.infinityBits)
    (negative : Bool) :
    ∃ h, (double (binary64.signed negative b)).toModel.unpack =
      .finite (signOf negative) (binary64.mantissa b) (binary64.place b) h := by
  obtain ⟨hrest, hlt⟩ := signed_mod hfinite negative
  have hweight : binary64.signWeight = 2 ^ 63 := by decide
  rw [hweight] at hrest hlt
  obtain ⟨n, hpattern⟩ : ∃ n, n = binary64.signed negative b := ⟨_, rfl⟩
  have hsplit : n = (if negative then 2 ^ 63 else 0) + b := by
    rw [hpattern, signed, hweight]
  rw [← hpattern] at hrest hlt ⊢
  have htoNat : (UInt64.ofNat n).toBitVec.toNat = n := UInt64.toNat_ofNat_of_lt hlt
  have hbits : (double n).toModel.toBits = UInt64.ofNat n :=
    toBits_double (hrest.trans_le hfinite.le) hlt
  have hunpacked := unpack_eq (b := (UInt64.ofNat n).toBitVec) (c := b) (by omega) hpos hfinite
  rw [Float.Model.unpack, hbits]
  cases negative
  · rw [sign_of_lt (by rw [htoNat, hsplit, if_neg Bool.false_ne_true]; omega)] at hunpacked
    exact hunpacked
  · rw [sign_of_le (by rw [htoNat, hsplit, if_pos rfl]; omega)] at hunpacked
    exact hunpacked

theorem unpack_zero (negative : Bool) :
    (double (binary64.signed negative 0)).toModel.unpack = .zero (signOf negative) := by
  have hbits : (double (binary64.signed negative 0)).toModel.toBits.toBitVec =
      packedZero doubles (signOf negative) := by
    cases negative <;> decide
  rw [Float.Model.unpack, hbits, unpack_packedZero]

/-! ## 2. Patterns in order -/

theorem parts_lt {f : Format} {a b : ℕ} (hlt : a < b) :
    f.place a < f.place b ∨ f.place a = f.place b ∧ f.mantissa a < f.mantissa b := by
  rcases (place_mono (f := f) hlt.le).lt_or_eq with hless | hsame
  · exact .inl hless
  · right
    have hvalues : f.value a < f.value b := value_strictMono f hlt
    rw [value, value, hsame] at hvalues
    have hunit : (0 : ℚ) < 2 ^ f.place b := by positivity
    exact ⟨hsame, by exact_mod_cast lt_of_mul_lt_mul_right hvalues hunit.le⟩

/-- Places and then mantissas compare as the patterns do. -/
theorem compare_parts (f : Format) (a b : ℕ) :
    (compare (f.place a) (f.place b)).then (compare (f.mantissa a) (f.mantissa b)) = compare a b := by
  rcases Nat.lt_trichotomy a b with hlt | rfl | hgt
  · rw [Nat.compare_eq_lt.2 hlt]
    rcases parts_lt (f := f) hlt with hless | ⟨hsame, hless⟩
    · rw [compare_lt_iff_lt.2 hless]
      rfl
    · rw [hsame, compare_lt_iff_lt.2 hless, compare_eq_iff_eq.2 rfl]
      rfl
  · rw [compare_eq_iff_eq.2 rfl, compare_eq_iff_eq.2 rfl, compare_eq_iff_eq.2 rfl]
    rfl
  · rw [Nat.compare_eq_gt.2 hgt]
    rcases parts_lt (f := f) hgt with hless | ⟨hsame, hless⟩
    · rw [compare_gt_iff_gt.2 hless]
      rfl
    · rw [hsame, compare_gt_iff_gt.2 hless, compare_eq_iff_eq.2 rfl]
      rfl

theorem le_iff (x y : Float) :
    x ≤ y ↔ (x.toModel.unpack.compare y.toModel.unpack).any (·.isLE) = true := by
  show Float.le x y = true ↔ _
  exact decide_eq_true_iff

theorem lt_iff (x y : Float) :
    x < y ↔ (x.toModel.unpack.compare y.toModel.unpack == some .lt) = true := by
  show Float.lt x y = true ↔ _
  exact decide_eq_true_iff

/-! ## 3. Rationals that doubles stand for -/

/-- A finite double that is not negative stands for the value of its pattern.  A zero may have either
sign. -/
def StandsFor (x : Float) (v : ℚ) : Prop :=
  ∃ negative b, b < binary64.infinityBits ∧ (negative = true → b = 0) ∧
    x = double (binary64.signed negative b) ∧ v = binary64.value b

theorem standsFor_zero (negative : Bool) : StandsFor (double (binary64.signed negative 0)) 0 :=
  ⟨negative, 0, by decide, fun _ => rfl, rfl, (value_zero _).symm⟩

theorem standsFor_double {b : ℕ} (hfinite : b < binary64.infinityBits) :
    StandsFor (double b) (binary64.value b) :=
  ⟨false, b, hfinite, nofun, congrArg double (signed_false _ b).symm, rfl⟩

section

variable {x y : Float} {v w : ℚ}

/-- It is a zero, or positive. -/
theorem StandsFor.zero_or_pos (h : StandsFor x v) :
    (∃ negative, x = double (binary64.signed negative 0) ∧ v = 0) ∨
      ∃ b, 0 < b ∧ b < binary64.infinityBits ∧ x = double b ∧ v = binary64.value b := by
  obtain ⟨negative, b, hfinite, hunsigned, rfl, rfl⟩ := h
  rcases Nat.eq_zero_or_pos b with rfl | hpos
  · exact .inl ⟨negative, rfl, value_zero _⟩
  · cases negative with
    | true => exact absurd (hunsigned rfl) hpos.ne'
    | false => exact .inr ⟨b, hpos, hfinite, congrArg double (signed_false _ b), rfl⟩

theorem StandsFor.nonneg (h : StandsFor x v) : 0 ≤ v := by
  obtain ⟨-, b, -, -, -, rfl⟩ := h
  exact value_nonneg _ b

theorem value_pos {f : Format} {b : ℕ} (hpos : 0 < b) : 0 < f.value b := by
  rw [← value_zero f]
  exact value_strictMono f hpos

/-- Doubles are compared as the numbers that they stand for. -/
theorem StandsFor.le_iff (hx : StandsFor x v) (hy : StandsFor y w) : x ≤ y ↔ v ≤ w := by
  rw [Number.le_iff]
  rcases hx.zero_or_pos with ⟨s, rfl, rfl⟩ | ⟨a, hposA, hfinA, rfl, rfl⟩
  · refine iff_of_true ?_ hy.nonneg
    rcases hy.zero_or_pos with ⟨t, rfl, rfl⟩ | ⟨b, hposB, hfinB, rfl, rfl⟩
    · rw [unpack_zero, unpack_zero]
      rfl
    · obtain ⟨_, hunpacked⟩ := unpack_double hposB hfinB
      rw [unpack_zero, hunpacked]
      rfl
  · obtain ⟨_, hunpackA⟩ := unpack_double hposA hfinA
    rcases hy.zero_or_pos with ⟨t, rfl, rfl⟩ | ⟨b, hposB, hfinB, rfl, rfl⟩
    · refine iff_of_false ?_ (value_pos hposA).not_ge
      rw [hunpackA, unpack_zero]
      exact Bool.false_ne_true
    · obtain ⟨_, hunpackB⟩ := unpack_double hposB hfinB
      rw [hunpackA, hunpackB, (value_strictMono binary64).le_iff_le]
      show Ordering.isLE (Ordering.then _ _) = true ↔ _
      rw [compare_parts, Nat.isLE_compare]

theorem zero_eq : (0.0 : Float) = double (binary64.signed false 0) := by decide

/-- Between zero and a number there are only numbers. -/
theorem StandsFor.of_between (hy : StandsFor y w) (hnonneg : 0.0 ≤ x) (hatMost : x ≤ y) :
    ∃ v, StandsFor x v ∧ v ≤ w := by
  have hfinite : x.isFinite = true := by
    rw [Number.le_iff, zero_eq, unpack_zero] at hnonneg
    rw [Number.le_iff] at hatMost
    show x.toModel.unpack.isFinite = true
    generalize x.toModel.unpack = u at hnonneg hatMost
    -- What is between numbers is neither a NaN nor an infinity.
    cases u with
    | zero s => rfl
    | finite s m e h => rfl
    | notANumber => cases hnonneg
    | infinity s =>
      cases s with
      | negative => cases hnonneg
      | positive =>
        rcases hy.zero_or_pos with ⟨t, rfl, -⟩ | ⟨b, hposB, hfinB, rfl, -⟩
        · rw [unpack_zero] at hatMost
          cases hatMost
        · obtain ⟨_, hunpackB⟩ := unpack_double hposB hfinB
          rw [hunpackB] at hatMost
          cases hatMost
  obtain ⟨negative, b, hinRange, rfl⟩ := exists_double hfinite
  -- Of the numbers with a minus only the zero is not below zero.
  have hunsigned : negative = true → b = 0 := by
    rintro rfl
    by_contra hsome
    obtain ⟨_, hunpacked⟩ := unpack_signed (Nat.pos_of_ne_zero hsome) hinRange true
    rw [Number.le_iff, zero_eq, unpack_zero, hunpacked] at hnonneg
    cases hnonneg
  have hstands : StandsFor (double (binary64.signed negative b)) (binary64.value b) :=
    ⟨negative, b, hinRange, hunsigned, rfl, rfl⟩
  exact ⟨_, hstands, (hstands.le_iff hy).1 hatMost⟩

/-- A double that is finite and above zero is a pattern without sign. -/
theorem finite_and_pos_iff (x : Float) :
    x.isFinite = true ∧ 0.0 < x ↔ ∃ b, 0 < b ∧ b < binary64.infinityBits ∧ x = double b := by
  constructor
  · rintro ⟨hfinite, habove⟩
    obtain ⟨negative, b, hinRange, rfl⟩ := exists_double hfinite
    rw [lt_iff, zero_eq, unpack_zero] at habove
    rcases Nat.eq_zero_or_pos b with rfl | hpos
    · rw [unpack_zero] at habove
      cases habove
    · obtain ⟨_, hunpacked⟩ := unpack_signed hpos hinRange negative
      rw [hunpacked] at habove
      cases negative with
      | true => cases habove
      | false => exact ⟨b, hpos, hinRange, congrArg double (signed_false _ b)⟩
  · rintro ⟨b, hpos, hinRange, rfl⟩
    obtain ⟨_, hunpacked⟩ := unpack_double hpos hinRange
    refine ⟨?_, ?_⟩
    · show (double b).toModel.unpack.isFinite = true
      rw [hunpacked]
      rfl
    · rw [lt_iff, zero_eq, unpack_zero, hunpacked]
      rfl

/-! ## 4. Operations -/

theorem nearestTo_zero (f : Format) : f.NearestTo 0 0 := by
  have hnearest := nearestTo_value f 0
  rw [value_zero] at hnearest
  exact hnearest

/-- What is packed as a zero is one. -/
theorem exists_zero (s : Sign) :
    ∃ t, Float.ofModel (.pack (.zero s)) = double (binary64.signed t 0) := by
  cases s with
  | negative => exact ⟨true, by decide⟩
  | positive => exact ⟨false, by decide⟩

theorem StandsFor.mul_of_zero_left (hy : StandsFor y w) (s : Bool) :
    ∃ t, double (binary64.signed s 0) * y = double (binary64.signed t 0) := by
  show ∃ t, Float.ofModel (.pack (mul doubles (double (binary64.signed s 0)).toModel.unpack
    y.toModel.unpack)) = _
  rw [unpack_zero]
  rcases hy.zero_or_pos with ⟨t, rfl, -⟩ | ⟨b, hposB, hfinB, rfl, -⟩
  · rw [unpack_zero]
    exact exists_zero _
  · obtain ⟨_, hunpackB⟩ := unpack_double hposB hfinB
    rw [hunpackB]
    exact exists_zero _

theorem StandsFor.mul_of_zero_right (hx : StandsFor x v) (s : Bool) :
    ∃ t, x * double (binary64.signed s 0) = double (binary64.signed t 0) := by
  show ∃ t, Float.ofModel (.pack (mul doubles x.toModel.unpack
    (double (binary64.signed s 0)).toModel.unpack)) = _
  rw [unpack_zero]
  rcases hx.zero_or_pos with ⟨t, rfl, -⟩ | ⟨a, hposA, hfinA, rfl, -⟩
  · rw [unpack_zero]
    exact exists_zero _
  · obtain ⟨_, hunpackA⟩ := unpack_double hposA hfinA
    rw [hunpackA]
    exact exists_zero _

theorem zero_div_double (s : Bool) {b : ℕ} (hpos : 0 < b) (hfinite : b < binary64.infinityBits) :
    ∃ t, double (binary64.signed s 0) / double b = double (binary64.signed t 0) := by
  show ∃ t, Float.ofModel (.pack (div doubles (double (binary64.signed s 0)).toModel.unpack
    (double b).toModel.unpack)) = _
  obtain ⟨_, hunpacked⟩ := unpack_double hpos hfinite
  rw [unpack_zero, hunpacked]
  exact exists_zero _

/-- A product is the exact one, rounded. -/
theorem StandsFor.mul (hx : StandsFor x v) (hy : StandsFor y w) :
    ∃ c, binary64.NearestTo (v * w) c ∧
      (c < binary64.infinityBits → StandsFor (x * y) (binary64.value c)) := by
  rcases hx.zero_or_pos with ⟨s, rfl, rfl⟩ | ⟨a, hposA, hfinA, rfl, rfl⟩
  · obtain ⟨t, hproduct⟩ := hy.mul_of_zero_left s
    rw [zero_mul, hproduct]
    exact ⟨0, nearestTo_zero _, fun _ => by rw [value_zero]; exact standsFor_zero t⟩
  rcases hy.zero_or_pos with ⟨s, rfl, rfl⟩ | ⟨b, hposB, hfinB, rfl, rfl⟩
  · obtain ⟨t, hproduct⟩ := hx.mul_of_zero_right s
    rw [mul_zero, hproduct]
    exact ⟨0, nearestTo_zero _, fun _ => by rw [value_zero]; exact standsFor_zero t⟩
  · obtain ⟨c, hnear, hproduct⟩ := mul_double hposA hfinA hposB hfinB
    refine ⟨c, hnear, fun hfinite => ?_⟩
    rw [hproduct, min_eq_left hfinite.le]
    exact standsFor_double hfinite

/-- A quotient is the exact one, rounded. -/
theorem StandsFor.div (hx : StandsFor x v) (hy : StandsFor y w) (hpos : 0 < w) :
    ∃ c, binary64.NearestTo (v / w) c ∧
      (c < binary64.infinityBits → StandsFor (x / y) (binary64.value c)) := by
  rcases hy.zero_or_pos with ⟨s, rfl, rfl⟩ | ⟨b, hposB, hfinB, rfl, rfl⟩
  · exact absurd hpos (lt_irrefl 0)
  rcases hx.zero_or_pos with ⟨s, rfl, rfl⟩ | ⟨a, hposA, hfinA, rfl, rfl⟩
  · obtain ⟨t, hquotient⟩ := zero_div_double s hposB hfinB
    rw [zero_div, hquotient]
    exact ⟨0, nearestTo_zero _, fun _ => by rw [value_zero]; exact standsFor_zero t⟩
  · obtain ⟨c, hnear, hquotient⟩ := div_double hposA hfinA hposB hfinB
    refine ⟨c, hnear, fun hfinite => ?_⟩
    rw [hquotient, min_eq_left hfinite.le]
    exact standsFor_double hfinite

/-- A natural number that fits in a word is rounded to a double. -/
theorem exists_standsFor_ofNat64 {n : ℕ} (hfits : n ≤ maxWord) :
    ∃ c, binary64.NearestTo n c ∧ StandsFor (ofNat64 n) (binary64.value c) ∧
      (n ≤ 2 ^ 53 → binary64.value c = n) := by
  rcases Nat.eq_zero_or_pos n with rfl | hpos
  · rw [Nat.cast_zero]
    exact ⟨0, nearestTo_zero _, standsFor_double (by decide), fun _ => value_zero _⟩
  · obtain ⟨c, -, hfinite, hrounded, hnear, -, hexact⟩ := exists_significand hpos hfits
    rw [hrounded]
    exact ⟨c, hnear, standsFor_double hfinite, hexact⟩

/-! ## 5. Rounding to natural numbers -/

theorem wholePart_eq (m : ℕ) (q : ℤ) : wholePart m q = ⌊(m * 2 ^ q : ℚ)⌋₊ := by
  have hquotient : ((m * twoPow q.toNat : ℕ) : ℚ) / (twoPow (-q).toNat : ℕ) = m * 2 ^ q := by
    rw [Nat.cast_mul, twoPow_eq, twoPow_eq, pow_toNat two_ne_zero]
    field_simp
  rw [wholePart, ← hquotient, Nat.floor_div_eq_div]

theorem roundHalfUp_eq (m : ℕ) (q : ℤ) : roundHalfUp m q = ⌊(m * 2 ^ q + 1 / 2 : ℚ)⌋₊ := by
  have hquotient : ((2 * m * twoPow q.toNat + twoPow (-q).toNat : ℕ) : ℚ) /
      (2 * twoPow (-q).toNat : ℕ) = m * 2 ^ q + 1 / 2 := by
    rw [Nat.cast_add, Nat.cast_mul, Nat.cast_mul, Nat.cast_mul, Nat.cast_two, twoPow_eq, twoPow_eq,
      pow_toNat two_ne_zero]
    field_simp
  rw [roundHalfUp, ← hquotient, Nat.floor_div_eq_div]

/-- The nearest natural number is the whole part of the number with a half added to it. -/
theorem StandsFor.roundedNat_eq (hx : StandsFor x v) : roundedNat x = ⌊v + 1 / 2⌋₊ := by
  obtain ⟨negative, b, hfinite, hunsigned, rfl, rfl⟩ := hx
  rw [roundedNat, decode64_double hfinite, parts]
  cases negative with
  | true =>
    rw [hunsigned rfl, value_zero]
    norm_num
  | false => rw [value, ← roundHalfUp_eq]

/-- Up to the limit, the whole part of a double is that of the number. -/
theorem StandsFor.clampedWhole_eq (hx : StandsFor x v) (limit : ℕ) :
    clampedWhole limit x = min ⌊v⌋₊ limit := by
  obtain ⟨negative, b, hfinite, hunsigned, rfl, rfl⟩ := hx
  rw [clampedWhole, decode64_double hfinite, parts]
  cases negative with
  | true =>
    rw [hunsigned rfl, value_zero, Nat.floor_zero, Nat.zero_min]
    rfl
  | false =>
    rw [value, ← wholePart_eq]
    rfl

end

theorem clampedWhole_le (limit : ℕ) (x : Float) : clampedWhole limit x ≤ limit := by
  rw [clampedWhole]
  cases decode64 x with
  | nan => exact Nat.zero_le _
  | infinite negative =>
    cases negative with
    | true => exact Nat.zero_le _
    | false => exact Nat.le_refl _
  | finite negative m q narrow =>
    cases negative with
    | true => exact Nat.zero_le _
    | false => exact Nat.min_le_right _ _

/-- Where a result is too large for a double, its whole part is beyond the limit anyway. -/
theorem clampedWhole_min (c : ℕ) {limit : ℕ} (hsmall : limit ≤ maxWord) :
    clampedWhole limit (double (min c binary64.infinityBits)) = min ⌊binary64.value c⌋₊ limit := by
  rcases Nat.lt_or_ge c binary64.infinityBits with hfinite | hinfinite
  · rw [min_eq_left hfinite.le, (standsFor_double hfinite).clampedWhole_eq]
  · have hdecoded : decode64 (double binary64.infinityBits) = .infinite false := by decide
    have hlarge : (limit : ℚ) ≤ binary64.value c := by
      calc (limit : ℚ) ≤ binary64.value (binary64.infinityBits - 1) := word_le_largest hsmall
        _ ≤ binary64.value c := (value_strictMono binary64).monotone (by omega)
    rw [min_eq_right hinfinite, clampedWhole, hdecoded, min_eq_right (Nat.le_floor hlarge)]
    rfl

end Cadence.Number
