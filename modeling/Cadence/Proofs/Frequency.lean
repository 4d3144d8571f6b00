import Cadence.Frequency
import Cadence.Proofs.Number.Nonnegative

/-!
# Frequencies as numbers

A double is a frequency if it is finite and above zero (`isValid_iff`).  The period of a frequency fits
in a signed word (`period_le`), and is a million divided by the frequency as far as doubles and whole
microseconds allow (`isPeriod_period`).
-/

namespace Cadence.Frequency

open Number Number.Format

theorem isValid_double {b : ℕ} (hpos : 0 < b) (hfinite : b < binary64.infinityBits) :
    isValid (double b) = true := by
  have hdecoded := decode64_double hfinite false
  rw [signed_false, parts] at hdecoded
  rw [isValid, hdecoded]
  exact decide_eq_true (mantissa_pos hpos).ne'

/-- A number is a frequency if it is finite and above zero. -/
theorem isValid_iff (hertz : Float) : isValid hertz = true ↔ hertz.isFinite = true ∧ 0.0 < hertz := by
  rw [finite_and_pos_iff]
  constructor
  · intro hvalid
    have hfinite : hertz.isFinite = true := by
      -- An infinity or a NaN is not taken apart into a mantissa.
      by_contra hinfinite
      have hbeyond := (not_congr (@isFinite_unpack Float.Model.Format.binary64 hertz.toBits.toBitVec)).1
        hinfinite
      have hnever := decode_ne_finite (f := binary64) (n := hertz.toBits.toNat) (Nat.not_lt.1 hbeyond)
      rw [isValid] at hvalid
      split at hvalid
      · rename_i hdecoded
        exact hnever _ _ _ _ hdecoded
      · cases hvalid
    obtain ⟨negative, b, hinRange, rfl⟩ := exists_double hfinite
    rw [isValid, decode64_double hinRange, parts] at hvalid
    cases negative with
    | true => cases hvalid
    | false =>
      refine ⟨b, Nat.pos_of_ne_zero ?_, hinRange, congrArg double (signed_false _ b)⟩
      rintro rfl
      exact absurd hvalid (by decide)
  · rintro ⟨b, hpos, hfinite, rfl⟩
    exact isValid_double hpos hfinite

theorem period_le (hertz : Float) : period hertz ≤ maxSigned :=
  max_le (by decide) (clampedWhole_le _ _)

/-- The period of `v` callbacks a second in microseconds.  The quotient is rounded to the nearest double
and then down to whole microseconds; it is one at least, and cut to a signed word. -/
def IsPeriod (v : ℚ) (n : ℕ) : Prop :=
  ∃ c, binary64.NearestTo (10 ^ 6 / v) c ∧ n = max 1 (min ⌊binary64.value c⌋₊ maxSigned)

/-- The period of a frequency is computed as it is to be. -/
theorem isPeriod_period {hertz : Float} (hvalid : isValid hertz = true) :
    ∃ v, 0 < v ∧ StandsFor hertz v ∧ IsPeriod v (period hertz) := by
  obtain ⟨b, hpos, hfinite, rfl⟩ := (finite_and_pos_iff hertz).1 ((isValid_iff hertz).1 hvalid)
  refine ⟨binary64.value b, value_pos hpos, standsFor_double hfinite, ?_⟩
  obtain ⟨a, hposA, hfinA, hmillion, -, -, hexact⟩ :=
    exists_significand (n := 1000000) (by decide) (by decide)
  have hliteral : ofNat64 1000000 = 1000000.0 := by decide
  have hvalue := hexact (by norm_num)
  obtain ⟨c, hnear, hquotient⟩ := div_double hposA hfinA hpos hfinite
  rw [← hmillion, hliteral] at hquotient
  have hcast : ((1000000 : ℕ) : ℚ) = 10 ^ 6 := by norm_num
  rw [hvalue, hcast] at hnear
  refine ⟨c, hnear, ?_⟩
  rw [period, hquotient, clampedWhole_min c (by decide)]

end Cadence.Frequency
