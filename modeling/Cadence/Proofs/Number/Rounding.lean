import Cadence.Number.Binary
import Mathlib.Algebra.Order.Field.Power
import Mathlib.Algebra.Order.Field.Rat
import Mathlib.Tactic.FieldSimp
import Mathlib.Tactic.Linarith
import Mathlib.Tactic.Positivity
import Mathlib.Tactic.Ring

/-!
# Rounding to a format

The bit patterns of a format without sign, in order, stand for an increasing row of rationals
(`value`).  `NearestTo x b` says that `b` is the pattern nearest to `x`, an exact half going to the even
one; there is one such pattern for every `x` (`NearestTo.unique`), it grows with `x` (`NearestTo.mono`),
and `Format.nearest` finds it (`nearest_spec`).
-/

namespace Cadence.Number.Format

variable {f : Format}

/-! ## 1. The values of bit patterns -/

def place (f : Format) (b : ℕ) : ℤ :=
  f.leastExponent + (b / 2 ^ f.fractionBits - 1 : ℕ)

def mantissa (f : Format) (b : ℕ) : ℕ :=
  if b / 2 ^ f.fractionBits = 0 then b else 2 ^ f.fractionBits + b % 2 ^ f.fractionBits

def value (f : Format) (b : ℕ) : ℚ :=
  f.mantissa b * 2 ^ f.place b

/-- A bit pattern as a number of units with `fractionBits` binary digits behind the first, or of the
least units. -/
structure Parts (f : Format) (b k m : ℕ) : Prop where
  split : b = k * 2 ^ f.fractionBits + m
  small : m < 2 ^ (f.fractionBits + 1)
  normal : k = 0 ∨ 2 ^ f.fractionBits ≤ m

theorem two_pow_succ_eq (n : ℕ) : 2 ^ (n + 1) = 2 ^ n + 2 ^ n := by ring

theorem exists_parts (f : Format) (b : ℕ) : ∃ k m, f.Parts b k m := by
  have hweight : 0 < 2 ^ f.fractionBits := by positivity
  have hbelow := Nat.mod_lt b hweight
  have hwhole := Nat.div_add_mod b (2 ^ f.fractionBits)
  have htwice := two_pow_succ_eq f.fractionBits
  rcases Nat.eq_zero_or_pos (b / 2 ^ f.fractionBits) with hsubnormal | hnormal
  · refine ⟨0, b, by ring, ?_, .inl rfl⟩
    rw [hsubnormal] at hwhole
    omega
  · obtain ⟨k, hfield⟩ := Nat.exists_eq_succ_of_ne_zero hnormal.ne'
    refine ⟨k, 2 ^ f.fractionBits + b % 2 ^ f.fractionBits, ?_, by omega, .inr (by omega)⟩
    rw [hfield, Nat.mul_succ, Nat.mul_comm] at hwhole
    omega

theorem Parts.div_eq {b k m : ℕ} (hparts : f.Parts b k m) :
    b / 2 ^ f.fractionBits = k + m / 2 ^ f.fractionBits := by
  rw [hparts.split, Nat.add_comm, Nat.add_mul_div_right _ _ (by positivity), Nat.add_comm]

/-- A mantissa is either below the weight of its first digit or has that digit once. -/
theorem Parts.digit {b k m : ℕ} (hparts : f.Parts b k m) :
    (m < 2 ^ f.fractionBits ∧ m / 2 ^ f.fractionBits = 0 ∧ k = 0) ∨
      (2 ^ f.fractionBits ≤ m ∧ m / 2 ^ f.fractionBits = 1) := by
  have hsmall := hparts.small
  rw [two_pow_succ_eq] at hsmall
  rcases Nat.lt_or_ge m (2 ^ f.fractionBits) with hlow | hhigh
  · refine .inl ⟨hlow, Nat.div_eq_of_lt hlow, ?_⟩
    rcases hparts.normal with hzero | hnormal
    · exact hzero
    · omega
  · exact .inr ⟨hhigh, Nat.div_eq_of_lt_le (by omega) (by omega)⟩

theorem Parts.place_eq {b k m : ℕ} (hparts : f.Parts b k m) : f.place b = f.leastExponent + k := by
  rw [place, hparts.div_eq]
  rcases hparts.digit with ⟨-, hnone, hzero⟩ | ⟨-, hone⟩
  · rw [hnone, hzero]
  · rw [hone, Nat.add_sub_cancel]

theorem Parts.mantissa_eq {b k m : ℕ} (hparts : f.Parts b k m) : f.mantissa b = m := by
  rw [mantissa, hparts.div_eq]
  rcases hparts.digit with ⟨-, hnone, hzero⟩ | ⟨hhigh, hone⟩
  · rw [if_pos (by omega), hparts.split, hzero, Nat.zero_mul, Nat.zero_add]
  · have hsmall := hparts.small
    rw [two_pow_succ_eq] at hsmall
    have hfraction : m % 2 ^ f.fractionBits = m - 2 ^ f.fractionBits := by
      rw [Nat.mod_eq_sub_mod hhigh, Nat.mod_eq_of_lt (by omega)]
    rw [if_neg (by omega), hparts.split, Nat.mul_add_mod', hfraction]
    omega

theorem Parts.value_eq {b k m : ℕ} (hparts : f.Parts b k m) :
    f.value b = m * 2 ^ (f.leastExponent + k) := by
  rw [value, hparts.mantissa_eq, hparts.place_eq]

/-- A mantissa that is a power of two may stand for the first one of the next row. -/
theorem value_of_split {b k m : ℕ} (hsplit : b = k * 2 ^ f.fractionBits + m)
    (hsmall : m ≤ 2 ^ (f.fractionBits + 1)) (hnormal : k = 0 ∨ 2 ^ f.fractionBits ≤ m) :
    f.value b = m * 2 ^ (f.leastExponent + k) := by
  rcases hsmall.lt_or_eq with hsmall | rfl
  · exact Parts.value_eq ⟨hsplit, hsmall, hnormal⟩
  · have hnext : f.Parts b (k + 1) (2 ^ f.fractionBits) := by
      refine ⟨?_, ?_, .inr le_rfl⟩
      · rw [hsplit, two_pow_succ_eq]
        ring
      · rw [two_pow_succ_eq]
        have hweight : 0 < 2 ^ f.fractionBits := by positivity
        omega
    rw [hnext.value_eq]
    push_cast
    rw [← add_assoc, zpow_add_one₀ (by norm_num), pow_succ]
    ring

theorem value_zero (f : Format) : f.value 0 = 0 := by
  rw [value_of_split (by ring : 0 = 0 * 2 ^ f.fractionBits + 0) (by positivity) (.inl rfl)]
  simp

theorem value_succ (f : Format) (b : ℕ) : f.value (b + 1) = f.value b + 2 ^ f.place b := by
  obtain ⟨k, m, hparts⟩ := exists_parts f b
  have hnext : b + 1 = k * 2 ^ f.fractionBits + (m + 1) := by
    rw [hparts.split]
    ring
  rw [value_of_split hnext hparts.small (hparts.normal.imp_right Nat.le_succ_of_le), hparts.value_eq,
    hparts.place_eq]
  push_cast
  ring

theorem value_strictMono (f : Format) : StrictMono f.value := by
  refine strictMono_nat_of_lt_succ fun b => ?_
  rw [value_succ]
  have hstep : (0 : ℚ) < 2 ^ f.place b := by positivity
  linarith

theorem value_nonneg (f : Format) (b : ℕ) : 0 ≤ f.value b := by
  rw [value]
  positivity

/-! ## 2. The nearest bit pattern -/

/-- A bit pattern is nearest to a rational that is not negative: no other is nearer, and an exact half
goes to an even one. -/
structure NearestTo (f : Format) (x : ℚ) (b : ℕ) : Prop where
  upper : 2 * x ≤ f.value b + f.value (b + 1)
  lower : f.value (b - 1) + f.value b ≤ 2 * x
  strict : b % 2 = 1 →
    2 * x < f.value b + f.value (b + 1) ∧ f.value (b - 1) + f.value b < 2 * x

/-- Where a smaller number is rounded up over a larger one, both are the same half. -/
theorem NearestTo.not_above {x y : ℚ} {b c : ℕ} (hx : f.NearestTo x b) (hy : f.NearestTo y c)
    (hle : x ≤ y) : ¬ c < b := by
  intro hlt
  have hmono := (value_strictMono f).monotone
  have hlow : f.value c ≤ f.value (b - 1) := hmono (by omega)
  have hhigh : f.value (c + 1) ≤ f.value b := hmono hlt
  have hbelow := hx.lower
  have habove := hy.upper
  have hnext : b = c + 1 := by
    have hsame : f.value (c + 1) = f.value b := by linarith
    exact ((value_strictMono f).injective hsame).symm
  rcases Nat.mod_two_eq_zero_or_one b with heven | hodd
  · have hstrict := (hy.strict (by omega)).1
    linarith
  · have hstrict := (hx.strict hodd).2
    linarith

theorem NearestTo.unique {x : ℚ} {b c : ℕ} (hb : f.NearestTo x b) (hc : f.NearestTo x c) : b = c :=
  le_antisymm (not_lt.1 (hb.not_above hc le_rfl)) (not_lt.1 (hc.not_above hb le_rfl))

theorem NearestTo.mono {x y : ℚ} {b c : ℕ} (hx : f.NearestTo x b) (hy : f.NearestTo y c)
    (hle : x ≤ y) : b ≤ c :=
  not_lt.1 (hx.not_above hy hle)

/-- A number that is the value of a pattern is rounded to it. -/
theorem nearestTo_value (f : Format) (b : ℕ) : f.NearestTo (f.value b) b := by
  have hup : f.value b < f.value (b + 1) := value_strictMono f (Nat.lt_succ_self b)
  have hdown : f.value (b - 1) ≤ f.value b := (value_strictMono f).monotone (Nat.sub_le b 1)
  refine ⟨by linarith, by linarith, fun hodd => ⟨by linarith, ?_⟩⟩
  have hstrictly : f.value (b - 1) < f.value b := value_strictMono f (by omega)
  linarith

def leastNormal (f : Format) : ℕ := 2 ^ f.fractionBits

theorem value_leastNormal (f : Format) :
    f.value f.leastNormal = 2 ^ f.fractionBits * 2 ^ f.leastExponent := by
  have hweight : 0 < 2 ^ f.fractionBits := by positivity
  have hsmall : 2 ^ f.fractionBits ≤ 2 ^ (f.fractionBits + 1) := by
    rw [two_pow_succ_eq]
    omega
  rw [leastNormal, value_of_split (k := 0) (m := 2 ^ f.fractionBits) (by ring) hsmall (.inl rfl)]
  simp

/-- One unit in the last place is small against a number with all its digits. -/
theorem two_pow_place_le {b : ℕ} (hnormal : f.leastNormal ≤ b) :
    2 ^ f.place b * 2 ^ f.fractionBits ≤ f.value b := by
  obtain ⟨k, m, hparts⟩ := exists_parts f b
  have hfull : 2 ^ f.fractionBits ≤ m := by
    rcases hparts.normal with hzero | hfull
    · have hsplit := hparts.split
      rw [hzero, Nat.zero_mul, Nat.zero_add] at hsplit
      rw [leastNormal, hsplit] at hnormal
      exact hnormal
    · exact hfull
  rw [value, hparts.mantissa_eq, mul_comm]
  have hcast : (2 : ℚ) ^ f.fractionBits ≤ m := by exact_mod_cast hfull
  have hstep : (0 : ℚ) < 2 ^ f.place b := by positivity
  nlinarith

theorem place_pred_le (f : Format) (b : ℕ) : f.value b - f.value (b - 1) ≤ 2 ^ f.place (b - 1) := by
  rcases Nat.eq_zero_or_pos b with rfl | hpos
  · rw [sub_self]
    positivity
  · have hnext := value_succ f (b - 1)
    rw [Nat.sub_add_cancel hpos] at hnext
    linarith

/-- Rounding a number of the normal range changes it by at most half a unit of its last digit. -/
theorem NearestTo.abs_sub_le {x : ℚ} {b : ℕ} (hx : f.NearestTo x b)
    (hnormal : f.value f.leastNormal ≤ x) :
    |f.value b - x| * (2 ^ (f.fractionBits + 1) + 1) ≤ x := by
  have hreached : f.leastNormal ≤ b := (nearestTo_value f f.leastNormal).mono hx hnormal
  have habove := hx.upper
  have hbelow := hx.lower
  rw [value_succ] at habove
  have hweight : (0 : ℚ) < 2 ^ f.fractionBits := by positivity
  rw [mul_add, mul_one, pow_succ, ← mul_assoc]
  -- The gap to the neighbour on that side is what the error is half of.
  rcases le_total (f.value b) x with hlow | hhigh
  · rw [abs_of_nonpos (by linarith)]
    have hunit := two_pow_place_le hreached
    have hhalf : 2 * (x - f.value b) ≤ 2 ^ f.place b := by linarith
    have hscaled := mul_le_mul_of_nonneg_right hhalf hweight.le
    linarith
  · rw [abs_of_nonneg (by linarith)]
    rcases hreached.eq_or_lt with rfl | hmore
    · have hsame : x = f.value f.leastNormal := le_antisymm hhigh hnormal
      rw [← hsame, sub_self]
      linarith [value_nonneg f f.leastNormal]
    · have hunit := two_pow_place_le (f := f) (b := b - 1) (by omega)
      have hgap := place_pred_le f b
      have hhalf : 2 * (f.value b - x) ≤ 2 ^ f.place (b - 1) := by linarith
      have hscaled := mul_le_mul_of_nonneg_right hhalf hweight.le
      linarith

/-! ## 3. Rounding to whole units -/

/-- The whole number nearest to a rational, an exact half going to the even one. -/
structure RoundsTo (x : ℚ) (m : ℕ) : Prop where
  upper : 2 * x ≤ 2 * m + 1
  lower : 2 * m - 1 ≤ 2 * x
  strict : m % 2 = 1 → 2 * x < 2 * m + 1 ∧ 2 * m - 1 < 2 * x

theorem RoundsTo.le {x : ℚ} {m n : ℕ} (h : RoundsTo x m) (hle : x ≤ n) : m ≤ n := by
  have hlt : (m : ℚ) < n + 1 := by linarith [h.lower]
  exact Nat.le_of_lt_succ (by exact_mod_cast hlt)

theorem RoundsTo.ge {x : ℚ} {m n : ℕ} (h : RoundsTo x m) (hge : (n : ℚ) ≤ x) : n ≤ m := by
  have hlt : (n : ℚ) < m + 1 := by linarith [h.upper]
  exact Nat.le_of_lt_succ (by exact_mod_cast hlt)

/-- A quotient is its whole part and a rest, which is the remainder in units of the divisor. -/
theorem exists_rest (num : ℕ) {den : ℕ} (hpos : 0 < den) :
    ∃ rest : ℚ, (num : ℚ) / den = (num / den : ℕ) + rest ∧ rest * den = (num % den : ℕ) := by
  have hdenominator : (den : ℚ) ≠ 0 := by exact_mod_cast hpos.ne'
  have hwhole : (den : ℚ) * (num / den : ℕ) + (num % den : ℕ) = num := by
    exact_mod_cast Nat.div_add_mod num den
  refine ⟨(num % den : ℕ) / den, ?_, div_mul_cancel₀ _ hdenominator⟩
  field_simp
  linarith

/-- How twice the rest of a quotient compares with one is how twice the remainder compares with the
divisor. -/
theorem rest_cases {num den : ℕ} {rest : ℚ} (hpos : 0 < den)
    (hscaled : rest * den = (num % den : ℕ)) :
    0 ≤ rest ∧ rest < 1 ∧ (rest = 0 ↔ num % den = 0) ∧ (2 * rest < 1 ↔ 2 * (num % den) < den) ∧
      (1 < 2 * rest ↔ den < 2 * (num % den)) := by
  have hdenominator : (0 : ℚ) < den := by exact_mod_cast hpos
  have hbelow : num % den < den := Nat.mod_lt num hpos
  have hsame : rest = (num % den : ℕ) / den := by
    rw [← hscaled, mul_div_cancel_right₀ _ hdenominator.ne']
  rw [hsame]
  refine ⟨by positivity, ?_, ?_, ?_, ?_⟩
  · rw [div_lt_one hdenominator]
    exact_mod_cast hbelow
  · rw [div_eq_zero_iff, or_iff_left hdenominator.ne', Nat.cast_eq_zero]
  · rw [mul_div_assoc', div_lt_one hdenominator]
    exact_mod_cast Iff.rfl
  · rw [mul_div_assoc', one_lt_div hdenominator]
    exact_mod_cast Iff.rfl

/-- The division rounds to the nearest whole number. -/
theorem divRoundEven_roundsTo (num : ℕ) {den : ℕ} (hpos : 0 < den) :
    RoundsTo (num / den) (divRoundEven num den) := by
  obtain ⟨rest, hwhole, hscaled⟩ := exists_rest num hpos
  obtain ⟨hnonneg, hfull, -, hleast, hmost⟩ := rest_cases hpos hscaled
  have hnext : ((num / den + 1 : ℕ) : ℚ) = (num / den : ℕ) + 1 := Nat.cast_succ _
  rw [hwhole]
  -- How the rest compares with a half decides which way it goes.
  simp only [divRoundEven]
  split
  · rename_i hlt
    have hsmall := hleast.2 hlt
    exact ⟨by linarith, by linarith, fun _ => ⟨by linarith, by linarith⟩⟩
  · split
    · rename_i hlt
      have hlarge := hmost.2 hlt
      exact ⟨by linarith, by linarith, fun _ => ⟨by linarith, by linarith⟩⟩
    · rename_i hnotLess hnotMore
      have hhalf : 2 * rest = 1 :=
        le_antisymm (not_lt.1 (mt hmost.1 hnotMore)) (not_lt.1 (mt hleast.1 hnotLess))
      split
      · rename_i heven
        exact ⟨by linarith, by linarith, fun hodd => by omega⟩
      · rename_i hodd
        exact ⟨by linarith, by linarith, fun hodd' => by omega⟩

theorem le_place {b k m : ℕ} (hsplit : b = k * 2 ^ f.fractionBits + m)
    (hnormal : k = 0 ∨ 2 ^ f.fractionBits ≤ m) : f.leastExponent + k ≤ f.place b := by
  have hrows : k ≤ b / 2 ^ f.fractionBits - 1 := by
    rcases hnormal with hzero | hfull
    · omega
    · have hnext : (k + 1) * 2 ^ f.fractionBits ≤ b := by
        rw [hsplit, Nat.succ_mul]
        omega
      have hleast := (Nat.le_div_iff_mul_le (by positivity)).2 hnext
      omega
  rw [place]
  omega

/-- To round to a format is to round to whole units of the right last place. -/
theorem nearestTo_of_roundsTo {x : ℚ} {k m : ℕ} (hf : 0 < f.fractionBits) (hnonneg : 0 ≤ x)
    (hsmall : x < 2 ^ (f.fractionBits + 1) * 2 ^ (f.leastExponent + k))
    (hnormal : k = 0 ∨ 2 ^ f.fractionBits * 2 ^ (f.leastExponent + k) ≤ x)
    (hrounds : RoundsTo (x / 2 ^ (f.leastExponent + k)) m) :
    f.NearestTo x (k * 2 ^ f.fractionBits + m) := by
  have hpos : (0 : ℚ) < 2 ^ (f.leastExponent + (k : ℤ)) := by positivity
  have hatMost : m ≤ 2 ^ (f.fractionBits + 1) := by
    refine hrounds.le ?_
    rw [div_le_iff₀ hpos]
    push_cast
    exact hsmall.le
  have hfull : k = 0 ∨ 2 ^ f.fractionBits ≤ m := by
    refine hnormal.imp_right fun hle => hrounds.ge ?_
    rw [le_div_iff₀ hpos]
    push_cast
    exact hle
  obtain ⟨hupper, hlower, hstrict⟩ := hrounds
  obtain ⟨unit, hunit⟩ : ∃ u : ℚ, u = 2 ^ (f.leastExponent + k) := ⟨_, rfl⟩
  rw [← hunit] at hpos hsmall hnormal hupper hlower hstrict
  rw [mul_div_assoc', div_le_iff₀ hpos] at hupper
  rw [mul_div_assoc', le_div_iff₀ hpos] at hlower
  rw [mul_div_assoc', div_lt_iff₀ hpos, lt_div_iff₀ hpos] at hstrict
  obtain ⟨b, hsplit⟩ : ∃ b, b = k * 2 ^ f.fractionBits + m := ⟨_, rfl⟩
  rw [← hsplit]
  have hhere : f.value b = m * unit := by
    rw [hunit]
    exact value_of_split hsplit hatMost hfull
  have hnext : unit ≤ f.value (b + 1) - f.value b := by
    rw [value_succ, add_sub_cancel_left, hunit]
    exact zpow_le_zpow_right₀ (by norm_num) (le_place hsplit hfull)
  have heven : Even (2 ^ f.fractionBits) := (Nat.even_pow.2 ⟨even_two, hf.ne'⟩)
  have hparity : b % 2 = m % 2 := by
    have hevenRow : k * 2 ^ f.fractionBits % 2 = 0 := Nat.even_iff.1 (heven.mul_left k)
    omega
  -- Within a row the number before is one unit below.
  have hbelow (hsome : 0 < m) (hinRow : k = 0 ∨ 2 ^ f.fractionBits < m) :
      f.value (b - 1) = (m - 1) * unit := by
    have hbefore : b - 1 = k * 2 ^ f.fractionBits + (m - 1) := by omega
    rw [← Nat.cast_pred hsome, hunit]
    exact value_of_split hbefore (by omega) (hinRow.imp_right fun hlt => by omega)
  refine ⟨by linarith, ?_, fun hodd => ?_⟩
  · rcases Nat.eq_zero_or_pos m with rfl | hsome
    · have hzero : b = 0 := by
        rcases hfull with rfl | hnone
        · omega
        · have hweight : 0 < 2 ^ f.fractionBits := by positivity
          omega
      rw [hzero, value_zero]
      linarith
    · by_cases hinRow : k = 0 ∨ 2 ^ f.fractionBits < m
      · linarith [hbelow hsome hinRow]
      · -- The first number of a row is not above what is rounded to it.
        have hfirst : m = 2 ^ f.fractionBits := by omega
        have hle : 2 ^ f.fractionBits * unit ≤ x := hnormal.resolve_left (by omega)
        have hmono : f.value (b - 1) ≤ f.value b := (value_strictMono f).monotone (Nat.sub_le b 1)
        rw [hfirst] at hhere
        push_cast at hhere
        linarith
  · rw [hparity] at hodd
    obtain ⟨hless, hmore⟩ := hstrict hodd
    have hinRow : k = 0 ∨ 2 ^ f.fractionBits < m := by
      refine hfull.imp_right fun hle => lt_of_le_of_ne hle fun hsame => ?_
      rw [← hsame, Nat.even_iff.1 heven] at hodd
      cases hodd
    have hbefore := hbelow (by omega) hinRow
    exact ⟨by linarith, by linarith⟩

/-! ## 4. Finding the nearest bit pattern -/

/-- A natural number lies between two powers of two that are next to each other. -/
theorem log2_bounds {n : ℕ} (hpos : 0 < n) :
    (2 : ℚ) ^ (n.log2 : ℤ) ≤ n ∧ (n : ℚ) < 2 * 2 ^ (n.log2 : ℤ) := by
  have hlow : 2 ^ n.log2 ≤ n := Nat.log2_self_le hpos.ne'
  have hhigh : n < 2 ^ (n.log2 + 1) := Nat.lt_log2_self
  rw [zpow_natCast]
  constructor
  · exact_mod_cast hlow
  · rw [mul_comm, ← pow_succ]
    exact_mod_cast hhigh

theorem twoPow_eq (n : ℕ) : (twoPow n : ℚ) = 2 ^ n := by
  rw [twoPow, Nat.pow_eq]
  push_cast
  rfl

/-- A negative power of two is compared on the other side. -/
theorem short_iff (num : ℕ) {den : ℕ} (hden : 0 < den) (n : ℕ) (g : ℤ) :
    (if 0 ≤ g then num < twoPow (n + g.toNat) * den else num * twoPow (-g).toNat < twoPow n * den) ↔
      (num : ℚ) / den < 2 ^ n * 2 ^ g := by
  have hdenominator : (0 : ℚ) < den := by exact_mod_cast hden
  rw [div_lt_iff₀ hdenominator]
  split
  · rename_i hnonneg
    obtain ⟨k, rfl⟩ := Int.eq_ofNat_of_zero_le hnonneg
    rw [← Nat.cast_lt (α := ℚ)]
    push_cast
    rw [twoPow_eq, Int.toNat_natCast, zpow_natCast, pow_add]
  · rename_i hnegative
    obtain ⟨k, hsame⟩ := Int.eq_ofNat_of_zero_le (by omega : 0 ≤ -g)
    have hpower : (2 : ℚ) ^ g = (2 ^ k)⁻¹ := by
      rw [← neg_neg g, hsame, zpow_neg, zpow_natCast]
    have hweight : (0 : ℚ) < 2 ^ k := by positivity
    rw [← Nat.cast_lt (α := ℚ), hsame, hpower]
    push_cast
    rw [twoPow_eq, twoPow_eq, Int.toNat_natCast, mul_assoc, inv_mul_eq_div, mul_div_assoc',
      lt_div_iff₀ hweight]

/-- The last place that is taken leaves as many binary digits as there are, or is the least. -/
theorem lastPlace_spec (f : Format) {num den : ℕ} (hnum : 0 < num) (hden : 0 < den) :
    ∃ k : ℕ, f.lastPlace num den = f.leastExponent + k ∧
      (num : ℚ) / den < 2 ^ (f.fractionBits + 1) * 2 ^ (f.leastExponent + k) ∧
      (k = 0 ∨ 2 ^ f.fractionBits * 2 ^ (f.leastExponent + k) ≤ (num : ℚ) / den) := by
  obtain ⟨hlowNum, hhighNum⟩ := log2_bounds hnum
  obtain ⟨hlowDen, hhighDen⟩ := log2_bounds hden
  obtain ⟨g, hguess⟩ : ∃ g : ℤ, g = (num.log2 : ℤ) - den.log2 - f.fractionBits := ⟨_, rfl⟩
  have hdenominator : (0 : ℚ) < den := by exact_mod_cast hden
  have htwo (i : ℤ) : (2 : ℚ) ^ (i + 1) = 2 * 2 ^ i := by
    rw [zpow_add_one₀ (by norm_num), mul_comm]
  have hscale : (2 : ℚ) ^ f.fractionBits * 2 ^ g * 2 ^ (den.log2 : ℤ) = 2 ^ (num.log2 : ℤ) := by
    rw [← zpow_natCast, ← zpow_add₀ (by norm_num), ← zpow_add₀ (by norm_num)]
    congr 1
    omega
  have hunit : (0 : ℚ) < 2 ^ f.fractionBits * 2 ^ g := by positivity
  have habove : (num : ℚ) / den < 2 * (2 ^ f.fractionBits * 2 ^ g) := by
    rw [div_lt_iff₀ hdenominator]
    nlinarith
  have hbelow : (2 : ℚ) ^ f.fractionBits * 2 ^ g ≤ 2 * (num / den) := by
    rw [mul_div_assoc', le_div_iff₀ hdenominator]
    nlinarith
  -- The place that leaves all digits, whether or not there is such a pattern.
  obtain ⟨q, hfound, hsmall, hnormal⟩ : ∃ q : ℤ,
      f.lastPlace num den = max q f.leastExponent ∧
        (num : ℚ) / den < 2 ^ (f.fractionBits + 1) * 2 ^ q ∧
        2 ^ f.fractionBits * 2 ^ q ≤ (num : ℚ) / den := by
    by_cases hshort : (num : ℚ) / den < 2 ^ f.fractionBits * 2 ^ g
    · refine ⟨g - 1, ?_, ?_, ?_⟩
      · have hisShort := (short_iff num hden f.fractionBits g).2 hshort
        rw [lastPlace, ← hguess]
        simp only [hisShort, if_true]
      · rw [pow_succ, mul_assoc, ← htwo, sub_add_cancel]
        exact hshort
      · have hhalf := htwo (g - 1)
        rw [sub_add_cancel] at hhalf
        rw [hhalf] at hbelow
        linarith
    · refine ⟨g, ?_, ?_, not_lt.1 hshort⟩
      · have hlong := mt (short_iff num hden f.fractionBits g).1 hshort
        rw [lastPlace, ← hguess]
        simp only [hlong, if_false]
      · rw [pow_succ]
        linarith
  refine ⟨(max q f.leastExponent - f.leastExponent).toNat, by omega, ?_, ?_⟩
  · refine hsmall.trans_le ?_
    have hmore : (2 : ℚ) ^ q ≤ 2 ^ (f.leastExponent +
        ((max q f.leastExponent - f.leastExponent).toNat : ℤ)) :=
      zpow_le_zpow_right₀ (by norm_num) (by omega)
    exact mul_le_mul_of_nonneg_left hmore (by positivity)
  · rcases le_or_gt q f.leastExponent with hleast | hmore
    · exact .inl (by omega)
    · right
      have hsame : f.leastExponent + ((max q f.leastExponent - f.leastExponent).toNat : ℤ) = q := by
        omega
      rw [hsame]
      exact hnormal

/-- A quotient in units of a power of two, as the quotient that is rounded. -/
theorem divRoundEven_units (num : ℕ) {den : ℕ} (hden : 0 < den) (q : ℤ) :
    RoundsTo ((num : ℚ) / den / 2 ^ q)
      (if 0 ≤ q then divRoundEven num (den * twoPow q.toNat)
        else divRoundEven (num * twoPow (-q).toNat) den) := by
  split
  · rename_i hnonneg
    obtain ⟨k, rfl⟩ := Int.eq_ofNat_of_zero_le hnonneg
    have hweight : 0 < twoPow k := Nat.two_pow_pos k
    have hrounds := divRoundEven_roundsTo num (Nat.mul_pos hden hweight)
    rw [Nat.cast_mul, twoPow_eq] at hrounds
    rw [Int.toNat_natCast, zpow_natCast, div_div]
    exact hrounds
  · rename_i hnegative
    obtain ⟨k, hsame⟩ := Int.eq_ofNat_of_zero_le (by omega : 0 ≤ -q)
    have hpower : (2 : ℚ) ^ q = (2 ^ k)⁻¹ := by
      rw [← neg_neg q, hsame, zpow_neg, zpow_natCast]
    have hrounds := divRoundEven_roundsTo (num * twoPow k) hden
    rw [Nat.cast_mul, twoPow_eq] at hrounds
    rw [hsame, Int.toNat_natCast, hpower, div_inv_eq_mul, div_mul_eq_mul_div]
    exact hrounds

/-- The nearest bit pattern is found, but for those from infinity on. -/
theorem nearest_spec (hf : 0 < f.fractionBits) (num : ℕ) {den : ℕ} (hden : 0 < den) :
    ∃ b, f.NearestTo (num / den) b ∧ f.nearest num den = min b f.infinityBits := by
  rcases Nat.eq_zero_or_pos num with rfl | hnum
  · refine ⟨0, ?_, (Nat.zero_min _).symm⟩
    have hzero := nearestTo_value f 0
    rw [value_zero] at hzero
    simpa using hzero
  obtain ⟨k, hplace, hsmall, hnormal⟩ := lastPlace_spec f hnum hden
  have hrounds := divRoundEven_units num hden (f.leastExponent + k)
  refine ⟨_, nearestTo_of_roundsTo hf (by positivity) hsmall hnormal hrounds, ?_⟩
  rw [nearest, if_neg hnum.ne', hplace]
  simp only [add_sub_cancel_left, Int.toNat_natCast]
  rfl

/-- Where a finite pattern is the nearest, it is found. -/
theorem nearest_eq {x : ℚ} {b : ℕ} (hf : 0 < f.fractionBits) (hx : f.NearestTo x b)
    (hfinite : b ≤ f.infinityBits) {num den : ℕ} (hden : 0 < den) (hsame : (num : ℚ) / den = x) :
    f.nearest num den = b := by
  obtain ⟨c, hc, hfound⟩ := nearest_spec hf num hden
  rw [hsame] at hc
  rw [hfound, hc.unique hx]
  exact min_eq_left hfinite

end Cadence.Number.Format
