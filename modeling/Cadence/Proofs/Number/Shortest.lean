import Cadence.Number.Shortest
import Cadence.Proofs.Number.Rounding
import Mathlib.Algebra.Order.Floor.Semiring
import Mathlib.Data.Rat.Floor

/-!
# The shortest decimals

The search for a shortest decimal looks at coarser grids first and takes the point of the first grid
that has one among the numbers that round to the float.  What it finds (`IsShortest`) rounds to the
float, no coarser grid has such a number, and none of its own grid is nearer to the float.
-/

namespace Cadence.Number

open Format

variable {f : Format}

/-! ## 1. The numbers that round to a bit pattern -/

namespace Format

def narrow (f : Format) (b : ℕ) : Bool :=
  decide (b % 2 ^ f.fractionBits = 0 ∧ 1 < b / 2 ^ f.fractionBits)

def around (f : Format) (b : ℕ) : Reals :=
  .around (f.mantissa b) (f.place b) (f.narrow b)

theorem infinityBits_le (f : Format) : f.infinityBits ≤ f.signWeight := by
  rw [infinityBits, signWeight, twoPow, twoPow, twoPow, Nat.pow_eq, Nat.pow_eq, Nat.pow_eq, pow_add,
    Nat.mul_comm (2 ^ f.fractionBits)]
  exact Nat.mul_le_mul_right _ (Nat.sub_le _ _)

/-- A pattern below that of infinity is taken apart into its mantissa and its last place. -/
theorem decode_eq (negative : Bool) {b : ℕ} (hfinite : b < f.infinityBits) :
    f.decode ((if negative then f.signWeight else 0) + b) =
      .finite negative (f.mantissa b) (f.place b) (f.narrow b) := by
  have hweight : 0 < 2 ^ f.fractionBits := by positivity
  have hrows : 0 < 2 ^ f.exponentBits := by positivity
  have hbelow : b / 2 ^ f.fractionBits < 2 ^ f.exponentBits - 1 :=
    (Nat.div_lt_iff_lt_mul hweight).2 hfinite
  have hlt : b < f.signWeight := hfinite.trans_le (infinityBits_le f)
  -- The sign is the first digit, and the rest is `b`.
  have hsign : decide (f.signWeight ≤ (if negative then f.signWeight else 0) + b) = negative := by
    cases negative
    · simpa using hlt
    · simp
  have hmagnitude : ((if negative then f.signWeight else 0) + b) % f.signWeight = b := by
    cases negative
    · simpa using Nat.mod_eq_of_lt hlt
    · simpa using Nat.mod_eq_of_lt hlt
  simp only [decode, hsign, hmagnitude, twoPow, Nat.pow_eq, if_neg hbelow.ne, mantissa, place, narrow]
  split
  · rename_i hnone
    have hwhole : b % 2 ^ f.fractionBits = b := by
      rw [Nat.mod_eq_of_lt]
      exact (Nat.div_eq_zero_iff_lt hweight).1 hnone
    simp [hnone, hwhole]
  · rename_i hsome
    rw [Nat.cast_pred (Nat.pos_of_ne_zero hsome)]

/-- Only the first number of a row has a smaller neighbour of another row. -/
theorem place_pred {b : ℕ} (hpos : 0 < b) :
    f.place (b - 1) = if f.narrow b then f.place b - 1 else f.place b := by
  have hweight : 0 < 2 ^ f.fractionBits := by positivity
  simp only [place, narrow, decide_eq_true_eq]
  generalize 2 ^ f.fractionBits = w at hweight
  have hwhole := Nat.div_add_mod b w
  split
  · rename_i hfirst
    obtain ⟨hnone, hmany⟩ := hfirst
    have hbefore : (b - 1) / w = b / w - 1 := by
      refine Nat.div_eq_of_lt_le ?_ ?_
      · rw [Nat.sub_one_mul, Nat.mul_comm]
        omega
      · rw [Nat.sub_add_cancel (by omega), Nat.mul_comm]
        omega
    rw [hbefore]
    omega
  · rename_i hinside
    -- The first two rows have the same place.
    rcases Nat.eq_zero_or_pos (b % w) with hnone | hsome
    · have hone : b / w ≤ 1 := by
        by_contra hmany
        exact hinside ⟨hnone, not_le.1 hmany⟩
      have hbefore : (b - 1) / w ≤ b / w := Nat.div_le_div_right (Nat.sub_le b 1)
      omega
    · have hbefore : (b - 1) / w = b / w := by
        refine Nat.div_eq_of_lt_le ?_ ?_
        · rw [Nat.mul_comm]
          omega
        · rw [Nat.succ_mul, Nat.mul_comm]
          have hrest := Nat.mod_lt b hweight
          omega
      rw [hbefore]

theorem value_pred {b : ℕ} (hpos : 0 < b) :
    f.value (b - 1) = f.value b - 2 ^ f.place b * if f.narrow b then 1 / 2 else 1 := by
  have hnext := value_succ f (b - 1)
  rw [Nat.sub_add_cancel hpos, place_pred hpos] at hnext
  rw [hnext]
  split
  · rw [zpow_sub_one₀ (by norm_num)]
    ring
  · ring

theorem mantissa_pos {b : ℕ} (hpos : 0 < b) : 0 < f.mantissa b := by
  rw [mantissa]
  split
  · exact hpos
  · positivity

theorem mantissa_mod_two (hf : 0 < f.fractionBits) (b : ℕ) : f.mantissa b % 2 = b % 2 := by
  have heven : 2 ∣ 2 ^ f.fractionBits := dvd_pow_self 2 hf.ne'
  rw [mantissa]
  split
  · rfl
  · rw [Nat.add_mod, Nat.mod_eq_zero_of_dvd heven, Nat.zero_add, Nat.mod_mod,
      Nat.mod_mod_of_dvd b heven]

theorem NearestTo.between {x y z : ℚ} {b : ℕ} (hx : f.NearestTo x b) (hz : f.NearestTo z b)
    (hle : x ≤ y) (hle' : y ≤ z) : f.NearestTo y b :=
  ⟨by linarith [hz.upper], by linarith [hx.lower], fun hodd =>
    ⟨by linarith [(hz.strict hodd).1], by linarith [(hx.strict hodd).2]⟩⟩

end Format

/-! ## 2. The scale of a grid -/

/-- A power with an exponent that may be negative, in whole numbers. -/
theorem pow_toNat {a : ℚ} (ha : a ≠ 0) (i : ℤ) : a ^ i.toNat = a ^ i * a ^ (-i).toNat := by
  rw [← zpow_natCast, ← zpow_natCast, ← zpow_add₀ ha]
  congr 1
  omega

theorem tenPow_eq (n : ℕ) : (tenPow n : ℚ) = 10 ^ n := by
  rw [tenPow, Nat.pow_eq]
  push_cast
  rfl

namespace Reals

def factor (r : Reals) (e : ℤ) : ℚ :=
  2 ^ (-r.exponent).toNat * 10 ^ (-e).toNat

theorem factor_pos (r : Reals) (e : ℤ) : 0 < r.factor e := by
  rw [factor]
  positivity

theorem scaled_eq (r : Reals) (e : ℤ) (units : ℕ) :
    (r.scaled e units : ℚ) = units * 2 ^ r.exponent * r.factor e := by
  rw [scaled, Nat.cast_mul, Nat.cast_mul, twoPow_eq, tenPow_eq, pow_toNat two_ne_zero, factor]
  ring

theorem step_eq (r : Reals) (e : ℤ) : (r.step e : ℚ) = 10 ^ e * r.factor e := by
  rw [step, Nat.cast_mul, twoPow_eq, tenPow_eq, pow_toNat (by norm_num), factor]
  ring

theorem scaled_le_iff (r : Reals) (e : ℤ) (units j : ℕ) :
    r.scaled e units ≤ j * r.step e ↔ (units * 2 ^ r.exponent : ℚ) ≤ j * 10 ^ e := by
  rw [← Nat.cast_le (α := ℚ), Nat.cast_mul, scaled_eq, step_eq, ← mul_assoc,
    mul_le_mul_iff_left₀ (r.factor_pos e)]

theorem le_scaled_iff (r : Reals) (e : ℤ) (units j : ℕ) :
    j * r.step e ≤ r.scaled e units ↔ (j * 10 ^ e : ℚ) ≤ units * 2 ^ r.exponent := by
  rw [← Nat.cast_le (α := ℚ), Nat.cast_mul, scaled_eq, step_eq, ← mul_assoc,
    mul_le_mul_iff_left₀ (r.factor_pos e)]

end Reals

/-! ## 3. The nearest point of a grid -/

/-- Between the number and a point that rounds to it, all round to it. -/
theorem nearestTo_below {b : ℕ} {e : ℤ} {i k : ℕ} (hnearest : f.NearestTo (i * 10 ^ e) b) (hle : i ≤ k)
    (hlow : (k * 10 ^ e : ℚ) ≤ f.value b) :
    f.NearestTo (k * 10 ^ e) b ∧ |k * 10 ^ e - f.value b| ≤ |i * 10 ^ e - f.value b| := by
  have hcast : (i : ℚ) * 10 ^ e ≤ k * 10 ^ e :=
    mul_le_mul_of_nonneg_right (by exact_mod_cast hle) (by positivity)
  refine ⟨hnearest.between (nearestTo_value f b) hcast hlow, ?_⟩
  rw [abs_of_nonpos (by linarith), abs_of_nonpos (by linarith)]
  linarith

theorem nearestTo_above {b : ℕ} {e : ℤ} {i k : ℕ} (hnearest : f.NearestTo (i * 10 ^ e) b) (hle : k ≤ i)
    (hhigh : f.value b ≤ k * 10 ^ e) :
    f.NearestTo (k * 10 ^ e) b ∧ |k * 10 ^ e - f.value b| ≤ |i * 10 ^ e - f.value b| := by
  have hcast : (k : ℚ) * 10 ^ e ≤ i * 10 ^ e :=
    mul_le_mul_of_nonneg_right (by exact_mod_cast hle) (by positivity)
  refine ⟨(nearestTo_value f b).between hnearest hhigh hcast, ?_⟩
  rw [abs_of_nonneg (by linarith), abs_of_nonneg (by linarith)]
  linarith

structure IsClosest (f : Format) (b : ℕ) (e : ℤ) (j : ℕ) : Prop where
  nearest : f.NearestTo (j * 10 ^ e) b
  closest : ∀ i : ℕ, f.NearestTo (i * 10 ^ e) b →
    |j * 10 ^ e - f.value b| ≤ |i * 10 ^ e - f.value b|

section Neighbours

variable {b : ℕ} {e : ℤ} {k : ℕ} (hlow : (k * 10 ^ e : ℚ) ≤ f.value b)
  (hhigh : f.value b < (k + 1 : ℕ) * 10 ^ e)
include hlow hhigh

/-- Of the two points next to the number, one is closest unless the other is nearer and counts. -/
theorem closest_below (hhit : f.NearestTo (k * 10 ^ e) b)
    (hother : f.NearestTo ((k + 1 : ℕ) * 10 ^ e) b →
      f.value b - k * 10 ^ e ≤ (k + 1 : ℕ) * 10 ^ e - f.value b) : IsClosest f b e k := by
  refine ⟨hhit, fun i hnearest => ?_⟩
  rcases Nat.lt_or_ge k i with habove | hnotAbove
  · obtain ⟨hhitAbove, hle⟩ := nearestTo_above hnearest habove hhigh.le
    refine le_trans ?_ hle
    rw [abs_of_nonpos (by linarith), abs_of_nonneg (by linarith)]
    linarith [hother hhitAbove]
  · exact (nearestTo_below hnearest hnotAbove hlow).2

theorem closest_above (hhit : f.NearestTo ((k + 1 : ℕ) * 10 ^ e) b)
    (hother : f.NearestTo (k * 10 ^ e) b →
      (k + 1 : ℕ) * 10 ^ e - f.value b ≤ f.value b - k * 10 ^ e) : IsClosest f b e (k + 1) := by
  refine ⟨hhit, fun i hnearest => ?_⟩
  rcases Nat.lt_or_ge k i with habove | hnotAbove
  · exact (nearestTo_above hnearest habove hhigh.le).2
  · obtain ⟨hhitBelow, hle⟩ := nearestTo_below hnearest hnotAbove hlow
    refine le_trans ?_ hle
    rw [abs_of_nonneg (by linarith), abs_of_nonpos (by linarith)]
    linarith [hother hhitBelow]

end Neighbours

section Grid

variable {b : ℕ} (hpos : 0 < b)
include hpos

/-- The ends of the interval are the means of the number and its neighbours. -/
theorem around_ends :
    ((f.around b).lower * 2 ^ (f.around b).exponent : ℚ) = (f.value (b - 1) + f.value b) / 2 ∧
    ((f.around b).middle * 2 ^ (f.around b).exponent : ℚ) = f.value b ∧
    ((f.around b).upper * 2 ^ (f.around b).exponent : ℚ) = (f.value b + f.value (b + 1)) / 2 := by
  have hsome := mantissa_pos (f := f) hpos
  have hquarter : (2 : ℚ) ^ (f.place b - 2) = 2 ^ f.place b / 4 := by
    rw [zpow_sub₀ (by norm_num)]
    norm_num
  rw [value_succ, value_pred hpos, value]
  simp only [around, Reals.around, hquarter]
  refine ⟨?_, ?_, ?_⟩
  · split
    · rw [Nat.cast_sub (by omega)]
      push_cast
      ring
    · rw [Nat.cast_sub (by omega)]
      push_cast
      ring
  · push_cast
    ring
  · push_cast
    ring

/-- The points of a grid that the search accepts are those that round to the bit pattern. -/
theorem contains_iff (hf : 0 < f.fractionBits) (e : ℤ) (j : ℕ) :
    (f.around b).contains e j = true ↔ f.NearestTo (j * 10 ^ e) b := by
  obtain ⟨hlower, -, hupper⟩ := around_ends (f := f) hpos
  -- The ends round to the even one of two neighbours.
  have hclosed : (f.around b).closed = (b % 2 == 0) := by
    rw [← mantissa_mod_two hf b]
    rfl
  simp only [Reals.contains, hclosed, beq_iff_eq, ← not_le, Reals.scaled_le_iff, Reals.le_scaled_iff,
    hlower, hupper]
  split
  · rename_i heven
    rw [decide_eq_true_iff]
    constructor
    · rintro ⟨habove, hbelow⟩
      exact ⟨by linarith, by linarith, fun hodd => by omega⟩
    · intro hnearest
      exact ⟨by linarith [hnearest.lower], by linarith [hnearest.upper]⟩
  · rename_i hnotEven
    rw [decide_eq_true_iff, not_le, not_le]
    constructor
    · rintro ⟨habove, hbelow⟩
      exact ⟨by linarith, by linarith, fun _ => ⟨by linarith, by linarith⟩⟩
    · intro hnearest
      obtain ⟨hbelow, habove⟩ := hnearest.strict (by omega)
      exact ⟨by linarith, by linarith⟩

/-- The grid point below the number and the one above it. -/
theorem below_le (e : ℤ) {k : ℕ}
    (hbelow : k = (f.around b).scaled e (f.around b).middle / (f.around b).step e) :
    (k * 10 ^ e : ℚ) ≤ f.value b ∧ f.value b < (k + 1 : ℕ) * 10 ^ e := by
  obtain ⟨-, hmiddle, -⟩ := around_ends (f := f) hpos
  have hstep : 0 < (f.around b).step e := by
    rw [Reals.step, tenPow, twoPow]
    exact Nat.mul_pos (Nat.pow_pos (by decide)) (Nat.pow_pos (by decide))
  rw [← hmiddle]
  constructor
  · rw [← Reals.le_scaled_iff, hbelow]
    exact Nat.div_mul_le_self _ _
  · by_contra hnotAbove
    have habove : (f.around b).scaled e (f.around b).middle < (k + 1) * (f.around b).step e := by
      rw [hbelow]
      exact Nat.lt_mul_of_div_lt (Nat.lt_succ_self _) hstep
    exact absurd ((Reals.le_scaled_iff _ _ _ _).2 (not_lt.1 hnotAbove)) (not_le.2 habove)

/-- How far the two are away, on the scale of the grid. -/
theorem distances_eq (e : ℤ) {k : ℕ}
    (hbelow : k = (f.around b).scaled e (f.around b).middle / (f.around b).step e) :
    (((f.around b).scaled e (f.around b).middle - k * (f.around b).step e : ℕ) : ℚ) =
        (f.value b - k * 10 ^ e) * (f.around b).factor e ∧
      (((k + 1) * (f.around b).step e - (f.around b).scaled e (f.around b).middle : ℕ) : ℚ) =
        ((k + 1 : ℕ) * 10 ^ e - f.value b) * (f.around b).factor e := by
  obtain ⟨-, hmiddle, -⟩ := around_ends (f := f) hpos
  obtain ⟨hlow, hhigh⟩ := below_le hpos e hbelow
  rw [← hmiddle] at hlow hhigh ⊢
  rw [Nat.cast_sub ((Reals.le_scaled_iff _ _ _ _).2 hlow),
    Nat.cast_sub ((Reals.scaled_le_iff _ _ _ _).2 hhigh.le), Nat.cast_mul, Nat.cast_mul,
    Reals.scaled_eq, Reals.step_eq]
  constructor <;> ring

/-- The search compares the distances as they are. -/
theorem below_nearer_iff (e : ℤ) {k : ℕ}
    (hbelow : k = (f.around b).scaled e (f.around b).middle / (f.around b).step e) :
    (f.around b).scaled e (f.around b).middle - k * (f.around b).step e ≤
        (k + 1) * (f.around b).step e - (f.around b).scaled e (f.around b).middle ↔
      f.value b - k * 10 ^ e ≤ (k + 1 : ℕ) * 10 ^ e - f.value b := by
  obtain ⟨htoBelow, htoAbove⟩ := distances_eq hpos e hbelow
  rw [← Nat.cast_le (α := ℚ), htoBelow, htoAbove, mul_le_mul_iff_left₀ ((f.around b).factor_pos e)]

theorem above_nearer_iff (e : ℤ) {k : ℕ}
    (hbelow : k = (f.around b).scaled e (f.around b).middle / (f.around b).step e) :
    (k + 1) * (f.around b).step e - (f.around b).scaled e (f.around b).middle ≤
        (f.around b).scaled e (f.around b).middle - k * (f.around b).step e ↔
      (k + 1 : ℕ) * 10 ^ e - f.value b ≤ f.value b - k * 10 ^ e := by
  obtain ⟨htoBelow, htoAbove⟩ := distances_eq hpos e hbelow
  rw [← Nat.cast_le (α := ℚ), htoBelow, htoAbove, mul_le_mul_iff_left₀ ((f.around b).factor_pos e)]

variable (hf : 0 < f.fractionBits)
include hf

/-- A grid on which nothing is found has no point that rounds to the bit pattern. -/
theorem not_nearestTo_of_nearestOn {tie : Tie} {e : ℤ}
    (hnone : (f.around b).nearestOn tie e = none) (j : ℕ) : ¬ f.NearestTo (j * 10 ^ e) b := by
  intro hnearest
  obtain ⟨k, hbelow⟩ : ∃ k, k = (f.around b).scaled e (f.around b).middle / (f.around b).step e :=
    ⟨_, rfl⟩
  obtain ⟨hlow, hhigh⟩ := below_le hpos e hbelow
  -- Nothing is found only if both points next to the number are missed.
  have hmissed : (f.around b).contains e k = false ∧ (f.around b).contains e (k + 1) = false := by
    simp only [Reals.nearestOn, ← hbelow] at hnone
    split at hnone
    · exact ⟨‹_›, ‹_›⟩
    · cases hnone
    · cases hnone
    · split at hnone
      · cases hnone
      · split at hnone
        · cases hnone
        · split at hnone <;> cases hnone
  -- A point that rounds to the number would have one of the two between.
  rcases Nat.lt_or_ge k j with habove | hnotAbove
  · have hhit := (contains_iff hpos hf e (k + 1)).2 (nearestTo_above hnearest habove hhigh.le).1
    rw [hmissed.2] at hhit
    cases hhit
  · have hhit := (contains_iff hpos hf e k).2 (nearestTo_below hnearest hnotAbove hlow).1
    rw [hmissed.1] at hhit
    cases hhit

/-- What is found on a grid is nearest to the number among the points that round to it. -/
theorem nearestOn_spec {tie : Tie} {e : ℤ} {j : ℕ} (hfound : (f.around b).nearestOn tie e = some j) :
    IsClosest f b e j := by
  obtain ⟨k, hbelow⟩ : ∃ k, k = (f.around b).scaled e (f.around b).middle / (f.around b).step e :=
    ⟨_, rfl⟩
  obtain ⟨hlow, hhigh⟩ := below_le hpos e hbelow
  have hhit (n : ℕ) (h : (f.around b).contains e n = true) := (contains_iff hpos hf e n).1 h
  have hmiss (n : ℕ) (h : (f.around b).contains e n = false) : ¬ f.NearestTo (n * 10 ^ e) b := by
    rw [← contains_iff hpos hf, h]
    exact Bool.false_ne_true
  have hbelowNearer := below_nearer_iff hpos e hbelow
  have haboveNearer := above_nearer_iff hpos e hbelow
  -- The search takes the only one of the two that counts, or else the nearer one.
  simp only [Reals.nearestOn, ← hbelow] at hfound
  split at hfound
  · cases hfound
  · rename_i hhitBelow hmissAbove
    obtain rfl := Option.some.inj hfound
    exact closest_below hlow hhigh (hhit _ hhitBelow) fun habove => absurd habove (hmiss _ hmissAbove)
  · rename_i hmissBelow hhitAbove
    obtain rfl := Option.some.inj hfound
    exact closest_above hlow hhigh (hhit _ hhitAbove) fun hbelow => absurd hbelow (hmiss _ hmissBelow)
  · rename_i hhitBelow hhitAbove
    have hchooseBelow := closest_below hlow hhigh (hhit _ hhitBelow)
    have hchooseAbove := closest_above hlow hhigh (hhit _ hhitAbove)
    split at hfound
    · rename_i hless
      obtain rfl := Option.some.inj hfound
      exact hchooseBelow fun _ => hbelowNearer.1 hless.le
    · rename_i hnotLess
      have habove := hchooseAbove fun _ => haboveNearer.1 (not_lt.1 hnotLess)
      split at hfound
      · obtain rfl := Option.some.inj hfound
        exact habove
      · rename_i hnotMore
        have hbelow := hchooseBelow fun _ => hbelowNearer.1 (not_lt.1 hnotMore)
        split at hfound
        · obtain rfl := Option.some.inj hfound
          exact habove
        · obtain rfl := Option.some.inj hfound
          split
          · exact hbelow
          · exact habove

end Grid

/-! ## 4. The coarsest grid -/

/-- The first of a row of grids on which something is found. -/
theorem findSome_row {α : Type} (p : ℤ → Option α) (top : ℤ) (n : ℕ) :
    (((List.range n).map fun k : ℕ => top - (k : ℤ)).findSome? p = none ∧
        ∀ k < n, p (top - (k : ℤ)) = none) ∨
      ∃ k < n, ∃ d, ((List.range n).map fun k : ℕ => top - (k : ℤ)).findSome? p = some d ∧
        p (top - (k : ℤ)) = some d ∧ ∀ i < k, p (top - (i : ℤ)) = none := by
  induction n with
  | zero => exact .inl ⟨rfl, fun k hlt => absurd hlt (Nat.not_lt_zero k)⟩
  | succ n ih =>
    rw [List.range_succ, List.map_append, List.findSome?_append]
    rcases ih with ⟨hnothing, hall⟩ | ⟨k, hlt, d, hfound, hhere, hbefore⟩
    · rw [hnothing, Option.none_or, List.map_cons, List.map_nil, List.findSome?_cons]
      cases hlast : p (top - (n : ℤ)) with
      | some d => exact .inr ⟨n, Nat.lt_succ_self n, d, rfl, hlast, hall⟩
      | none =>
        refine .inl ⟨rfl, fun k hlt => ?_⟩
        rcases Nat.lt_succ_iff_lt_or_eq.1 hlt with hbefore | rfl
        · exact hall k hbefore
        · exact hlast
    · rw [hfound]
      exact .inr ⟨k, Nat.lt_succ_of_lt hlt, d, rfl, hhere, hbefore⟩

/-- A shortest decimal of a bit pattern: it rounds to the pattern, no number of a coarser grid does, and
of its own grid none that does is nearer. -/
structure IsShortest (f : Format) (b : ℕ) (d : Decimal) : Prop where
  nearest : f.NearestTo (d.digits * 10 ^ d.exponent) b
  coarsest : ∀ e : ℤ, d.exponent < e → e ≤ 309 → ∀ j : ℕ, ¬ f.NearestTo (j * 10 ^ e) b
  closest : ∀ i : ℕ, f.NearestTo (i * 10 ^ d.exponent) b →
    |d.digits * 10 ^ d.exponent - f.value b| ≤ |i * 10 ^ d.exponent - f.value b|
  least : -330 ≤ d.exponent
  most : d.exponent ≤ 309

/-- What lies below a number and rounds to a smaller one lies below the mean of the two. -/
theorem le_of_not_nearestTo {x : ℚ} {b : ℕ} (hfar : ¬ f.NearestTo x b) (hle : x ≤ f.value b) :
    2 * x ≤ f.value (b - 1) + f.value b := by
  by_contra habove
  have hnext : f.value b < f.value (b + 1) := value_strictMono f (Nat.lt_succ_self b)
  exact hfar ⟨by linarith, by linarith, fun _ => ⟨by linarith, by linarith⟩⟩

theorem ge_of_not_nearestTo {x : ℚ} {b : ℕ} (hfar : ¬ f.NearestTo x b) (hge : f.value b ≤ x) :
    f.value b + f.value (b + 1) ≤ 2 * x := by
  by_contra hbelow
  rcases Nat.eq_zero_or_pos b with rfl | hpos
  · refine hfar ⟨by linarith, ?_, fun hodd => by omega⟩
    rw [value_zero] at *
    linarith
  · have hbefore : f.value (b - 1) < f.value b := value_strictMono f (by omega)
    exact hfar ⟨by linarith, by linarith, fun _ => ⟨by linarith, by linarith⟩⟩

/-- A grid without a number that rounds to a pattern is not much finer than the place of the pattern. -/
theorem place_le_of_missed {b : ℕ} (hpos : 0 < b) {e : ℤ}
    (hmissed : ∀ j : ℕ, ¬ f.NearestTo (j * 10 ^ e) b) :
    3 * 2 ^ f.place b ≤ (4 * 10 ^ e : ℚ) := by
  have hstep : (0 : ℚ) < 10 ^ e := by positivity
  have hunit : (0 : ℚ) < 2 ^ f.place b := by positivity
  obtain ⟨k, hlow, hhigh⟩ :
      ∃ k : ℕ, (k : ℚ) * 10 ^ e ≤ f.value b ∧ f.value b < (k + 1 : ℕ) * 10 ^ e := by
    have hnonneg : 0 ≤ f.value b / 10 ^ e := div_nonneg (value_nonneg f b) hstep.le
    refine ⟨⌊f.value b / 10 ^ e⌋₊, ?_, ?_⟩
    · rw [← le_div_iff₀ hstep]
      exact Nat.floor_le hnonneg
    · rw [← div_lt_iff₀ hstep, Nat.cast_succ]
      exact Nat.lt_floor_add_one _
  have hbelow := le_of_not_nearestTo (hmissed k) hlow
  have habove := ge_of_not_nearestTo (hmissed (k + 1)) hhigh.le
  rw [value_succ] at habove
  rw [value_pred hpos] at hbelow
  push_cast at habove
  split at hbelow
  · linarith
  · linarith

theorem leastExponent_le_place (f : Format) (b : ℕ) : f.leastExponent ≤ f.place b := by
  rw [place]
  omega

/-- The grid of a power of ten is finer than a pattern with a power of two as its place needs. -/
theorem grid_small {i k : ℕ} (hsmall : 4 * 2 ^ k < 3 * 10 ^ i) :
    (4 * 10 ^ (-(i : ℤ)) : ℚ) < 3 * 2 ^ (-(k : ℤ)) := by
  rw [zpow_neg, zpow_neg, zpow_natCast, zpow_natCast, ← div_eq_mul_inv, ← div_eq_mul_inv,
    div_lt_div_iff₀ (by positivity) (by positivity)]
  rw [← Nat.cast_lt (α := ℚ), Nat.cast_mul, Nat.cast_mul, Nat.cast_pow, Nat.cast_pow] at hsmall
  exact hsmall

theorem finest_small {b : ℕ} (hwide : -1074 ≤ f.leastExponent) :
    (4 * 10 ^ (-330 : ℤ) : ℚ) < 3 * 2 ^ f.place b := by
  have hleast : (2 : ℚ) ^ (-1074 : ℤ) ≤ 2 ^ f.place b :=
    zpow_le_zpow_right₀ (by norm_num) (hwide.trans (leastExponent_le_place f b))
  have hsmall : (4 * 10 ^ (-(330 : ℕ) : ℤ) : ℚ) < 3 * 2 ^ (-(1074 : ℕ) : ℤ) :=
    grid_small (by decide +kernel)
  exact hsmall.trans_le (mul_le_mul_of_nonneg_left hleast (by norm_num))

/-- The search finds a shortest decimal. -/
theorem shortest_spec {b : ℕ} (hf : 0 < f.fractionBits) (hwide : -1074 ≤ f.leastExponent)
    (hpos : 0 < b) (tie : Tie) : IsShortest f b ((f.around b).shortest tie) := by
  have hmissed {e : ℤ} (hnone : ((f.around b).nearestOn tie e).map (Decimal.mk · e) = none) (j : ℕ) :
      ¬ f.NearestTo (j * 10 ^ e) b :=
    not_nearestTo_of_nearestOn hpos hf (Option.map_eq_none_iff.1 hnone) j
  unfold Reals.shortest gridExponents
  -- The number of grids gets a name, or it would be counted out.
  obtain ⟨n, hcount⟩ : ∃ n, n = 640 := ⟨_, rfl⟩
  rw [← hcount]
  rcases findSome_row (fun e => ((f.around b).nearestOn tie e).map (Decimal.mk · e)) 309 n with
    ⟨-, hnone⟩ | ⟨k, hlt, d, hfound, hhere, hbefore⟩
  · have hlast := place_le_of_missed hpos (hmissed (hnone 639 (by omega)))
    exact absurd hlast (not_le.2 (finest_small hwide))
  · obtain ⟨j, hhit, rfl⟩ := Option.map_eq_some_iff.1 hhere
    obtain ⟨hnearest, hclosest⟩ := nearestOn_spec hpos hf hhit
    rw [hfound]
    refine ⟨hnearest, fun e hcoarser hmost => ?_, hclosest, ?_, ?_⟩
    · obtain ⟨i, hsame⟩ : ∃ i : ℕ, e = 309 - (i : ℤ) := ⟨(309 - e).toNat, by omega⟩
      have hearlier : 309 - (k : ℤ) < e := hcoarser
      rw [hsame]
      exact hmissed (hbefore i (by omega))
    · show -330 ≤ 309 - (k : ℤ)
      omega
    · show 309 - (k : ℤ) ≤ 309
      omega

/-! ## 5. The size of the digits -/

section Size

variable {b : ℕ} {d : Decimal} (hshortest : IsShortest f b d) (hpos : 0 < b)
include hshortest hpos

theorem IsShortest.digits_pos : 0 < d.digits := by
  have hlower := hshortest.nearest.lower
  have hvalue : 0 < f.value b := by
    have hmono := value_strictMono f hpos
    rwa [value_zero] at hmono
  have hbefore := value_nonneg f (b - 1)
  rcases Nat.eq_zero_or_pos d.digits with hnone | hsome
  · rw [hnone, Nat.cast_zero, zero_mul] at hlower
    linarith
  · exact hsome

/-- The digits are not many more than those of the mantissa. -/
theorem IsShortest.digits_le (hmost : d.exponent < 309) :
    3 * d.digits ≤ 40 * f.mantissa b + 20 := by
  have hcoarse := place_le_of_missed hpos
    (hshortest.coarsest (d.exponent + 1) (Int.lt_succ _) (by omega))
  have hupper := hshortest.nearest.upper
  rw [value_succ, value] at hupper
  rw [zpow_add_one₀ (by norm_num)] at hcoarse
  have hstep : (0 : ℚ) < 10 ^ d.exponent := by positivity
  have hcast : (3 * d.digits : ℚ) ≤ 40 * f.mantissa b + 20 := by
    refine le_of_mul_le_mul_right ?_ hstep
    have hmantissa : (0 : ℚ) ≤ f.mantissa b := Nat.cast_nonneg _
    nlinarith
  exact_mod_cast hcast

theorem IsShortest.exponent_lt (hfinite : b < f.infinityBits) {n : ℤ}
    (hrange : f.value f.infinityBits ≤ 10 ^ n) : d.exponent < n := by
  by_contra hge
  have hupper := hshortest.nearest.upper
  have hlow : f.value b < f.value f.infinityBits := value_strictMono f hfinite
  have hnext : f.value (b + 1) ≤ f.value f.infinityBits := (value_strictMono f).monotone hfinite
  have hmore : (10 : ℚ) ^ n ≤ 10 ^ d.exponent := zpow_le_zpow_right₀ (by norm_num) (not_lt.1 hge)
  have hone : (1 : ℚ) ≤ d.digits := by exact_mod_cast hshortest.digits_pos hpos
  have hstep : (0 : ℚ) < 10 ^ d.exponent := by positivity
  have hscaled : 10 ^ d.exponent ≤ (d.digits : ℚ) * 10 ^ d.exponent :=
    le_mul_of_one_le_left hstep.le hone
  linarith

theorem IsShortest.le_exponent {n : ℤ} (hsmall : (4 * 10 ^ n : ℚ) < 3 * 2 ^ f.leastExponent)
    (hinGrid : n ≤ 309) : n ≤ d.exponent := by
  by_contra hlt
  have hmissed := place_le_of_missed hpos (hshortest.coarsest n (not_le.1 hlt) hinGrid)
  have hleast : (2 : ℚ) ^ f.leastExponent ≤ 2 ^ f.place b :=
    zpow_le_zpow_right₀ (by norm_num) (leastExponent_le_place f b)
  linarith

end Size

end Cadence.Number
