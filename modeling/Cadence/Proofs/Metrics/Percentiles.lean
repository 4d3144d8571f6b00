import Cadence.Proofs.Metrics.Records
import Cadence.Proofs.Number.Nonnegative

/-!
# Percentiles of the latest records

A percentile is looked up in the sorted samples.  Its index is computed in doubles, each step of which
rounds (`IsPercentileIndex`); it is always that of a sample, and next to the place that exact arithmetic
would give (`IsPercentileIndex.close`).  With the totals, this is what metrics report of all that was
recorded (`window_and_totals`).
-/

namespace Cadence.TickMetrics

open Number Number.Format

/-! ## 1. The index of a percentile -/

/-- Where the percentile `v` lies among sorted samples, the last of which has the index `last`.  The
quotient `v / 100`, the double of `last` and the product of both are each rounded to the nearest double,
and the product to the nearest whole number, a half going up, but not beyond the last index. -/
def IsPercentileIndex (v : ℚ) (last i : ℕ) : Prop :=
  ∃ q c x, binary64.NearestTo (v / 100) q ∧ binary64.NearestTo last c ∧
    binary64.NearestTo (binary64.value q * binary64.value c) x ∧
      i = min ⌊binary64.value x + 1 / 2⌋₊ last

/-- The index of a percentile is computed as it is to be. -/
theorem isPercentileIndex {p : Float} {last : ℕ} (hfits : last ≤ maxWord) (hnonneg : 0.0 ≤ p)
    (hatMost : p ≤ 100.0) :
    ∃ v, StandsFor p v ∧ v ≤ 100 ∧ IsPercentileIndex v last (percentileIndex p (last + 1)) := by
  obtain ⟨h, -, hhundred, hexact⟩ := exists_standsFor_ofNat64 (n := 100) (by decide)
  have hliteral : ofNat64 100 = 100.0 := by decide
  rw [hliteral, hexact (by norm_num), Nat.cast_ofNat] at hhundred
  obtain ⟨v, hstands, hle⟩ := hhundred.of_between hnonneg hatMost
  obtain ⟨q, hnearQ, hquotient⟩ := hstands.div hhundred (by norm_num)
  obtain ⟨c, hnearC, hwhole, -⟩ := exists_standsFor_ofNat64 hfits
  have hone : v / 100 ≤ 2 ^ 0 := by linarith
  have hword : (last : ℚ) ≤ 2 ^ 64 := by
    calc (last : ℚ) ≤ maxWord := Nat.cast_le.2 hfits
      _ ≤ 2 ^ 64 := by norm_num [maxWord]
  obtain ⟨x, hnearX, hproduct⟩ := (hquotient (finite_of_le_two_pow hnearQ hone (by decide))).mul hwhole
  have hbelow : binary64.value q * binary64.value c ≤ 2 ^ 64 := by
    calc binary64.value q * binary64.value c ≤ 2 ^ 0 * 2 ^ 64 :=
          mul_le_mul (value_le_two_pow hnearQ hone) (value_le_two_pow hnearC hword) (value_nonneg _ _)
            (by norm_num)
      _ = 2 ^ 64 := one_mul _
  refine ⟨v, hstands, hle, q, c, x, hnearQ, hnearC, hnearX, ?_⟩
  rw [percentileIndex, Nat.add_sub_cancel,
    (hproduct (finite_of_le_two_pow hnearX hbelow le_rfl)).roundedNat_eq]

-- Of 51 samples the percentile 29 would lie half way between two places, but 0.29 is rounded down.
example : percentileIndex 29.0 51 = 14 := by decide

theorem abs_floor_sub_le {x : ℚ} (hnonneg : 0 ≤ x) : |(⌊x + 1 / 2⌋₊ : ℚ) - x| ≤ 1 / 2 := by
  have hbelow := Nat.floor_le (by linarith : 0 ≤ x + 1 / 2)
  have habove := Nat.lt_floor_add_one (x + 1 / 2)
  rw [abs_le]
  constructor <;> linarith

/-- An error of each factor shows in the product as often as the other factor says. -/
theorem abs_mul_sub_mul_le {a b s t d e : ℚ} (ha : |a - s| ≤ d) (hb : |b - t| ≤ e) (hs : 0 ≤ s)
    (hnonneg : 0 ≤ b) : |a * b - s * t| ≤ d * b + s * e := by
  have hsplit : a * b - s * t = (a - s) * b + s * (b - t) := by ring
  calc |a * b - s * t| ≤ |a - s| * b + s * |b - t| := by
        rw [hsplit]
        refine (abs_add_le _ _).trans_eq ?_
        rw [abs_mul, abs_mul, abs_of_nonneg hnonneg, abs_of_nonneg hs]
    _ ≤ d * b + s * e :=
        add_le_add (mul_le_mul_of_nonneg_right ha hnonneg) (mul_le_mul_of_nonneg_left hb hs)

/-- The index is half a place away from the exact one at most, up to a tiny part of all places. -/
theorem IsPercentileIndex.close {v : ℚ} {last i : ℕ} (h : IsPercentileIndex v last i)
    (hnonneg : 0 ≤ v) (hatMost : v ≤ 100) : |(i : ℚ) - v / 100 * last| ≤ 1 / 2 + last / 2 ^ 51 := by
  obtain ⟨q, c, x, hnearQ, hnearC, hnearX, hindex⟩ := h
  obtain ⟨t, hpart⟩ : ∃ t, t = v / 100 := ⟨_, rfl⟩
  rw [← hpart] at hnearQ ⊢
  have hhundredth : 0 ≤ t ∧ t ≤ 2 ^ 0 := by
    rw [hpart]
    constructor <;> linarith
  rcases Nat.eq_zero_or_pos last with hnone | hsome
  · rw [hindex, hnone, Nat.min_zero]
    norm_num
  -- The least power of two that is not below the last index is not more than twice as large.
  obtain ⟨j, hpower⟩ : ∃ j : ℕ, j = last.log2 + 1 := ⟨_, rfl⟩
  have habove : (last : ℚ) ≤ 2 ^ j := by
    rw [hpower]
    exact_mod_cast (Nat.lt_log2_self (n := last)).le
  have htwice : (2 : ℚ) ^ j ≤ 2 * last := by
    rw [hpower, pow_succ, mul_comm]
    exact_mod_cast Nat.mul_le_mul_left 2 (Nat.log2_self_le hsome.ne')
  have hsmallQ := value_le_two_pow hnearQ hhundredth.2
  have hsmallC := value_le_two_pow hnearC habove
  have hposC := value_nonneg binary64 c
  have hbelow : binary64.value q * binary64.value c ≤ 2 ^ j :=
    (mul_le_of_le_one_left hposC hsmallQ).trans hsmallC
  have herrorX := abs_le.1 (abs_sub_le_two_pow hnearX hbelow)
  have herrorProduct := abs_le.1 (abs_mul_sub_mul_le (abs_sub_le_two_pow hnearQ hhundredth.2)
    (abs_sub_le_two_pow hnearC habove) hhundredth.1 hposC)
  have herrors : t * (2 ^ j / 2 ^ 54) ≤ 2 ^ j / 2 ^ 54 :=
    mul_le_of_le_one_left (by positivity) hhundredth.2
  have hfloor := abs_le.1 (abs_floor_sub_le (value_nonneg binary64 x))
  have hexact : t * last ≤ last := mul_le_of_le_one_left (Nat.cast_nonneg _) hhundredth.2
  rw [abs_le]
  rcases Nat.le_total ⌊binary64.value x + 1 / 2⌋₊ last with hwithin | hbeyond
  · rw [hindex, Nat.min_eq_left hwithin]
    constructor <;> linarith
  · have hmore : (last : ℚ) ≤ ⌊binary64.value x + 1 / 2⌋₊ := Nat.cast_le.2 hbeyond
    have hnonneg := Nat.cast_nonneg (α := ℚ) last
    rw [hindex, Nat.min_eq_right hbeyond]
    constructor <;> linarith

/-! ## 2. Looking up a percentile -/

section

variable {size : ℕ} {m : TickMetrics} {rs : List Record} (h : Accounts size m rs)

include h

theorem Accounts.length_kept : m.kept.length = m.sampleCount := by
  rw [h.kept_perm.length_eq, h.sampleCount, List.length_drop, List.length_map]
  omega

theorem Accounts.sampleCount_eq_zero_iff : m.sampleCount = 0 ↔ rs = [] := by
  have hpos := h.size_pos
  rw [h.sampleCount, ← List.length_eq_zero_iff]
  omega

theorem Accounts.percentileIndex_lt (hsome : rs ≠ []) (p : Float) :
    percentileIndex p m.sampleCount < m.sampleCount := by
  have hpos := Nat.pos_of_ne_zero (mt h.sampleCount_eq_zero_iff.1 hsome)
  have hlast := Nat.min_le_right
    (roundedNat (p / 100.0 * ofNat64 (m.sampleCount - 1))) (m.sampleCount - 1)
  rw [percentileIndex]
  omega

/-- There is only one way to sort samples. -/
theorem Accounts.mergeSort_kept {sorted : List ℕ} (hsorted : sorted.Pairwise (· ≤ ·))
    (hlatest : sorted.Perm ((rs.map Record.duration).drop (rs.length - size))) :
    m.kept.mergeSort (· ≤ ·) = sorted := by
  have hpairs : (m.kept.mergeSort (· ≤ ·)).Pairwise fun a b => decide (a ≤ b) = true :=
    List.pairwise_mergeSort (fun a b c => by simp only [decide_eq_true_eq]; omega)
      (fun a b => by simp only [Bool.or_eq_true, decide_eq_true_eq]; omega) m.kept
  have hown : (m.kept.mergeSort (· ≤ ·)).Pairwise (· ≤ ·) := hpairs.imp of_decide_eq_true
  have hsame : (m.kept.mergeSort (· ≤ ·)).Perm sorted :=
    (List.mergeSort_perm _ _).trans (h.kept_perm.trans hlatest.symm)
  exact hsame.eq_of_pairwise (fun a b _ _ hle hge => Nat.le_antisymm hle hge) hown hsorted

/-- There is no percentile of no samples, and none beyond 0 and 100; a NaN lies beyond both. -/
theorem Accounts.percentile_eq_none_iff (p : Float) :
    m.percentile p = none ↔ rs = [] ∨ ¬ (0.0 ≤ p ∧ p ≤ 100.0) := by
  rw [percentile]
  by_cases hrange : 0.0 ≤ p ∧ p ≤ 100.0
  · rw [if_pos hrange, List.getElem?_eq_none_iff, List.length_mergeSort, h.length_kept,
      or_iff_left (not_not.2 hrange)]
    constructor
    · intro hle
      by_contra hsome
      exact absurd (h.percentileIndex_lt hsome p) (Nat.not_lt.2 hle)
    · intro hnone
      rw [h.sampleCount_eq_zero_iff.2 hnone]
      exact Nat.zero_le _
  · rw [if_neg hrange]
    exact iff_of_true rfl (.inr hrange)

theorem Accounts.percentile_eq_getElem (hsome : rs ≠ []) {p : Float} (hnonneg : 0.0 ≤ p)
    (hatMost : p ≤ 100.0) {sorted : List ℕ} (hsorted : sorted.Pairwise (· ≤ ·))
    (hlatest : sorted.Perm ((rs.map Record.duration).drop (rs.length - size))) :
    ∃ hindex : percentileIndex p m.sampleCount < sorted.length,
      m.percentile p = some sorted[percentileIndex p m.sampleCount] := by
  have hlength : sorted.length = m.sampleCount := by
    rw [← h.length_kept, h.kept_perm.length_eq, hlatest.length_eq]
  have hindex : percentileIndex p m.sampleCount < sorted.length := by
    rw [hlength]
    exact h.percentileIndex_lt hsome p
  refine ⟨hindex, ?_⟩
  rw [percentile, if_pos ⟨hnonneg, hatMost⟩, h.mergeSort_kept hsorted hlatest,
    List.getElem?_eq_getElem hindex]

/-- Between the shortest and the longest tick there is nothing to underflow. -/
theorem Accounts.jitter_eq :
    (m.snapshot.jitter = none ↔ rs = []) ∧
      ∀ least ∈ m.snapshot.least, ∀ greatest ∈ m.snapshot.greatest,
        least ≤ greatest ∧ m.snapshot.jitter = some (greatest - least) := by
  have hleast : m.snapshot.least = (rs.map Record.duration).min? := h.least
  have hgreatest : m.snapshot.greatest = (rs.map Record.duration).max? := h.greatest
  constructor
  · rw [Snapshot.jitter, hleast, hgreatest]
    cases rs with
    | nil => exact iff_of_true rfl rfl
    | cons r rest =>
      rw [List.map_cons, List.min?_cons', List.max?_cons']
      exact iff_of_false nofun nofun
  · intro least hisLeast greatest hisGreatest
    rw [Option.mem_def] at hisLeast hisGreatest
    refine ⟨?_, by rw [Snapshot.jitter, hisLeast, hisGreatest]⟩
    have hmem := List.max?_mem (hgreatest.symm.trans hisGreatest)
    exact (List.min?_eq_some_iff.1 (hleast.symm.trans hisLeast)).2 greatest hmem

end

theorem not_nonneg_of_isNaN {p : Float} (hnan : p.isNaN = true) : ¬ 0.0 ≤ p := by
  rw [le_iff, zero_eq, unpack_zero]
  change p.toModel.unpack.isNaN = true at hnan
  generalize p.toModel.unpack = u at hnan
  cases u with
  | notANumber => exact Bool.false_ne_true
  | zero | infinity | finite => cases hnan

/-! ## 3. What is reported of all records -/

/-- The samples are the durations of the latest records, as many as there is room for, and percentiles
are looked up among them.  Totals and extremes are those of all records. -/
theorem window_and_totals {size : ℕ} (hsize : size ≤ maxWord) (rs : List Record)
    (hfired : (rs.map Record.fired).sum ≤ maxWord) :
    let m := (withSamples size).recordAll rs
    let durations := rs.map Record.duration
    let latest := durations.drop (rs.length - max size 1)
    -- The window.
    latest.length = min rs.length (max size 1) ∧ m.kept.Perm latest ∧
      m.sampleCount = latest.length ∧
    -- Its percentiles.
    (∀ p, m.percentile p = none ↔ rs = [] ∨ ¬ (0.0 ≤ p ∧ p ≤ 100.0)) ∧
      (∀ p : Float, p.isNaN = true → m.percentile p = none) ∧
      (rs ≠ [] → ∀ p : Float, 0.0 ≤ p → p ≤ 100.0 →
        let last := latest.length - 1
        let i := min (roundedNat (p / 100.0 * ofNat64 last)) last
        (∀ sorted : List ℕ, sorted.Pairwise (· ≤ ·) → sorted.Perm latest →
            ∃ hindex : i < sorted.length, m.percentile p = some sorted[i]) ∧
          ∃ v, StandsFor p v ∧ v ≤ 100 ∧ IsPercentileIndex v last i ∧
            |(i : ℚ) - v / 100 * last| ≤ 1 / 2 + last / 2 ^ 51) ∧
    -- Totals and extremes.
    m.snapshot.wakes = rs.length ∧ m.snapshot.invocations = (rs.map Record.fired).sum ∧
      m.snapshot.lateWakes = rs.countP (fun r => 1000 < r.lateness) ∧
      m.snapshot.sampleCount = latest.length ∧
      m.snapshot.least = durations.min? ∧ m.snapshot.greatest = durations.max? ∧
      (m.snapshot.least = none ↔ rs = []) ∧ (m.snapshot.greatest = none ↔ rs = []) ∧
      (m.snapshot.jitter = none ↔ rs = []) ∧
      ∀ least ∈ m.snapshot.least, ∀ greatest ∈ m.snapshot.greatest,
        least ≤ greatest ∧ m.snapshot.jitter = some (greatest - least) := by
  intro m durations latest
  have h : Accounts (max size 1) m rs := accounts_recordAll size rs
  have hlatest : latest.length = min rs.length (max size 1) := by
    rw [List.length_drop, List.length_map]
    omega
  have hcount : m.sampleCount = latest.length := h.sampleCount.trans hlatest.symm
  refine ⟨hlatest, h.kept_perm, hcount, h.percentile_eq_none_iff, ?_, ?_, h.wakes, ?_, h.lateWakes,
    hcount, h.least, h.greatest, ?_, ?_, h.jitter_eq⟩
  · intro p hnan
    rw [h.percentile_eq_none_iff]
    exact .inr fun hrange => not_nonneg_of_isNaN hnan hrange.1
  · intro hsome p hnonneg hatMost last i
    constructor
    · intro sorted hsorted hperm
      have hfound := h.percentile_eq_getElem hsome hnonneg hatMost hsorted hperm
      rw [hcount] at hfound
      exact hfound
    · have hmax : max size 1 ≤ maxWord := max_le hsize (by decide)
      have hlast : last ≤ maxWord := by omega
      obtain ⟨v, hstands, hle, hindex'⟩ := isPercentileIndex hlast hnonneg hatMost
      exact ⟨v, hstands, hle, hindex', hindex'.close hstands.nonneg hle⟩
  · exact h.invocations.trans (Nat.mod_eq_of_lt (Nat.lt_succ_of_le hfired))
  · show m.extremes.map Prod.fst = none ↔ _
    rw [h.least, List.min?_eq_none_iff, List.map_eq_nil_iff]
  · show m.extremes.map Prod.snd = none ↔ _
    rw [h.greatest, List.max?_eq_none_iff, List.map_eq_nil_iff]

/-- Two samples of three records: the first one has been written over. -/
theorem window_and_totals_gone_round :
    let rs : List Record := [⟨7, 1, 0⟩, ⟨30, 0, 1001⟩, ⟨20, 2, 5⟩]
    2 ≤ maxWord ∧ (rs.map Record.fired).sum ≤ maxWord ∧
      ((withSamples 2).recordAll rs).percentile 50.0 = some 30 := by
  have hreport := @window_and_totals 2 (by decide) [⟨7, 1, 0⟩, ⟨30, 0, 1001⟩, ⟨20, 2, 5⟩]
    (by decide)
  obtain ⟨-, -, -, -, -, hpercentiles, -⟩ := hreport
  have hhalf := (hpercentiles nofun 50.0 (by decide) (by decide)).1 [20, 30] (by decide)
    (List.Perm.swap 30 20 [])
  exact ⟨by decide, by decide, hhalf.2⟩

end Cadence.TickMetrics
