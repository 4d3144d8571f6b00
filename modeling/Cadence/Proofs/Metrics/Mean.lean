import Cadence.Proofs.Metrics.Records
import Mathlib.Algebra.Order.BigOperators.Group.List
import Mathlib.Algebra.Group.Action.Defs
import Mathlib.Algebra.Order.Ring.Nat

/-!
# The mean of all records

The sum behind the mean is kept in a word and wraps.  So the mean is that of all durations as long as
they fit in a word together, and not afterwards (`mean_of_records`).  It never exceeds the longest
duration, but may fall below the shortest one.
-/

namespace Cadence

/-- A quotient notices that its dividend has wrapped, as long as the divisor is not above the word
size. -/
theorem mod_div_eq_div_iff {total size n : ℕ} (hpos : 0 < n) (hle : n ≤ size) :
    total % size / n = total / n ↔ total < size := by
  constructor
  · intro hsame
    by_contra hlarge
    -- Taking off the size once takes one off the quotient at least.
    have hrest : total % size + size ≤ total := by
      rw [Nat.mod_eq_sub_mod (Nat.not_lt.1 hlarge)]
      have hmod := Nat.mod_le (total - size) size
      omega
    have hless : total % size / n + 1 ≤ total / n := by
      rw [← Nat.add_div_right _ hpos]
      exact Nat.div_le_div_right (by omega)
    omega
  · intro hsmall
    rw [Nat.mod_eq_of_lt hsmall]

namespace TickMetrics

section

variable {size : ℕ} {m : TickMetrics} {rs : List Record} (h : Accounts size m rs) (hsome : rs ≠ [])

include h hsome

theorem Accounts.mean_eq :
    m.snapshot.mean = some ((rs.map Record.duration).sum % (maxWord + 1) / rs.length) := by
  have hwakes : m.wakes ≠ 0 := by
    rw [h.wakes]
    exact mt List.length_eq_zero_iff.1 hsome
  show (if m.wakes = 0 then none else some (m.sum / m.wakes)) = _
  rw [if_neg hwakes, h.sum, h.wakes]

theorem Accounts.mean_le_greatest :
    ∀ mean ∈ m.snapshot.mean, ∀ greatest ∈ m.snapshot.greatest, mean ≤ greatest := by
  intro mean hmean greatest hisGreatest
  have hgreatest : (rs.map Record.duration).max? = some greatest := h.greatest.symm.trans hisGreatest
  have hsum := List.sum_le_card_nsmul (rs.map Record.duration) greatest
    (List.max?_eq_some_iff.1 hgreatest).2
  rw [List.length_map, smul_eq_mul] at hsum
  rw [h.mean_eq hsome, Option.mem_some_iff] at hmean
  rw [← hmean]
  calc (rs.map Record.duration).sum % (maxWord + 1) / rs.length
    _ ≤ rs.length * greatest / rs.length := Nat.div_le_div_right ((Nat.mod_le _ _).trans hsum)
    _ = greatest := Nat.mul_div_cancel_left _ (List.length_pos_iff.2 hsome)

theorem Accounts.least_le_mean (hfits : (rs.map Record.duration).sum ≤ maxWord) :
    ∀ least ∈ m.snapshot.least, ∀ mean ∈ m.snapshot.mean, least ≤ mean := by
  intro least hisLeast mean hmean
  have hleast : (rs.map Record.duration).min? = some least := h.least.symm.trans hisLeast
  have hsum := List.card_nsmul_le_sum (rs.map Record.duration) least
    (List.min?_eq_some_iff.1 hleast).2
  rw [List.length_map, smul_eq_mul] at hsum
  rw [h.mean_eq hsome, Option.mem_some_iff] at hmean
  rw [← hmean, Nat.mod_eq_of_lt (Nat.lt_succ_of_le hfits),
    Nat.le_div_iff_mul_le (List.length_pos_iff.2 hsome), Nat.mul_comm]
  exact hsum

end

/-- The mean is that of the durations exactly if they fit in a word together, and then it lies between
the shortest and the longest one. -/
theorem mean_of_records (size : ℕ) {rs : List Record} (hsome : rs ≠ []) :
    let s := ((withSamples size).recordAll rs).snapshot
    let total := (rs.map Record.duration).sum
    s.mean = some (total % 2 ^ 64 / rs.length) ∧
      (rs.length ≤ 2 ^ 64 → (s.mean = some (total / rs.length) ↔ total < 2 ^ 64)) ∧
      (∀ mean ∈ s.mean, ∀ greatest ∈ s.greatest, mean ≤ greatest) ∧
      (total < 2 ^ 64 → ∀ least ∈ s.least, ∀ mean ∈ s.mean, least ≤ mean) := by
  intro s total
  have h : Accounts (max size 1) ((withSamples size).recordAll rs) rs := accounts_recordAll size rs
  have hmean : s.mean = some (total % 2 ^ 64 / rs.length) := h.mean_eq hsome
  refine ⟨hmean, ?_, h.mean_le_greatest hsome,
    fun hfits => h.least_le_mean hsome (Nat.le_of_lt_succ hfits)⟩
  intro hcount
  rw [hmean, Option.some_inj]
  exact mod_div_eq_div_iff (List.length_pos_iff.2 hsome) hcount

/-- Two durations that just fit in a word together. -/
theorem mean_of_full_word :
    let rs : List Record := [⟨2 ^ 63, 1, 0⟩, ⟨2 ^ 63 - 1, 0, 1001⟩]
    rs ≠ [] ∧ ((withSamples 1).recordAll rs).snapshot.mean = some (2 ^ 63 - 1) :=
  have hexact := (@mean_of_records 1 [⟨2 ^ 63, 1, 0⟩, ⟨2 ^ 63 - 1, 0, 1001⟩] nofun).2.1
  ⟨nofun, (hexact (by decide)).2 (by decide)⟩

/-- Two durations that do not fit in a word together: their mean would be `2 ^ 63`. -/
theorem mean_below_least :
    let rs : List Record := [⟨2 ^ 64 - 1, 0, 0⟩, ⟨1, 0, 0⟩]
    let s := ((withSamples 4).recordAll rs).snapshot
    s.mean = some 0 ∧ s.least = some 1 ∧ (rs.map Record.duration).sum / rs.length = 2 ^ 63 := by
  decide

end TickMetrics

end Cadence
