import Mathlib.Data.Nat.Init

/-!
# Grids

An entry that first waits for its phase and then runs once in every period has its turns on a grid:
`phase`, `phase + period`, `phase + 2 * period` and so on, counted from its registration.
-/

namespace Cadence

/-- How many points of a grid have been reached when some time has passed. -/
def gridCount (phase period time : Nat) : Nat :=
  if time < phase then 0 else (time - phase) / period + 1

def gridPoints (phase period time : Nat) : List Nat :=
  (List.range (gridCount phase period time)).map fun n => phase + n * period

section

variable {phase period : Nat} (hperiod : 0 < period)

include hperiod

/-- The point with the number `n` is among those reached if it is not later than the time. -/
theorem lt_gridCount_iff (n time : Nat) :
    n < gridCount phase period time ↔ phase + n * period ≤ time := by
  unfold gridCount
  split
  · omega
  · rw [Nat.lt_succ_iff, Nat.le_div_iff_mul_le hperiod]
    omega

theorem gridCount_le_iff (n time : Nat) :
    gridCount phase period time ≤ n ↔ time < phase + n * period := by
  rw [← Nat.not_lt, lt_gridCount_iff hperiod, Nat.not_le]

theorem gridCount_mono {a b : Nat} (h : a ≤ b) :
    gridCount phase period a ≤ gridCount phase period b := by
  rw [gridCount_le_iff hperiod]
  have hahead : b < phase + gridCount phase period b * period :=
    (gridCount_le_iff hperiod _ b).1 (Nat.le_refl _)
  omega

end

end Cadence
