import Cadence.Duration
import Cadence.Number.Binary

/-!
# Frequencies

How often a callback runs is given as a number of times a second and kept as a period in whole
microseconds, which is at least one and fits in a signed 64-bit number.
-/

namespace Cadence.Frequency

def isValid (hertz : Float) : Bool :=
  match Number.decode64 hertz with
  | .finite false m _ _ => m ≠ 0
  | _ => false

/-- The period of a frequency in microseconds.  One that is too long is cut to the longest there is,
one below a microsecond becomes a microsecond. -/
def period (hertz : Float) : Nat :=
  max 1 (Number.clampedWhole maxSigned (1000000.0 / hertz))

theorem period_pos (hertz : Float) : 0 < period hertz :=
  Nat.lt_of_lt_of_le Nat.zero_lt_one (Nat.le_max_left _ _)

end Cadence.Frequency
