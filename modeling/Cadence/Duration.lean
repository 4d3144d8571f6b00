/-!
# Durations

A length of time as whole seconds and nanoseconds below one second.  The seconds fit in 64 bits, so
not every sum of durations is one; `Duration.toMicros` saturates instead.
-/

namespace Cadence

def maxWord : Nat := 18446744073709551615

def maxSigned : Nat := 9223372036854775807

structure Duration where
  seconds : Nat
  nanos : Nat
  seconds_le : seconds ≤ maxWord
  nanos_lt : nanos < 1000000000
  deriving DecidableEq

namespace Duration

def mk? (seconds nanos : Nat) : Option Duration :=
  if h : seconds ≤ maxWord ∧ nanos < 1000000000 then some ⟨seconds, nanos, h.1, h.2⟩ else none

def zero : Duration := ⟨0, 0, by decide, by decide⟩

def second : Duration := ⟨1, 0, by decide, by decide⟩

def isZero (d : Duration) : Bool :=
  d.seconds == 0 && d.nanos == 0

def ofMicros (micros : Nat) : Duration :=
  let m := min micros maxWord
  ⟨m / 1000000, m % 1000000 * 1000, by simp only [m, maxWord]; omega, by omega⟩

def toMicros (d : Duration) : Nat :=
  min (d.seconds * 1000000 + d.nanos / 1000) maxWord

end Duration

end Cadence
