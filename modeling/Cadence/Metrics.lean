import Cadence.Duration
import Cadence.Number.Binary

/-!
# Tick metrics

What a run loop records about its wakes: running totals, and the durations of the latest ticks in a
ring of fixed size, from which percentiles are taken.  The sum behind the mean and the number of
invocations are kept in 64 bits and wrap.
-/

namespace Cadence

/-- A wake counts as late when it comes more than this many microseconds after its deadline. -/
def lateThreshold : Nat := 1000

/-- The statistics of one run loop.  `samples` is a ring of the latest tick durations in
microseconds, of which the first `sampleCount` slots have been written.  `wakes` and `lateWakes` grow by
one at a time, so that nothing runs long enough for them to reach `2 ^ 64`, and the positions are bounded
by the samples that there is memory for. -/
structure TickMetrics where
  samples : Array Nat
  writePosition : Nat
  sampleCount : Nat
  wakes : Nat
  /-- The callbacks invoked, modulo `2 ^ 64`. -/
  invocations : Nat
  /-- The shortest and the longest tick so far. -/
  extremes : Option (Nat × Nat)
  /-- The sum of all tick durations, modulo `2 ^ 64`. -/
  sum : Nat
  lateWakes : Nat
  writePosition_lt : writePosition < samples.size
  sampleCount_le : sampleCount ≤ samples.size

namespace TickMetrics

def withSamples (size : Nat) : TickMetrics where
  samples := Array.replicate (max size 1) 0
  writePosition := 0
  sampleCount := 0
  wakes := 0
  invocations := 0
  extremes := none
  sum := 0
  lateWakes := 0
  writePosition_lt := by simp only [Array.size_replicate]; omega
  sampleCount_le := Nat.zero_le _

def record (m : TickMetrics) (tick fired lateness : Nat) : TickMetrics where
  samples := m.samples.set m.writePosition tick m.writePosition_lt
  writePosition := (m.writePosition + 1) % m.samples.size
  sampleCount := min (m.sampleCount + 1) m.samples.size
  wakes := m.wakes + 1
  invocations := (m.invocations + fired) % (maxWord + 1)
  extremes :=
    match m.extremes with
    | none => some (tick, tick)
    | some (least, greatest) => some (min least tick, max greatest tick)
  sum := (m.sum + tick) % (maxWord + 1)
  lateWakes := if lateThreshold < lateness then m.lateWakes + 1 else m.lateWakes
  writePosition_lt := by
    rw [Array.size_set]
    exact Nat.mod_lt _ (Nat.lt_of_le_of_lt (Nat.zero_le _) m.writePosition_lt)
  sampleCount_le := by rw [Array.size_set]; exact Nat.min_le_right _ _

def kept (m : TickMetrics) : List Nat :=
  m.samples.toList.take m.sampleCount

def percentileIndex (p : Float) (count : Nat) : Nat :=
  min (Number.roundedNat (p / 100.0 * Number.ofNat64 (count - 1))) (count - 1)

/-- A percentile of the samples kept, in microseconds: absent without samples and for a percentile
that is not from 0 to 100. -/
def percentile (m : TickMetrics) (p : Float) : Option Nat :=
  if 0.0 ≤ p ∧ p ≤ 100.0 then
    (m.kept.mergeSort (· ≤ ·))[percentileIndex p m.sampleCount]?
  else none

structure Snapshot where
  wakes : Nat
  invocations : Nat
  least : Option Nat
  greatest : Option Nat
  mean : Option Nat
  p99 : Option Nat
  lateWakes : Nat
  sampleCount : Nat
  deriving DecidableEq

def Snapshot.empty : Snapshot := ⟨0, 0, none, none, none, none, 0, 0⟩

def Snapshot.jitter (s : Snapshot) : Option Nat :=
  match s.least, s.greatest with
  | some least, some greatest => some (greatest - least)
  | _, _ => none

def snapshot (m : TickMetrics) : Snapshot where
  wakes := m.wakes
  invocations := m.invocations
  least := m.extremes.map (·.1)
  greatest := m.extremes.map (·.2)
  mean := if m.wakes = 0 then none else some (m.sum / m.wakes)
  p99 := m.percentile 99.0
  lateWakes := m.lateWakes
  sampleCount := m.sampleCount

end TickMetrics

end Cadence
