import Cadence.Duration

/-!
# Clocks

A timestamp is a count of microseconds from an arbitrary epoch, in 64 bits; only differences mean
anything.  `Timestamp.after` and `Timestamp.since` stay within the range instead of wrapping, while a
`ManualClock` is moved by hand and wraps like the counter that it is.
-/

namespace Cadence

abbrev Timestamp := UInt64

namespace Timestamp

def ofMicros (micros : Nat) : Timestamp :=
  UInt64.ofNat (min micros maxWord)

def after (t : Timestamp) (micros : Nat) : Timestamp :=
  ofMicros (t.toNat + micros)

def since (later earlier : Timestamp) : Nat :=
  later.toNat - earlier.toNat

theorem toNat_ofMicros (micros : Nat) : (ofMicros micros).toNat = min micros maxWord := by
  simp only [ofMicros, maxWord, UInt64.toNat_ofNat']
  omega

theorem toNat_after (t : Timestamp) (micros : Nat) :
    (after t micros).toNat = min (t.toNat + micros) maxWord :=
  toNat_ofMicros _

def nonDecreasing : List Timestamp → Bool
  | a :: b :: rest => decide (a ≤ b) && nonDecreasing (b :: rest)
  | _ => true

end Timestamp

/-! ## Clocks that are read -/

structure EpochClock where
  epochNanos : Nat

def EpochClock.read (c : EpochClock) (nanos : Nat) : Timestamp :=
  Timestamp.ofMicros ((nanos - c.epochNanos) / 1000)

/-! ## Clocks that are moved -/

structure ManualClock where
  now : Timestamp
  deriving DecidableEq

namespace ManualClock

inductive Move
  | advance (micros : UInt64)
  | set (target : Timestamp)
  deriving DecidableEq

/-- Move the clock forward.  The count wraps at the end of its range. -/
def advance (c : ManualClock) (micros : UInt64) : ManualClock :=
  ⟨c.now + micros⟩

def set (c : ManualClock) (target : Timestamp) : ManualClock :=
  ⟨max c.now target⟩

def move (c : ManualClock) : Move → ManualClock
  | .advance micros => c.advance micros
  | .set target => c.set target

def readings (c : ManualClock) : List Move → List Timestamp
  | [] => [c.now]
  | m :: rest => c.now :: (c.move m).readings rest

end ManualClock

end Cadence
