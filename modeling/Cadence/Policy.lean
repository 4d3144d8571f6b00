import Cadence.Duration

/-!
# Re-arming

When the callback of an entry has run, the countdown to its next turn starts anew.  Adding the period
to what is left of the old countdown, instead of starting from zero, keeps the long-run rate however
late a wake comes.  The two policies differ in what happens to periods that were missed altogether.

Countdowns are signed 64-bit numbers of microseconds, and arithmetic on them stops at the ends of the
range (`clampSigned`).
-/

namespace Cadence

def clampSigned (i : Int) : Int :=
  max (-(maxSigned : Int) - 1) (min i maxSigned)

theorem clampSigned_eq_self (i : Int) (hlow : -(maxSigned : Int) - 1 ≤ i) (hhigh : i ≤ maxSigned) :
    clampSigned i = i := by
  simp only [clampSigned, maxSigned] at *
  omega

inductive Policy
  /-- They are made up for, one on each wake. -/
  | catchUp
  /-- They are dropped: the entry waits for the next point of its grid. -/
  | skipMissed
  deriving DecidableEq

namespace Policy

def all : List Policy := [catchUp, skipMissed]

def name : Policy → String
  | catchUp => "catch_up"
  | skipMissed => "skip_missed"

def ofName? (s : String) : Option Policy :=
  all.find? fun p => p.name == s

/-- The countdown of an entry whose callback has run, from the countdown that was due. -/
def rearm (policy : Policy) (period : Nat) (countdown : Int) : Int :=
  match policy with
  | catchUp => clampSigned (countdown + period)
  | skipMissed => if countdown % period = 0 then period else countdown % period

end Policy

end Cadence
