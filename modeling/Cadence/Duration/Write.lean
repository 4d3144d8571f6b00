import Cadence.Duration.Read

/-!
# Writing durations

A duration is written as the fewest years, months, days and so on down to nanoseconds that make it
up, largest first, without those that are zero.
-/

namespace Cadence.Duration

def breakdown (d : Duration) : List (Nat × String) :=
  let plural (n : Nat) (unit : String) := (n, if n = 1 then unit else unit ++ "s")
  let years := d.seconds / TimeUnit.secondsPerYear
  let inYear := d.seconds % TimeUnit.secondsPerYear
  let months := inYear / TimeUnit.secondsPerMonth
  let inMonth := inYear % TimeUnit.secondsPerMonth
  let inDay := inMonth % 86400
  [plural years "year", plural months "month", plural (inMonth / 86400) "day",
    (inDay / 3600, "h"), (inDay % 3600 / 60, "m"), (inDay % 60, "s"),
    (d.nanos / 1000000, "ms"), (d.nanos / 1000 % 1000, "us"), (d.nanos % 1000, "ns")]

def text (d : Duration) : String :=
  if d.isZero then "0s"
  else
    String.intercalate " "
      ((d.breakdown.filter fun part => part.1 ≠ 0).map fun part => toString part.1 ++ part.2)

end Cadence.Duration
