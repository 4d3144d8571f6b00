import Cadence.Number.Binary

/-!
# Shortest decimals

Of all decimals that read back as a given float, the text of the float uses one with the fewest
digits, and of those the one nearest to the float.  The reals that round to `m * 2 ^ q` form an
interval (`Reals`), closed exactly when `m` is even; the shortest decimal lies on the coarsest grid
of powers of ten that meets the interval, and on that grid one of the two neighbours of the float
lies inside.
-/

namespace Cadence.Number

structure Decimal where
  digits : Nat
  exponent : Int
  deriving DecidableEq

inductive Tie
  | up
  | even
  deriving DecidableEq

/-- The reals that round to one float, in units of `2 ^ exponent`: all between `lower` and `upper`,
with the two ends if `closed`. -/
structure Reals where
  lower : Nat
  middle : Nat
  upper : Nat
  exponent : Int
  closed : Bool

/-- The reals that round to `mantissa * 2 ^ exponent`: half a unit on either side, or a quarter
below when the smaller neighbour is nearer. -/
def Reals.around (mantissa : Nat) (exponent : Int) (narrow : Bool) : Reals where
  lower := 4 * mantissa - if narrow then 1 else 2
  middle := 4 * mantissa
  upper := 4 * mantissa + 2
  exponent := exponent - 2
  closed := mantissa % 2 == 0

namespace Reals

def scaled (r : Reals) (e : Int) (units : Nat) : Nat :=
  units * twoPow r.exponent.toNat * tenPow (-e).toNat

def step (r : Reals) (e : Int) : Nat :=
  tenPow e.toNat * twoPow (-r.exponent).toNat

/-- Whether the `j`-th point of the grid of multiples of `10 ^ e` lies in the interval. -/
def contains (r : Reals) (e : Int) (j : Nat) : Bool :=
  let x := j * r.step e
  let lo := r.scaled e r.lower
  let hi := r.scaled e r.upper
  if r.closed then decide (lo ≤ x ∧ x ≤ hi) else decide (lo < x ∧ x < hi)

/-- The point of the grid of multiples of `10 ^ e` nearest to the middle, if it or its opposite
neighbour lies in the interval. -/
def nearestOn (r : Reals) (tie : Tie) (e : Int) : Option Nat :=
  let mid := r.scaled e r.middle
  let below := mid / r.step e
  let above := below + 1
  match r.contains e below, r.contains e above with
  | false, false => none
  | true, false => some below
  | false, true => some above
  | true, true =>
    let toBelow := mid - below * r.step e
    let toAbove := above * r.step e - mid
    if toBelow < toAbove then some below
    else if toAbove < toBelow then some above
    else match tie with
      | .up => some above
      | .even => some (if below % 2 = 0 then below else above)

end Reals

/-- The exponents of ten of the grids that a double can need, coarsest first. -/
def gridExponents : List Int :=
  (List.range 640).map fun k : Nat => 309 - (k : Int)

/-- The shortest decimal in the interval, and of those the one nearest to its middle. -/
def Reals.shortest (r : Reals) (tie : Tie) : Decimal :=
  match gridExponents.findSome? fun e => (r.nearestOn tie e).map (Decimal.mk · e) with
  | some d => d
  | none => ⟨0, 0⟩

end Cadence.Number
