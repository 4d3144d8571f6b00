import Cadence.Duration
import Cadence.Number.Text

/-!
# Reading JSON numbers

A whole number that fits in 64 bits is read exactly.  Every other number becomes a double: its leading
digits, as many as fit in 64 bits, are converted and then multiplied or divided by a power of ten.
Each of the two steps rounds, so the result may miss the nearest double by a few units in the last
place.
-/

namespace Cadence.Json

inductive Numeral
  | unsigned (value : Nat)
  | negative (value : Int)
  | float (value : Float)

structure Digits where
  whole : List Char
  fraction : Option (List Char)
  exponent : Option Int

def digitValue (c : Char) : Nat := c.toNat - 48

/-- Append digits to a number as long as it fits in 64 bits, with how many were appended. -/
def appendDigits (n : Nat) : List Char → Nat × Nat
  | [] => (n, 0)
  | c :: cs =>
    if n * 10 + digitValue c ≤ maxWord then
      let (n, used) := appendDigits (n * 10 + digitValue c) cs
      (n, used + 1)
    else (n, 0)

def powerOfTen (e : Nat) : Float :=
  Number.ofDecimal64 false 1 e

/-- Multiply by a power of ten in steps of at most 308 places; absent if that leaves the range of the
doubles.  Three steps down lead from any 64-bit number to zero. -/
def scale (x : Float) (exponent : Int) : Nat → Option Float
  | 0 => some x
  | fuel + 1 =>
    if exponent.natAbs ≤ 308 then
      if 0 ≤ exponent then
        let y := x * powerOfTen exponent.natAbs
        if y.isInf then none else some y
      else some (x / powerOfTen exponent.natAbs)
    else if x == 0.0 then some x
    else if 0 ≤ exponent then none
    else scale (x / powerOfTen 308) (exponent + 308) fuel

def floatOfParts (minus : Bool) (significand : Nat) (exponent : Int) : Option Float :=
  (scale (Number.ofNat64 significand) exponent 4).map fun x => if minus then -x else x

def maxExponent : Int := 2147483647

def Digits.toNumeral (d : Digits) (minus : Bool) : Option Numeral :=
  let (significand, used) := appendDigits 0 d.whole
  let dropped : Nat := d.whole.length - used
  match d.fraction, d.exponent, dropped with
  | none, none, 0 =>
    if !minus then some (.unsigned significand)
    else if significand = 0 ∨ maxSigned + 1 < significand then
      some (.float (-(Number.ofNat64 significand)))
    else some (.negative (-(significand : Int)))
  | _, _, _ =>
    let (significand, places) :=
      match d.fraction with
      | some fs => appendDigits significand fs
      | none => (significand, 0)
    let exponent : Int := dropped - places
    match d.exponent with
    | none => (floatOfParts minus significand exponent).map .float
    | some e =>
      if maxExponent < e.natAbs then
        if significand ≠ 0 ∧ 0 ≤ e then none
        else some (.float (if minus then -0.0 else 0.0))
      else (floatOfParts minus significand (exponent + e)).map .float

end Cadence.Json
