/-!
# Binary floating-point numbers

A finite binary float is a whole number of units in the last place, `m * 2 ^ q`.  This module takes
the bit pattern of a float apart into that form (`Format.decode`), finds the bit pattern nearest to
a quotient of naturals (`Format.nearest`), and offers the three roundings of a float to a whole
number or to the narrower format that the rest of the library needs.  All of it is exact arithmetic
on `Nat` and `Int`.
-/

namespace Cadence.Number

def twoPow (exponent : Nat) : Nat := Nat.pow 2 exponent

def tenPow (exponent : Nat) : Nat := Nat.pow 10 exponent

structure Format where
  fractionBits : Nat
  exponentBits : Nat
  deriving DecidableEq

def binary64 : Format := ⟨52, 11⟩

def binary32 : Format := ⟨23, 8⟩

/-- What a bit pattern stands for.  A finite magnitude is `mantissa * 2 ^ exponent`; `narrow` says
that the next smaller float is only half as far away as the next larger one. -/
inductive Decoded
  | nan
  | infinite (negative : Bool)
  | finite (negative : Bool) (mantissa : Nat) (exponent : Int) (narrow : Bool)
  deriving DecidableEq

namespace Format

def leastExponent (f : Format) : Int :=
  2 - twoPow (f.exponentBits - 1) - f.fractionBits

def infinityBits (f : Format) : Nat :=
  (twoPow f.exponentBits - 1) * twoPow f.fractionBits

def signWeight (f : Format) : Nat :=
  twoPow (f.fractionBits + f.exponentBits)

def decode (f : Format) (bits : Nat) : Decoded :=
  let negative := decide (f.signWeight ≤ bits)
  let magnitude := bits % f.signWeight
  let field := magnitude / twoPow f.fractionBits
  let fraction := magnitude % twoPow f.fractionBits
  if field = twoPow f.exponentBits - 1 then
    if fraction = 0 then .infinite negative else .nan
  else if field = 0 then
    .finite negative fraction f.leastExponent false
  else
    .finite negative (twoPow f.fractionBits + fraction) (f.leastExponent + (field - 1))
      (decide (fraction = 0 ∧ 1 < field))

/-! ## Rounding to a format -/

def divRoundEven (num den : Nat) : Nat :=
  let q := num / den
  let twice := 2 * (num % den)
  if twice < den then q
  else if den < twice then q + 1
  else if q % 2 = 0 then q
  else q + 1

/-- The exponent of the last place in which `num / den` is to be rounded: the one that leaves
`fractionBits + 1` binary digits, but never less than the least exponent of the format. -/
def lastPlace (f : Format) (num den : Nat) : Int :=
  let guess : Int := (num.log2 : Int) - den.log2 - f.fractionBits
  -- The quotient has `fractionBits + 1` binary digits above `2 ^ guess`, or one digit less.
  let short :=
    if 0 ≤ guess then num < twoPow (f.fractionBits + guess.toNat) * den
    else num * twoPow (-guess).toNat < twoPow f.fractionBits * den
  max (if short then guess - 1 else guess) f.leastExponent

/-- The bit pattern of the float nearest to `num / den`, ties going to the even one.  A quotient
beyond the largest float rounds to infinity. -/
def nearest (f : Format) (num den : Nat) : Nat :=
  if num = 0 then 0
  else
    let q := f.lastPlace num den
    let m :=
      if 0 ≤ q then divRoundEven num (den * twoPow q.toNat)
      else divRoundEven (num * twoPow (-q).toNat) den
    -- A mantissa that rounds up to the next power of two carries into the exponent field.
    min ((q - f.leastExponent).toNat * twoPow f.fractionBits + m) f.infinityBits

def nearestDyadic (f : Format) (negative : Bool) (m : Nat) (q : Int) : Nat :=
  (if negative then f.signWeight else 0) + f.nearest (m * twoPow q.toNat) (twoPow (-q).toNat)

def nearestDecimal (f : Format) (negative : Bool) (digits : Nat) (exponent : Int) : Nat :=
  (if negative then f.signWeight else 0) + f.nearest (digits * tenPow exponent.toNat)
    (tenPow (-exponent).toNat)

end Format

/-! ## The two float types -/

def decode64 (x : Float) : Decoded :=
  binary64.decode x.toBits.toNat

def decode32 (x : Float32) : Decoded :=
  binary32.decode x.toBits.toNat

def ofNat64 (n : Nat) : Float :=
  Float.ofBits (UInt64.ofNat (binary64.nearest n 1))

def ofInt64 (i : Int) : Float :=
  Float.ofBits (UInt64.ofNat (binary64.nearestDyadic (decide (i < 0)) i.natAbs 0))

def ofInt32 (i : Int) : Float32 :=
  Float32.ofBits (UInt32.ofNat (binary32.nearestDyadic (decide (i < 0)) i.natAbs 0))

def ofDecimal64 (negative : Bool) (digits : Nat) (exponent : Int) : Float :=
  Float.ofBits (UInt64.ofNat (binary64.nearestDecimal negative digits exponent))

/-- The double nearest to `± digits * 10 ^ exponent`, where the digits were written as so many of them.
An exponent far out of range is not evaluated. -/
def ofDigits64 (negative : Bool) (digits length : Nat) (exponent : Int) : Float :=
  if digits = 0 ∨ exponent + length < -400 then if negative then -0.0 else 0.0
  else if 400 < exponent + length ∧ 400 < exponent then
    if negative then -(1.0 / 0.0) else 1.0 / 0.0
  else ofDecimal64 negative digits exponent

/-- The single nearest to a double.  Infinities keep their sign and a NaN stays one. -/
def narrow (x : Float) : Float32 :=
  match decode64 x with
  | .nan => Float32.ofBits 0x7fc00000
  | .infinite negative =>
    Float32.ofBits (UInt32.ofNat
      ((if negative then binary32.signWeight else 0) + binary32.infinityBits))
  | .finite negative m q _ =>
    Float32.ofBits (UInt32.ofNat (binary32.nearestDyadic negative m q))

def wholePart (m : Nat) (q : Int) : Nat :=
  m * twoPow q.toNat / twoPow (-q).toNat

def roundHalfUp (m : Nat) (q : Int) : Nat :=
  (2 * m * twoPow q.toNat + twoPow (-q).toNat) / (2 * twoPow (-q).toNat)

def clampedWhole (limit : Nat) (x : Float) : Nat :=
  match decode64 x with
  | .nan => 0
  | .infinite negative => if negative then 0 else limit
  | .finite negative m q _ => if negative then 0 else min (wholePart m q) limit

def roundedNat (x : Float) : Nat :=
  match decode64 x with
  | .finite false m q _ => roundHalfUp m q
  | _ => 0

end Cadence.Number
