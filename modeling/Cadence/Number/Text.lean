import Cadence.Number.Shortest

/-!
# The text of a float

A `Style` holds the decisions that a notation for floats has to make once the shortest digits are
known: how an exact tie goes, which magnitudes are written without an exponent, and whether a whole
number keeps a zero after the point.  The library has three of them: `plain` for people, `pointed`
for error messages about documents, and the two `json` styles.
-/

namespace Cadence.Number

structure Style where
  tie : Tie
  /-- The decimal exponents of the leading digit that are written without an exponent part, or
  `none` if all are. -/
  positional : Option (Int × Int)
  /-- Whether a whole number written without an exponent part ends in `.0`. -/
  pointZero : Bool

def Style.plain : Style := ⟨.up, none, false⟩

def Style.pointed : Style := ⟨.up, none, true⟩

/-- A double in JSON: positional from `10 ^ -5` up to below `10 ^ 16`. -/
def Style.json64 : Style := ⟨.even, some (-5, 15), true⟩

/-- A single in JSON: positional from `10 ^ -6` up to below `10 ^ 13`. -/
def Style.json32 : Style := ⟨.even, some (-6, 12), true⟩

def digitsOf (n : Nat) : List Char :=
  Nat.toDigits 10 n

def positionalText (pointZero : Bool) (digits : List Char) (exponent : Int) : List Char :=
  if 0 ≤ exponent then
    digits ++ List.replicate exponent.toNat '0' ++ (if pointZero then ['.', '0'] else [])
  else
    let places := (-exponent).toNat
    if places < digits.length then
      digits.take (digits.length - places) ++ '.' :: digits.drop (digits.length - places)
    else
      '0' :: '.' :: List.replicate (places - digits.length) '0' ++ digits

def scientificText (digits : List Char) (exponent : Int) : List Char :=
  let leading := exponent + digits.length - 1
  let mantissa :=
    match digits with
    | d :: [] => [d]
    | d :: rest => d :: '.' :: rest
    | [] => []
  mantissa ++ 'e' :: (if leading < 0 then '-' else '+') :: digitsOf leading.natAbs

namespace Style

def renderDecimal (s : Style) (d : Decimal) : List Char :=
  let digits := digitsOf d.digits
  let leading := d.exponent + digits.length - 1
  let fits :=
    match s.positional with
    | none => true
    | some (lo, hi) => decide (lo ≤ leading ∧ leading ≤ hi)
  if fits then positionalText s.pointZero digits d.exponent
  else scientificText digits d.exponent

def render (s : Style) : Decoded → String
  | .nan => "NaN"
  | .infinite false => "inf"
  | .infinite true => "-inf"
  | .finite negative m q narrow =>
    let magnitude :=
      if m = 0 then positionalText s.pointZero ['0'] 0
      else s.renderDecimal ((Reals.around m q narrow).shortest s.tie)
    String.ofList (if negative then '-' :: magnitude else magnitude)

end Style

def plain64 (x : Float) : String := Style.plain.render (decode64 x)

def plain32 (x : Float32) : String := Style.plain.render (decode32 x)

def pointed64 (x : Float) : String := Style.pointed.render (decode64 x)

def json64 (x : Float) : String := Style.json64.render (decode64 x)

def json32 (x : Float32) : String := Style.json32.render (decode32 x)

end Cadence.Number
