import Cadence.Number.Binary

/-!
# Reading decimal numbers

A number is written as people write it: a sign, digits with or without a point, a power of ten; or as
an infinity or a NaN by name, in letters of either case.  It is read to the nearest double.
-/

namespace Cadence.Number

def spanDigits (cs : List Char) : List Char × List Char :=
  (cs.takeWhile Char.isDigit, cs.dropWhile Char.isDigit)

def natOfDigits (ds : List Char) : Nat :=
  ds.foldl (fun n c => n * 10 + (c.toNat - 48)) 0

def spanSign : List Char → Bool × List Char
  | '-' :: cs => (true, cs)
  | '+' :: cs => (false, cs)
  | cs => (false, cs)

def powerOfTen? : List Char → Option Int
  | [] => some 0
  | c :: cs =>
    if c = 'e' ∨ c = 'E' then
      let (minus, cs) := spanSign cs
      match spanDigits cs with
      | ([], _) => none
      | (ds, []) => some (if minus then -(natOfDigits ds : Int) else natOfDigits ds)
      | _ => none
    else none

def unsigned? (minus : Bool) (cs : List Char) : Option Float :=
  let (whole, cs) := spanDigits cs
  let (places, cs) :=
    match cs with
    | '.' :: cs => spanDigits cs
    | cs => ([], cs)
  let ds := whole ++ places
  if ds.isEmpty then none
  else
    (powerOfTen? cs).map fun e =>
      ofDigits64 minus (natOfDigits ds) ds.length (e - places.length)

def infinityNames : List String := ["inf", "infinity"]

def ofText? (s : String) : Option Float :=
  let (minus, cs) := spanSign s.toList
  let name := String.ofList (cs.map Char.toLower)
  if infinityNames.contains name then some (if minus then -(1.0 / 0.0) else 1.0 / 0.0)
  else if name = "nan" then some (0.0 / 0.0)
  else unsigned? minus cs

end Cadence.Number
