import Cadence.Number.Binary
import Cadence.Duration
import Cadence.Toml.Text

/-!
# TOML numbers

Whole numbers have to fit in 64 bits with a sign; floats are read to the nearest double, and one too
large is refused unless it is negative.
-/

namespace Cadence.Toml

/-- A row of at least one digit with single underscores between digits. -/
def digitRow (isDigit : Char → Bool) : Reader (List Char)
  | [] => none
  | c :: cs =>
    if !isDigit c then none
    else
      match cs with
      | '_' :: rest => do
        let (ds, rest) ← digitRow isDigit rest
        some (c :: ds, rest)
      | rest =>
        match digitRow isDigit rest with
        | some (ds, rest) => some (c :: ds, rest)
        | none => if (rest.head?.map isDigit).getD false then none else some ([c], rest)

def sign : List Char → Bool × List Char
  | '-' :: cs => (true, cs)
  | '+' :: cs => (false, cs)
  | cs => (false, cs)

def decimalRow : Reader (List Char) := fun cs =>
  match cs with
  | '0' :: cs => some (['0'], cs)
  | cs => digitRow Char.isDigit cs

def numberOfDigits (base : Nat) (ds : List Char) : Nat :=
  ds.foldl (fun n c => n * base + (hexValue? c).getD 0) 0

def signedInRange (minus : Bool) (n : Nat) : Option Int :=
  if minus then if n ≤ maxSigned + 1 then some (-(n : Int)) else none
  else if n ≤ maxSigned then some n else none

def basedInteger (base : Nat) (isDigit : Char → Bool) : Reader Int := fun cs => do
  let (ds, cs) ← digitRow isDigit cs
  let i ← signedInRange false (numberOfDigits base ds)
  some (i, cs)

def integer : Reader Int := fun cs =>
  match cs with
  | '0' :: 'x' :: cs => basedInteger 16 (fun c => (hexValue? c).isSome) cs
  | '0' :: 'o' :: cs => basedInteger 8 (fun c => '0' ≤ c && c ≤ '7') cs
  | '0' :: 'b' :: cs => basedInteger 2 (fun c => c == '0' || c == '1') cs
  | cs => do
    let (minus, cs) := sign cs
    let (ds, cs) ← decimalRow cs
    let i ← signedInRange minus (numberOfDigits 10 ds)
    some (i, cs)

/-! ## Floats -/

def fraction : Reader (List Char)
  | '.' :: cs => digitRow Char.isDigit cs
  | _ => none

def exponent : Reader Int := fun cs =>
  match cs with
  | c :: cs =>
    if c = 'e' ∨ c = 'E' then do
      let (minus, cs) := sign cs
      let (ds, cs) ← digitRow Char.isDigit cs
      let n := numberOfDigits 10 ds
      some (if minus then -(n : Int) else n, cs)
    else none
  | [] => none

def startsExponent : List Char → Bool
  | c :: _ => c == 'e' || c == 'E'
  | [] => false

def decimalFloat : Reader Float := fun cs => do
  let (minus, cs) := sign cs
  let (whole, cs) ← decimalRow cs
  let (places, cs) ←
    match cs with
    | '.' :: _ => fraction cs
    | _ => if startsExponent cs then some ([], cs) else none
  let (e, cs) ← if startsExponent cs then exponent cs else some (0, cs)
  let ds := whole ++ places
  let x := Number.ofDigits64 minus (numberOfDigits 10 ds) ds.length (e - places.length)
  if !minus && x.isInf then none else some (x, cs)

def namedFloat : Reader Float := fun cs =>
  let (minus, cs) := sign cs
  match cs with
  | 'i' :: 'n' :: 'f' :: cs => some (if minus then -(1.0 / 0.0) else 1.0 / 0.0, cs)
  | 'n' :: 'a' :: 'n' :: cs => some (0.0 / 0.0, cs)
  | _ => none

def float : Reader Float := fun cs =>
  match decimalFloat cs with
  | some r => some r
  | none => namedFloat cs

end Cadence.Toml
