import Cadence.Duration
import Cadence.Text.Blank
import Cadence.Text.Quoted

/-!
# Reading durations

A duration is written for people as a row of numbers with units, such as `1h 30m` or `2.5s`.  Blanks
may stand between the parts and inside a number.  All amounts are counted in 64 bits, a fraction has
to come out as a whole number of nanoseconds (of seconds, for hours and longer), and errors tell the
byte at which the text goes wrong.

A sum of parts whose nanoseconds make up exactly one more second than the seconds can hold is no
error that is reported: the reader breaks down (`carryOverflow`).
-/

namespace Cadence.Duration

inductive ReadError
  | empty
  | numberExpected (offset : Nat)
  | invalidCharacter (offset : Nat)
  | unknownUnit (number : Nat) (unit : String)
  | tooLarge
  /-- The reader breaks down: the carry of a full second does not fit. -/
  | carryOverflow
  deriving DecidableEq

def ReadError.message : ReadError → String
  | empty => "value was empty"
  | numberExpected offset => "expected number at " ++ toString offset
  | invalidCharacter offset => "invalid character at " ++ toString offset
  | unknownUnit number "" =>
    let n := toString number
    "time unit needed, for example " ++ n ++ "sec or " ++ n ++ "ms"
  | unknownUnit _ unit =>
    "unknown time unit " ++ Text.quoted unit ++ ", supported units: ns, us/µs, ms, sec, min, " ++
      "hours, days, weeks, months, years (and few variations)"
  | tooLarge | carryOverflow =>
    "number is too large or cannot be represented without a lack of precision " ++
      "(values below 1ns are not supported)"

/-! ## Units -/

inductive TimeUnit
  | nanosecond
  | microsecond
  | millisecond
  | second
  | minute
  | hour
  | day
  | week
  | month
  | year
  deriving DecidableEq

namespace TimeUnit

def spellings : List (TimeUnit × List String) :=
  [(nanosecond, ["nanos", "nsec", "ns"]),
    (microsecond, ["usec", "us", "µs"]),
    (millisecond, ["millis", "msec", "ms"]),
    (second, ["seconds", "second", "secs", "sec", "s"]),
    (minute, ["minutes", "minute", "min", "mins", "m"]),
    (hour, ["hours", "hour", "hrs", "hr", "h"]),
    (day, ["days", "day", "d"]),
    (week, ["weeks", "week", "wks", "wk", "w"]),
    (month, ["months", "month", "M"]),
    (year, ["years", "year", "yrs", "yr", "y"])]

def ofText? (s : String) : Option TimeUnit :=
  (spellings.find? fun entry => entry.2.contains s).map (·.1)

/-- The seconds in a year of 365.25 days. -/
def secondsPerYear : Nat := 31557600

/-- The seconds in a month of 30.44 days. -/
def secondsPerMonth : Nat := 2630016

def amount : TimeUnit → Nat × Nat
  | nanosecond => (0, 1)
  | microsecond => (0, 1000)
  | millisecond => (0, 1000000)
  | second => (1, 0)
  | minute => (60, 0)
  | hour => (3600, 0)
  | day => (86400, 0)
  | week => (604800, 0)
  | month => (secondsPerMonth, 0)
  | year => (secondsPerYear, 0)

/-- What a fraction of a unit is counted in: seconds for the hour and longer units, nanoseconds below
that, and nothing for the nanosecond itself. -/
def fractionAmount? : TimeUnit → Option (Nat × Nat)
  | nanosecond => none
  | second => some (0, 1000000000)
  | minute => some (0, 60000000000)
  | u => some u.amount

end TimeUnit

/-! ## Counting in 64 bits -/

def checkedMul (a b : Nat) : Except ReadError Nat :=
  if a * b ≤ maxWord then .ok (a * b) else .error .tooLarge

def checkedAdd (a b : Nat) : Except ReadError Nat :=
  if a + b ≤ maxWord then .ok (a + b) else .error .tooLarge

def exactDiv (a b : Nat) : Except ReadError Nat :=
  if a % b = 0 then .ok (a / b) else .error .tooLarge

def appendDigit (n : Nat) (c : Char) : Except ReadError Nat := do
  checkedAdd (← checkedMul n 10) (c.toNat - 48)

/-- Add seconds and nanoseconds to a duration.  Nanoseconds carry only above one full second, so
exactly one second's worth is left to be carried when the duration is put together. -/
def add (d : Duration) (seconds nanos : Nat) : Except ReadError Duration := do
  let nanos ← checkedAdd d.nanos nanos
  let seconds ←
    if 1000000000 < nanos then checkedAdd seconds (nanos / 1000000000) else pure seconds
  let nanos := if 1000000000 < nanos then nanos % 1000000000 else nanos
  let seconds ← checkedAdd d.seconds seconds
  match mk? (seconds + nanos / 1000000000) (nanos % 1000000000) with
  | some d => .ok d
  | none => .error .carryOverflow

/-! ## Parts -/

structure Fraction where
  numerator : Nat
  denominator : Nat

def addUnits (d : Duration) (number : Nat) (fraction : Option Fraction) (unit : String) :
    Except ReadError Duration :=
  match TimeUnit.ofText? unit with
  | none => .error (.unknownUnit number unit)
  | some u => do
    let d ← d.add (← checkedMul number u.amount.1) (← checkedMul number u.amount.2)
    match fraction with
    | none => .ok d
    | some f =>
      match u.fractionAmount? with
      | none => .error .tooLarge
      | some (seconds, nanos) =>
        d.add (← exactDiv (← checkedMul f.numerator seconds) f.denominator)
          (← exactDiv (← checkedMul f.numerator nanos) f.denominator)

def isUnitLetter (c : Char) : Bool :=
  c.isAlpha || c == 'µ'

structure Place where
  offset : Nat
  rest : List Char

def Place.past (offset : Nat) (c : Char) (rest : List Char) : Place :=
  ⟨offset + c.utf8Size, rest⟩

/-- The first digit of a number after blanks, or nothing at the end of the text.  An error is
reported at `start`. -/
def firstDigit (start : Nat) : Nat → List Char → Except ReadError (Option (Nat × Place))
  | _, [] => .ok none
  | offset, c :: cs =>
    if c.isDigit then .ok (some (c.toNat - 48, .past offset c cs))
    else if Text.isBlank c then firstDigit start (offset + c.utf8Size) cs
    else .error (.numberExpected start)

/-- The digits after a point, up to a letter or the end.  `reached` is the offset after the last digit
or blank, at first that of the point. -/
def fractionDigits : Nat → Nat → Fraction → List Char → Except ReadError (Fraction × Place)
  | reached, _, f, [] =>
    if f.denominator = 1 then .error (.invalidCharacter reached) else .ok (f, ⟨reached, []⟩)
  | reached, offset, f, c :: cs =>
    let next := offset + c.utf8Size
    if c.isDigit then do
      let denominator ← checkedMul f.denominator 10
      let numerator ← appendDigit f.numerator c
      fractionDigits next next ⟨numerator, denominator⟩ cs
    else if Text.isBlank c then fractionDigits next next f cs
    else if isUnitLetter c ∧ f.denominator ≠ 1 then .ok (f, ⟨reached, c :: cs⟩)
    else .error (.invalidCharacter reached)

def numberTail : Nat → Nat → List Char → Except ReadError (Nat × Option Fraction × Place)
  | n, offset, [] => .ok (n, none, ⟨offset, []⟩)
  | n, offset, c :: cs =>
    let next := offset + c.utf8Size
    if c.isDigit then do
      let n ← appendDigit n c
      numberTail n next cs
    else if Text.isBlank c then numberTail n next cs
    else if isUnitLetter c then .ok (n, none, ⟨offset, c :: cs⟩)
    else if c = '.' then do
      let (f, place) ← fractionDigits offset next ⟨0, 1⟩ cs
      .ok (n, some f, place)
    else .error (.invalidCharacter offset)

def parts : Nat → Duration → Nat → Place → Except ReadError Duration
  | 0, d, _, _ => .ok d
  | fuel + 1, d, digit, place => do
    let (number, fraction, place) ← numberTail digit place.offset place.rest
    let letters := place.rest.takeWhile isUnitLetter
    let stop := place.offset + (String.ofList letters).utf8ByteSize
    match place.rest.dropWhile isUnitLetter with
    | [] => d.addUnits number fraction (String.ofList letters)
    | c :: cs =>
      if c.isDigit then
        let d ← d.addUnits number fraction (String.ofList letters)
        parts fuel d (c.toNat - 48) (.past stop c cs)
      else if Text.isBlank c then
        let d ← d.addUnits number fraction (String.ofList letters)
        let next := stop + c.utf8Size
        match ← firstDigit next next cs with
        | none => .ok d
        | some (digit, place) => parts fuel d digit place
      else .error (.invalidCharacter stop)

/-- Read a duration.  A lone zero needs no unit. -/
def ofText (s : String) : Except ReadError Duration :=
  if s = "0" then .ok zero
  else
    match firstDigit 0 0 s.toList with
    | .error e => .error e
    | .ok none => .error .empty
    | .ok (some (digit, place)) => parts (s.length + 1) zero digit place

end Cadence.Duration
