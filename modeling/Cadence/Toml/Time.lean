import Cadence.Toml.Number

/-!
# TOML dates and times

A date, a time, or a date and a time with or without an offset.  The fields are checked, so that no
day is read that the calendar does not have, and then forgotten: nothing in the library uses them.
-/

namespace Cadence.Toml

def field (width least greatest : Nat) : Reader Nat := fun cs =>
  let ds := cs.take width
  let n := numberOfDigits 10 ds
  if ds.length = width ∧ ds.all Char.isDigit ∧ least ≤ n ∧ n ≤ greatest then
    some (n, cs.drop width)
  else none

def isLeapYear (year : Nat) : Bool :=
  year % 4 == 0 && (year % 100 != 0 || year % 400 == 0)

def daysInMonth (year month : Nat) : Nat :=
  if month = 2 then if isLeapYear year then 29 else 28
  else if month = 4 ∨ month = 6 ∨ month = 9 ∨ month = 11 then 30
  else 31

def date : Reader Unit := fun cs => do
  let (year, cs) ← field 4 0 9999 cs
  let ((), cs) ← symbol '-' cs
  let (month, cs) ← field 2 1 12 cs
  let ((), cs) ← symbol '-' cs
  let (_, cs) ← field 2 1 (daysInMonth year month) cs
  some ((), cs)

def time : Reader Unit := fun cs => do
  let (_, cs) ← field 2 0 23 cs
  let ((), cs) ← symbol ':' cs
  let (_, cs) ← field 2 0 59 cs
  let ((), cs) ← symbol ':' cs
  let (_, cs) ← field 2 0 60 cs
  match cs with
  | '.' :: rest =>
    if (rest.head?.map Char.isDigit).getD false then some ((), rest.dropWhile Char.isDigit)
    else some ((), cs)
  | _ => some ((), cs)

def offset : Reader Unit := fun cs =>
  match cs with
  | c :: rest =>
    if c = 'Z' ∨ c = 'z' then some ((), rest)
    else if c = '+' ∨ c = '-' then do
      let (_, cs) ← field 2 0 23 rest
      let ((), cs) ← symbol ':' cs
      let (_, cs) ← field 2 0 59 cs
      some ((), cs)
    else none
  | [] => none

def optionalOffset : Reader Unit := fun cs =>
  match cs with
  | c :: _ => if c = 'Z' ∨ c = 'z' ∨ c = '+' ∨ c = '-' then offset cs else some ((), cs)
  | [] => some ((), cs)

def datetime : Reader Unit := fun cs =>
  match date cs with
  | none => time cs
  | some ((), cs) =>
    match cs with
    | c :: rest =>
      if c = 'T' ∨ c = 't' ∨ c = ' ' then
        match time rest with
        | some ((), cs) => optionalOffset cs
        | none => some ((), c :: rest)
      else some ((), cs)
    | [] => some ((), cs)

end Cadence.Toml
