import Cadence.Toml.Text

/-!
# Writing TOML strings

A text can be written in four forms.  The form is the plainest that needs no escape: double quotes,
single quotes, and the two long forms, which may hold line ends and short runs of their own quote.
Where no form does without, quotes and control characters are escaped in a form with double quotes.
-/

namespace Cadence.Toml

inductive StringForm
  | basic
  | literal
  | longBasic
  | longLiteral
  deriving DecidableEq

def longestRun (c : Char) (cs : List Char) : Nat :=
  (cs.foldl (fun (best, run) d =>
    let run := if d = c then run + 1 else 0
    (max best run, run)) (0, 0)).1

def isControl (c : Char) : Bool :=
  (c.toNat ≤ 0x1f && c ≠ '\t' && c ≠ '\n') || c.toNat = 0x7f

def StringForm.of (cs : List Char) : StringForm :=
  let controls := cs.any isControl
  let escapes := cs.contains '\\'
  let lines := cs.contains '\n'
  let doubles := longestRun '\x22' cs
  let singles := longestRun '\x27' cs
  if !controls && !escapes && doubles = 0 && !lines then basic
  else if !controls && singles = 0 && !lines then literal
  else if !controls && !escapes && doubles ≤ 2 then longBasic
  else if !controls && singles ≤ 2 then longLiteral
  else if lines then longBasic
  else basic

def numberEscape (c : Char) : List Char :=
  let digits := (Nat.toDigits 16 c.toNat).map Char.toUpper
  ['\\', 'u'] ++ List.replicate (4 - digits.length) '0' ++ digits

/-- The characters of a form with double quotes.  `allowed` quotes may stand in a row as they are, of
which `run` have gone before. -/
def basicChars (isLong : Bool) (allowed : Nat) : Nat → List Char → List Char
  | _, [] => []
  | run, c :: cs =>
    if c = '\x22' then
      if run + 1 ≤ allowed then c :: basicChars isLong allowed (run + 1) cs
      else '\\' :: c :: basicChars isLong allowed 0 cs
    else
      (if c = '\x08' then ['\\', 'b']
      else if c = '\t' then ['\\', 't']
      else if c = '\n' then if isLong then [c] else ['\\', 'n']
      else if c = '\x0c' then ['\\', 'f']
      else if c = '\r' then ['\\', 'r']
      else if c = '\\' then ['\\', '\\']
      else if c.toNat ≤ 0x1f || c.toNat = 0x7f then numberEscape c
      else [c]) ++ basicChars isLong allowed 0 cs

def openingLine (cs : List Char) : List Char :=
  if cs.contains '\n' then ['\n'] else []

def stringText (s : String) : String :=
  let cs := s.toList
  let double := '\x22'
  let single := '\x27'
  String.ofList <|
    match StringForm.of cs with
    | .basic => double :: basicChars false 0 0 cs ++ [double]
    | .literal => single :: cs ++ [single]
    | .longBasic =>
      List.replicate 3 double ++ openingLine cs ++ basicChars true 2 0 cs ++ List.replicate 3 double
    | .longLiteral =>
      List.replicate 3 single ++ openingLine cs ++ cs ++ List.replicate 3 single

end Cadence.Toml
