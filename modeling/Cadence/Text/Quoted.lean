import Cadence.Text.Invisible

/-!
# Quoted text

Text between double quotes as it stands in messages for people: a quote and a backslash are
escaped, the common control characters by letter and every other character without a glyph by its
number in hexadecimal.
-/

namespace Cadence.Text

def hexDigits (n : Nat) : List Char :=
  Nat.toDigits 16 n

def quoteChar (c : Char) : List Char :=
  if c = '\x00' then ['\\', '0']
  else if c = '\t' then ['\\', 't']
  else if c = '\r' then ['\\', 'r']
  else if c = '\n' then ['\\', 'n']
  else if c = '\x22' then ['\\', '\x22']
  else if c = '\\' then ['\\', '\\']
  else if isInvisible c then ['\\', 'u', '\x7b'] ++ hexDigits c.toNat ++ ['\x7d']
  else [c]

/-- A path in double quotes, in which an apostrophe is escaped as well. -/
def quotedPath (s : String) : String :=
  String.ofList
    ('\x22' :: s.toList.flatMap (fun c => if c = '\x27' then ['\\', c] else quoteChar c) ++
      ['\x22'])

def quoted (s : String) : String :=
  String.ofList ('\x22' :: s.toList.flatMap quoteChar ++ ['\x22'])

end Cadence.Text
