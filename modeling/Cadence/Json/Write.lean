import Cadence.Text.Quoted

/-!
# Writing JSON

A document to be written keeps the order of its members and takes numbers as text, so that whoever
builds it chooses their notation.  `compact` writes it without blanks, `pretty` one member or element
a line.
-/

namespace Cadence.Json

inductive Document
  | null
  | boolean (value : Bool)
  | number (text : String)
  | string (value : String)
  | array (elements : List Document)
  | object (members : List (String × Document))

def escapeChar (c : Char) : List Char :=
  if c = '\x22' then ['\\', '\x22']
  else if c = '\\' then ['\\', '\\']
  else if c = '\x08' then ['\\', 'b']
  else if c = '\x0c' then ['\\', 'f']
  else if c = '\n' then ['\\', 'n']
  else if c = '\r' then ['\\', 'r']
  else if c = '\t' then ['\\', 't']
  else if c.toNat < 0x10 then ['\\', 'u', '0', '0', '0'] ++ Text.hexDigits c.toNat
  else if c.toNat < 0x20 then ['\\', 'u', '0', '0'] ++ Text.hexDigits c.toNat
  else [c]

def stringText (s : String) : List Char :=
  '\x22' :: s.toList.flatMap escapeChar ++ ['\x22']

namespace Document

def nat (n : Nat) : Document := number (toString n)

def nat? (n : Option Nat) : Document :=
  match n with
  | some n => nat n
  | none => null

mutual

def compactChars : Document → List Char
  | null => ['n', 'u', 'l', 'l']
  | boolean true => ['t', 'r', 'u', 'e']
  | boolean false => ['f', 'a', 'l', 's', 'e']
  | number text => text.toList
  | string s => stringText s
  | array [] => ['[', ']']
  | array (x :: xs) => '[' :: x.compactChars ++ compactElements xs ++ [']']
  | object [] => ['\x7b', '\x7d']
  | object ((k, x) :: ms) =>
    '\x7b' :: stringText k ++ ':' :: x.compactChars ++ compactMembers ms ++ ['\x7d']

def compactElements : List Document → List Char
  | [] => []
  | x :: xs => ',' :: x.compactChars ++ compactElements xs

def compactMembers : List (String × Document) → List Char
  | [] => []
  | (k, x) :: ms => ',' :: stringText k ++ ':' :: x.compactChars ++ compactMembers ms

end

def newLine (level : Nat) : List Char :=
  '\n' :: List.replicate (2 * level) ' '

mutual

def prettyChars (level : Nat) : Document → List Char
  | null => ['n', 'u', 'l', 'l']
  | boolean true => ['t', 'r', 'u', 'e']
  | boolean false => ['f', 'a', 'l', 's', 'e']
  | number text => text.toList
  | string s => stringText s
  | array [] => ['[', ']']
  | array (x :: xs) =>
    '[' :: newLine (level + 1) ++ x.prettyChars (level + 1) ++ prettyElements level xs ++
      newLine level ++ [']']
  | object [] => ['\x7b', '\x7d']
  | object ((k, x) :: ms) =>
    '\x7b' :: newLine (level + 1) ++ stringText k ++ ':' :: ' ' :: x.prettyChars (level + 1) ++
      prettyMembers level ms ++ newLine level ++ ['\x7d']

def prettyElements (level : Nat) : List Document → List Char
  | [] => []
  | x :: xs =>
    ',' :: newLine (level + 1) ++ x.prettyChars (level + 1) ++ prettyElements level xs

def prettyMembers (level : Nat) : List (String × Document) → List Char
  | [] => []
  | (k, x) :: ms =>
    ',' :: newLine (level + 1) ++ stringText k ++ ':' :: ' ' :: x.prettyChars (level + 1) ++
      prettyMembers level ms

end

def compact (d : Document) : String := String.ofList d.compactChars

def pretty (d : Document) : String := String.ofList (d.prettyChars 0)

end Document

end Cadence.Json
