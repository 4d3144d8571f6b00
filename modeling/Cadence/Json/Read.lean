import Cadence.Json.Number
import Cadence.Mismatch

/-!
# Reading JSON

The text is read once from left to right, and the first problem in that order is the one reported:
text that is not JSON (`malformed`), text that ends too early (`truncated`), or a value of the wrong
shape (`mismatch`).  A `Reader` takes the rest of the text and gives back what is left.

`item` looks at a value only as far as its type needs, `datum` reads it to its end, and `skipValue`
passes over a value that nobody asked for and is less strict about numbers and surrogates.
-/

namespace Cadence.Json

inductive ReadError
  | malformed
  | truncated
  | mismatch (m : Mismatch)

abbrev Reader (α : Type) := List Char → Except ReadError (α × List Char)

/-- How deeply arrays and objects may be nested: one less than this. -/
def nestingLimit : Nat := 128

/-! ## Characters -/

def isBlank (c : Char) : Bool :=
  c == ' ' || c == '\n' || c == '\t' || c == '\r'

def skipBlanks (cs : List Char) : List Char :=
  cs.dropWhile isBlank

def hexValue? (c : Char) : Option Nat :=
  if '0' ≤ c ∧ c ≤ '9' then some (c.toNat - 48)
  else if 'a' ≤ c ∧ c ≤ 'f' then some (c.toNat - 87)
  else if 'A' ≤ c ∧ c ≤ 'F' then some (c.toNat - 55)
  else none

def word (expected : List Char) : Reader Unit :=
  match expected with
  | [] => fun cs => .ok ((), cs)
  | e :: es => fun
    | [] => .error .truncated
    | c :: cs => if c = e then word es cs else .error .malformed

def isShort (cs : List Char) : Bool :=
  (cs.take 4).foldl (fun n c => n + c.utf8Size) 0 < 4

def hexEscape : Reader Nat := fun cs =>
  match cs with
  | a :: b :: c :: d :: rest =>
    match hexValue? a, hexValue? b, hexValue? c, hexValue? d with
    | some a, some b, some c, some d => .ok (((a * 16 + b) * 16 + c) * 16 + d, rest)
    | _, _, _, _ => .error .malformed
  | _ => .error (if isShort cs then .truncated else .malformed)

def escapeLetter? (c : Char) : Option Char :=
  if c = '\x22' then some '\x22'
  else if c = '\\' then some '\\'
  else if c = '/' then some '/'
  else if c = 'b' then some '\x08'
  else if c = 'f' then some '\x0c'
  else if c = 'n' then some '\n'
  else if c = 'r' then some '\r'
  else if c = 't' then some '\t'
  else none

def unicodeEscape : Reader Char := fun cs => do
  let (unit, cs) ← hexEscape cs
  if 0xdc00 ≤ unit ∧ unit ≤ 0xdfff then .error .malformed
  else if unit < 0xd800 ∨ 0xdbff < unit then .ok (Char.ofNat unit, cs)
  else
    let ((), cs) ← word ['\\', 'u'] cs
    let (low, cs) ← hexEscape cs
    if low < 0xdc00 ∨ 0xdfff < low then .error .malformed
    else .ok (Char.ofNat (0x10000 + (unit - 0xd800) * 0x400 + (low - 0xdc00)), cs)

def stringTail : Nat → Reader (List Char)
  | 0, _ => .error .truncated
  | _ + 1, [] => .error .truncated
  | fuel + 1, c :: cs =>
    if c = '\x22' then .ok ([], cs)
    else if c = '\\' then
      match cs with
      | [] => .error .truncated
      | 'u' :: cs => do
        let (x, cs) ← unicodeEscape cs
        let (xs, cs) ← stringTail fuel cs
        .ok (x :: xs, cs)
      | e :: cs =>
        match escapeLetter? e with
        | none => .error .malformed
        | some x => do
          let (xs, cs) ← stringTail fuel cs
          .ok (x :: xs, cs)
    else if c.toNat < 0x20 then .error .malformed
    else do
      let (xs, cs) ← stringTail fuel cs
      .ok (c :: xs, cs)

def stringBody : Reader String := fun cs => do
  let (xs, cs) ← stringTail (cs.length + 1) cs
  .ok (String.ofList xs, cs)

/-- Pass over the inside of a string without looking for pairs of surrogates. -/
def skipStringTail : Nat → Reader Unit
  | 0, _ => .error .truncated
  | _ + 1, [] => .error .truncated
  | fuel + 1, c :: cs =>
    if c = '\x22' then .ok ((), cs)
    else if c = '\\' then
      match cs with
      | [] => .error .truncated
      | 'u' :: cs => do
        let (_, cs) ← hexEscape cs
        skipStringTail fuel cs
      | e :: cs => if (escapeLetter? e).isSome then skipStringTail fuel cs else .error .malformed
    else if c.toNat < 0x20 then .error .malformed
    else skipStringTail fuel cs

def skipString : Reader Unit := fun cs =>
  skipStringTail (cs.length + 1) cs

/-! ## Numbers -/

def someDigits (missing : ReadError) : Reader (List Char) := fun cs =>
  match cs with
  | [] => .error missing
  | c :: _ =>
    if c.isDigit then .ok (cs.takeWhile Char.isDigit, cs.dropWhile Char.isDigit)
    else .error .malformed

def wholeDigits (missing : ReadError) : Reader (List Char) := fun cs => do
  let (ds, rest) ← someDigits missing cs
  match ds with
  | '0' :: _ :: _ => .error .malformed
  | _ => .ok (ds, rest)

def fractionDigits (missing : ReadError) : Reader (Option (List Char)) := fun cs =>
  match cs with
  | '.' :: cs => do
    let (ds, cs) ← someDigits missing cs
    .ok (some ds, cs)
  | _ => .ok (none, cs)

def natOfDigits (ds : List Char) : Nat :=
  ds.foldl (fun n c => n * 10 + digitValue c) 0

def exponentPart (missing : ReadError) : Reader (Option Int) := fun cs =>
  match cs with
  | c :: cs' =>
    if c = 'e' ∨ c = 'E' then
      match cs' with
      | '-' :: cs => do
        let (ds, cs) ← someDigits missing cs
        .ok (some (-(natOfDigits ds : Int)), cs)
      | '+' :: cs => do
        let (ds, cs) ← someDigits missing cs
        .ok (some (natOfDigits ds), cs)
      | cs => do
        let (ds, cs) ← someDigits missing cs
        .ok (some (natOfDigits ds), cs)
    else .ok (none, cs)
  | [] => .ok (none, cs)

def digits (missing : ReadError) : Reader Digits := fun cs => do
  let (whole, cs) ← wholeDigits missing cs
  let (fraction, cs) ← fractionDigits missing cs
  let (exponent, cs) ← exponentPart missing cs
  .ok (⟨whole, fraction, exponent⟩, cs)

def numeral (minus : Bool) : Reader Found := fun cs => do
  let (d, cs) ← digits .truncated cs
  match d.toNumeral minus with
  | none => .error .malformed
  | some (.unsigned n) => .ok (.integer n, cs)
  | some (.negative i) => .ok (.integer i, cs)
  | some (.float x) => .ok (.float x, cs)

/-! ## Values -/

def scalar : Reader Found
  | [] => .error .truncated
  | 'n' :: cs => do let ((), cs) ← word ['u', 'l', 'l'] cs; .ok (.null, cs)
  | 't' :: cs => do let ((), cs) ← word ['r', 'u', 'e'] cs; .ok (.boolean true, cs)
  | 'f' :: cs => do let ((), cs) ← word ['a', 'l', 's', 'e'] cs; .ok (.boolean false, cs)
  | '-' :: cs => numeral true cs
  | '\x22' :: cs => do let (s, cs) ← stringBody cs; .ok (.string s, cs)
  | c :: cs => if c.isDigit then numeral false (c :: cs) else .error .malformed

/-- A value as far as its type needs: of an array or an object only that it is there. -/
def item : Reader Found := fun cs =>
  match skipBlanks cs with
  | '[' :: cs => .ok (.sequence, '[' :: cs)
  | '\x7b' :: cs => .ok (.map, '\x7b' :: cs)
  | cs => scalar cs

def nextItem (first : Bool) : Reader Bool := fun cs =>
  match skipBlanks cs with
  | [] => .error .truncated
  | ']' :: cs => .ok (false, ']' :: cs)
  | ',' :: cs =>
    if first then .ok (true, ',' :: cs)
    else
      match skipBlanks cs with
      | [] => .error .truncated
      | ']' :: _ => .error .malformed
      | cs => .ok (true, cs)
  | cs => if first then .ok (true, cs) else .error .malformed

def nextKey {α : Type} (key : Reader α) (first : Bool) : Reader (Option α) := fun cs =>
  let quoted : Reader (Option α) := fun
    | [] => .error .truncated
    | '\x22' :: cs => do let (k, cs) ← key cs; .ok (some k, cs)
    | _ => .error .malformed
  match skipBlanks cs with
  | [] => .error .truncated
  | '\x7d' :: cs => .ok (none, '\x7d' :: cs)
  | ',' :: cs => if first then .error .malformed else quoted (skipBlanks cs)
  | cs => if first then quoted cs else .error .malformed

def colon : Reader Unit := fun cs => word [':'] (skipBlanks cs)

def close (bracket : Char) : Reader Unit := fun cs => word [bracket] (skipBlanks cs)

def elements (element : Reader Unit) : Nat → Bool → Reader Unit
  | 0, _, _ => .error .truncated
  | fuel + 1, first, cs => do
    let (more, cs) ← nextItem first cs
    if more then
      let ((), cs) ← element cs
      elements element fuel false cs
    else close ']' cs

def members (key value : Reader Unit) : Nat → Bool → Reader Unit
  | 0, _, _ => .error .truncated
  | fuel + 1, first, cs => do
    let (k, cs) ← nextKey key first cs
    match k with
    | some () =>
      let ((), cs) ← colon cs
      let ((), cs) ← value cs
      members key value fuel false cs
    | none => close '\x7d' cs

def ignoring {α : Type} (r : Reader α) : Reader Unit := fun cs => do
  let (_, cs) ← r cs
  .ok ((), cs)

def datum : Nat → Reader Found
  | 0, _ => .error .malformed
  | room + 1, cs =>
    match skipBlanks cs with
    | '[' :: cs =>
      if room = 0 then .error .malformed
      else do
        let ((), cs) ← elements (ignoring (datum room)) (cs.length + 1) true cs
        .ok (.sequence, cs)
    | '\x7b' :: cs =>
      if room = 0 then .error .malformed
      else do
        let ((), cs) ← members (ignoring stringBody) (ignoring (datum room)) (cs.length + 1) true cs
        .ok (.map, cs)
    | cs => scalar cs

/-- Pass over a scalar: a number of any size will do, and one that breaks off is malformed. -/
def skipScalar : Reader Unit
  | '-' :: cs => ignoring (digits .malformed) cs
  | '\x22' :: cs => skipString cs
  | c :: cs =>
    if c.isDigit then ignoring (digits .malformed) (c :: cs) else ignoring scalar (c :: cs)
  | [] => .error .truncated

def skipNested : Nat → Reader Unit
  | 0, _ => .error .truncated
  | depth + 1, cs =>
    match skipBlanks cs with
    | '[' :: cs => elements (skipNested depth) (cs.length + 1) true cs
    | '\x7b' :: cs => members skipString (skipNested depth) (cs.length + 1) true cs
    | cs => skipScalar cs

def skipValue : Reader Unit := fun cs =>
  skipNested (cs.length + 1) cs

def finish {α : Type} (r : Reader α) (text : String) : Except ReadError α := do
  let (x, cs) ← r text.toList
  match skipBlanks cs with
  | [] => .ok x
  | _ => .error .malformed

/-! ## Names -/

def identifier {α : Type} (ofName? : String → Option α) (allowed : List String) : Reader α :=
  fun cs => do
    let (found, cs) ← item cs
    match found with
    | .string s =>
      match ofName? s with
      | some x => .ok (x, cs)
      | none => .error (.mismatch (.variant s allowed))
    | found => .error (.mismatch (.type found "variant identifier"))

/-- A variant without content: its name alone, or an object with the name as only key and `null` as
its value. -/
def unitVariant {α : Type} (room : Nat) (ofName? : String → Option α) (allowed : List String) :
    Reader α := fun cs =>
  match skipBlanks cs with
  | [] => .error .truncated
  | '\x22' :: cs => identifier ofName? allowed ('\x22' :: cs)
  | '\x7b' :: cs =>
    if room ≤ 1 then .error .malformed
    else do
      let (x, cs) ← identifier ofName? allowed cs
      let ((), cs) ← colon cs
      let (found, cs) ← item cs
      match found with
      | .null =>
        let ((), cs) ← close '\x7d' cs
        .ok (x, cs)
      | found => .error (.mismatch (.type found "unit"))
  | _ => .error .malformed

end Cadence.Json
