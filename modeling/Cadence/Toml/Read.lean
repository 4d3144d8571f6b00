import Cadence.Toml.Time
import Cadence.Toml.Tree

/-!
# Reading TOML

A document is read line by line into a tree of tables.  `value` is bounded by how deep arrays and
inline tables may be nested, the lists inside them by the length of the text.
-/

namespace Cadence.Toml

/-! ## Values -/

def boolean : Reader Bool
  | 't' :: 'r' :: 'u' :: 'e' :: cs => some (true, cs)
  | 'f' :: 'a' :: 'l' :: 's' :: 'e' :: cs => some (false, cs)
  | _ => none

def dateOrNumber : Reader Node := fun cs =>
  match datetime cs with
  | some ((), cs) => some (.datetime, cs)
  | none =>
    match float cs with
    | some (x, cs) => some (.float x, cs)
    | none => (integer cs).map fun (i, cs) => (.integer i, cs)

def scalar : Reader Node
  | [] => none
  | c :: cs =>
    if c = '\x22' ∨ c = '\x27' then (string (c :: cs)).map fun (s, cs) => (.string s, cs)
    else if c = 't' ∨ c = 'f' then (boolean (c :: cs)).map fun (b, cs) => (.boolean b, cs)
    else if c = 'i' ∨ c = 'n' then (namedFloat (c :: cs)).map fun (x, cs) => (.float x, cs)
    else if c = '+' ∨ c = '-' ∨ c.isDigit then dateOrNumber (c :: cs)
    else none

/-- The elements of an array from the next one on, up to the closing bracket.  A comma may follow the
last one. -/
def items (element : Reader Node) : Nat → Reader (List Node)
  | 0, _ => none
  | fuel + 1, cs =>
    match skipAllLayout cs with
    | ']' :: cs => some ([], cs)
    | cs => do
      let (x, cs) ← element cs
      match skipAllLayout cs with
      | ',' :: cs => do
        let (xs, cs) ← items element fuel cs
        some (x :: xs, cs)
      | ']' :: cs => some ([x], cs)
      | _ => none

def pair (element : Reader Node) : Reader (List String × String × Node) := fun cs => do
  let ((path, last), cs) ← key cs
  let ((), cs) ← symbol '=' cs
  let (x, cs) ← element (skipBlanks cs)
  some ((path, last, x), skipBlanks cs)

/-- The pairs of an inline table from the next one on, up to the closing brace, added to those before.
No comma may follow the last one. -/
def inlinePairs (element : Reader Node) : Nat → Entries → Reader Entries
  | 0, _, _ => none
  | fuel + 1, es, cs => do
    let ((path, last, x), cs) ← pair element cs
    let es ← es.insertPair path last x
    match cs with
    | ',' :: cs => inlinePairs element fuel es cs
    | '\x7d' :: cs => some (es, cs)
    | _ => none

def inlineTable (element : Reader Node) : Reader Entries := fun cs =>
  match skipBlanks cs with
  | '\x7d' :: cs => some ([], cs)
  | cs => inlinePairs element (cs.length + 1) [] cs

def value : Nat → Reader Node
  | 0, _ => none
  | room + 1, cs =>
    match cs with
    | '[' :: cs =>
      if room = 0 then none
      else (items (value room) (cs.length + 1) cs).map fun (xs, cs) => (.array xs, cs)
    | '\x7b' :: cs =>
      if room = 0 then none
      else (inlineTable (value room) cs).map fun (es, cs) => (.table .inline es, cs)
    | cs => scalar cs

/-! ## Documents -/

def header : Reader Line := fun cs =>
  match cs with
  | '[' :: cs => do
    let ((path, last), cs) ← key cs
    let ((), cs) ← symbol ']' cs
    let ((), cs) ← symbol ']' cs
    some (.arrayHeader path last, cs)
  | cs => do
    let ((path, last), cs) ← key cs
    let ((), cs) ← symbol ']' cs
    some (.header path last, cs)

def line : Reader Line := fun cs => do
  let (l, cs) ←
    match cs with
    | '[' :: cs => header cs
    | cs => (pair (value nestingLimit) cs).map fun ((path, last, x), cs) => (.pair path last x, cs)
  let ((), cs) ← lineEnd cs
  some (l, cs)

def lines : Nat → List Char → Option (List Line)
  | 0, _ => none
  | fuel + 1, cs =>
    match skipBlanks cs with
    | [] => some []
    | '#' :: cs => do
      let ((), cs) ← lineEnd ('#' :: cs)
      lines fuel cs
    | c :: cs =>
      match newLine (c :: cs) with
      | some ((), cs) => lines fuel cs
      | none => do
        let (l, cs) ← line (c :: cs)
        let ls ← lines fuel cs
        some (l :: ls)

def skipMark : List Char → List Char
  | c :: cs => if c = '\ufeff' then cs else c :: cs
  | [] => []

def document (text : String) : Option Entries := do
  let cs := skipMark text.toList
  let ls ← lines (cs.length + 1) cs
  let d ← Draft.empty.addAll ls
  some d.root

end Cadence.Toml
