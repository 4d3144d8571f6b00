/-!
# The characters of TOML

Blanks, comments, line ends, quoted strings and keys.  A `Reader` takes the rest of the text and gives
back what is left, or nothing if the text is not TOML: every syntax error is alike.
-/

namespace Cadence.Toml

abbrev Reader (α : Type) := List Char → Option (α × List Char)

/-! ## Blanks, comments and lines -/

def isBlank (c : Char) : Bool :=
  c == ' ' || c == '\t'

def skipBlanks (cs : List Char) : List Char :=
  cs.dropWhile isBlank

def isCommentChar (c : Char) : Bool :=
  c == '\t' || (0x20 ≤ c.toNat && c.toNat ≠ 0x7f)

def skipComment : List Char → List Char
  | '#' :: cs => cs.dropWhile isCommentChar
  | cs => cs

def newLine : Reader Unit
  | '\n' :: cs => some ((), cs)
  | '\r' :: '\n' :: cs => some ((), cs)
  | _ => none

def lineEnd : Reader Unit := fun cs =>
  match skipComment (skipBlanks cs) with
  | [] => some ((), [])
  | cs => newLine cs

def skipLayout : Nat → List Char → List Char
  | 0, cs => cs
  | fuel + 1, cs =>
    match skipComment (skipBlanks cs) with
    | '\n' :: cs => skipLayout fuel cs
    | '\r' :: '\n' :: cs => skipLayout fuel cs
    | cs => cs

def skipAllLayout (cs : List Char) : List Char :=
  skipLayout (cs.length + 1) cs

/-- Pass over blanks and line ends, without comments. -/
def skipEmptyLines : Nat → List Char → List Char
  | 0, cs => cs
  | fuel + 1, cs =>
    match skipBlanks cs with
    | '\n' :: cs => skipEmptyLines fuel cs
    | '\r' :: '\n' :: cs => skipEmptyLines fuel cs
    | cs => cs

def symbol (c : Char) : Reader Unit
  | d :: cs => if d = c then some ((), cs) else none
  | [] => none

/-! ## Strings -/

def isBasicChar (c : Char) : Bool :=
  isCommentChar c && c ≠ '\x22' && c ≠ '\\'

def isLiteralChar (c : Char) : Bool :=
  isCommentChar c && c ≠ '\x27'

def hexValue? (c : Char) : Option Nat :=
  if '0' ≤ c ∧ c ≤ '9' then some (c.toNat - 48)
  else if 'a' ≤ c ∧ c ≤ 'f' then some (c.toNat - 87)
  else if 'A' ≤ c ∧ c ≤ 'F' then some (c.toNat - 55)
  else none

def numberedChar (n : Nat) : Reader Char := fun cs => do
  let digits ← (cs.take n).mapM hexValue?
  if digits.length < n then none
  else
    let code := digits.foldl (fun k d => k * 16 + d) 0
    if code.isValidChar then some (Char.ofNat code, cs.drop n) else none

def escape : Reader Char
  | 'b' :: cs => some ('\x08', cs)
  | 't' :: cs => some ('\t', cs)
  | 'n' :: cs => some ('\n', cs)
  | 'f' :: cs => some ('\x0c', cs)
  | 'r' :: cs => some ('\r', cs)
  | '\x22' :: cs => some ('\x22', cs)
  | '\\' :: cs => some ('\\', cs)
  | 'u' :: cs => numberedChar 4 cs
  | 'U' :: cs => numberedChar 8 cs
  | _ => none

def basicTail : Nat → Reader (List Char)
  | 0, _ => none
  | _ + 1, [] => none
  | fuel + 1, c :: cs =>
    if c = '\x22' then some ([], cs)
    else if c = '\\' then do
      let (x, cs) ← escape cs
      let (xs, cs) ← basicTail fuel cs
      some (x :: xs, cs)
    else if isBasicChar c then do
      let (xs, cs) ← basicTail fuel cs
      some (c :: xs, cs)
    else none

def literalTail : Reader (List Char)
  | [] => none
  | c :: cs =>
    if c = '\x27' then some ([], cs)
    else if isLiteralChar c then do
      let (xs, cs) ← literalTail cs
      some (c :: xs, cs)
    else none

def quoteRun (quote : Char) (cs : List Char) : List Char :=
  cs.takeWhile (· == quote)

/-- What a row of quotes in a string between triple quotes means: three to five of them end the
string, of which the last three are its end; one or two belong to it. -/
inductive RunMeaning
  | inside
  | ends (before : Nat)
  | tooMany
  deriving DecidableEq

def RunMeaning.of (n : Nat) : RunMeaning :=
  if n < 3 then .inside
  else if n < 6 then .ends (n - 3)
  else .tooMany

/-- The inside of a string in triple double quotes, with its closing quotes.  A backslash at the end
of a line takes away the line end and all blank space after it. -/
def longBasicTail : Nat → Reader (List Char)
  | 0, _ => none
  | _ + 1, [] => none
  | fuel + 1, c :: cs =>
    if c = '\x22' then
      let run := quoteRun '\x22' (c :: cs)
      match RunMeaning.of run.length with
      | .ends before => some (List.replicate before '\x22', (c :: cs).drop run.length)
      | .tooMany => none
      | .inside => do
        let (xs, cs) ← longBasicTail fuel cs
        some ('\x22' :: xs, cs)
    else if c = '\\' then
      match newLine (skipBlanks cs) with
      | some ((), rest) => longBasicTail fuel (skipEmptyLines (rest.length + 1) rest)
      | none => do
        let (x, cs) ← escape cs
        let (xs, cs) ← longBasicTail fuel cs
        some (x :: xs, cs)
    else if isBasicChar c then do
      let (xs, cs) ← longBasicTail fuel cs
      some (c :: xs, cs)
    else do
      let ((), cs) ← newLine (c :: cs)
      let (xs, cs) ← longBasicTail fuel cs
      some ('\n' :: xs, cs)

def longLiteralTail : Nat → Reader (List Char)
  | 0, _ => none
  | _ + 1, [] => none
  | fuel + 1, c :: cs =>
    if c = '\x27' then
      let run := quoteRun '\x27' (c :: cs)
      match RunMeaning.of run.length with
      | .ends before => some (List.replicate before '\x27', (c :: cs).drop run.length)
      | .tooMany => none
      | .inside => do
        let (xs, cs) ← longLiteralTail fuel cs
        some ('\x27' :: xs, cs)
    else if isLiteralChar c then do
      let (xs, cs) ← longLiteralTail fuel cs
      some (c :: xs, cs)
    else do
      let ((), cs) ← newLine (c :: cs)
      let (xs, cs) ← longLiteralTail fuel cs
      some ('\n' :: xs, cs)

def skipNewLine (cs : List Char) : List Char :=
  match newLine cs with
  | some ((), cs) => cs
  | none => cs

def asString (r : Reader (List Char)) : Reader String := fun cs => do
  let (xs, cs) ← r cs
  some (String.ofList xs, cs)

def shortString : Reader String
  | '\x22' :: cs => asString (basicTail (cs.length + 1)) cs
  | '\x27' :: cs => asString literalTail cs
  | _ => none

/-- A string of any of the four forms.  A line end right after triple quotes is not part of it. -/
def string : Reader String
  | '\x22' :: '\x22' :: '\x22' :: cs =>
    asString (longBasicTail (cs.length + 1)) (skipNewLine cs)
  | '\x27' :: '\x27' :: '\x27' :: cs =>
    asString (longLiteralTail (cs.length + 1)) (skipNewLine cs)
  | cs => shortString cs

/-! ## Keys -/

def isBareChar (c : Char) : Bool :=
  c.isAlphanum || c == '-' || c == '_'

def keyPart : Reader String := fun cs =>
  match cs with
  | '\x22' :: _ => shortString cs
  | '\x27' :: _ => shortString cs
  | _ =>
    let bare := cs.takeWhile isBareChar
    if bare.isEmpty then none else some (String.ofList bare, cs.dropWhile isBareChar)

/-- A key of at most so many parts, with dots between them and blanks around them: the path before
the last part, and that part. -/
def keyParts : Nat → Reader (List String × String)
  | 0, _ => none
  | limit + 1, cs => do
    let (part, cs) ← keyPart (skipBlanks cs)
    match skipBlanks cs with
    | '.' :: cs => do
      let ((path, last), cs) ← keyParts limit cs
      some ((part :: path, last), cs)
    | cs => some (([], part), cs)

def nestingLimit : Nat := 80

def key : Reader (List String × String) :=
  keyParts (nestingLimit - 1)

end Cadence.Toml
