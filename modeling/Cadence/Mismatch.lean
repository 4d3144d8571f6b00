import Cadence.Text.Quoted

/-!
# Mismatches

A document can be well formed and still not describe the value that is read from it.  A `Mismatch`
says how what was found differs from what was expected.  The wording is the same for every document
format, except that each writes floats in its own style.
-/

namespace Cadence

/-- What a document holds at some place.  Of a sequence or a map only that it is one is kept. -/
inductive Found
  | null
  | boolean (value : Bool)
  | integer (value : Int)
  | float (value : Float)
  | string (value : String)
  | sequence
  | map

namespace Found

def describe (floatText : Float → String) : Found → String
  | null => "null"
  | boolean true => "boolean `true`"
  | boolean false => "boolean `false`"
  | integer i => "integer `" ++ toString i ++ "`"
  | float x => "floating point `" ++ floatText x ++ "`"
  | string s => "string " ++ Text.quoted s
  | sequence => "sequence"
  | map => "map"

end Found

inductive Mismatch
  /-- Something of another type. -/
  | type (found : Found) (expected : String)
  /-- A number of the right type that is out of range. -/
  | value (found : Found) (expected : String)
  /-- Too few elements in a sequence that stands for a record. -/
  | length (found : Nat) (expected : String)
  /-- A name that is none of those allowed. -/
  | variant (name : String) (allowed : List String)
  | missingField (name : String)
  | duplicateField (name : String)

namespace Mismatch

def alternatives (names : List String) : String :=
  match names.map fun n => "`" ++ n ++ "`" with
  | [] => ""
  | [a] => a
  | [a, b] => a ++ " or " ++ b
  | many => "one of " ++ String.intercalate ", " many

def message (floatText : Float → String) : Mismatch → String
  | type found expected =>
    "invalid type: " ++ found.describe floatText ++ ", expected " ++ expected
  | value found expected =>
    "invalid value: " ++ found.describe floatText ++ ", expected " ++ expected
  | length found expected => "invalid length " ++ toString found ++ ", expected " ++ expected
  | variant name allowed =>
    "unknown variant `" ++ name ++ "`, " ++
      (if allowed.isEmpty then "there are no variants" else "expected " ++ alternatives allowed)
  | missingField name => "missing field `" ++ name ++ "`"
  | duplicateField name => "duplicate field `" ++ name ++ "`"

end Mismatch

end Cadence
