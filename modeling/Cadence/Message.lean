import Cadence.Number.Text

/-!
# Messages

A message is a 32-bit label and a payload of one machine number.  The label tells the receiver how
to read the payload; queues and buses never look inside.
-/

namespace Cadence

inductive Payload
  | i64 (value : Int64)
  | u64 (value : UInt64)
  | f64 (value : Float)
  | f32 (value : Float32)
  deriving BEq

inductive PayloadKind
  | i64
  | u64
  | f64
  | f32
  deriving DecidableEq

namespace PayloadKind

def all : List PayloadKind := [i64, u64, f64, f32]

def name : PayloadKind → String
  | i64 => "i64"
  | u64 => "u64"
  | f64 => "f64"
  | f32 => "f32"

def ofName? (s : String) : Option PayloadKind :=
  all.find? fun k => k.name == s

end PayloadKind

namespace Payload

instance : Inhabited Payload := ⟨.u64 0⟩

def kind : Payload → PayloadKind
  | i64 _ => .i64
  | u64 _ => .u64
  | f64 _ => .f64
  | f32 _ => .f32

def valueText : Payload → String
  | i64 v => toString v.toInt
  | u64 v => toString v.toNat
  | f64 v => Number.plain64 v
  | f32 v => Number.plain32 v

def text (p : Payload) : String :=
  p.valueText ++ p.kind.name

end Payload

/-- A labelled payload.  Equality of messages compares floats as numbers, so a message with a NaN
differs from itself. -/
structure Message where
  label : UInt32
  payload : Payload
  deriving BEq, Inhabited

namespace Message

def u64 (label : UInt32) (value : UInt64) : Message := ⟨label, .u64 value⟩

def f64 (label : UInt32) (value : Float) : Message := ⟨label, .f64 value⟩

def i64? (m : Message) : Option Int64 :=
  match m.payload with
  | .i64 v => some v
  | _ => none

def u64? (m : Message) : Option UInt64 :=
  match m.payload with
  | .u64 v => some v
  | _ => none

def f64? (m : Message) : Option Float :=
  match m.payload with
  | .f64 v => some v
  | _ => none

def f32? (m : Message) : Option Float32 :=
  match m.payload with
  | .f32 v => some v
  | _ => none

def text (m : Message) : String :=
  "#" ++ toString m.label.toNat ++ "=" ++ m.payload.text

/-- Unsigned messages under label 1 with consecutive values, which start over at the end of their
range. -/
def counting (count : Nat) (first : UInt64) : List Message :=
  (List.range count).map fun i => u64 1 (first + UInt64.ofNat i)

end Message

end Cadence
