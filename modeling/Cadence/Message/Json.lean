import Cadence.Json.Read
import Cadence.Json.Write
import Cadence.Message

/-!
# Messages in JSON

A message is an object of a label and a payload, a payload an object of the kind and the value of its
number.  A reader takes the members in any order and passes over others, and it takes an array of the
two in place of the object.  Infinities and NaN have no JSON form; they are written `null`, which is
not read back.
-/

namespace Cadence

open Json (Document Reader ReadError)

/-! ## Writing -/

def Json.Document.float64 (x : Float) : Document :=
  match Number.decode64 x with
  | .finite .. => .number (Number.json64 x)
  | _ => .null

def Json.Document.float32 (x : Float32) : Document :=
  match Number.decode32 x with
  | .finite .. => .number (Number.json32 x)
  | _ => .null

namespace Payload

def valueDocument : Payload → Document
  | i64 v => .number (toString v.toInt)
  | u64 v => .nat v.toNat
  | f64 v => .float64 v
  | f32 v => .float32 v

def toDocument (p : Payload) : Document :=
  .object [("kind", .string p.kind.name), ("value", p.valueDocument)]

end Payload

namespace Message

def toDocument (m : Message) : Document :=
  .object [("label", .nat m.label.toNat), ("payload", m.payload.toDocument)]

def toJson (m : Message) : String := m.toDocument.compact

end Message

/-! ## Reading payloads -/

namespace Payload

def ofFound (kind : PayloadKind) (found : Found) : Except Mismatch Payload :=
  match kind, found with
  | .i64, .integer i =>
    if i ≤ maxSigned then .ok (.i64 (Int64.ofInt i)) else .error (.value found kind.name)
  | .u64, .integer i =>
    if 0 ≤ i then .ok (.u64 (UInt64.ofNat i.toNat)) else .error (.value found kind.name)
  | .f64, .integer i => .ok (.f64 (Number.ofInt64 i))
  | .f32, .integer i => .ok (.f32 (Number.ofInt32 i))
  | .f64, .float x => .ok (.f64 x)
  | .f32, .float x => .ok (.f32 (Number.narrow x))
  | _, _ => .error (.type found kind.name)

def expectation : String := "adjacently tagged enum Payload"

def readValue (kind : PayloadKind) : Reader Payload := fun cs => do
  let (found, cs) ← Json.item cs
  match ofFound kind found with
  | .ok p => .ok (p, cs)
  | .error m => .error (.mismatch m)

inductive Member
  | kind
  | value
  deriving DecidableEq

def Member.name : Member → String
  | kind => "kind"
  | value => "value"

def nextMember : Nat → Bool → Reader (Option Member)
  | 0, _, _ => .error .truncated
  | fuel + 1, first, cs => do
    let (key, cs) ← Json.nextKey Json.stringBody first cs
    match key with
    | none => .ok (none, cs)
    | some key =>
      if key = Member.kind.name then .ok (some .kind, cs)
      else if key = Member.value.name then .ok (some .value, cs)
      else
        let ((), cs) ← Json.colon cs
        let ((), cs) ← Json.skipValue cs
        nextMember fuel false cs

def readKind (room : Nat) : Reader PayloadKind := fun cs => do
  let ((), cs) ← Json.colon cs
  Json.unitVariant room PayloadKind.ofName? (PayloadKind.all.map PayloadKind.name) cs

def finishMembers (p : Payload) : Reader Payload := fun cs => do
  let (member, cs) ← nextMember (cs.length + 1) false cs
  match member with
  | some m => .error (.mismatch (.duplicateField m.name))
  | none =>
    let ((), cs) ← Json.close '\x7d' cs
    .ok (p, cs)

/-- A payload from the inside of an object.  The value is read in the light of the kind if that comes
first, and kept until the kind is known otherwise. -/
def readObject (room : Nat) : Reader Payload := fun cs => do
  let (first, cs) ← nextMember (cs.length + 1) true cs
  match first with
  | none => .error (.mismatch (.missingField Member.kind.name))
  | some .kind =>
    let (kind, cs) ← readKind room cs
    let (second, cs) ← nextMember (cs.length + 1) false cs
    match second with
    | none => .error (.mismatch (.missingField Member.value.name))
    | some .kind => .error (.mismatch (.duplicateField Member.kind.name))
    | some .value =>
      let ((), cs) ← Json.colon cs
      let (p, cs) ← readValue kind cs
      finishMembers p cs
  | some .value =>
    let ((), cs) ← Json.colon cs
    let (found, cs) ← Json.datum room cs
    let (second, cs) ← nextMember (cs.length + 1) false cs
    match second with
    | none => .error (.mismatch (.missingField Member.kind.name))
    | some .value => .error (.mismatch (.duplicateField Member.value.name))
    | some .kind =>
      let (kind, cs) ← readKind room cs
      match ofFound kind found with
      | .error m => .error (.mismatch m)
      | .ok p => finishMembers p cs

def readArray : Reader Payload := fun cs => do
  let (more, cs) ← Json.nextItem true cs
  if more then
    let (kind, cs) ←
      Json.identifier PayloadKind.ofName? (PayloadKind.all.map PayloadKind.name) cs
    let (more, cs) ← Json.nextItem false cs
    if more then
      let (p, cs) ← readValue kind cs
      let ((), cs) ← Json.close ']' cs
      .ok (p, cs)
    else .error (.mismatch (.length 1 expectation))
  else .error (.mismatch (.length 0 expectation))

def read (room : Nat) : Reader Payload := fun cs =>
  match Json.skipBlanks cs with
  | '[' :: cs => if room ≤ 1 then .error .malformed else readArray cs
  | '\x7b' :: cs => if room ≤ 1 then .error .malformed else readObject (room - 1) cs
  | cs => do
    let (found, _) ← Json.item cs
    .error (.mismatch (.type found expectation))

def ofJson (text : String) : Except ReadError Payload :=
  Json.finish (read Json.nestingLimit) text

end Payload

/-! ## Reading messages -/

namespace Message

def expectation : String := "struct Message"

def arrayExpectation : String := expectation ++ " with 2 elements"

def readLabel : Reader UInt32 := fun cs => do
  let (found, cs) ← Json.item cs
  match found with
  | .integer i =>
    if 0 ≤ i ∧ i < UInt32.size then .ok (UInt32.ofNat i.toNat, cs)
    else .error (.mismatch (.value found "u32"))
  | _ => .error (.mismatch (.type found "u32"))

def readObject (room : Nat) : Nat → Bool → Option UInt32 → Option Payload → Reader Message
  | 0, _, _, _, _ => .error .truncated
  | fuel + 1, first, label, payload, cs => do
    let (key, cs) ← Json.nextKey Json.stringBody first cs
    match key with
    | none =>
      match label, payload with
      | none, _ => .error (.mismatch (.missingField "label"))
      | some _, none => .error (.mismatch (.missingField "payload"))
      | some label, some payload =>
        let ((), cs) ← Json.close '\x7d' cs
        .ok (⟨label, payload⟩, cs)
    | some "label" =>
      if label.isSome then .error (.mismatch (.duplicateField "label"))
      else
        let ((), cs) ← Json.colon cs
        let (label, cs) ← readLabel cs
        readObject room fuel false (some label) payload cs
    | some "payload" =>
      if payload.isSome then .error (.mismatch (.duplicateField "payload"))
      else
        let ((), cs) ← Json.colon cs
        let (payload, cs) ← Payload.read room cs
        readObject room fuel false label (some payload) cs
    | some _ =>
      let ((), cs) ← Json.colon cs
      let ((), cs) ← Json.skipValue cs
      readObject room fuel false label payload cs

def readArray (room : Nat) : Reader Message := fun cs => do
  let (more, cs) ← Json.nextItem true cs
  if more then
    let (label, cs) ← readLabel cs
    let (more, cs) ← Json.nextItem false cs
    if more then
      let (payload, cs) ← Payload.read room cs
      let ((), cs) ← Json.close ']' cs
      .ok (⟨label, payload⟩, cs)
    else .error (.mismatch (.length 1 arrayExpectation))
  else .error (.mismatch (.length 0 arrayExpectation))

def read (room : Nat) : Reader Message := fun cs =>
  match Json.skipBlanks cs with
  | '[' :: cs => if room ≤ 1 then .error .malformed else readArray (room - 1) cs
  | '\x7b' :: cs =>
    if room ≤ 1 then .error .malformed
    else readObject (room - 1) (cs.length + 1) true none none cs
  | cs => do
    let (found, _) ← Json.item cs
    .error (.mismatch (.type found expectation))

def ofJson (text : String) : Except ReadError Message :=
  Json.finish (read Json.nestingLimit) text

end Message

end Cadence
