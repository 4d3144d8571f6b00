import Cadence.Config
import Cadence.Duration.Read
import Cadence.Mismatch
import Cadence.Number.Text
import Cadence.Toml.Read

/-!
# Reading configurations

A configuration is a TOML document with the sections `run_loop`, `messaging` and `metrics`.  What is
absent keeps its default and what is unknown is passed over.  A section is a table of its fields or
an array of them in their order.  The first thing in the document that does not fit is the one
reported.
-/

namespace Cadence.Config

inductive ReadError
  /-- It is not TOML. -/
  | malformed
  /-- Something is not what belongs there. -/
  | mismatch (cause : Mismatch)
  /-- A duration cannot be read. -/
  | duration (cause : Duration.ReadError)
  /-- A policy is given by something that is neither a name nor a table. -/
  | policyExpected
  /-- A policy is given by a table with that many keys. -/
  | policyCount (found : Nat)
  /-- A policy is given by a table whose only value is of that type. -/
  | policyContent (found : String)
  /-- A policy is given by a table whose only value is a table or an array, and not empty. -/
  | policyNotEmpty (expected : String)

def ReadError.message : ReadError → String
  | malformed => "not a document"
  | mismatch cause => cause.message Number.pointed64
  | duration cause => cause.message
  | policyExpected => "wanted string or table"
  | policyCount found =>
    "wanted exactly 1 element, " ++ (if found = 0 then "found 0 elements" else "more than 1 element")
  | policyContent found => "expected table, found " ++ found
  | policyNotEmpty expected => "expected empty " ++ expected

def ReadError.isBreakdown : ReadError → Bool
  | duration .carryOverflow => true
  | _ => false

/-! ## Values -/

open Toml in
def found : Node → Found
  | .string s => .string s
  | .integer i => .integer i
  | .float x => .float x
  | .boolean b => .boolean b
  | .array _ | .tables _ => .sequence
  | .datetime | .table .. => .map

def wrongType (node : Toml.Node) (expected : String) : ReadError :=
  .mismatch (.type (found node) expected)

def text : Toml.Node → Except ReadError String
  | .string s => .ok s
  | node => .error (wrongType node "a string")

def flag : Toml.Node → Except ReadError Bool
  | .boolean b => .ok b
  | node => .error (wrongType node "a boolean")

def count : Toml.Node → Except ReadError Nat
  | .integer i =>
    if 0 ≤ i then .ok i.toNat else .error (.mismatch (.value (.integer i) "usize"))
  | node => .error (wrongType node "usize")

def length (node : Toml.Node) : Except ReadError Duration := do
  let s ← text node
  (Duration.ofText s).mapError .duration

def policyNamed (name : String) : Except ReadError Policy :=
  match Policy.ofName? name with
  | some p => .ok p
  | none => .error (.mismatch (.variant name (Policy.all.map Policy.name)))

/-- Check the value that a table gives to the name of a policy: it has to be empty. -/
def policyArgument : Toml.Node → Except ReadError Unit
  | .table _ es => if es.isEmpty then .ok () else .error (.policyNotEmpty "table")
  | .array xs => if xs.isEmpty then .ok () else .error (.policyNotEmpty "array")
  | .tables xs => if xs.isEmpty then .ok () else .error (.policyNotEmpty "array")
  | .string _ => .error (.policyContent "string")
  | .integer _ => .error (.policyContent "integer")
  | .float _ => .error (.policyContent "float")
  | .boolean _ => .error (.policyContent "boolean")
  | .datetime => .error (.policyContent "datetime")

/-- A policy: its name, or a table with the name as its only key. -/
def policy : Toml.Node → Except ReadError Policy
  | .string name => policyNamed name
  | .table _ [(name, node)] => do
    let p ← policyNamed name
    policyArgument node
    return p
  | .table _ es => .error (.policyCount es.length)
  | _ => .error .policyExpected

/-! ## Sections -/

structure Field (α : Type) where
  key : String
  put : Toml.Node → α → Except ReadError α

def field {α β : Type} (key : String) (read : Toml.Node → Except ReadError β) (store : β → α → α) :
    Field α :=
  ⟨key, fun node x => (read node).map fun v => store v x⟩

def putEntries {α : Type} (fields : List (Field α)) (es : Toml.Entries) (x : α) :
    Except ReadError α :=
  es.foldlM (fun x e =>
    match fields.find? fun f => f.key == e.1 with
    | some f => f.put e.2 x
    | none => .ok x) x

def putElements {α : Type} (fields : List (Field α)) (nodes : List Toml.Node) (x : α) :
    Except ReadError α :=
  (fields.zip nodes).foldlM (fun x (f, node) => f.put node x) x

/-- Write what a section holds into a record.  A date or time is like a table of unknown keys. -/
def putSection {α : Type} (expected : String) (fields : List (Field α)) (node : Toml.Node) (x : α) :
    Except ReadError α :=
  match node with
  | .table _ es => putEntries fields es x
  | .datetime => .ok x
  | .array nodes => putElements fields nodes x
  | .tables items => putElements fields (items.map fun es => .table .header es) x
  | node => .error (wrongType node expected)

def loopFields : List (Field LoopSettings) :=
  [field "name" text fun v s => { s with name := v },
    field "max_wait" length fun v s => { s with maxWait := v },
    field "catch_up" policy fun v s => { s with policy := v }]

def messagingFields : List (Field MessagingSettings) :=
  [field "queue_capacity" count fun v s => { s with queueSlots := v },
    field "bus_capacity" count fun v s => { s with busSlots := v }]

def metricsFields : List (Field MetricsSettings) :=
  [field "enabled" flag fun v s => { s with enabled := v },
    field "histogram_size" count fun v s => { s with samples := v }]

def sections : List (Field Config) :=
  [⟨"run_loop", fun node c =>
      (putSection "struct RunLoopConfig" loopFields node .default).map
        fun s => { c with runLoop := s }⟩,
    ⟨"messaging", fun node c =>
      (putSection "struct MessagingConfig" messagingFields node .default).map
        fun s => { c with messaging := s }⟩,
    ⟨"metrics", fun node c =>
      (putSection "struct MetricsConfig" metricsFields node .default).map
        fun s => { c with metrics := s }⟩]

def ofToml (text : String) : Except ReadError Config :=
  match Toml.document text with
  | none => .error .malformed
  | some es => putEntries sections es .default

end Cadence.Config
