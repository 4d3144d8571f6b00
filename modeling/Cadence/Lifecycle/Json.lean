import Cadence.Json.Read
import Cadence.Json.Write
import Cadence.Lifecycle

/-!
# Lifecycle states in JSON

A state is written as its name, and read from its name alone or from an object that maps the name to
`null`.
-/

namespace Cadence.LoopState

def toDocument (s : LoopState) : Json.Document := .string s.name

def ofJson (text : String) : Except Json.ReadError LoopState :=
  Json.finish (Json.unitVariant Json.nestingLimit ofName? (all.map name)) text

end Cadence.LoopState
