/-!
# Failures

What can go wrong in the library for a reason that a caller may want to know.  A full queue or bus is
no failure: that is a `Bool` answer.
-/

namespace Cadence

inductive Failure
  /-- The settings cannot work. -/
  | config (text : String)
  /-- The thread of a run loop could not be created. -/
  | threadSpawn (name reason : String)
  /-- Something broke while running. -/
  | fault (text : String)
  /-- The lifecycle does not allow the move. -/
  | invalidTransition (source target : String)
  deriving DecidableEq

namespace Failure

def message : Failure → String
  | config text => "configuration error: " ++ text
  | threadSpawn name reason => "failed to spawn thread `" ++ name ++ "`: " ++ reason
  | fault text => "runtime fault: " ++ text
  | invalidTransition source target =>
    "invalid state transition from " ++ source ++ " to " ++ target

end Failure

end Cadence
