import Cadence.Config
import Cadence.Duration.Write
import Cadence.Toml.Write

/-!
# Writing configurations

A configuration is written as a TOML document with every section and every field, in a fixed order.
TOML integers are signed 64-bit numbers, so a larger number of slots or samples cannot be written.
-/

namespace Cadence.Config

def isWritable (c : Config) : Bool :=
  c.messaging.queueSlots ≤ maxSigned && c.messaging.busSlots ≤ maxSigned &&
    c.metrics.samples ≤ maxSigned

def pairLine (key value : String) : String := key ++ " = " ++ value ++ "\n"

def toToml (c : Config) : Option String :=
  if c.isWritable then
    some
      ("[run_loop]\n" ++ pairLine "name" (Toml.stringText c.runLoop.name) ++
        pairLine "max_wait" (Toml.stringText c.runLoop.maxWait.text) ++
        pairLine "catch_up" (Toml.stringText c.runLoop.policy.name) ++
        "\n[messaging]\n" ++ pairLine "queue_capacity" (toString c.messaging.queueSlots) ++
        pairLine "bus_capacity" (toString c.messaging.busSlots) ++
        "\n[metrics]\n" ++ pairLine "enabled" (if c.metrics.enabled then "true" else "false") ++
        pairLine "histogram_size" (toString c.metrics.samples))
  else none

end Cadence.Config
