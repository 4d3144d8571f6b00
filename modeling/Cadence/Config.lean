import Cadence.Failure
import Cadence.Policy
import Cadence.Ring

/-!
# Configurations

The settings of a run loop, of the queue and bus around it and of its metrics, with defaults that
work.  A configuration that was read need not work: `Config.validate` tells the first setting that
cannot.
-/

namespace Cadence

structure LoopSettings where
  /-- The name, for the thread and for people. -/
  name : String
  /-- The longest sleep between two wakes. -/
  maxWait : Duration
  /-- What becomes of missed periods. -/
  policy : Policy
  deriving DecidableEq

structure MessagingSettings where
  queueSlots : Nat
  busSlots : Nat
  deriving DecidableEq

structure MetricsSettings where
  enabled : Bool
  samples : Nat
  deriving DecidableEq

structure Config where
  runLoop : LoopSettings
  messaging : MessagingSettings
  metrics : MetricsSettings
  deriving DecidableEq

def LoopSettings.default : LoopSettings := ⟨"run-loop", Duration.second, .catchUp⟩

def MessagingSettings.default : MessagingSettings := ⟨defaultSlots, defaultSlots⟩

def MetricsSettings.default : MetricsSettings := ⟨true, 1024⟩

namespace Config

def default : Config := ⟨.default, .default, .default⟩

def sampleCount (c : Config) : Nat :=
  if c.metrics.enabled then c.metrics.samples else 0

/-- Check that the settings can work; the failure is about the first that cannot. -/
def validate (c : Config) : Except Failure Unit :=
  if c.runLoop.maxWait.isZero then
    .error (.config "run_loop.max_wait must be non-zero")
  else if c.messaging.queueSlots < 2 then
    .error (.config
      ("messaging.queue_capacity must be at least 2, got " ++ toString c.messaging.queueSlots))
  else if c.messaging.busSlots < 2 then
    .error (.config
      ("messaging.bus_capacity must be at least 2, got " ++ toString c.messaging.busSlots))
  else if c.metrics.enabled ∧ c.metrics.samples = 0 then
    .error (.config "metrics.histogram_size must be non-zero when metrics are enabled")
  else .ok ()

end Config

end Cadence
