import Cadence.Json.Write
import Cadence.Lifecycle
import Cadence.Metrics
import Cadence.Traffic

/-!
# The final report

What the daemon tells when it has shut down: the state of its loop, how long it was up, its traffic
and the statistics of its ticks.
-/

namespace Cadence

def TickMetrics.Snapshot.toDocument (s : TickMetrics.Snapshot) : Json.Document :=
  .object
    [("total_wakes", .nat s.wakes),
      ("total_invocations", .nat s.invocations),
      ("min_us", .nat? s.least),
      ("max_us", .nat? s.greatest),
      ("mean_us", .nat? s.mean),
      ("p99_us", .nat? s.p99),
      ("late_wakes", .nat s.lateWakes),
      ("sample_count", .nat s.sampleCount)]

structure Report where
  state : LoopState
  uptimeMillis : Nat
  traffic : Traffic
  busDropped : UInt64
  tick : TickMetrics.Snapshot
  deriving DecidableEq

namespace Report

def toDocument (r : Report) : Json.Document :=
  .object
    [("state", .string r.state.name),
      ("uptime_ms", .nat r.uptimeMillis),
      ("samples", .nat r.traffic.samples.toNat),
      ("queued", .nat r.traffic.queued.toNat),
      ("queue_rejected", .nat r.traffic.queueRejected.toNat),
      ("consumed", .nat r.traffic.consumed.toNat),
      ("bus_received", .nat r.traffic.busReceived.toNat),
      ("bus_dropped", .nat r.busDropped.toNat),
      ("tick", r.tick.toDocument)]

def toJson (r : Report) : String := r.toDocument.pretty

end Report

end Cadence
