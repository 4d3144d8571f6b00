/-!
# Traffic counters

What has gone through the queue and the bus of the daemon.  The counters wrap after 64 bits.
-/

namespace Cadence

structure Traffic where
  /-- Samples made. -/
  samples : UInt64
  /-- Samples that the queue accepted. -/
  queued : UInt64
  /-- Samples that the queue refused. -/
  queueRejected : UInt64
  /-- Samples taken off the queue. -/
  consumed : UInt64
  /-- Messages drained from the bus. -/
  busReceived : UInt64
  deriving DecidableEq

namespace Traffic

def zero : Traffic := ⟨0, 0, 0, 0, 0⟩

def recordSample (t : Traffic) (queued : Bool) : UInt64 × Traffic :=
  (t.samples,
    { t with
      samples := t.samples + 1
      queued := if queued then t.queued + 1 else t.queued
      queueRejected := if queued then t.queueRejected else t.queueRejected + 1 })

def recordConsumed (t : Traffic) : Traffic := { t with consumed := t.consumed + 1 }

def recordBusReceived (t : Traffic) (count : UInt64) : Traffic :=
  { t with busReceived := t.busReceived + count }

end Traffic

end Cadence
