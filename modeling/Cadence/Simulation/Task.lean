import Cadence.Bus
import Cadence.Queue
import Cadence.RunLoop

/-!
# Scripted callbacks

A task is a callback that does the same on each invocation, but for two moments at which it may ask
its loop to stop or break down.  It notes that it ran, may push its count to a queue and publish count
and wake delta on a bus, and takes some time.
-/

namespace Cadence

structure Task where
  tag : String
  /-- How long an invocation takes, in microseconds. -/
  cost : Nat
  /-- The label under which the count goes to the queue. -/
  queueLabel : Option UInt32
  /-- The label under which count and wake delta go to the bus. -/
  busLabel : Option UInt32
  /-- The invocation that asks the loop to stop. -/
  stopAt : Option Nat
  /-- The invocation that breaks down. -/
  breakAt : Option Nat
  /-- Whether a firing tells the name of the thread. -/
  tellsThread : Bool

structure Worker where
  task : Task
  count : Nat

structure Firing where
  task : Task
  delta : Float

structure Scene where
  clock : Timestamp
  queue : SyncQueue Message
  bus : Bus
  firings : Array Firing
  overflows : Array Overflow

namespace Scene

def noteFiring (s : Scene) (f : Firing) : Scene := { s with firings := s.firings.push f }

def enqueue (s : Scene) (m : Message) : Scene := { s with queue := (s.queue.push m).2 }

def publish (s : Scene) (ms : List Message) : Scene :=
  let (overflows, bus) := s.bus.sendAll ms
  { s with bus := bus, overflows := s.overflows ++ overflows.toArray }

def spend (s : Scene) (micros : Nat) : Scene := { s with clock := s.clock.after micros }

end Scene

namespace Worker

def invoke (delta : Float) (w : Worker) (s : Scene) : Invocation Worker Scene :=
  let n := w.count + 1
  let count := UInt64.ofNat n
  let noted := s.noteFiring ⟨w.task, delta⟩
  let pushed := match w.task.queueLabel with
    | some label => noted.enqueue (.u64 label count)
    | none => noted
  let published := match w.task.busLabel with
    | some label => pushed.publish [.u64 label count, .f64 label delta]
    | none => pushed
  { callback := ⟨w.task, n⟩
    world := published.spend w.task.cost
    asksStop := w.task.stopAt = some n
    breaksDown := w.task.breakAt = some n }

end Worker

def Scene.surroundings : RunLoop.Surroundings Worker Scene where
  invoke := Worker.invoke
  now := Scene.clock

end Cadence
