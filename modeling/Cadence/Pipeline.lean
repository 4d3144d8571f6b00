import Cadence.Bus
import Cadence.Queue
import Cadence.RunLoop
import Cadence.Traffic

/-!
# The pipeline of the daemon

Two callbacks run on one loop: the sampler pushes a running number to the queue and publishes it on
the bus together with its wake delta, in one transaction; the reader drains the bus.  A consumer on a
thread of its own takes samples off the queue.  All three count what they do.

Each callback runs to its end before the other one starts, but the consumer may come in between any
two of their steps.
-/

namespace Cadence

inductive CallbackStage
  | idle
  /-- The sampler has pushed, and the queue has answered. -/
  | pushed (accepted : Bool)
  /-- The sampler has counted its sample. -/
  | counted
  /-- The reader has drained so many messages. -/
  | drained (count : Nat)
  deriving DecidableEq

inductive ConsumerStage
  | idle
  /-- It has taken a sample off the queue. -/
  | took
  deriving DecidableEq

structure Pipeline where
  queue : SyncQueue Message
  bus : Bus
  traffic : Traffic
  sequence : UInt64
  callback : CallbackStage
  consumer : ConsumerStage

namespace Pipeline

def sampleLabel : UInt32 := 1

def deltaLabel : UInt32 := 2

def withSlots (queueSlots busSlots : Nat) : Pipeline :=
  ⟨SyncQueue.withSlots queueSlots, Bus.withSlots busSlots, Traffic.zero, 0, .idle, .idle⟩

/-! ## Steps -/

def push (p : Pipeline) : Pipeline :=
  let (accepted, queue) := p.queue.push (.u64 sampleLabel p.sequence)
  { p with queue := queue, callback := .pushed accepted }

def count (p : Pipeline) (accepted : Bool) : Pipeline :=
  { p with traffic := (p.traffic.recordSample accepted).2, callback := .counted }

def publish (p : Pipeline) (delta : Float) : List Overflow × Pipeline :=
  let (overflows, bus) :=
    p.bus.sendAll [.u64 sampleLabel p.sequence, .f64 deltaLabel delta]
  (overflows, { p with bus := bus, sequence := p.sequence + 1, callback := .idle })

def drain (p : Pipeline) : List Message × Pipeline :=
  let (ms, bus) := p.bus.drain
  (ms, { p with bus := bus, callback := .drained ms.length })

def countDrained (p : Pipeline) (n : Nat) : Pipeline :=
  { p with traffic := p.traffic.recordBusReceived (UInt64.ofNat n), callback := .idle }

def take (p : Pipeline) : Option Message × Pipeline :=
  match p.queue.take with
  | (some m, queue) => (some m, { p with queue := queue, consumer := .took })
  | (none, _) => (none, p)

def countTaken (p : Pipeline) : Pipeline :=
  { p with traffic := p.traffic.recordConsumed, consumer := .idle }

/-! ## Whole turns -/

def sample (p : Pipeline) (delta : Float) : List Overflow × Pipeline :=
  let pushed := p.push
  match pushed.callback with
  | .pushed accepted => (pushed.count accepted).publish delta
  | _ => ([], pushed)

def read (p : Pipeline) : List Message × Pipeline :=
  let (ms, p) := p.drain
  (ms, p.countDrained ms.length)

def consume (p : Pipeline) : Option Message × Pipeline :=
  match p.take with
  | (some m, p) => (some m, p.countTaken)
  | (none, p) => (none, p)

/-! ## Interleavings -/

inductive Step
  | push
  | count
  | publish (delta : Float)
  | drain
  | countDrained
  | take
  | countTaken

/-- Carry out one step, if it is its turn, with the sample that it took off the queue. -/
def step? (p : Pipeline) : Step → Option (Option Message × Pipeline)
  | .push => if p.callback = .idle then some (none, p.push) else none
  | .count =>
    match p.callback with
    | .pushed accepted => some (none, p.count accepted)
    | _ => none
  | .publish delta => if p.callback = .counted then some (none, (p.publish delta).2) else none
  | .drain => if p.callback = .idle then some (none, p.drain.2) else none
  | .countDrained =>
    match p.callback with
    | .drained n => some (none, p.countDrained n)
    | _ => none
  | .take => if p.consumer = .idle then some p.take else none
  | .countTaken => if p.consumer = .took then some (none, p.countTaken) else none

def run? (p : Pipeline) : List Step → Option (List Message × Pipeline)
  | [] => some ([], p)
  | s :: rest => do
    let (taken, p) ← p.step? s
    let (more, p) ← p.run? rest
    some (taken.toList ++ more, p)

end Pipeline

/-! ## On a run loop -/

inductive Station
  | sampler
  | reader
  deriving DecidableEq

structure PipelineScene where
  pipeline : Pipeline
  clock : Timestamp
  overflows : List Overflow

def PipelineScene.surroundings : RunLoop.Surroundings Station PipelineScene where
  invoke delta station scene :=
    match station with
    | .sampler =>
      let (overflows, p) := scene.pipeline.sample delta
      ⟨station, { scene with pipeline := p, overflows := scene.overflows ++ overflows }, false, false⟩
    | .reader => ⟨station, { scene with pipeline := scene.pipeline.read.2 }, false, false⟩
  now scene := scene.clock

end Cadence
