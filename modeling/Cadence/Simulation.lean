import Cadence.Simulation.Task

/-!
# Simulations

Run loops with scripted callbacks, driven by hand.  Each loop has a clock of its own that moves only
when told to or when a callback takes time, and its thread is held where it is about to tick; all
loops share one queue and one bus.  `wake` lets the thread of a loop tick once and come round to the
same place, `drive` makes wakes exactly when the loop wants them, and `stop` asks from outside.
-/

namespace Cadence

structure Member where
  loop : RunLoop Worker
  clock : Timestamp

namespace Member

def start (id : Nat) (o : LoopOptions) (now : Timestamp) : Member :=
  ⟨(RunLoop.create id o now).settle now RunLoop.cycleLength, now⟩

def isDead (m : Member) : Bool := m.loop.place.isEnd

end Member

structure Simulation where
  members : List Member
  queue : SyncQueue Message
  bus : Bus

structure Sighting where
  /-- Absent when the tick was cut short, and when there was none. -/
  trace : Option RunLoop.Trace
  firings : List Firing
  notices : List Notice

namespace Simulation

def empty (queueSlots busSlots : Nat) : Simulation :=
  ⟨[], SyncQueue.withSlots queueSlots, Bus.withSlots busSlots⟩

def spawn (s : Simulation) (o : LoopOptions) (now : Timestamp) : Simulation :=
  { s with members := s.members ++ [Member.start (s.members.length + 1) o now] }

def setMember (s : Simulation) (i : Nat) (m : Member) : Simulation :=
  { s with members := s.members.set i m }

def act {β : Type} (s : Simulation) (i : Nat) (m : Member)
    (f : RunLoop Worker → β × RunLoop Worker) : β × List Notice × Simulation :=
  let (result, loop) := f m.loop
  (result, loop.log.drop m.loop.log.length, s.setMember i { m with loop := loop })

def turn (s : Simulation) (i : Nat) (m : Member) : Sighting × Member × Simulation :=
  if m.loop.place = .ticking then
    let (trace, loop, scene) :=
      m.loop.tick Scene.surroundings ⟨m.clock, s.queue, s.bus, #[], #[]⟩
    let m' : Member := ⟨loop.settle scene.clock RunLoop.cycleLength, scene.clock⟩
    let notices :=
      scene.overflows.toList.map (fun _ => Notice.busOverflow) ++
        m'.loop.log.drop m.loop.log.length
    (⟨trace, scene.firings.toList, notices⟩, m',
      { s with queue := scene.queue, bus := scene.bus }.setMember i m')
  else (⟨none, [], []⟩, m, s)

def wake (s : Simulation) (i : Nat) (m : Member) (setTo : Option Timestamp) (advance : Nat) :
    Sighting × Member × Simulation :=
  s.turn i { m with clock := (setTo.getD m.clock).after advance }

/-- Ask loop `i` to stop.  Its thread is about to tick, does so, and is no longer there then. -/
def stop (s : Simulation) (i : Nat) (m : Member) : Except Failure Unit × Sighting × Simulation :=
  if m.loop.unclaimed then
    let asked := { m with loop := m.loop.requestStop }
    let (seen, last, s) := s.turn i asked
    let (result, loop) := last.loop.complete.conclude
    let notices :=
      asked.loop.log.drop m.loop.log.length ++ seen.notices ++
        loop.log.drop last.loop.log.length
    (result, { seen with notices := notices }, s.setMember i { last with loop := loop })
  else (.ok (), ⟨none, [], []⟩, s)

/-! ## Driving a loop -/

structure Drive where
  simulation : Simulation
  member : Member
  wakes : Nat
  elapsed : Nat
  /-- The time until the next wake. -/
  next : Nat
  /-- What the last wake was seen to do. -/
  last : Option RunLoop.Trace
  firings : Array Firing

def Drive.step (d : Drive) (i : Nat) : Drive :=
  let (seen, m, s) := d.simulation.wake i d.member none d.next
  { simulation := s
    member := m
    wakes := d.wakes + 1
    elapsed := d.elapsed + d.next
    next := match seen.trace with
      | some t => t.interval
      | none => d.next
    last := seen.trace
    firings := d.firings ++ seen.firings.toArray }

def Drive.run (horizon i : Nat) : Nat → Drive → Drive
  | 0, d => d
  | most + 1, d =>
    if horizon < d.elapsed + d.next ∨ d.member.isDead then d
    else Drive.run horizon i most (d.step i)

def drive (s : Simulation) (i : Nat) (m : Member) (horizon most : Nat) : Drive :=
  Drive.run horizon i most ⟨s, m, 0, 0, 0, none, #[]⟩

def countByTag (firings : List Firing) : List (String × Nat) :=
  let tags := (firings.map fun f => f.task.tag).mergeSort (· ≤ ·)
  tags.eraseDups.map fun tag => (tag, tags.count tag)

end Simulation

end Cadence
