import Cadence.Clock
import Cadence.Config
import Cadence.Frequency
import Cadence.Lifecycle
import Cadence.Metrics
import Cadence.Number.Text
import Cadence.Roster.Tick
import Cadence.Text.Quoted

/-!
# Run loops

A run loop has a thread that sleeps until the nearest entry is due, runs what is due and goes back to
sleep.  Entries and metrics are guarded by one lock, the lifecycle and the two flags that wake the
thread by another (`Control`).  The state of a loop is everything that these locks guard together with
the place of the thread in its cycle:

* `starting`: created, about to take the control lock for the first time;
* `returning`: about to take the control lock after a tick;
* `deciding`, with the control lock: sleep or go on;
* `asleep`, without a lock, until something rouses it;
* `roused`: about to take the control lock again;
* `proceeding`, with the control lock: leave or go on;
* `ticking`: about to read the clock and to tick;
* `emptying`: out of the cycle, about to drop the entries;
* `gone` or `broken`: no longer there.

Each function from one place to the next is what happens in one stretch under a lock, so that they
can be interleaved with what other threads do (`Cadence.RunLoop.Interleaving`) or strung together
(`Cadence.Simulation`).
-/

namespace Cadence

/-! ## What goes wrong -/

structure Handle where
  loop : Nat
  ticket : Ticket
  deriving DecidableEq

def Handle.text (h : Handle) : String :=
  toString h.loop ++ ":" ++ toString h.ticket.index ++ "v" ++ toString h.ticket.generation.toNat

inductive Misuse
  /-- The frequency is not positive and finite. -/
  | frequency (hertz : Float)
  /-- There is no such entry in the loop of that name. -/
  | handle (loopName : String) (handle : Handle)

def Misuse.message : Misuse → String
  | frequency hertz =>
    "run loop frequency must be positive and finite, got " ++ Number.plain64 hertz
  | handle loopName h =>
    "run loop `" ++ loopName ++ "`: handle " ++ h.text ++ " is not registered"

inductive Notice
  | busOverflow
  | invalidFrequency
  | unknownHandle
  | threadBroken
  | stopRefused (cause : Failure)
  | exitRefused (cause : Failure)
  deriving DecidableEq

def Notice.line : Notice → String
  | busOverflow => "WARN Bus overflow, message dropped"
  | invalidFrequency => "ERROR Run loop entry registered with invalid frequency"
  | unknownHandle => "ERROR Unregister with stale or foreign handle"
  | threadBroken => "ERROR Run loop thread panicked: Any \x7b .. \x7d"
  | stopRefused cause => "WARN Stop requested in unexpected state: " ++ cause.message
  | exitRefused cause => "WARN Unexpected run loop exit: " ++ cause.message

/-! ## The state of a loop -/

structure Control where
  lifecycle : Lifecycle
  /-- Whether the loop has been asked to stop. -/
  stop : Bool
  /-- Whether the entries have changed since the thread last went on to tick. -/
  rescan : Bool
  deriving DecidableEq

inductive Place
  | starting
  | returning
  | deciding
  | asleep
  | roused
  | proceeding
  | ticking
  | emptying
  | gone
  | broken
  deriving DecidableEq

def Place.holdsControl : Place → Bool
  | deciding | proceeding => true
  | _ => false

def Place.isEnd : Place → Bool
  | gone | broken => true
  | _ => false

structure RunLoop (α : Type) where
  id : Nat
  name : String
  /-- The longest sleep in microseconds. -/
  maxWait : Nat
  roster : Roster α
  /-- Absent when metrics are switched off. -/
  metrics : Option TickMetrics
  control : Control
  place : Place
  /-- When the thread last woke. -/
  lastWake : Timestamp
  /-- How long it meant to sleep after that. -/
  interval : Nat
  /-- Whether nobody has asked the loop to stop yet, which only the first one does. -/
  unclaimed : Bool
  log : List Notice
  maxWait_pos : 0 < maxWait

structure LoopOptions where
  name : String
  maxWait : Duration
  policy : Policy
  /-- How many samples the metrics keep, or none for no metrics. -/
  samples : Nat

namespace LoopOptions

def named (name : String) : LoopOptions :=
  ⟨name, LoopSettings.default.maxWait, LoopSettings.default.policy, MetricsSettings.default.samples⟩

def configured (o : LoopOptions) (c : Config) : LoopOptions :=
  ⟨o.name, c.runLoop.maxWait, c.runLoop.policy, c.sampleCount⟩

end LoopOptions

namespace RunLoop

variable {α σ : Type}

def create (id : Nat) (o : LoopOptions) (now : Timestamp) : RunLoop α where
  id := id
  name := o.name
  maxWait := max 1 o.maxWait.toMicros
  roster := Roster.empty o.policy
  metrics := if o.samples = 0 then none else some (TickMetrics.withSamples o.samples)
  control := ⟨Lifecycle.new, false, false⟩
  place := .starting
  lastWake := now
  interval := 0
  unclaimed := true
  log := []
  maxWait_pos := Nat.lt_of_lt_of_le Nat.zero_lt_one (Nat.le_max_left _ _)

def ofConfig (id : Nat) (c : Config) (now : Timestamp) : Except Failure (RunLoop α) := do
  c.validate
  return create id ((LoopOptions.named c.runLoop.name).configured c) now

def state (l : RunLoop α) : LoopState := l.control.lifecycle.state

def entryCount (l : RunLoop α) : Nat := l.roster.length

def report (l : RunLoop α) : TickMetrics.Snapshot :=
  match l.metrics with
  | some m => m.snapshot
  | none => .empty

def threadName (l : RunLoop α) : String :=
  String.ofList (l.name.toList.filter fun c => c ≠ '\x00')

def describe (l : RunLoop α) : String :=
  "RunLoop \x7b name: " ++ Text.quoted l.name ++ ", state: " ++ l.state.title ++ ", entries: " ++
    toString l.entryCount ++ ", .. \x7d"

def note (l : RunLoop α) (n : Notice) : RunLoop α := { l with log := l.log ++ [n] }

/-! ## Asking the loop to stop -/

def rouse (l : RunLoop α) : RunLoop α :=
  if l.place = .asleep then { l with place := .roused } else l

def moveTo (l : RunLoop α) (target : LoopState) (refusal : Failure → Notice) : RunLoop α :=
  match l.control.lifecycle.moveTo target with
  | .ok lifecycle => { l with control := { l.control with lifecycle := lifecycle } }
  | .error cause => l.note (refusal cause)

def claim (l : RunLoop α) : RunLoop α := { l with unclaimed := false }

def askToStop (l : RunLoop α) : RunLoop α :=
  (({ l with control := { l.control with stop := true } }).moveTo .stopping .stopRefused).rouse

/-- Ask the loop to stop.  Only the first request does anything. -/
def requestStop (l : RunLoop α) : RunLoop α :=
  if l.unclaimed then l.claim.askToStop else l

/-! ## The thread -/

def deadline (l : RunLoop α) : Timestamp := l.lastWake.after l.interval

def comeUp (l : RunLoop α) : RunLoop α :=
  match l.control.lifecycle.moveTo .running with
  | .ok lifecycle =>
    { l with control := { l.control with lifecycle := lifecycle }, place := .deciding }
  | .error _ => { l with place := .gone }

def relock (l : RunLoop α) : RunLoop α := { l with place := .deciding }

/-- Sleep, unless there is a reason not to: a request to stop, changed entries, or the deadline. -/
def sleepOrProceed (l : RunLoop α) (now : Timestamp) : RunLoop α :=
  if !l.control.stop && !l.control.rescan && now < l.deadline then { l with place := .asleep }
  else { l with place := .proceeding }

def awaken (l : RunLoop α) : RunLoop α := { l with place := .proceeding }

def proceed (l : RunLoop α) : RunLoop α :=
  if l.control.stop then { l.moveTo .stopped .exitRefused with place := .emptying }
  else { l with control := { l.control with rescan := false }, place := .ticking }

structure Surroundings (α σ : Type) where
  invoke : Float → α → σ → Invocation α σ
  now : σ → Timestamp

structure Trace where
  delta : Nat
  fired : Nat
  interval : Nat
  deriving DecidableEq

/-- Wake and tick: let the time since the last wake pass for every entry, record the tick, and find
out how long to sleep.  A tick that is cut short leaves no trace.

The clock is read before the schedule is locked, but one step does for both: what other threads change
in between they might as well have changed before.  A stop that a callback asks for shows when the
tick is over, because the thread does not look for it earlier, and a call from outside that comes in the
meantime might as well come before the tick or after it. -/
def tick (s : Surroundings α σ) (l : RunLoop α) (world : σ) : Option Trace × RunLoop α × σ :=
  let now := s.now world
  let delta := now.since l.lastWake
  let t := l.roster.tick s.invoke delta world
  let ticked := { l with roster := t.roster, lastWake := now }
  let asked := if t.stopAsked then ticked.requestStop else ticked
  match t.outcome with
  | none => (none, { asked with place := .broken }, t.world)
  | some o =>
    let spent := (s.now t.world).since now
    let interval := min (o.nextDue.getD l.maxWait) l.maxWait
    (some ⟨delta, o.fired, interval⟩,
      { asked with
        metrics := l.metrics.map fun m => m.record spent o.fired (now.since l.deadline)
        interval := interval
        place := .returning },
      t.world)

def leave (l : RunLoop α) : RunLoop α :=
  { l with roster := l.roster.clear, place := .gone }

/-- Let the thread go on until it is about to tick or no longer there.  If it sleeps it is woken. -/
def settle (now : Timestamp) : Nat → RunLoop α → RunLoop α
  | 0, l => l
  | steps + 1, l =>
    match l.place with
    | .starting => settle now steps l.comeUp
    | .returning => settle now steps l.relock
    | .deciding => settle now steps (l.sleepOrProceed now)
    | .asleep => settle now steps l.rouse
    | .roused => settle now steps l.awaken
    | .proceeding => settle now steps l.proceed
    | .emptying => settle now steps l.leave
    | .ticking | .gone | .broken => l

/-- More steps than a thread makes between two ticks. -/
def cycleLength : Nat := 8

/-! ## Registration -/

/-- Register an entry; the thread does not know of it yet. -/
def enroll (l : RunLoop α) (e : Entry α) : Handle × RunLoop α :=
  let (ticket, roster) := l.roster.insert e
  (⟨l.id, ticket⟩, { l with roster := roster })

def dismiss (l : RunLoop α) (h : Handle) : Option (Entry α × RunLoop α) :=
  if h.loop = l.id then
    (l.roster.remove h.ticket).map fun (e, roster) => (e, { l with roster := roster })
  else none

def flagRescan (l : RunLoop α) : RunLoop α :=
  { l with control := { l.control with rescan := true } }

def entry (hertz : Float) (delay : Nat) (callback : α) : Entry α :=
  ⟨callback, Frequency.period hertz, min delay maxSigned, Frequency.period_pos hertz⟩

def submit (l : RunLoop α) (hertz : Float) (e : Entry α) : Except Misuse Handle × RunLoop α :=
  if Frequency.isValid hertz then
    let (h, l) := l.enroll e
    (.ok h, l.flagRescan.rouse)
  else (.error (.frequency hertz), l.note .invalidFrequency)

def registerAfter (l : RunLoop α) (hertz : Float) (delay : Duration) (callback : α) :
    Except Misuse Handle × RunLoop α :=
  l.submit hertz (entry hertz delay.toMicros callback)

/-- Register a callback that runs so many times a second, for the first time after the part of its
period that a random number selects. -/
def register (l : RunLoop α) (hertz : Float) (random : Nat) (callback : α) :
    Except Misuse Handle × RunLoop α :=
  l.submit hertz (entry hertz (random % Frequency.period hertz) callback)

def unregister (l : RunLoop α) (h : Handle) : Except Misuse (Entry α) × RunLoop α :=
  match l.dismiss h with
  | some (e, l) => (.ok e, l.flagRescan.rouse)
  | none => (.error (.handle l.name h), l.note .unknownHandle)

/-! ## The end -/

/-- Complete the lifecycle of a loop whose thread is no longer there, unless the thread has done so. -/
def complete (l : RunLoop α) : RunLoop α :=
  if l.state = .stopped then l
  else
    { l with control := { l.control with lifecycle := l.control.lifecycle.tryMoveTo .stopped } }

def conclude (l : RunLoop α) : Except Failure Unit × RunLoop α :=
  let l := { l with roster := l.roster.clear }
  if l.place = .broken then
    (.error (.fault ("run loop `" ++ l.name ++ "` thread panicked")), l.note .threadBroken)
  else (.ok (), l)

end RunLoop

end Cadence
