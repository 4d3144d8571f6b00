import Cadence.Number.Binary
import Cadence.Roster

/-!
# Ticks

A tick lets time pass for every entry of a roster, in the order of registration, runs the callbacks
that have become due and re-arms them.  A callback acts on a world, which may be anything; it may ask
its loop to stop, and it may break down, which cuts the tick short: its own entry is not re-armed and
the entries behind it are not touched.

`Entry.pass` is what a tick does to one entry, `Roster.tick` goes along the links.
-/

namespace Cadence

structure Invocation (α σ : Type) where
  callback : α
  world : σ
  asksStop : Bool
  breaksDown : Bool

/-! ## One entry -/

structure Pass (α σ : Type) where
  entry : Entry α
  world : σ
  fired : Bool
  asksStop : Bool
  breaksDown : Bool

namespace Entry

variable {α σ : Type}

def elapse (e : Entry α) (delta : Nat) : Entry α :=
  { e with countdown := clampSigned (e.countdown - min delta maxSigned) }

def isDue (e : Entry α) : Bool := e.countdown ≤ 0

def rearmed (e : Entry α) (policy : Policy) : Entry α :=
  { e with countdown := policy.rearm e.period e.countdown }

/-- Let time pass for an entry, run its callback if it is due, and re-arm it unless the callback broke
down. -/
def pass (policy : Policy) (invoke : α → σ → Invocation α σ) (delta : Nat) (e : Entry α) (world : σ) :
    Pass α σ :=
  let waiting := e.elapse delta
  if waiting.isDue then
    let did := invoke e.callback world
    let ran := { waiting with callback := did.callback }
    { entry := if did.breaksDown then ran else ran.rearmed policy
      world := did.world
      fired := !did.breaksDown
      asksStop := did.asksStop
      breaksDown := did.breaksDown }
  else ⟨waiting, world, false, false, false⟩

end Entry

/-! ## All entries -/

structure TickOutcome where
  fired : Nat
  nextDue : Option Nat
  deriving DecidableEq

structure TickState (α σ : Type) where
  roster : Roster α
  world : σ
  fired : Nat
  /-- The smallest countdown so far. -/
  soonest : Option Int
  stopAsked : Bool
  /-- Whether a callback broke down. -/
  cutShort : Bool

namespace TickState

variable {α σ : Type}

def start (roster : Roster α) (world : σ) : TickState α σ :=
  ⟨roster, world, 0, none, false, false⟩

def earlier (soonest : Option Int) (countdown : Int) : Int :=
  match soonest with
  | none => countdown
  | some s => min s countdown

def absorb (t : TickState α σ) (i : Nat) (p : Pass α σ) : TickState α σ where
  roster := t.roster.setEntry i p.entry
  world := p.world
  fired := t.fired + p.fired.toNat
  soonest := if p.breaksDown then t.soonest else some (earlier t.soonest p.entry.countdown)
  stopAsked := t.stopAsked || p.asksStop
  cutShort := p.breaksDown

def visitFrom (invoke : α → σ → Invocation α σ) (delta : Nat) :
    Nat → Option Nat → TickState α σ → TickState α σ
  | 0, _, t => t
  | _ + 1, none, t => t
  | room + 1, some i, t =>
    match t.roster.cell? i with
    | none => t
    | some c =>
      let t := t.absorb i (c.entry.pass t.roster.policy invoke delta t.world)
      if t.cutShort then t else visitFrom invoke delta room c.next t

def outcome (t : TickState α σ) : Option TickOutcome :=
  if t.cutShort then none else some ⟨t.fired, t.soonest.map Int.toNat⟩

end TickState

def secondsOfMicros (micros : Nat) : Float :=
  Number.ofNat64 micros / 1000000.0

/-- Let `delta` microseconds pass.  Callbacks get the time in seconds. -/
def Roster.tick {α σ : Type} (r : Roster α) (invoke : Float → α → σ → Invocation α σ) (delta : Nat)
    (world : σ) : TickState α σ :=
  TickState.visitFrom (invoke (secondsOfMicros delta)) delta r.slots.size r.head
    (TickState.start r world)

end Cadence
