import Cadence.RunLoop

/-!
# Other threads at a run loop

Any number of threads may register and unregister entries and ask the loop to stop while its own
thread goes through its cycle.  Each stretch under a lock is one step.  Someone who has changed the
entries flags that in a later step of its own and rouses the thread in another one, so that
everything may happen in between; the thread may also wake for no reason, and the world may change
between any two steps.  A call that is to stop the loop finds out in a first step whether it is the
first one.  If so it asks under the lock, rouses the thread at once and waits until it is no longer
there; if not it returns, whatever the first one has got to.
-/

namespace Cadence

inductive StopCall
  /-- It is the first one, and about to ask. -/
  | asking
  /-- It has asked, and waits for the thread to be no longer there. -/
  | joining
  /-- It has completed the lifecycle, and is about to drop the entries. -/
  | concluding
  | returned (result : Except Failure Unit)

structure Interleaving (α σ : Type) where
  loop : RunLoop α
  world : σ
  /-- How many calls have changed the entries and have still to flag it. -/
  unflagged : Nat
  /-- How many calls have flagged a change and have still to rouse the thread. -/
  unroused : Nat
  stops : List StopCall

inductive LoopEvent (α σ : Type)
  /-- The thread of the loop goes on from where it is, unless it sleeps. -/
  | advance
  /-- The thread wakes, for no reason or because its deadline has passed. -/
  | wake
  /-- The world changes. -/
  | elapse (world : σ)
  | enroll (e : Entry α)
  | dismiss (h : Handle)
  | flag
  | rouse
  /-- Someone calls for the loop to stop. -/
  | stop
  /-- The call with that number goes on. -/
  | resume (call : Nat)

namespace Interleaving

variable {α σ : Type}

def quiet (l : RunLoop α) (world : σ) : Interleaving α σ := ⟨l, world, 0, 0, []⟩

def advance? (s : RunLoop.Surroundings α σ) (c : Interleaving α σ) : Option (Interleaving α σ) :=
  match c.loop.place with
  | .starting => some { c with loop := c.loop.comeUp }
  | .returning => some { c with loop := c.loop.relock }
  | .deciding => some { c with loop := c.loop.sleepOrProceed (s.now c.world) }
  | .asleep => none
  | .roused => some { c with loop := c.loop.awaken }
  | .proceeding => some { c with loop := c.loop.proceed }
  | .ticking =>
    let (_, loop, world) := c.loop.tick s c.world
    some { c with loop := loop, world := world }
  | .emptying => some { c with loop := c.loop.leave }
  | .gone | .broken => none

def resume? (c : Interleaving α σ) (i : Nat) : Option (Interleaving α σ) :=
  match c.stops[i]? with
  | some .asking =>
    if c.loop.place.holdsControl then none
    else some { c with loop := c.loop.askToStop, stops := c.stops.set i .joining }
  | some .joining =>
    if c.loop.place.isEnd then
      some { c with loop := c.loop.complete, stops := c.stops.set i .concluding }
    else none
  | some .concluding =>
    let (result, loop) := c.loop.conclude
    some { c with loop := loop, stops := c.stops.set i (.returned result) }
  | _ => none

/-- Carry out one step, if it can happen now.  What needs the control lock has to wait while the
thread of the loop has it. -/
def step? (s : RunLoop.Surroundings α σ) (c : Interleaving α σ) :
    LoopEvent α σ → Option (Interleaving α σ)
  | .advance => c.advance? s
  | .wake => if c.loop.place = .asleep then some { c with loop := c.loop.rouse } else none
  | .elapse world => some { c with world := world }
  | .enroll e => some { c with loop := (c.loop.enroll e).2, unflagged := c.unflagged + 1 }
  | .dismiss h =>
    match c.loop.dismiss h with
    | some (_, loop) => some { c with loop := loop, unflagged := c.unflagged + 1 }
    | none => some { c with loop := c.loop.note .unknownHandle }
  | .flag =>
    if c.unflagged = 0 ∨ c.loop.place.holdsControl then none
    else
      some { c with
        loop := c.loop.flagRescan
        unflagged := c.unflagged - 1
        unroused := c.unroused + 1 }
  | .rouse =>
    if c.unroused = 0 then none
    else some { c with loop := c.loop.rouse, unroused := c.unroused - 1 }
  | .stop =>
    if c.loop.unclaimed then some { c with loop := c.loop.claim, stops := c.stops ++ [.asking] }
    else some { c with stops := c.stops ++ [.returned (.ok ())] }
  | .resume i => c.resume? i

def run? (s : RunLoop.Surroundings α σ) (c : Interleaving α σ) :
    List (LoopEvent α σ) → Option (Interleaving α σ)
  | [] => some c
  | e :: rest => (c.step? s e).bind fun c => c.run? s rest

end Interleaving

end Cadence
