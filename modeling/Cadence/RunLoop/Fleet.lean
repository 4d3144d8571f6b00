import Cadence.RunLoop.Interleaving

/-!
# Several run loops

Any number of loops are started one after the other, and calls of theirs come in any order.  A call that
registers or unregisters an entry may be taken as a whole, as here, or by its stretches under a lock,
which are steps of an interleaving.  Taken as a whole it may come at any time, even where it would have
to wait for a lock.
-/

namespace Cadence

inductive LoopCall (α σ : Type)
  | registerAfter (hertz : Float) (delay : Duration) (callback : α)
  | register (hertz : Float) (random : Nat) (callback : α)
  | unregister (h : Handle)
  /-- A step of the loop's own thread, or of some other one. -/
  | step (ev : LoopEvent α σ)

inductive FleetEvent (α σ : Type)
  /-- Someone starts another loop. -/
  | spawn (o : LoopOptions) (now : Timestamp) (world : σ)
  /-- Something happens at the loop with that number. -/
  | at (i : Nat) (call : LoopCall α σ)

inductive Answer (α : Type)
  | done
  | registered (result : Except Misuse Handle)
  | unregistered (result : Except Misuse (Entry α))

def Answer.isRefusal {α : Type} : Answer α → Bool
  | registered (.error _) | unregistered (.error _) => true
  | _ => false

abbrev Fleet (α σ : Type) := List (Interleaving α σ)

namespace Interleaving

variable {α σ : Type}

def answerTo (c : Interleaving α σ) : LoopEvent α σ → Answer α
  | .enroll e => .registered (.ok (c.loop.enroll e).1)
  | .dismiss h => .unregistered (c.loop.unregister h).1
  | _ => .done

def call? (s : RunLoop.Surroundings α σ) (c : Interleaving α σ) :
    LoopCall α σ → Option (Answer α × Interleaving α σ)
  | .registerAfter hertz delay callback =>
    let (result, loop) := c.loop.registerAfter hertz delay callback
    some (.registered result, { c with loop := loop })
  | .register hertz random callback =>
    let (result, loop) := c.loop.register hertz random callback
    some (.registered result, { c with loop := loop })
  | .unregister h =>
    let (result, loop) := c.loop.unregister h
    some (.unregistered result, { c with loop := loop })
  | .step ev => (c.step? s ev).map fun c' => (c.answerTo ev, c')

end Interleaving

namespace Fleet

variable {α σ : Type}

/-- Carry out one event, if it can happen now.  Loops are numbered from zero here, but identified from
one on. -/
def step? (s : RunLoop.Surroundings α σ) (f : Fleet α σ) :
    FleetEvent α σ → Option (Answer α × Fleet α σ)
  | .spawn o now world =>
    some (.done, f ++ [Interleaving.quiet (RunLoop.create (f.length + 1) o now) world])
  | .at i call =>
    f[i]?.bind fun c => (c.call? s call).map fun (answer, c') => (answer, f.set i c')

def run? (s : RunLoop.Surroundings α σ) (f : Fleet α σ) :
    List (FleetEvent α σ) → Option (List (Answer α) × Fleet α σ)
  | [] => some ([], f)
  | ev :: rest =>
    (f.step? s ev).bind fun (answer, f') =>
      (run? s f' rest).map fun (answers, last) => (answer :: answers, last)

end Fleet

end Cadence
