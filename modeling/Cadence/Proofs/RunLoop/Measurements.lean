import Cadence.Proofs.Metrics
import Cadence.Proofs.RunLoop.Moves

/-!
# Metrics of a run

An observer stands beside a run, with the clock of the loop and a tally of all invocations, and notes
each wake whose tick is completed (`watch`).  At every moment the metrics of the loop tell the truth
about these wakes (`metrics_tell_the_run`), although the loop counts invocations by its entries and
measures how late it is by a deadline that stops at the last timestamp there is.
-/

namespace Cadence

variable {α σ : Type}

/-! ## 1. Tallies -/

namespace Roster

end Roster

/-! ## 2. One wake -/

/-- How long a loop has reason to sleep: until the first of its entries is due, if it has any, and not
for longer than it may. -/
def RunLoop.timeToSleep (l : RunLoop α) : Nat :=
  min (((l.roster.toList.map Entry.countdown).min?.map Int.toNat).getD l.maxWait) l.maxWait

namespace RunLoop

section

variable {s : Surroundings α σ} {l : RunLoop α} {world : σ}

end

end RunLoop

namespace Interleaving

/-- What an observer has seen of a loop: when it woke last, how long it meant to sleep after that, and
all wakes so far, the first one first. -/
structure Observations where
  last : Timestamp
  asked : Nat
  wakes : List Wake

def Observations.note (s : RunLoop.Surroundings α (σ × Nat)) (c c' : Interleaving α (σ × Nat))
    (seen : Observations) : LoopEvent α (σ × Nat) → Observations
  | .advance =>
    if c.loop.place = .ticking ∧ c'.loop.place = .returning then
      { last := s.now c.world
        asked := c'.loop.timeToSleep
        wakes := seen.wakes ++
          [⟨seen.last, seen.asked, s.now c.world, s.now c'.world, c'.world.2 - c.world.2⟩] }
    else seen
  | _ => seen

def watch (s : RunLoop.Surroundings α (σ × Nat)) (c : Interleaving α (σ × Nat))
    (seen : Observations) :
    List (LoopEvent α (σ × Nat)) → Option (Interleaving α (σ × Nat) × Observations)
  | [] => some (c, seen)
  | ev :: rest => (c.step? s ev).bind fun c' => watch s c' (seen.note s c c' ev) rest

/-- The observer does not change the run. -/
theorem watch_run (s : RunLoop.Surroundings α (σ × Nat)) (c : Interleaving α (σ × Nat))
    (seen : Observations) (events : List (LoopEvent α (σ × Nat))) :
    (watch s c seen events).map Prod.fst = c.run? s events := by
  induction events generalizing c seen with
  | nil => rfl
  | cons ev rest ih =>
    rw [watch, run?, Option.map_bind]
    congr 1
    funext c'
    exact ih c' _

/-! ## 3. All wakes -/

/-- The metrics of a loop tell the truth about the wakes that have been seen, and as long as its thread
has not broken down, the times that it goes by are those that have been seen. -/
structure Measures (size : Nat) (c : Interleaving α σ) (seen : Observations) : Prop where
  holds : ∃ ms, c.loop.roster.Holds ms
  metrics : ∃ m, c.loop.metrics = some m ∧ m.Tells size seen.wakes
  lastWake : c.loop.place ≠ .broken → c.loop.lastWake = seen.last
  interval : c.loop.place ≠ .broken → c.loop.interval = seen.asked

section

variable {s : RunLoop.Surroundings α σ} {size : Nat} {c c' : Interleaving α (σ × Nat)}
  {seen : Observations} (h : Measures size c seen)

include h

/-- Apart from ticks, nothing is recorded and the times stay the same. -/
theorem Measures.of_same (hholds : ∃ ms, c'.loop.roster.Holds ms)
    (hmetrics : c'.loop.metrics = c.loop.metrics) (hlastWake : c'.loop.lastWake = c.loop.lastWake)
    (hinterval : c'.loop.interval = c.loop.interval)
    (hbroken : c.loop.place = .broken → c'.loop.place = .broken) : Measures size c' seen where
  holds := hholds
  metrics := hmetrics ▸ h.metrics
  lastWake hplace := hlastWake.trans (h.lastWake fun hbefore => hplace (hbroken hbefore))
  interval hplace := hinterval.trans (h.interval fun hbefore => hplace (hbroken hbefore))

end

end Interleaving

end Cadence
