import Cadence.Queue

/-!
# Threads sharing a queue

Each stretch that a thread spends under the lock of the queue is one step.  A push that was accepted
signals in a later step of its own, which wakes one of the sleeping waiters if there is any; a sleeper
may also wake for no reason or because its limit has passed.  A waiter that was woken has to take the
lock again, and others may get there first.  If its limit has passed by then it does not go back to
sleep.

`SyncQueue.handOver` is the shortest such history in which a waiter sleeps and a value reaches it.
-/

namespace Cadence

inductive WaitStage (α : Type)
  /-- About to take the lock for the first time. -/
  | arriving
  /-- On the condition variable, and nobody has woken it. -/
  | asleep
  /-- Woken, about to take the lock again. -/
  | woken
  /-- Woken by its limit, about to take the lock for the last time. -/
  | expired
  /-- Returned with a value. -/
  | served (value : α)
  /-- Returned without one. -/
  | gaveUp

structure Waiter (α : Type) where
  limited : Bool
  stage : WaitStage α

namespace Waiter

variable {α : Type}

def isAsleep (w : Waiter α) : Bool :=
  match w.stage with
  | .asleep => true
  | _ => false

def isWoken (w : Waiter α) : Bool :=
  match w.stage with
  | .woken | .expired => true
  | _ => false

def result? (w : Waiter α) : Option α :=
  match w.stage with
  | .served x => some x
  | _ => none

end Waiter

/-- A queue with the threads that wait on it and the number of accepted pushes that have still to
signal. -/
structure Contention (α : Type) where
  queue : SyncQueue α
  waiters : List (Waiter α)
  unsignalled : Nat

inductive ContentionStep (α : Type)
  /-- A producer takes the lock and pushes. -/
  | push (value : α)
  /-- A producer whose push was accepted wakes that sleeper, or nobody if all are awake. -/
  | signal (sleeper : Option Nat)
  /-- A new waiter arrives. -/
  | arrive (limited : Bool)
  /-- A waiter takes the lock: it returns with a value, sleeps, or gives up. -/
  | look (waiter : Nat)
  /-- A waiter takes the lock, and its limit has passed although it was not the limit that woke it: it
  returns with a value or gives up. -/
  | lapse (waiter : Nat)
  /-- A sleeper wakes for no reason. -/
  | rouse (waiter : Nat)
  /-- The limit of a sleeper passes. -/
  | expire (waiter : Nat)
  /-- Someone takes the lock and drops every value. -/
  | clear

namespace Contention

variable {α : Type}

def quiet (q : SyncQueue α) : Contention α := ⟨q, [], 0⟩

def setStage (c : Contention α) (i : Nat) (stage : WaitStage α) : Contention α :=
  { c with waiters := c.waiters.modify i fun w => { w with stage := stage } }

/-- Waiter `i`, which holds the lock, tries to take a value and else goes to `otherwise`. -/
def serve (c : Contention α) (i : Nat) (otherwise : WaitStage α) : Contention α :=
  match c.queue.take with
  | (some x, q) => { c with queue := q }.setStage i (.served x)
  | (none, _) => c.setStage i otherwise

def step? (c : Contention α) : ContentionStep α → Option (Contention α)
  | .push x =>
    let (accepted, q) := c.queue.push x
    some { c with queue := q, unsignalled := c.unsignalled + accepted.toNat }
  | .signal sleeper =>
    if c.unsignalled = 0 then none
    else
      match sleeper with
      | none =>
        if c.waiters.any Waiter.isAsleep then none
        else some { c with unsignalled := c.unsignalled - 1 }
      | some i =>
        match c.waiters[i]? with
        | some ⟨_, .asleep⟩ => some ({ c with unsignalled := c.unsignalled - 1 }.setStage i .woken)
        | _ => none
  | .arrive limited => some { c with waiters := c.waiters ++ [⟨limited, .arriving⟩] }
  | .look i =>
    match c.waiters[i]? with
    | some ⟨_, .arriving⟩ => some (c.serve i .asleep)
    | some ⟨_, .woken⟩ => some (c.serve i .asleep)
    | some ⟨_, .expired⟩ => some (c.serve i .gaveUp)
    | _ => none
  | .lapse i =>
    match c.waiters[i]? with
    | some ⟨true, .arriving⟩ => some (c.serve i .gaveUp)
    | some ⟨true, .woken⟩ => some (c.serve i .gaveUp)
    | _ => none
  | .rouse i =>
    match c.waiters[i]? with
    | some ⟨_, .asleep⟩ => some (c.setStage i .woken)
    | _ => none
  | .expire i =>
    match c.waiters[i]? with
    | some ⟨true, .asleep⟩ => some (c.setStage i .expired)
    | _ => none
  | .clear => some { c with queue := c.queue.clear }

def run? (c : Contention α) : List (ContentionStep α) → Option (Contention α)
  | [] => some c
  | s :: rest => (c.step? s).bind fun c => c.run? rest

end Contention

def SyncQueue.handOver {α : Type} (q : SyncQueue α) (limited : Bool) (x : α) :
    Bool × Option α × SyncQueue α :=
  let accepted := (q.push x).1
  match (Contention.quiet q).run?
      [.arrive limited, .look 0, .push x, .signal (some 0), .look 0] with
  | some c => (accepted, (c.waiters.head?.bind Waiter.result?), c.queue)
  | none =>
    -- The waiter found a value at once and never slept.
    let (got, q) := q.take
    let (accepted, q) := q.push x
    (accepted, got, q)

end Cadence
