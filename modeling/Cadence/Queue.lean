import Cadence.Ring

/-!
# Queues with a waiting consumer

A ring buffer behind one lock, with a condition variable on which a consumer sleeps until something
is pushed.  What one thread sees when nobody else is about is here; how several threads share a
queue is the subject of `Cadence.Queue.Contention`.
-/

namespace Cadence

structure SyncQueue (α : Type) where
  ring : Ring α

namespace SyncQueue

variable {α : Type}

def withSlots [Inhabited α] (n : Nat) : SyncQueue α := ⟨Ring.withSlots n⟩

def push (q : SyncQueue α) (x : α) : Bool × SyncQueue α :=
  let (accepted, ring) := q.ring.push x
  (accepted, ⟨ring⟩)

def pushAll (q : SyncQueue α) (xs : List α) : Nat × SyncQueue α :=
  let (count, ring) := q.ring.pushAll xs
  (count, ⟨ring⟩)

/-- Take the oldest value if there is one.  A wait without a limit returns this when it is there and
blocks otherwise; a wait with a limit returns this at the latest when the limit has passed. -/
def take (q : SyncQueue α) : Option α × SyncQueue α :=
  let (x, ring) := q.ring.pull
  (x, ⟨ring⟩)

def takeAll (q : SyncQueue α) : List α × SyncQueue α :=
  let (xs, ring) := q.ring.drain
  (xs, ⟨ring⟩)

def clear (q : SyncQueue α) : SyncQueue α := ⟨q.ring.clear⟩

def length (q : SyncQueue α) : Nat := q.ring.length

def isEmpty (q : SyncQueue α) : Bool := q.ring.isEmpty

def capacity (q : SyncQueue α) : Nat := q.ring.capacity

end SyncQueue

end Cadence
