import Cadence.Ring
import Cadence.Message

/-!
# The message bus

A ring of messages behind one lock.  A full bus drops what is sent and says so with a warning that
carries the running total.  An `Access` is one operation under the lock; a call takes the lock for one
of them, and a transaction for a list.  Who breaks down with the lock in hand leaves a mark on it, which
those that take it later disregard.
-/

namespace Cadence

/-- A message bus with the number of messages that it has dropped, which wraps after 64 bits. -/
structure Bus where
  ring : Ring Message
  dropped : UInt64
  /-- Whether someone has broken down with the lock in hand. -/
  poisoned : Bool

structure Overflow where
  label : UInt32
  capacity : Nat
  total : UInt64
  deriving DecidableEq

namespace Bus

def withSlots (n : Nat) : Bus := ⟨Ring.withSlots n, 0, false⟩

inductive Access
  | receive
  | send (m : Message)
  | drain
  | drainMany (count : Nat)
  | clear

inductive Answer
  | received (m : Option Message)
  | sent (overflow : Option Overflow)
  | drained (ms : List Message)
  | cleared

def receive (b : Bus) : Option Message × Bus :=
  let (m, ring) := b.ring.pull
  (m, { b with ring := ring })

def send (b : Bus) (m : Message) : Option Overflow × Bus :=
  match b.ring.push m with
  | (true, ring) => (none, { b with ring := ring })
  | (false, _) =>
    let total := b.dropped + 1
    (some ⟨m.label, b.ring.capacity, total⟩, { b with dropped := total })

def sendAll (b : Bus) : List Message → List Overflow × Bus
  | [] => ([], b)
  | m :: ms =>
    let (overflow, b) := b.send m
    let (overflows, b) := b.sendAll ms
    (overflow.toList ++ overflows, b)

def drainMany (b : Bus) (n : Nat) : List Message × Bus :=
  let (ms, ring) := b.ring.drainMany n
  (ms, { b with ring := ring })

def drain (b : Bus) : List Message × Bus :=
  b.drainMany b.ring.capacity

def clear (b : Bus) : Bus := { b with ring := b.ring.clear }

def length (b : Bus) : Nat := b.ring.length

def isEmpty (b : Bus) : Bool := b.ring.isEmpty

def capacity (b : Bus) : Nat := b.ring.capacity

def access (b : Bus) : Access → Answer × Bus
  | .receive => let (m, b) := b.receive; (.received m, b)
  | .send m => let (overflow, b) := b.send m; (.sent overflow, b)
  | .drain => let (ms, b) := b.drain; (.drained ms, b)
  | .drainMany n => let (ms, b) := b.drainMany n; (.drained ms, b)
  | .clear => (.cleared, b.clear)

def trace (b : Bus) : List Access → List (Answer × Bus)
  | [] => []
  | a :: rest =>
    let step := b.access a
    step :: step.2.trace rest

def after (b : Bus) (accesses : List Access) : Bus :=
  accesses.foldl (fun b a => (b.access a).2) b

def Answer.overflow? : Answer → Option Overflow
  | .sent overflow => overflow
  | _ => none

/-! ## The lock -/

inductive Guard
  | clean (b : Bus)
  | poisoned (b : Bus)

def lock (b : Bus) : Guard := if b.poisoned then .poisoned b else .clean b

/-- The bus, whether it comes with a mark or not: every operation is done as a whole, so that a
breakdown between two of them leaves it in order. -/
def Guard.bus : Guard → Bus
  | .clean b | .poisoned b => b

def release (b : Bus) (breaksDown : Bool) : Bus := { b with poisoned := b.poisoned || breaksDown }

def call (b : Bus) (a : Access) : Answer × Bus :=
  let (answer, b) := b.lock.bus.access a
  (answer, b.release false)

/-- A transaction: operations under one lock, which its owner may end by breaking down.  The lock is
released all the same and what has been done stays done. -/
structure Transaction where
  accesses : List Access
  breaksDown : Bool

def commit (b : Bus) (t : Transaction) : List (Answer × Bus) × Bus :=
  let held := b.lock.bus
  (held.trace t.accesses, (held.after t.accesses).release t.breaksDown)

end Bus

end Cadence
