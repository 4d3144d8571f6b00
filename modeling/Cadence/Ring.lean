/-!
# Ring buffers

A first-in first-out buffer of fixed capacity in an array of slots.  `head` is the next slot to write
and `tail` the next slot to read.  One slot always stays free, so that equal positions mean empty and
a head just behind the tail means full: a ring of `n` slots holds at most `n - 1` values.

`Ring.toList` is the view through which the operations are understood.
-/

namespace Cadence

def defaultSlots : Nat := 128

/-- A ring buffer.  Its slots are in memory, where no more than `2 ^ 63` bytes belong together, so that
neither a position nor the sum of two leaves the range of a 64-bit word. -/
structure Ring (α : Type) where
  slots : Array α
  head : Nat
  tail : Nat
  two_le_size : 2 ≤ slots.size
  head_lt : head < slots.size
  tail_lt : tail < slots.size

namespace Ring

variable {α : Type}

def withSlots [Inhabited α] (n : Nat) : Ring α where
  slots := Array.replicate (max n 2) default
  head := 0
  tail := 0
  two_le_size := by simp only [Array.size_replicate]; omega
  head_lt := by simp only [Array.size_replicate]; omega
  tail_lt := by simp only [Array.size_replicate]; omega

def next (r : Ring α) (i : Nat) : Nat :=
  (i + 1) % r.slots.size

theorem next_lt (r : Ring α) (i : Nat) : r.next i < r.slots.size :=
  Nat.mod_lt _ (Nat.lt_of_lt_of_le (by decide) r.two_le_size)

def capacity (r : Ring α) : Nat :=
  r.slots.size - 1

def length (r : Ring α) : Nat :=
  (r.head + r.slots.size - r.tail) % r.slots.size

def isEmpty (r : Ring α) : Bool :=
  r.head == r.tail

def isFull (r : Ring α) : Bool :=
  r.next r.head == r.tail

def push (r : Ring α) (x : α) : Bool × Ring α :=
  if r.next r.head = r.tail then (false, r)
  else
    (true,
      { slots := r.slots.set r.head x r.head_lt
        head := r.next r.head
        tail := r.tail
        two_le_size := by rw [Array.size_set]; exact r.two_le_size
        head_lt := by rw [Array.size_set]; exact r.next_lt _
        tail_lt := by rw [Array.size_set]; exact r.tail_lt })

def oldest (r : Ring α) : α :=
  have := r.tail_lt
  r.slots[r.tail]

def peek (r : Ring α) : Option α :=
  if r.head = r.tail then none else some r.oldest

/-- Remove the oldest value.  Its slot keeps it until it is written again. -/
def pull (r : Ring α) : Option α × Ring α :=
  if r.head = r.tail then (none, r)
  else (some r.oldest, { r with tail := r.next r.tail, tail_lt := r.next_lt _ })

def clear (r : Ring α) : Ring α :=
  have pos : 0 < r.slots.size := Nat.lt_of_lt_of_le (by decide) r.two_le_size
  { r with head := 0, tail := 0, head_lt := pos, tail_lt := pos }

def toList (r : Ring α) : List α :=
  (List.range r.length).map fun i =>
    have : (r.tail + i) % r.slots.size < r.slots.size :=
      Nat.mod_lt _ (Nat.lt_of_lt_of_le (by decide) r.two_le_size)
    r.slots[(r.tail + i) % r.slots.size]

def pushAll (r : Ring α) : List α → Nat × Ring α
  | [] => (0, r)
  | x :: xs =>
    let (accepted, r) := r.push x
    let (count, r) := r.pushAll xs
    (count + accepted.toNat, r)

def pullMany (r : Ring α) : Nat → List (Option α) × Ring α
  | 0 => ([], r)
  | n + 1 =>
    let (x, r) := r.pull
    let (xs, r) := r.pullMany n
    (x :: xs, r)

def drainMany (r : Ring α) : Nat → List α × Ring α
  | 0 => ([], r)
  | n + 1 =>
    match r.pull with
    | (none, r) => ([], r)
    | (some x, r) =>
      let (xs, r) := r.drainMany n
      (x :: xs, r)

def drain (r : Ring α) : List α × Ring α :=
  r.drainMany r.capacity

end Ring

end Cadence
