import Cadence.Policy

/-!
# Rosters

The entries of a run loop in an array of slots.  An entry stays in its slot until it is removed, and
the slot is then used again, the one vacated last first.  A slot counts how often it has been vacated,
modulo `2 ^ 32`, so that a ticket for an entry that is gone does not fit the one that came after it.

The entries are linked in the order of their registration, in both directions.  `indices` and `toList`
follow the links from the head.
-/

namespace Cadence

structure Entry (α : Type) where
  callback : α
  period : Nat
  /-- Zero or less means due now. -/
  countdown : Int
  period_pos : 0 < period

/-- An entry with the slots of the entries registered before and after it. -/
structure Cell (α : Type) where
  entry : Entry α
  before : Option Nat
  next : Option Nat

structure Slot (α : Type) where
  generation : UInt32
  cell : Option (Cell α)

/-- What an entry is removed by: its slot, and the count of that slot when it was registered. -/
structure Ticket where
  index : Nat
  generation : UInt32
  deriving DecidableEq

structure Roster (α : Type) where
  slots : Array (Slot α)
  /-- The vacant slots, the one vacated last first. -/
  free : List Nat
  head : Option Nat
  tail : Option Nat
  length : Nat
  policy : Policy

namespace Roster

variable {α : Type}

def empty (policy : Policy) : Roster α := ⟨#[], [], none, none, 0, policy⟩

def cell? (r : Roster α) (i : Nat) : Option (Cell α) :=
  r.slots[i]?.bind Slot.cell

def modifyCell (r : Roster α) (i : Nat) (f : Cell α → Cell α) : Roster α :=
  { r with slots := r.slots.modify i fun s => { s with cell := s.cell.map f } }

def setEntry (r : Roster α) (i : Nat) (e : Entry α) : Roster α :=
  r.modifyCell i fun c => { c with entry := e }

/-! ## Views -/

def chain (r : Roster α) (step : Cell α → Option Nat) : Nat → Option Nat → List (Nat × Cell α)
  | 0, _ => []
  | _ + 1, none => []
  | room + 1, some i =>
    match r.cell? i with
    | none => []
    | some c => (i, c) :: r.chain step room (step c)

def indices (r : Roster α) : List Nat :=
  (r.chain Cell.next r.slots.size r.head).map (·.1)

def toList (r : Roster α) : List (Entry α) :=
  (r.chain Cell.next r.slots.size r.head).map (·.2.entry)

/-! ## Registration and removal -/

/-- Let the link to what comes after `place` lead to `target`.  With nothing at `place`, it is the head
of the roster that leads there. -/
def linkNext (r : Roster α) (place target : Option Nat) : Roster α :=
  match place.filter fun i => (r.cell? i).isSome with
  | some i => r.modifyCell i fun c => { c with next := target }
  | none => { r with head := target }

/-- Let the link to what comes before `place` lead to `target`.  With nothing at `place`, it is the
tail of the roster that leads there. -/
def linkBefore (r : Roster α) (place target : Option Nat) : Roster α :=
  match place.filter fun i => (r.cell? i).isSome with
  | some i => r.modifyCell i fun c => { c with before := target }
  | none => { r with tail := target }

def place (r : Roster α) (c : Cell α) : Nat × Roster α :=
  match r.free with
  | i :: free =>
    (i, { r with free := free, slots := r.slots.modify i fun s => { s with cell := some c } })
  | [] => (r.slots.size, { r with slots := r.slots.push ⟨0, some c⟩ })

def generation (r : Roster α) (i : Nat) : UInt32 :=
  match r.slots[i]? with
  | some s => s.generation
  | none => 0

def insert (r : Roster α) (e : Entry α) : Ticket × Roster α :=
  let (i, placed) := r.place ⟨e, r.tail, none⟩
  let linked := placed.linkNext r.tail (some i)
  (⟨i, linked.generation i⟩, { linked with tail := some i, length := r.length + 1 })

def remove (r : Roster α) (t : Ticket) : Option (Entry α × Roster α) :=
  match r.slots[t.index]? with
  | some ⟨generation, some c⟩ =>
    if generation = t.generation then
      let vacated := { r with slots := r.slots.setIfInBounds t.index ⟨generation + 1, none⟩ }
      let linked := (vacated.linkNext c.before c.next).linkBefore c.next c.before
      some (c.entry, { linked with free := t.index :: r.free, length := r.length - 1 })
    else none
  | _ => none

def vacate (s : Slot α) : Slot α :=
  match s.cell with
  | some _ => ⟨s.generation + 1, none⟩
  | none => s

def occupied (r : Roster α) : List Nat :=
  (List.range r.slots.size).filter fun i => (r.cell? i).isSome

/-- Drop every entry; the slots are vacated in the order of the array. -/
def clear (r : Roster α) : Roster α where
  slots := r.slots.map vacate
  free := r.occupied.reverse ++ r.free
  head := none
  tail := none
  length := 0
  policy := r.policy

end Roster

end Cadence
