import Cadence.Ring.Lemmas

/-!
# Ring buffers as bounded queues

Seen from outside, a ring is a `Fifo`: a list of values, oldest first, that takes no more than so many.
Each operation of a ring is that of its list (`fifo_push`, `fifo_pull` and so on), whatever its
positions and the values left over in its slots are, and so is every series of requests.
-/

namespace Cadence

/-- Values in the order in which they came, at most `limit` of them. -/
structure Fifo (α : Type) where
  limit : Nat
  values : List α

namespace Fifo

variable {α : Type}

def empty (limit : Nat) : Fifo α := ⟨limit, []⟩

def push (q : Fifo α) (x : α) : Bool × Fifo α :=
  if q.values.length < q.limit then (true, { q with values := q.values ++ [x] }) else (false, q)

def pull (q : Fifo α) : Option α × Fifo α :=
  (q.values.head?, { q with values := q.values.tail })

def takeMany (q : Fifo α) (n : Nat) : List α × Fifo α :=
  (q.values.take n, { q with values := q.values.drop n })

def clear (q : Fifo α) : Fifo α := { q with values := [] }

end Fifo

namespace Ring

variable {α : Type}

def fifo (r : Ring α) : Fifo α := ⟨r.capacity, r.toList⟩

/-! ## 1. Operations -/

theorem length_toList_le (r : Ring α) : r.toList.length ≤ r.capacity := by
  have hbelow := length_lt r
  rw [length_toList, capacity]
  omega

/-- No operation changes the number of slots. -/
@[simp]
theorem size_push (r : Ring α) (x : α) : (r.push x).2.slots.size = r.slots.size := by
  unfold push
  split
  · rfl
  · exact Array.size_set r.head_lt

@[simp]
theorem size_pull (r : Ring α) : r.pull.2.slots.size = r.slots.size := by
  unfold pull
  split <;> rfl

@[simp]
theorem size_clear (r : Ring α) : r.clear.slots.size = r.slots.size := rfl

@[simp]
theorem size_withSlots [Inhabited α] (n : Nat) : (withSlots n : Ring α).slots.size = max n 2 :=
  Array.size_replicate

theorem fifo_withSlots [Inhabited α] (n : Nat) :
    (withSlots n : Ring α).fifo = Fifo.empty (max n 2 - 1) := by
  rw [fifo, capacity, size_withSlots, toList_withSlots]
  rfl

theorem fifo_push (r : Ring α) (x : α) : r.fifo.push x = ((r.push x).1, (r.push x).2.fifo) := by
  have hheld : r.toList.length ≤ r.capacity := r.length_toList_le
  have hfull := isFull_iff r
  by_cases h : r.isFull = true
  · have hlength : ¬ r.toList.length < r.capacity := Nat.not_lt.2 (Nat.le_of_eq (hfull.1 h).symm)
    rw [push_of_full r x h, Fifo.push]
    exact if_neg hlength
  · have hlength : r.toList.length < r.capacity :=
      Nat.lt_of_le_of_ne hheld fun hsame => h (hfull.2 hsame)
    obtain ⟨haccepted, hvalues⟩ := toList_push_of_room r x (Bool.eq_false_iff.2 h)
    rw [Fifo.push, haccepted, fifo, fifo, hvalues, capacity, capacity, size_push]
    exact if_pos hlength

theorem fifo_pull (r : Ring α) : r.fifo.pull = (r.pull.1, r.pull.2.fifo) := by
  obtain ⟨hshown, hvalues⟩ := toList_pull r
  rw [Fifo.pull, hshown, fifo, fifo, hvalues, capacity, capacity, size_pull]

/-- What is taken out stood in front of what is left, and what is taken in stands behind it. -/
theorem pull_append (r : Ring α) : r.pull.1.toList ++ r.pull.2.toList = r.toList := by
  obtain ⟨hshown, hvalues⟩ := toList_pull r
  rw [hshown, hvalues]
  cases r.toList <;> rfl

theorem toList_push (r : Ring α) (x : α) :
    (r.push x).2.toList = r.toList ++ if (r.push x).1 then [x] else [] := by
  by_cases hfull : r.isFull = true
  · rw [push_of_full r x hfull]
    exact (List.append_nil _).symm
  · obtain ⟨haccepted, hvalues⟩ := toList_push_of_room r x (Bool.eq_false_iff.2 hfull)
    rw [haccepted, hvalues]
    rfl

theorem fifo_clear (r : Ring α) : r.fifo.clear = r.clear.fifo := by
  rw [Fifo.clear, fifo, fifo, toList_clear, capacity, capacity, size_clear]

/-- Values are taken one by one until there are so many, or there are no more. -/
theorem fifo_drainMany (r : Ring α) (n : Nat) :
    r.fifo.takeMany n = ((r.drainMany n).1, (r.drainMany n).2.fifo) := by
  induction n generalizing r with
  | zero => rfl
  | succ n ih =>
    have hpulled := fifo_pull r
    rw [drainMany]
    cases hpull : r.pull with
    | mk shown rest =>
      rw [hpull, Fifo.pull, Prod.mk.injEq] at hpulled
      cases shown with
      | none =>
        have hnothing : r.fifo.values = [] := List.head?_eq_none_iff.1 hpulled.1
        rw [hnothing] at hpulled
        rw [Fifo.takeMany, hnothing]
        exact congrArg (Prod.mk []) hpulled.2
      | some x =>
        obtain ⟨xs, hvalues⟩ := List.head?_eq_some_iff.1 hpulled.1
        have hlater := ih rest
        rw [← hpulled.2, hvalues, Fifo.takeMany, Prod.mk.injEq] at hlater
        rw [Fifo.takeMany, hvalues, List.take_succ_cons, List.drop_succ_cons]
        exact Prod.ext (congrArg (List.cons x) hlater.1) hlater.2

theorem fifo_drain (r : Ring α) : (r.drainMany r.capacity).1 = r.toList ∧
    (r.drainMany r.capacity).2.fifo = r.fifo.clear := by
  have hheld : r.toList.length ≤ r.capacity := r.length_toList_le
  have htaken := fifo_drainMany r r.capacity
  rw [Fifo.takeMany, fifo, Prod.mk.injEq] at htaken
  rw [← htaken.1, ← htaken.2, List.take_of_length_le hheld, List.drop_of_length_le hheld]
  exact ⟨rfl, rfl⟩

/-! ## 2. Requests -/

inductive Request (α : Type)
  | push (x : α)
  | pull
  | peek
  | clear
  | length
  | isEmpty
  | isFull
  | capacity

inductive Reply (α : Type)
  | value (x : Option α)
  | count (n : Nat)
  | truth (b : Bool)
  | done

def answer (r : Ring α) : Request α → Reply α × Ring α
  | .push x => (.truth (r.push x).1, (r.push x).2)
  | .pull => (.value r.pull.1, r.pull.2)
  | .peek => (.value r.peek, r)
  | .clear => (.done, r.clear)
  | .length => (.count r.length, r)
  | .isEmpty => (.truth r.isEmpty, r)
  | .isFull => (.truth r.isFull, r)
  | .capacity => (.count r.capacity, r)

def run (r : Ring α) : List (Request α) → List (Reply α) × Ring α
  | [] => ([], r)
  | q :: rest =>
    let (reply, r') := r.answer q
    let (replies, last) := r'.run rest
    (reply :: replies, last)

end Ring

namespace Fifo

variable {α : Type}

def answer (q : Fifo α) : Ring.Request α → Ring.Reply α × Fifo α
  | .push x => (.truth (q.push x).1, (q.push x).2)
  | .pull => (.value q.pull.1, q.pull.2)
  | .peek => (.value q.values.head?, q)
  | .clear => (.done, q.clear)
  | .length => (.count q.values.length, q)
  | .isEmpty => (.truth (decide (q.values.length = 0)), q)
  | .isFull => (.truth (decide (q.values.length = q.limit)), q)
  | .capacity => (.count q.limit, q)

def run (q : Fifo α) : List (Ring.Request α) → List (Ring.Reply α) × Fifo α
  | [] => ([], q)
  | k :: rest =>
    let (reply, q') := q.answer k
    let (replies, last) := q'.run rest
    (reply :: replies, last)

end Fifo

namespace Ring

variable {α : Type}

theorem isEmpty_eq (r : Ring α) : r.isEmpty = decide (r.toList.length = 0) := by
  rw [Bool.eq_iff_iff, isEmpty_iff, decide_eq_true_eq, List.length_eq_zero_iff]

-- A ring of two slots holds one value, also where its head has gone round.
example : ((withSlots 0 : Ring Nat).run [.push 7, .push 8, .pull, .push 9, .isFull, .pull]).1 =
    [.truth true, .truth false, .value (some 7), .truth true, .truth true, .value (some 9)] := rfl

end Ring

end Cadence
