import Cadence.Ring

/-!
# Ring buffers as lists

What each operation does to the list of values held: `push` appends while there is room, `pull` takes
the first value away, `peek` shows it and `clear` leaves nothing.
-/

namespace Cadence.Ring

variable {α : Type}

/-! ## Going round -/

/-- Less than one round too far is put right by one round. -/
theorem mod_of_lt_twice {a n : Nat} (h : a < 2 * n) : a % n = if a < n then a else a - n := by
  split
  · exact Nat.mod_eq_of_lt ‹_›
  · rw [Nat.mod_eq_sub_mod (by omega), Nat.mod_eq_of_lt (by omega)]

theorem length_eq (r : Ring α) :
    r.length = if r.tail ≤ r.head then r.head - r.tail else r.head + r.slots.size - r.tail := by
  have hhead_lt := r.head_lt
  have htail_lt := r.tail_lt
  rw [length, mod_of_lt_twice (by omega)]
  split <;> split <;> omega

theorem length_lt (r : Ring α) : r.length < r.slots.size := by
  have hhead_lt := r.head_lt
  have htail_lt := r.tail_lt
  rw [length_eq]
  split <;> omega

theorem next_eq (r : Ring α) {i : Nat} (h : i < r.slots.size) :
    r.next i = if i + 1 < r.slots.size then i + 1 else 0 := by
  rw [next, mod_of_lt_twice (by omega)]
  split <;> omega

/-! ## Values by their place -/

@[simp]
theorem length_toList (r : Ring α) : r.toList.length = r.length := by
  simp only [toList, List.length_map, List.length_range]

theorem getElem?_toList (r : Ring α) (i : Nat) :
    r.toList[i]? = if i < r.length then r.slots[(r.tail + i) % r.slots.size]? else none := by
  have hpos : 0 < r.slots.size := Nat.lt_of_lt_of_le (by decide) r.two_le_size
  split
  · rename_i h
    have hinside : (r.tail + i) % r.slots.size < r.slots.size := Nat.mod_lt _ hpos
    simp [toList, List.getElem?_map, List.getElem?_range h, Array.getElem?_eq_getElem hinside]
  · rename_i h
    exact List.getElem?_eq_none (by rw [length_toList]; omega)

/-! ## Operations -/

@[simp]
theorem toList_withSlots [Inhabited α] (n : Nat) : (withSlots n : Ring α).toList = [] := by
  apply List.eq_nil_of_length_eq_zero
  rw [length_toList, length_eq]
  rfl

@[simp]
theorem toList_clear (r : Ring α) : r.clear.toList = [] := by
  apply List.eq_nil_of_length_eq_zero
  rw [length_toList, length_eq]
  rfl

theorem isEmpty_iff (r : Ring α) : r.isEmpty = true ↔ r.toList = [] := by
  rw [← List.length_eq_zero_iff, length_toList, length_eq, isEmpty, beq_iff_eq]
  have hhead_lt := r.head_lt
  have htail_lt := r.tail_lt
  split <;> omega

theorem isFull_iff (r : Ring α) : r.isFull = true ↔ r.toList.length = r.capacity := by
  rw [length_toList, length_eq, isFull, beq_iff_eq, capacity, next_eq r r.head_lt]
  have hhead_lt := r.head_lt
  have htail_lt := r.tail_lt
  split <;> split <;> omega

/-- A ring that is not full accepts a value and holds it behind the others. -/
theorem toList_push_of_room (r : Ring α) (x : α) (hroom : r.isFull = false) :
    (r.push x).1 = true ∧ (r.push x).2.toList = r.toList ++ [x] := by
  have hhead_lt := r.head_lt
  have htail_lt := r.tail_lt
  have hapart : r.next r.head ≠ r.tail := by simpa [isFull] using hroom
  refine ⟨by simp [push, hapart], List.ext_getElem? fun i => ?_⟩
  have hnext_head := next_eq r r.head_lt
  have hgrown : (r.push x).2.length = r.length + 1 := by
    rw [length_eq, length_eq r]
    simp only [push, hapart, if_false, Array.size_set]
    rw [hnext_head] at hapart ⊢
    by_cases hlast : r.head + 1 < r.slots.size
    · rw [if_pos hlast] at hapart ⊢
      split <;> split <;> omega
    · rw [if_neg hlast] at hapart ⊢
      split <;> split <;> omega
  rw [getElem?_toList, hgrown, List.getElem?_append, length_toList, getElem?_toList]
  have hbelow := length_lt r
  have hlength := length_eq r
  -- Place `i` holds an old value, the new one, or nothing.
  by_cases hold : i < r.length
  · have hother : (r.tail + i) % r.slots.size ≠ r.head := by
      rw [mod_of_lt_twice (by omega)]
      split at hlength <;> split <;> omega
    rw [if_pos (by omega), if_pos hold, if_pos hold]
    simp [push, hapart, Ne.symm hother]
  · by_cases hnew : i = r.length
    · have hhere : (r.tail + i) % r.slots.size = r.head := by
        rw [mod_of_lt_twice (by omega)]
        split at hlength <;> split <;> omega
      rw [if_pos (by omega), if_neg hold]
      subst hnew
      simp [push, hapart, hhere]
    · rw [if_neg (by omega), if_neg hold]
      exact (List.getElem?_eq_none (by simp; omega)).symm

/-- A full ring refuses a value and stays as it is. -/
theorem push_of_full (r : Ring α) (x : α) (hfull : r.isFull = true) : r.push x = (false, r) := by
  rw [push, if_pos (by simpa [isFull] using hfull)]

/-- The value shown is the first one held. -/
theorem peek_eq_head? (r : Ring α) : r.peek = r.toList.head? := by
  rw [List.head?_eq_getElem?, getElem?_toList, peek]
  have hempty := isEmpty_iff r
  rw [← List.length_eq_zero_iff, length_toList, isEmpty, beq_iff_eq] at hempty
  by_cases h : r.head = r.tail
  · rw [if_pos h, if_neg (by have := hempty.1 h; omega)]
  · have htail_lt := r.tail_lt
    have hpos : 0 < r.length := by
      have := fun hzero => h (hempty.2 hzero)
      omega
    rw [if_neg h, if_pos hpos, Nat.add_zero, Nat.mod_eq_of_lt htail_lt, oldest,
      Array.getElem?_eq_getElem htail_lt]

/-- The first value is taken away, and the others stay. -/
theorem toList_pull (r : Ring α) :
    r.pull.1 = r.toList.head? ∧ r.pull.2.toList = r.toList.tail := by
  have hshown := peek_eq_head? r
  have hempty := isEmpty_iff r
  rw [isEmpty, beq_iff_eq] at hempty
  by_cases h : r.head = r.tail
  · have hnone_held := hempty.1 h
    simp [pull, h, hnone_held]
  · refine ⟨by rw [← hshown]; simp [pull, peek, h], List.ext_getElem? fun i => ?_⟩
    have hhead_lt := r.head_lt
    have htail_lt := r.tail_lt
    have hbelow := length_lt r
    have hlength := length_eq r
    have hnext_tail := next_eq r r.tail_lt
    -- The tail moves on by one slot, going round or not.
    have hshrunk : r.pull.2.length + 1 = r.length := by
      rw [length_eq, hlength]
      simp only [pull, h, if_false]
      rw [hnext_tail]
      split <;> split <;> split <;> omega
    rw [getElem?_toList, List.getElem?_tail, getElem?_toList]
    have hinside : i < r.pull.2.length ↔ i + 1 < r.length := by omega
    simp only [hinside]
    split
    · have hplace : (r.next r.tail + i) % r.slots.size = (r.tail + (i + 1)) % r.slots.size := by
        rw [next, Nat.mod_add_mod]
        congr 1
        omega
      simp [pull, h, hplace]
    · rfl

end Cadence.Ring
