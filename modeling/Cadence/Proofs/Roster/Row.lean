import Cadence.Roster
import Mathlib.Data.List.Nodup

/-!
# Rows of linked entries

A row is a stretch of the linked list that runs through the slots of a roster: each cell leads to its
neighbours, and the links at the two ends lead out of the row.  `row_append` takes a row apart at any
place, `row_congr` says that a row does not notice changes to other slots, and `row_linkNext` and
`row_linkBefore` say what becomes of a row when the link at one of its ends is set.
-/

namespace Cadence

variable {α : Type}

def Slot.change (f : Cell α → Cell α) (s : Slot α) : Slot α := { s with cell := s.cell.map f }

def Cell.withNext (target : Option Nat) (c : Cell α) : Cell α := { c with next := target }

def Cell.withBefore (target : Option Nat) (c : Cell α) : Cell α := { c with before := target }

namespace Roster

/-! ## 1. Slots after an update -/

theorem getElem?_modifyCell (r : Roster α) (i j : Nat) (f : Cell α → Cell α) :
    (r.modifyCell i f).slots[j]? =
      if i = j then r.slots[j]?.map (Slot.change f) else r.slots[j]? :=
  Array.getElem?_modify

/-- In a slot without a cell there is nothing to change. -/
theorem map_change_of_vacant {r : Roster α} {i : Nat} (hi : (r.cell? i).isSome = false)
    (f : Cell α → Cell α) : r.slots[i]?.map (Slot.change f) = r.slots[i]? := by
  cases hs : r.slots[i]? with
  | none => rfl
  | some s =>
    obtain ⟨g, c⟩ := s
    have hc : c = none := by simpa [cell?, hs] using hi
    subst hc
    rfl

def relinked (r : Roster α) (place : Option Nat) (f : Cell α → Cell α) : Array (Slot α) :=
  match place.filter fun i => (r.cell? i).isSome with
  | some i => (r.modifyCell i f).slots
  | none => r.slots

theorem getElem?_relinked (r : Roster α) (place : Option Nat) (f : Cell α → Cell α) (j : Nat) :
    (r.relinked place f)[j]? =
      if place = some j then r.slots[j]?.map (Slot.change f) else r.slots[j]? := by
  cases place with
  | none => rfl
  | some i =>
    rw [relinked, Option.filter_some]
    by_cases hi : (r.cell? i).isSome = true
    · simp only [hi, if_true, getElem?_modifyCell, Option.some.injEq]
    · simp only [hi, Bool.false_eq_true, if_false, Option.some.injEq]
      split
      · rename_i hij
        exact (map_change_of_vacant (hij ▸ Bool.eq_false_iff.2 hi) f).symm
      · rfl

theorem size_relinked (r : Roster α) (place : Option Nat) (f : Cell α → Cell α) :
    (r.relinked place f).size = r.slots.size := by
  unfold relinked
  split
  · exact Array.size_modify
  · rfl

theorem slots_linkNext (r : Roster α) (place target : Option Nat) :
    (r.linkNext place target).slots = r.relinked place (Cell.withNext target) := by
  rw [linkNext, relinked]
  cases place.filter fun i => (r.cell? i).isSome with
  | none => rfl
  | some i => rfl

theorem slots_linkBefore (r : Roster α) (place target : Option Nat) :
    (r.linkBefore place target).slots = r.relinked place (Cell.withBefore target) := by
  rw [linkBefore, relinked]
  cases place.filter fun i => (r.cell? i).isSome with
  | none => rfl
  | some i => rfl

theorem getElem?_linkNext (r : Roster α) (place target : Option Nat) (j : Nat) :
    (r.linkNext place target).slots[j]? =
      if place = some j then r.slots[j]?.map (Slot.change (Cell.withNext target))
      else r.slots[j]? := by
  rw [slots_linkNext, getElem?_relinked]

theorem getElem?_linkBefore (r : Roster α) (place target : Option Nat) (j : Nat) :
    (r.linkBefore place target).slots[j]? =
      if place = some j then r.slots[j]?.map (Slot.change (Cell.withBefore target))
      else r.slots[j]? := by
  rw [slots_linkBefore, getElem?_relinked]

/-! ## 2. Rows -/

def firstOr (next : Option Nat) : List (Ticket × Entry α) → Option Nat
  | [] => next
  | m :: _ => some m.1.index

def lastOr (before : Option Nat) : List (Ticket × Entry α) → Option Nat
  | [] => before
  | m :: rest => lastOr (some m.1.index) rest

def HoldsAt (r : Roster α) (m : Ticket × Entry α) (before next : Option Nat) : Prop :=
  r.slots[m.1.index]? = some ⟨m.1.generation, some ⟨m.2, before, next⟩⟩

/-- The members are linked one after the other, and the ends of the row lead to `before` and `next`. -/
def Row (r : Roster α) (before : Option Nat) : List (Ticket × Entry α) → Option Nat → Prop
  | [], _ => True
  | m :: rest, next => r.HoldsAt m before (firstOr next rest) ∧ r.Row (some m.1.index) rest next

theorem firstOr_cons (next : Option Nat) (m : Ticket × Entry α) (ms : List (Ticket × Entry α)) :
    firstOr next (m :: ms) = some m.1.index := rfl

theorem firstOr_append (next : Option Nat) (xs ys : List (Ticket × Entry α)) :
    firstOr next (xs ++ ys) = firstOr (firstOr next ys) xs := by
  cases xs <;> rfl

theorem lastOr_append (before : Option Nat) (xs ys : List (Ticket × Entry α)) :
    lastOr before (xs ++ ys) = lastOr (lastOr before xs) ys := by
  induction xs generalizing before with
  | nil => rfl
  | cons m rest ih => exact ih (some m.1.index)

theorem row_append {r : Roster α} {before next : Option Nat} {xs ys : List (Ticket × Entry α)} :
    r.Row before (xs ++ ys) next ↔
      r.Row before xs (firstOr next ys) ∧ r.Row (lastOr before xs) ys next := by
  induction xs generalizing before with
  | nil => simp only [List.nil_append, Row, lastOr, true_and]
  | cons m rest ih => simp only [List.cons_append, Row, lastOr, firstOr_append, ih, and_assoc]

theorem row_congr {r r' : Roster α} {before next : Option Nat} {ms : List (Ticket × Entry α)}
    (h : ∀ m ∈ ms, r'.slots[m.1.index]? = r.slots[m.1.index]?) (hrow : r.Row before ms next) :
    r'.Row before ms next := by
  induction ms generalizing before with
  | nil => trivial
  | cons m rest ih =>
    refine ⟨?_, ih (fun x hx => h x (List.mem_cons_of_mem m hx)) hrow.2⟩
    rw [HoldsAt, h m List.mem_cons_self]
    exact hrow.1

theorem row_of_slots {r r' : Roster α} {before next : Option Nat} {ms : List (Ticket × Entry α)}
    (hrow : r.Row before ms next) (h : r'.slots = r.slots) : r'.Row before ms next :=
  row_congr (fun _ _ => by rw [h]) hrow

def places (ms : List (Ticket × Entry α)) : List Nat := ms.map fun m => m.1.index

@[simp]
theorem places_append (xs ys : List (Ticket × Entry α)) :
    places (xs ++ ys) = places xs ++ places ys :=
  List.map_append

@[simp]
theorem places_cons (m : Ticket × Entry α) (ms : List (Ticket × Entry α)) :
    places (m :: ms) = m.1.index :: places ms := rfl

theorem mem_places {m : Ticket × Entry α} {ms : List (Ticket × Entry α)} (h : m ∈ ms) :
    m.1.index ∈ places ms :=
  List.mem_map_of_mem h

theorem lastOr_eq (before : Option Nat) (ms : List (Ticket × Entry α)) :
    lastOr before ms = before ∧ ms = [] ∨ ∃ i ∈ places ms, lastOr before ms = some i := by
  induction ms generalizing before with
  | nil => exact .inl ⟨rfl, rfl⟩
  | cons m rest ih =>
    rcases ih (some m.1.index) with ⟨h, -⟩ | ⟨i, hi, h⟩
    · exact .inr ⟨m.1.index, List.mem_cons_self, h⟩
    · exact .inr ⟨i, List.mem_cons_of_mem _ hi, h⟩

theorem mem_places_of_lastOr {ms : List (Ticket × Entry α)} {i : Nat} (h : lastOr none ms = some i) :
    i ∈ places ms := by
  rcases lastOr_eq none ms with ⟨hlast, -⟩ | ⟨j, hj, hlast⟩
  · rw [hlast] at h
    cases h
  · rw [hlast, Option.some.injEq] at h
    exact h ▸ hj

theorem mem_places_of_firstOr {ms : List (Ticket × Entry α)} {i : Nat}
    (h : firstOr none ms = some i) : i ∈ places ms := by
  cases ms with
  | nil => cases h
  | cons m rest =>
    rw [firstOr, Option.some.injEq] at h
    exact h ▸ List.mem_cons_self

/-- The link behind a row is the one of its last member. -/
theorem row_linkNext {r : Roster α} {before next : Option Nat} {ms : List (Ticket × Entry α)}
    (hdistinct : (places ms).Nodup) (hrow : r.Row before ms next) (target : Option Nat) :
    (r.linkNext (lastOr none ms) target).Row before ms target := by
  rcases List.eq_nil_or_concat ms with rfl | ⟨front, m, rfl⟩
  · trivial
  · rw [List.concat_eq_append] at *
    have hapart : ∀ x ∈ front, x.1.index ≠ m.1.index := fun x hx heq => by
      rw [places_append, List.nodup_append] at hdistinct
      exact hdistinct.2.2 _ (mem_places hx) m.1.index List.mem_cons_self heq
    obtain ⟨hfront_row, hm_row, -⟩ := row_append.1 hrow
    rw [row_append]
    refine ⟨row_congr (fun x hx => ?_) hfront_row, ?_, trivial⟩
    · rw [getElem?_linkNext, if_neg]
      rw [lastOr_append]
      exact fun h => hapart x hx (Option.some.inj h).symm
    · rw [HoldsAt, getElem?_linkNext, if_pos (by rw [lastOr_append]; rfl), hm_row]
      rfl

/-- The link in front of a row is the one of its first member. -/
theorem row_linkBefore {r : Roster α} {before next : Option Nat} {ms : List (Ticket × Entry α)}
    (hdistinct : (places ms).Nodup) (hrow : r.Row before ms next) (target : Option Nat) :
    (r.linkBefore (firstOr none ms) target).Row target ms next := by
  cases ms with
  | nil => trivial
  | cons m rest =>
    have hapart : ∀ x ∈ rest, x.1.index ≠ m.1.index := fun x hx heq => by
      rw [places_cons, List.nodup_cons, ← heq] at hdistinct
      exact hdistinct.1 (mem_places hx)
    refine ⟨?_, row_congr (fun x hx => ?_) hrow.2⟩
    · rw [HoldsAt, firstOr, getElem?_linkBefore, if_pos rfl, hrow.1]
      rfl
    · rw [getElem?_linkBefore, if_neg]
      exact fun h => hapart x hx (Option.some.inj h).symm

/-! ## 3. Head and tail -/

theorem isSome_cell?_of_row {r : Roster α} {before next : Option Nat}
    {ms : List (Ticket × Entry α)} (hrow : r.Row before ms next) {i : Nat} (hi : i ∈ places ms) :
    (r.cell? i).isSome := by
  obtain ⟨m, hm, rfl⟩ := List.mem_map.1 hi
  obtain ⟨xs, ys, rfl⟩ := List.append_of_mem hm
  have hslot : r.HoldsAt m _ _ := (row_append.1 hrow).2.1
  rw [cell?, hslot]
  rfl

/-- With nothing before the target it is the head that leads there. -/
theorem head_linkNext {r : Roster α} {before next : Option Nat} {ms : List (Ticket × Entry α)}
    (hrow : r.Row before ms next) (hhead : ms ≠ [] → r.head = firstOr none ms)
    (target : Option Nat) : (r.linkNext (lastOr none ms) target).head = firstOr target ms := by
  rcases lastOr_eq none ms with ⟨hlast, rfl⟩ | ⟨i, hi, hlast⟩
  · rfl
  · rw [hlast, linkNext, Option.filter_some, if_pos (isSome_cell?_of_row hrow hi)]
    show r.head = _
    cases ms with
    | nil => cases hi
    | cons m rest => exact hhead (by simp)

/-- With nothing behind the target it is the tail that leads there. -/
theorem tail_linkBefore {r : Roster α} {before next : Option Nat} {ms : List (Ticket × Entry α)}
    (hrow : r.Row before ms next) (htail : ms ≠ [] → r.tail = lastOr none ms)
    (target : Option Nat) : (r.linkBefore (firstOr none ms) target).tail = lastOr target ms := by
  cases ms with
  | nil => rfl
  | cons m rest =>
    rw [firstOr, linkBefore, Option.filter_some,
      if_pos (isSome_cell?_of_row hrow List.mem_cons_self)]
    exact htail (by simp)

theorem linkNext_frame (r : Roster α) (place target : Option Nat) :
    (r.linkNext place target).free = r.free ∧ (r.linkNext place target).tail = r.tail ∧
      (r.linkNext place target).policy = r.policy ∧
      (r.linkNext place target).slots.size = r.slots.size := by
  rw [slots_linkNext, size_relinked]
  unfold linkNext
  split
  · exact ⟨rfl, rfl, rfl, rfl⟩
  · exact ⟨rfl, rfl, rfl, rfl⟩

theorem linkBefore_frame (r : Roster α) (place target : Option Nat) :
    (r.linkBefore place target).head = r.head ∧ (r.linkBefore place target).policy = r.policy ∧
      (r.linkBefore place target).slots.size = r.slots.size := by
  rw [slots_linkBefore, size_relinked]
  unfold linkBefore
  split
  · exact ⟨rfl, rfl, rfl⟩
  · exact ⟨rfl, rfl, rfl⟩

/-! ## 4. Shapes -/

/-- What a slot is like to those who do not follow links: its generation, and whether it is occupied. -/
def shape (r : Roster α) (i : Nat) : Option (UInt32 × Bool) :=
  r.slots[i]?.map fun s => (s.generation, s.cell.isSome)

theorem shape_eq_none_iff {r : Roster α} {i : Nat} : r.shape i = none ↔ r.slots.size ≤ i := by
  rw [shape, Option.map_eq_none_iff, Array.getElem?_eq_none_iff]

theorem shape_congr {r r' : Roster α} {i : Nat} (h : r'.slots[i]? = r.slots[i]?) :
    r'.shape i = r.shape i := by
  rw [shape, h, shape]

theorem HoldsAt.shape_eq {r : Roster α} {m : Ticket × Entry α} {before next : Option Nat}
    (h : r.HoldsAt m before next) : r.shape m.1.index = some (m.1.generation, true) := by
  rw [shape, h]
  rfl

theorem isSome_cell?_iff {r : Roster α} {i : Nat} :
    (r.cell? i).isSome ↔ ∃ g, r.shape i = some (g, true) := by
  rw [cell?, shape]
  cases r.slots[i]? with
  | none => simp
  | some s => simp

theorem map_change_shape (o : Option (Slot α)) (f : Cell α → Cell α) :
    (o.map (Slot.change f)).map (fun s => (s.generation, s.cell.isSome)) =
      o.map fun s => (s.generation, s.cell.isSome) := by
  rw [Option.map_map]
  congr 1
  funext s
  simp [Slot.change]

theorem shape_modifyCell (r : Roster α) (i : Nat) (f : Cell α → Cell α) :
    (r.modifyCell i f).shape = r.shape := by
  funext j
  rw [shape, getElem?_modifyCell]
  split
  · exact map_change_shape _ f
  · rfl

theorem shape_relinked {r r' : Roster α} {place : Option Nat} {f : Cell α → Cell α}
    (h : r'.slots = r.relinked place f) : r'.shape = r.shape := by
  funext j
  rw [shape, h, getElem?_relinked]
  split
  · exact map_change_shape _ f
  · rfl

theorem shape_linkNext (r : Roster α) (place target : Option Nat) :
    (r.linkNext place target).shape = r.shape :=
  shape_relinked (slots_linkNext r place target)

theorem shape_linkBefore (r : Roster α) (place target : Option Nat) :
    (r.linkBefore place target).shape = r.shape :=
  shape_relinked (slots_linkBefore r place target)

/-! ## 5. Two rows into one -/

def bridge (r : Roster α) (before next : Option Nat) : Roster α :=
  (r.linkNext before next).linkBefore next before

section

variable {r : Roster α} {before next : Option Nat} {xs ys : List (Ticket × Entry α)}
  (hdistinct : (places (xs ++ ys)).Nodup)
  (hrow_xs : r.Row none xs next) (hrow_ys : r.Row before ys none)

include hdistinct hrow_ys in
theorem row_linkNext_behind :
    (r.linkNext (lastOr none xs) (firstOr none ys)).Row before ys none := by
  rw [places_append, List.nodup_append] at hdistinct
  refine row_congr (fun y hy => ?_) hrow_ys
  rw [getElem?_linkNext, if_neg fun hlast => ?_]
  exact hdistinct.2.2 _ (mem_places_of_lastOr hlast) _ (mem_places hy) rfl

include hdistinct hrow_xs hrow_ys in
theorem row_bridge :
    (r.bridge (lastOr none xs) (firstOr none ys)).Row none (xs ++ ys) none := by
  have hys := row_linkNext_behind hdistinct hrow_ys
  rw [places_append, List.nodup_append] at hdistinct
  obtain ⟨hdistinct_xs, hdistinct_ys, hapart⟩ := hdistinct
  have hxs := row_linkNext hdistinct_xs hrow_xs (firstOr none ys)
  refine row_append.2 ⟨row_congr (fun x hx => ?_) hxs, row_linkBefore hdistinct_ys hys _⟩
  rw [bridge, getElem?_linkBefore, if_neg fun hfirst => ?_]
  exact hapart _ (mem_places hx) _ (mem_places_of_firstOr hfirst) rfl

include hrow_xs in
theorem head_bridge (hhead : xs ≠ [] → r.head = firstOr none xs) :
    (r.bridge (lastOr none xs) (firstOr none ys)).head = firstOr none (xs ++ ys) := by
  rw [bridge, (linkBefore_frame _ _ _).1, head_linkNext hrow_xs hhead, firstOr_append]

include hdistinct hrow_ys in
theorem tail_bridge (htail : ys ≠ [] → r.tail = lastOr none ys) :
    (r.bridge (lastOr none xs) (firstOr none ys)).tail = lastOr none (xs ++ ys) := by
  rw [bridge, tail_linkBefore (row_linkNext_behind hdistinct hrow_ys), lastOr_append]
  intro hne
  rw [(linkNext_frame _ _ _).2.1]
  exact htail hne

end

theorem shape_bridge (r : Roster α) (before next : Option Nat) :
    (r.bridge before next).shape = r.shape := by
  rw [bridge, shape_linkBefore, shape_linkNext]

theorem bridge_frame (r : Roster α) (before next : Option Nat) :
    (r.bridge before next).policy = r.policy ∧
      (r.bridge before next).slots.size = r.slots.size := by
  obtain ⟨-, -, hpolicy, hsize⟩ := linkNext_frame r before next
  obtain ⟨-, hpolicy', hsize'⟩ := linkBefore_frame (r.linkNext before next) next before
  exact ⟨hpolicy'.trans hpolicy, hsize'.trans hsize⟩

end Roster

end Cadence
