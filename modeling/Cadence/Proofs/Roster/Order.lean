import Cadence.Proofs.Roster.Row
import Mathlib.Data.List.Induction
import Mathlib.Data.List.Perm.Basic

/-!
# The order of registration

`Roster.Holds r ms` says that a roster represents the list `ms` of entries with their tickets: one row
runs through all of them, `head`, `tail` and `length` agree with it, and the slots outside the row are
vacant and each is once among the free ones.  The operations are followed through this relation:
`holds_insert` appends, `holds_remove` takes one member out, `holds_clear` leaves nothing and
`holds_setEntry` changes an entry in place.
-/

namespace Cadence.Roster

variable {α : Type} {r : Roster α} {ms : List (Ticket × Entry α)}

/-- A roster represents a list of entries with their tickets. -/
structure Holds (r : Roster α) (ms : List (Ticket × Entry α)) : Prop where
  row : r.Row none ms none
  distinct : (places ms).Nodup
  head : r.head = firstOr none ms
  tail : r.tail = lastOr none ms
  length : r.length = ms.length
  occupied : ∀ i g, r.shape i = some (g, true) → i ∈ places ms
  vacant : ∀ i, i ∈ r.free ↔ ∃ g, r.shape i = some (g, false)
  free_nodup : r.free.Nodup

/-! ## 1. What is in a slot -/

theorem Holds.holdsAt {xs ys : List (Ticket × Entry α)} {m : Ticket × Entry α}
    (h : r.Holds (xs ++ m :: ys)) : r.HoldsAt m (lastOr none xs) (firstOr none ys) :=
  (row_append.1 h.row).2.1

theorem places_middle (xs ys : List (Ticket × Entry α)) (m : Ticket × Entry α) :
    (places (xs ++ m :: ys)).Perm (m.1.index :: places (xs ++ ys)) := by
  rw [places_append, places_append, places_cons]
  exact List.perm_middle

/-- No other member has the same slot. -/
theorem Holds.apart {xs ys : List (Ticket × Entry α)} {m : Ticket × Entry α}
    (h : r.Holds (xs ++ m :: ys)) : m.1.index ∉ places (xs ++ ys) ∧ (places (xs ++ ys)).Nodup := by
  rw [← List.nodup_cons, ← (places_middle xs ys m).nodup_iff]
  exact h.distinct

theorem Holds.shape_of_mem (h : r.Holds ms) {m : Ticket × Entry α} (hm : m ∈ ms) :
    r.shape m.1.index = some (m.1.generation, true) := by
  obtain ⟨xs, ys, rfl⟩ := List.append_of_mem hm
  exact h.holdsAt.shape_eq

theorem Holds.isSome_cell?_iff_mem (h : r.Holds ms) (i : Nat) :
    (r.cell? i).isSome ↔ i ∈ places ms := by
  rw [isSome_cell?_iff]
  constructor
  · rintro ⟨g, hg⟩
    exact h.occupied i g hg
  · intro hi
    obtain ⟨m, hm, rfl⟩ := List.mem_map.1 hi
    exact ⟨_, h.shape_of_mem hm⟩

theorem Holds.generation_eq (h : r.Holds ms) {m : Ticket × Entry α} (hm : m ∈ ms) :
    r.generation m.1.index = m.1.generation := by
  obtain ⟨xs, ys, rfl⟩ := List.append_of_mem hm
  rw [generation, h.holdsAt]

theorem Holds.index_lt (h : r.Holds ms) {i : Nat} (hi : i ∈ places ms) : i < r.slots.size := by
  obtain ⟨m, hm, rfl⟩ := List.mem_map.1 hi
  refine Nat.lt_of_not_le fun hle => ?_
  rw [← shape_eq_none_iff, h.shape_of_mem hm] at hle
  cases hle

theorem Holds.not_mem_free (h : r.Holds ms) {i : Nat} (hi : i ∈ places ms) : i ∉ r.free := by
  intro hfree
  obtain ⟨m, hm, rfl⟩ := List.mem_map.1 hi
  obtain ⟨g, hg⟩ := (h.vacant _).1 hfree
  rw [h.shape_of_mem hm] at hg
  cases hg

/-- The occupied and the vacant slots are all slots there are. -/
theorem Holds.perm_range (h : r.Holds ms) :
    (places ms ++ r.free).Perm (List.range r.slots.size) := by
  have hapart : ∀ i ∈ places ms, ∀ j ∈ r.free, i ≠ j := fun i hi j hj hij =>
    h.not_mem_free hi (hij ▸ hj)
  refine (List.perm_ext_iff_of_nodup (List.nodup_append.2 ⟨h.distinct, h.free_nodup, hapart⟩)
    List.nodup_range).2 fun i => ?_
  rw [List.mem_append, List.mem_range]
  constructor
  · rintro (hi | hi)
    · exact h.index_lt hi
    · obtain ⟨g, hg⟩ := (h.vacant i).1 hi
      refine Nat.lt_of_not_le fun hle => ?_
      rw [← shape_eq_none_iff, hg] at hle
      cases hle
  · -- A slot within the array is either occupied or vacant.
    intro hi
    cases hs : r.shape i with
    | none => exact absurd (shape_eq_none_iff.1 hs) (Nat.not_le.2 hi)
    | some s =>
      obtain ⟨g, b⟩ := s
      cases b with
      | true => exact .inl (h.occupied i g hs)
      | false => exact .inr ((h.vacant i).2 ⟨g, hs⟩)

theorem Holds.length_add_free (h : r.Holds ms) : ms.length + r.free.length = r.slots.size := by
  have hlength := h.perm_range.length_eq
  rwa [List.length_append, List.length_range, places, List.length_map] at hlength

theorem holds_empty (policy : Policy) : (empty policy : Roster α).Holds [] where
  row := trivial
  distinct := List.nodup_nil
  head := rfl
  tail := rfl
  length := rfl
  occupied i g hs := by simp [empty, shape] at hs
  vacant i := by simp [empty, shape]
  free_nodup := List.nodup_nil

/-! ## 2. Registration -/

theorem place_of_nil (hfree : r.free = []) (c : Cell α) :
    r.place c = (r.slots.size, { r with slots := r.slots.push ⟨0, some c⟩ }) := by
  unfold place
  split
  · rename_i hcons
    rw [hfree] at hcons
    cases hcons
  · rfl

theorem place_of_cons {i : Nat} {rest : List Nat} (hfree : r.free = i :: rest) (c : Cell α) :
    r.place c =
      (i, { r with
        free := rest
        slots := r.slots.modify i fun s => { s with cell := some c } }) := by
  unfold place
  split
  · rename_i hcons
    rw [hfree, List.cons.injEq] at hcons
    rw [hcons.1, hcons.2]
  · rename_i hnil
    rw [hfree] at hnil
    cases hnil

/-- A cell has been put into slot `i`, which was not occupied, and nothing else has changed. -/
structure Placed (r : Roster α) (ms : List (Ticket × Entry α)) (c : Cell α) (i : Nat) (g : UInt32)
    (r' : Roster α) : Prop where
  place : r.place c = (i, r')
  fresh : i ∉ places ms
  slot : r'.slots[i]? = some ⟨g, some c⟩
  other : ∀ j, j ≠ i → r'.slots[j]? = r.slots[j]?
  free : ∀ j, j ∈ r'.free ↔ j ∈ r.free ∧ j ≠ i
  free_nodup : r'.free.Nodup
  head : r'.head = r.head
  policy : r'.policy = r.policy
  size : r'.slots.size = max r.slots.size (ms.length + 1)

/-- A cell gets the slot vacated last, or a new one if none is vacant. -/
theorem Holds.placed (h : r.Holds ms) (c : Cell α) : ∃ i g r', Placed r ms c i g r' := by
  have hsize := h.length_add_free
  -- With no vacant slot the array grows by one.
  cases hfree : r.free with
  | nil =>
    rw [hfree, List.length_nil, Nat.add_zero] at hsize
    refine ⟨r.slots.size, 0, { r with slots := r.slots.push ⟨0, some c⟩ }, ?_⟩
    constructor
    case place => exact place_of_nil hfree c
    case fresh => exact fun hi => Nat.lt_irrefl _ (h.index_lt hi)
    case slot => exact Array.getElem?_push_size
    case other => exact fun j hj => by rw [Array.getElem?_push, if_neg hj]
    case free => simp [hfree]
    case free_nodup => exact h.free_nodup
    case head => rfl
    case policy => rfl
    case size =>
      rw [Array.size_push, hsize]
      omega
  | cons i rest =>
    have hnodup := h.free_nodup
    rw [hfree, List.length_cons] at hsize
    rw [hfree, List.nodup_cons] at hnodup
    have hi : i ∈ r.free := by rw [hfree]; exact List.mem_cons_self
    obtain ⟨g, hg⟩ := (h.vacant i).1 hi
    obtain ⟨s, hs, hsg⟩ := Option.map_eq_some_iff.1 hg
    refine ⟨i, s.generation, { r with
      free := rest
      slots := r.slots.modify i fun s => { s with cell := some c } }, ?_⟩
    constructor
    case place => exact place_of_cons hfree c
    case fresh => exact fun hm => h.not_mem_free hm hi
    case slot =>
      rw [Array.getElem?_modify, if_pos rfl, hs]
      rfl
    case other => exact fun j hj => by rw [Array.getElem?_modify, if_neg (Ne.symm hj)]
    case free =>
      intro j
      rw [hfree, List.mem_cons]
      constructor
      · exact fun hj => ⟨.inr hj, fun hji => hnodup.1 (hji ▸ hj)⟩
      · exact fun hj => hj.1.resolve_left hj.2
    case free_nodup => exact hnodup.2
    case head => rfl
    case policy => rfl
    case size =>
      rw [Array.size_modify]
      omega

section

variable {e : Entry α} {i : Nat} {g : UInt32} {r' : Roster α}
  (hplaced : Placed r ms ⟨e, r.tail, none⟩ i g r')

include hplaced

theorem Placed.row_eq (h : r.Holds ms) : r'.Row none ms none :=
  row_congr (fun _ hm => hplaced.other _ fun hmi => hplaced.fresh (hmi ▸ mem_places hm)) h.row

theorem Placed.shape_eq (j : Nat) :
    r'.shape j = if j = i then some (g, true) else r.shape j := by
  split
  · rename_i hj
    rw [hj, shape, hplaced.slot]
    rfl
  · rename_i hj
    rw [shape, hplaced.other j hj, shape]

/-- The last member is linked with the new cell, which is in another slot. -/
theorem Placed.linked (h : r.Holds ms) :
    (r'.linkNext r.tail (some i)).slots[i]? = some ⟨g, some ⟨e, r.tail, none⟩⟩ := by
  have htail : r.tail ≠ some i := by
    rw [h.tail]
    rcases lastOr_eq none ms with ⟨hlast, -⟩ | ⟨j, hj, hlast⟩
    · rw [hlast]
      exact fun hnone => by cases hnone
    · rw [hlast]
      exact fun hji => hplaced.fresh (Option.some.inj hji ▸ hj)
  rw [getElem?_linkNext, if_neg htail, hplaced.slot]

theorem Placed.insert_eq (h : r.Holds ms) : r.insert e =
    (⟨i, g⟩, { r'.linkNext r.tail (some i) with tail := some i, length := r.length + 1 }) := by
  unfold insert
  simp only [hplaced.place, generation, hplaced.linked h]

end

/-- Registration appends an entry, under a ticket for a slot that was not occupied. -/
theorem holds_insert (h : r.Holds ms) (e : Entry α) :
    (r.insert e).1.index ∉ places ms ∧ (r.insert e).2.Holds (ms ++ [((r.insert e).1, e)]) := by
  obtain ⟨i, g, r', hplaced⟩ := h.placed ⟨e, r.tail, none⟩
  have hrow := hplaced.row_eq h
  obtain ⟨hfree, -⟩ := linkNext_frame r' r.tail (some i)
  rw [hplaced.insert_eq h]
  refine ⟨hplaced.fresh, ?_⟩
  constructor
  case row =>
    have hrow' := row_linkNext h.distinct hrow (some i)
    rw [← h.tail] at hrow'
    rw [row_append, ← h.tail]
    exact ⟨row_of_slots hrow' rfl, hplaced.linked h, trivial⟩
  case distinct =>
    rw [places_append, List.nodup_append]
    refine ⟨h.distinct, List.nodup_singleton i, fun j hj k hk hjk => hplaced.fresh ?_⟩
    have hki : k = i := List.mem_singleton.1 hk
    rw [← hki, ← hjk]
    exact hj
  case head =>
    show (r'.linkNext r.tail (some i)).head = _
    rw [h.tail, head_linkNext hrow (fun _ => by rw [hplaced.head, h.head]), firstOr_append]
    rfl
  case tail =>
    rw [lastOr_append]
    rfl
  case length =>
    show r.length + 1 = _
    rw [h.length, List.length_append, List.length_singleton]
  case occupied =>
    intro j g' hj
    replace hj : (r'.linkNext r.tail (some i)).shape j = some (g', true) := hj
    rw [shape_linkNext, hplaced.shape_eq] at hj
    rw [places_append, List.mem_append]
    split at hj
    · rename_i hji
      exact .inr (hji ▸ List.mem_cons_self)
    · exact .inl (h.occupied j g' hj)
  case vacant =>
    -- Only the slot of the new cell is no longer free.
    intro j
    show j ∈ (r'.linkNext r.tail (some i)).free ↔
      ∃ g', (r'.linkNext r.tail (some i)).shape j = some (g', false)
    rw [shape_linkNext, hplaced.shape_eq, hfree, hplaced.free, h.vacant j]
    split
    · rename_i hji
      simp [hji]
    · rename_i hji
      simp [hji]
  case free_nodup =>
    show (r'.linkNext r.tail (some i)).free.Nodup
    rw [hfree]
    exact hplaced.free_nodup

theorem Holds.size_insert (h : r.Holds ms) (e : Entry α) :
    (r.insert e).2.slots.size = max r.slots.size (ms.length + 1) := by
  obtain ⟨i, g, r', hplaced⟩ := h.placed ⟨e, r.tail, none⟩
  rw [hplaced.insert_eq h]
  exact (linkNext_frame r' r.tail (some i)).2.2.2.trans hplaced.size

theorem Holds.policy_insert (h : r.Holds ms) (e : Entry α) : (r.insert e).2.policy = r.policy := by
  obtain ⟨i, g, r', hplaced⟩ := h.placed ⟨e, r.tail, none⟩
  rw [hplaced.insert_eq h]
  exact (linkNext_frame r' r.tail (some i)).2.2.1.trans hplaced.policy

/-! ## 3. Removal -/

/-- The slot of a ticket is vacated; the links still lead there. -/
def vacateAt (r : Roster α) (t : Ticket) : Roster α :=
  { r with slots := r.slots.setIfInBounds t.index ⟨t.generation + 1, none⟩ }

theorem shape_vacateAt {t : Ticket} (h : t.index < r.slots.size) (j : Nat) :
    (r.vacateAt t).shape j =
      if j = t.index then some (t.generation + 1, false) else r.shape j := by
  split
  · rename_i hj
    rw [shape, vacateAt, Array.getElem?_setIfInBounds, if_pos hj.symm, if_pos (hj ▸ h)]
    rfl
  · rename_i hj
    exact shape_congr (by rw [vacateAt, Array.getElem?_setIfInBounds, if_neg (Ne.symm hj)])

theorem row_vacateAt {before next : Option Nat} {t : Ticket} (hrow : r.Row before ms next)
    (h : t.index ∉ places ms) : (r.vacateAt t).Row before ms next := by
  refine row_congr (fun m hm => ?_) hrow
  rw [vacateAt, Array.getElem?_setIfInBounds, if_neg]
  exact fun hi => h (hi ▸ mem_places hm)

theorem remove_of_holdsAt {m : Ticket × Entry α} {before next : Option Nat}
    (h : r.HoldsAt m before next) :
    r.remove m.1 = some (m.2, { (r.vacateAt m.1).bridge before next with
      free := m.1.index :: r.free
      length := r.length - 1 }) := by
  rw [HoldsAt] at h
  unfold remove
  rw [h]
  simp only [if_true]
  rfl

/-- A ticket fits if and only if it is that of a member. -/
theorem Holds.remove_eq_none_iff (h : r.Holds ms) (t : Ticket) :
    r.remove t = none ↔ t ∉ ms.map Prod.fst := by
  constructor
  · intro hnone hmem
    obtain ⟨m, hm, rfl⟩ := List.mem_map.1 hmem
    obtain ⟨xs, ys, rfl⟩ := List.append_of_mem hm
    rw [remove_of_holdsAt h.holdsAt] at hnone
    cases hnone
  · intro hmem
    unfold remove
    split
    · rename_i g c hs
      rw [if_neg]
      intro hg
      -- The slot is occupied, hence by a member, and that has the same ticket.
      have hplace : t.index ∈ places ms := h.occupied _ g (by rw [shape, hs]; rfl)
      obtain ⟨m, hm, hi⟩ := List.mem_map.1 hplace
      refine hmem (List.mem_map.2 ⟨m, hm, ?_⟩)
      have hshape := h.shape_of_mem hm
      rw [hi, shape, hs, Option.map_some, Option.some.injEq, Prod.mk.injEq] at hshape
      obtain ⟨⟨i, g'⟩, e⟩ := m
      simp only at hi hshape ⊢
      rw [hi, ← hshape.1, hg]
    · rfl

/-- Removal takes one member out and leaves the others in their order. -/
theorem holds_remove {xs ys : List (Ticket × Entry α)} {m : Ticket × Entry α}
    (h : r.Holds (xs ++ m :: ys)) :
    ∃ r', r.remove m.1 = some (m.2, r') ∧ r'.Holds (xs ++ ys) ∧ r'.policy = r.policy ∧
      r'.slots.size = r.slots.size := by
  refine ⟨_, remove_of_holdsAt h.holdsAt, ?_, (bridge_frame _ _ _).1,
    (bridge_frame _ _ _).2.trans Array.size_setIfInBounds⟩
  have hplaces := places_middle xs ys m
  obtain ⟨hapart, hdistinct⟩ := h.apart
  rw [places_append, List.mem_append, not_or] at hapart
  -- The two rows that are left do not notice that the slot is vacated.
  have hrow := row_append.1 h.row
  have hrow_xs := row_vacateAt hrow.1 hapart.1
  have hrow_ys := row_vacateAt hrow.2.2 hapart.2
  have hshape := shape_vacateAt (t := m.1) (h.index_lt (hplaces.mem_iff.2 List.mem_cons_self))
  constructor
  case row => exact row_of_slots (row_bridge hdistinct hrow_xs hrow_ys) rfl
  case distinct => exact hdistinct
  case head =>
    -- The head led to the first member, unless that is the one taken out.
    refine head_bridge hrow_xs fun hne => ?_
    show r.head = _
    rw [h.head, firstOr_append]
    cases xs with
    | nil => exact absurd rfl hne
    | cons x rest => rfl
  case tail =>
    refine tail_bridge hdistinct hrow_ys fun hne => ?_
    show r.tail = _
    rw [h.tail, lastOr_append]
    cases ys with
    | nil => exact absurd rfl hne
    | cons y rest => rfl
  case length =>
    show r.length - 1 = _
    rw [h.length, List.length_append, List.length_append, List.length_cons]
    omega
  case occupied =>
    intro j g hj
    replace hj : (bridge _ _ _).shape j = some (g, true) := hj
    rw [shape_bridge, hshape] at hj
    split at hj
    · cases hj
    · rename_i hjm
      have hplace := hplaces.mem_iff.1 (h.occupied j g hj)
      exact (List.mem_cons.1 hplace).resolve_left hjm
  case vacant =>
    intro j
    show j ∈ m.1.index :: r.free ↔ ∃ g, (bridge _ _ _).shape j = some (g, false)
    rw [shape_bridge, hshape, List.mem_cons]
    split
    · rename_i hjm
      exact ⟨fun _ => ⟨_, rfl⟩, fun _ => .inl hjm⟩
    · rename_i hjm
      rw [← h.vacant j]
      exact ⟨fun hj => hj.resolve_left hjm, .inr⟩
  case free_nodup =>
    have hfree := h.not_mem_free (hplaces.mem_iff.2 List.mem_cons_self)
    exact List.nodup_cons.2 ⟨hfree, h.free_nodup⟩

/-- A removal takes out one member and leaves the order of the others. -/
theorem holds_of_remove {t : Ticket} {e : Entry α} {r' : Roster α} (h : r.Holds ms)
    (hremove : r.remove t = some (e, r')) :
    ∃ xs ys, ms = xs ++ (t, e) :: ys ∧ r'.Holds (xs ++ ys) ∧ r'.policy = r.policy ∧
      r'.slots.size = r.slots.size := by
  have ht : t ∈ ms.map Prod.fst := by
    refine Classical.byContradiction fun ht => ?_
    rw [(h.remove_eq_none_iff t).2 ht] at hremove
    cases hremove
  -- The ticket is that of a member, and that is the one removed.
  obtain ⟨m, hm, rfl⟩ := List.mem_map.1 ht
  obtain ⟨xs, ys, rfl⟩ := List.append_of_mem hm
  obtain ⟨r'', hremove', hholds⟩ := holds_remove h
  rw [hremove', Option.some.injEq, Prod.mk.injEq] at hremove
  obtain ⟨rfl, rfl⟩ := hremove
  exact ⟨xs, ys, rfl, hholds⟩

/-! ## 4. Emptying -/

theorem shape_clear (r : Roster α) (i : Nat) :
    r.clear.shape i = (r.shape i).map fun s => (if s.2 then s.1 + 1 else s.1, false) := by
  show (r.slots.map vacate)[i]?.map _ = _
  rw [Array.getElem?_map, shape, Option.map_map, Option.map_map]
  congr 1
  funext s
  obtain ⟨g, c⟩ := s
  cases c <;> rfl

theorem mem_occupied_iff {i : Nat} : i ∈ r.occupied ↔ ∃ g, r.shape i = some (g, true) := by
  rw [occupied, List.mem_filter, isSome_cell?_iff, List.mem_range]
  refine ⟨And.right, fun ⟨g, hg⟩ => ⟨Nat.lt_of_not_le fun hle => ?_, g, hg⟩⟩
  rw [← shape_eq_none_iff, hg] at hle
  cases hle

theorem toList_clear (r : Roster α) : r.clear.toList = [] := by
  show (r.clear.chain Cell.next r.clear.slots.size none).map _ = []
  cases r.clear.slots.size <;> rfl

/-- Emptying a roster leaves no member. -/
theorem holds_clear (h : r.Holds ms) : r.clear.Holds [] where
  row := trivial
  distinct := List.nodup_nil
  head := rfl
  tail := rfl
  length := rfl
  occupied i g hi := by
    rw [shape_clear, Option.map_eq_some_iff] at hi
    obtain ⟨s, -, hs⟩ := hi
    cases hs
  vacant i := by
    show i ∈ r.occupied.reverse ++ r.free ↔ _
    rw [List.mem_append, List.mem_reverse, mem_occupied_iff, h.vacant i, shape_clear]
    cases r.shape i with
    | none => simp
    | some s =>
      obtain ⟨g, b⟩ := s
      cases b <;> simp
  free_nodup := by
    refine List.nodup_append.2 ⟨List.nodup_reverse.2 (List.nodup_range.filter _), h.free_nodup,
      fun i hi j hj hij => ?_⟩
    obtain ⟨g, hg⟩ := mem_occupied_iff.1 (List.mem_reverse.1 hi)
    exact h.not_mem_free (h.occupied i g hg) (hij ▸ hj)

/-! ## 5. Change of an entry -/

/-- An entry can be changed in its place. -/
theorem holds_setEntry {xs ys : List (Ticket × Entry α)} {m : Ticket × Entry α}
    (h : r.Holds (xs ++ m :: ys)) (e : Entry α) :
    (r.setEntry m.1.index e).Holds (xs ++ (m.1, e) :: ys) := by
  obtain ⟨hapart, -⟩ := h.apart
  rw [places_append, List.mem_append, not_or] at hapart
  have hrow := row_append.1 h.row
  -- The links stay, so nothing changes but the entry in that slot.
  have hother : ∀ j, j ≠ m.1.index → (r.setEntry m.1.index e).slots[j]? = r.slots[j]? :=
    fun j hj => by rw [setEntry, getElem?_modifyCell, if_neg (Ne.symm hj)]
  have hplaces : places (xs ++ (m.1, e) :: ys) = places (xs ++ m :: ys) := by
    rw [places_append, places_append, places_cons, places_cons]
  have hshape : (r.setEntry m.1.index e).shape = r.shape := shape_modifyCell r _ _
  constructor
  case row =>
    refine row_append.2 ⟨row_congr (fun x hx => hother _ fun hxm => ?_) hrow.1, ?_,
      row_congr (fun y hy => hother _ fun hym => ?_) hrow.2.2⟩
    · exact hapart.1 (hxm ▸ mem_places hx)
    · rw [HoldsAt, setEntry, getElem?_modifyCell, if_pos rfl, hrow.2.1]
      rfl
    · exact hapart.2 (hym ▸ mem_places hy)
  case distinct => rw [hplaces]; exact h.distinct
  case head =>
    show r.head = _
    rw [h.head, firstOr_append, firstOr_append]
    rfl
  case tail =>
    show r.tail = _
    rw [h.tail, lastOr_append, lastOr_append]
    rfl
  case length =>
    show r.length = _
    rw [h.length, List.length_append, List.length_append, List.length_cons, List.length_cons]
  case occupied =>
    intro i g hi
    rw [hplaces]
    exact h.occupied i g (hshape ▸ hi)
  case vacant =>
    intro i
    rw [hshape]
    exact h.vacant i
  case free_nodup => exact h.free_nodup

/-! ## 6. Following the links -/

/-- From the head the links lead through all members in order. -/
theorem chain_next {before : Option Nat} (hrow : r.Row before ms none) {room : Nat}
    (hroom : ms.length ≤ room) :
    (r.chain Cell.next room (firstOr none ms)).map (fun p => (p.1, p.2.entry)) =
      ms.map fun m => (m.1.index, m.2) := by
  induction ms generalizing before room with
  | nil => cases room <;> rfl
  | cons m rest ih =>
    cases room with
    | zero => cases hroom
    | succ room =>
      have hcell : r.cell? m.1.index = some ⟨m.2, before, firstOr none rest⟩ := by
        rw [cell?, hrow.1]
        rfl
      simp only [firstOr_cons, chain, hcell, List.map_cons]
      rw [ih hrow.2 (Nat.le_of_succ_le_succ hroom)]

/-- From the tail the links lead through all members in reverse order. -/
theorem chain_before {next : Option Nat} (hrow : r.Row none ms next) {room : Nat}
    (hroom : ms.length ≤ room) :
    (r.chain Cell.before room (lastOr none ms)).map (fun p => (p.1, p.2.entry)) =
      (ms.map fun m => (m.1.index, m.2)).reverse := by
  -- The links back run through the last member first.
  induction ms using List.reverseRecOn generalizing next room with
  | nil => cases room <;> rfl
  | append_singleton front m ih =>
    rw [List.length_append, List.length_singleton] at hroom
    obtain ⟨hfront, hm, -⟩ := row_append.1 hrow
    cases room with
    | zero => omega
    | succ room =>
      have hcell : r.cell? m.1.index = some ⟨m.2, lastOr none front, next⟩ := by
        rw [cell?, hm]
        rfl
      rw [lastOr_append, List.map_append, List.reverse_append]
      show (r.chain Cell.before (room + 1) (some m.1.index)).map _ = _
      simp only [chain, hcell, List.map_cons]
      rw [ih hfront (Nat.le_of_succ_le_succ hroom)]
      rfl

/-- A roster represents one list only. -/
theorem Holds.unique {ms' : List (Ticket × Entry α)} (h : r.Holds ms) (h' : r.Holds ms') :
    ms = ms' := by
  -- The list can be read off the links.
  have hread : ∀ {xs : List (Ticket × Entry α)}, r.Holds xs →
      xs = (r.chain Cell.next r.slots.size r.head).map
        fun p => (⟨p.1, r.generation p.1⟩, p.2.entry) := by
    intro xs hxs
    have hroom := hxs.length_add_free
    have hchain := @chain_next _ _ _ _ hxs.row r.slots.size (by omega)
    rw [← hxs.head] at hchain
    have htickets := congrArg (List.map fun p => ((⟨p.1, r.generation p.1⟩ : Ticket), p.2)) hchain
    rw [List.map_map, List.map_map] at htickets
    refine Eq.trans ?_ htickets.symm
    refine (List.map_id xs).symm.trans (List.map_congr_left fun m hm => ?_)
    show m = (⟨m.1.index, r.generation m.1.index⟩, m.2)
    rw [hxs.generation_eq hm]
  exact (hread h).trans (hread h').symm

theorem Holds.toList_eq (h : r.Holds ms) : r.toList = ms.map Prod.snd := by
  have hchain := @chain_next _ _ _ _ h.row r.slots.size (by have := h.length_add_free; omega)
  have hentries := congrArg (List.map Prod.snd) hchain
  rw [List.map_map, List.map_map] at hentries
  rw [toList, h.head]
  exact hentries

end Cadence.Roster
