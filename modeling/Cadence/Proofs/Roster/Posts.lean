import Cadence.Proofs.Roster.Order
import Cadence.Roster.Tick
import Mathlib.Logic.Function.Basic

/-!
# Who is in which slot

Callbacks carry a number here, so that an entry can be told from any other that has the same slot
before or after it.  `Roster.post` is a slot as it looks to those who hold tickets: its generation and
the number of the entry in it.  The links between the entries do not show, and each operation changes
one post, or vacates all of them, or none.
-/

namespace Cadence

variable {α σ : Type}

def Slot.post (s : Slot (α × Nat)) : UInt32 × Option Nat :=
  (s.generation, s.cell.map fun c => c.entry.callback.2)

namespace Roster

variable {r : Roster (α × Nat)} {ms : List (Ticket × Entry (α × Nat))}

def post (r : Roster (α × Nat)) (j : Nat) : Option (UInt32 × Option Nat) := r.slots[j]?.map Slot.post

def numbers (r : Roster (α × Nat)) : List Nat := r.toList.map fun e => e.callback.2

/-! ## 1. One slot -/

theorem post_of_slot {j : Nat} {g : UInt32} {c : Option (Cell (α × Nat))}
    (h : r.slots[j]? = some ⟨g, c⟩) : r.post j = some (g, c.map fun c => c.entry.callback.2) := by
  rw [post, h]
  rfl

theorem post_of_cell {j : Nat} {c : Cell (α × Nat)} (h : r.cell? j = some c) :
    ∃ g, r.post j = some (g, some c.entry.callback.2) := by
  obtain ⟨s, hs, hcell⟩ := Option.bind_eq_some_iff.1 h
  exact ⟨s.generation, by simp [post, hs, Slot.post, hcell]⟩

theorem isSome_cell?_eq (r : Roster (α × Nat)) (j : Nat) :
    (r.cell? j).isSome = ((r.post j).bind Prod.snd).isSome := by
  rw [cell?, post]
  cases r.slots[j]? with
  | none => rfl
  | some s =>
    obtain ⟨g, c⟩ := s
    cases c <;> rfl

theorem generation_of_post {j : Nat} {g : UInt32} {n : Option Nat} (h : r.post j = some (g, n)) :
    r.generation j = g := by
  obtain ⟨s, hs, hpost⟩ := Option.map_eq_some_iff.1 h
  rw [generation, hs]
  exact congrArg Prod.fst hpost

theorem post_eq_none_iff {j : Nat} : r.post j = none ↔ r.slots.size ≤ j := by
  rw [post, Option.map_eq_none_iff, Array.getElem?_eq_none_iff]

theorem post_of_vacant {j : Nat} {g : UInt32} (h : r.shape j = some (g, false)) :
    r.post j = some (g, none) := by
  obtain ⟨s, hs, hshape⟩ := Option.map_eq_some_iff.1 h
  obtain ⟨g', c⟩ := s
  cases c with
  | none =>
    cases hshape
    exact post_of_slot hs
  | some c => cases hshape

/-! ## 2. The operations -/

/-- A change to a cell that leaves the number alone does not show. -/
theorem post_modifyCell {i : Nat} {f : Cell (α × Nat) → Cell (α × Nat)}
    (hf : ∀ c, r.cell? i = some c → (f c).entry.callback.2 = c.entry.callback.2) :
    (r.modifyCell i f).post = r.post := by
  funext j
  rw [post, getElem?_modifyCell]
  split
  · rename_i hij
    rw [post, Option.map_map]
    cases hs : r.slots[j]? with
    | none => rfl
    | some s =>
      obtain ⟨g, c⟩ := s
      cases c with
      | none => rfl
      | some c =>
        have hcell : r.cell? i = some c := by rw [cell?, hij, hs]; rfl
        simp [Slot.post, Slot.change, hf c hcell]
  · rfl

theorem post_linkNext (r : Roster (α × Nat)) (place target : Option Nat) :
    (r.linkNext place target).post = r.post := by
  unfold linkNext
  split
  · exact post_modifyCell fun _ _ => rfl
  · rfl

theorem post_linkBefore (r : Roster (α × Nat)) (place target : Option Nat) :
    (r.linkBefore place target).post = r.post := by
  unfold linkBefore
  split
  · exact post_modifyCell fun _ _ => rfl
  · rfl

/-- Nothing is in a slot, which may be one that does not exist yet; the next entry there gets a ticket
with that generation. -/
def Vacant (p : Option (UInt32 × Option Nat)) (g : UInt32) : Prop :=
  p = none ∧ g = 0 ∨ p = some (g, none)

/-- A new cell changes the post of its slot and no other. -/
theorem Holds.post_place (h : r.Holds ms) (c : Cell (α × Nat)) :
    ∃ g, Vacant (r.post (r.place c).1) g ∧
      (r.place c).2.post =
        Function.update r.post (r.place c).1 (some (g, some c.entry.callback.2)) := by
  cases hfree : r.free with
  | nil =>
    rw [place_of_nil hfree]
    refine ⟨0, .inl ⟨post_eq_none_iff.2 (Nat.le_refl _), rfl⟩, ?_⟩
    funext j
    simp only [post, Array.getElem?_push, Function.update_apply]
    split <;> rfl
  | cons i rest =>
    rw [place_of_cons hfree]
    -- The slot that comes first among the free ones is vacant.
    obtain ⟨g, hg⟩ := (h.vacant i).1 (hfree ▸ List.mem_cons_self)
    have hpost := post_of_vacant hg
    refine ⟨g, .inr hpost, ?_⟩
    funext j
    simp only [post, Array.getElem?_modify, Function.update_apply, eq_comm (a := j)]
    split
    · rename_i hij
      obtain ⟨s, hs, hsg⟩ := Option.map_eq_some_iff.1 hpost
      have hgeneration : s.generation = g := congrArg Prod.fst hsg
      rw [← hij, hs]
      simp [Slot.post, hgeneration]
    · rfl

theorem insert_of_place {e : Entry α} {i : Nat} {r placed : Roster α}
    (h : r.place ⟨e, r.tail, none⟩ = (i, placed)) : r.insert e =
      (⟨i, (placed.linkNext r.tail (some i)).generation i⟩,
        { placed.linkNext r.tail (some i) with tail := some i, length := r.length + 1 }) := by
  rw [insert, h]

/-- A registration fills a slot in which nothing was. -/
theorem Holds.post_insert (h : r.Holds ms) (e : Entry (α × Nat)) :
    Vacant (r.post (r.insert e).1.index) (r.insert e).1.generation ∧
      (r.insert e).2.post = Function.update r.post (r.insert e).1.index
        (some ((r.insert e).1.generation, some e.callback.2)) := by
  obtain ⟨g, hvacant, hpost⟩ := h.post_place ⟨e, r.tail, none⟩
  obtain ⟨i, placed, hplace⟩ : ∃ i placed, r.place ⟨e, r.tail, none⟩ = (i, placed) := ⟨_, _, rfl⟩
  rw [hplace] at hvacant hpost
  -- The link to the new entry does not show.
  have hlinked : (placed.linkNext r.tail (some i)).post =
      Function.update r.post i (some (g, some e.callback.2)) :=
    (post_linkNext placed r.tail (some i)).trans hpost
  have hgeneration : (placed.linkNext r.tail (some i)).generation i = g := by
    apply generation_of_post (n := some e.callback.2)
    rw [hlinked, Function.update_self]
  rw [insert_of_place hplace, hgeneration]
  exact ⟨hvacant, hlinked⟩

/-- A removal vacates the slot of the ticket, in which there was an entry of the same generation. -/
theorem post_remove {t : Ticket} {e : Entry (α × Nat)} {r' : Roster (α × Nat)}
    (h : r.remove t = some (e, r')) :
    r.post t.index = some (t.generation, some e.callback.2) ∧
      r'.post = Function.update r.post t.index (some (t.generation + 1, none)) := by
  unfold remove at h
  split at h
  · rename_i g c hslot
    split at h
    · rename_i hg
      cases h
      refine ⟨hg ▸ post_of_slot hslot, ?_⟩
      have hsize : t.index < r.slots.size := by
        refine Nat.lt_of_not_le fun hle => ?_
        rw [Array.getElem?_eq_none hle] at hslot
        cases hslot
      show (linkBefore _ _ _).post = _
      rw [post_linkBefore, post_linkNext, ← hg]
      funext j
      simp only [post, Array.getElem?_setIfInBounds, hsize, if_true, Function.update_apply,
        eq_comm (a := j)]
      split <;> rfl
    · cases h
  · cases h

theorem isSome_remove_iff {t : Ticket} :
    (r.remove t).isSome ↔ ∃ n, r.post t.index = some (t.generation, some n) := by
  constructor
  · intro hsome
    obtain ⟨⟨e, r'⟩, hremove⟩ := Option.isSome_iff_exists.1 hsome
    exact ⟨_, (post_remove hremove).1⟩
  · rintro ⟨n, hn⟩
    obtain ⟨⟨g, c⟩, hslot, hpost⟩ := Option.map_eq_some_iff.1 hn
    obtain ⟨rfl, hc⟩ := Prod.mk.inj hpost
    obtain ⟨c, rfl, -⟩ := Option.map_eq_some_iff.1 hc
    simp [remove, hslot]

def vacated (p : UInt32 × Option Nat) : UInt32 × Option Nat :=
  (if p.2.isSome then p.1 + 1 else p.1, none)

theorem post_clear (r : Roster (α × Nat)) (j : Nat) : r.clear.post j = (r.post j).map vacated := by
  show (r.slots.map vacate)[j]?.map _ = _
  rw [Array.getElem?_map, post, Option.map_map, Option.map_map]
  congr 1
  funext s
  obtain ⟨g, c⟩ := s
  cases c <;> rfl

/-! ## 3. Ticks -/

/-- What is kept whenever an entry is passed by is kept by the whole way. -/
theorem visitFrom_induction {P : TickState α σ → Prop} {invoke : α → σ → Invocation α σ} {delta : Nat}
    (habsorb : ∀ t i c, P t → t.roster.cell? i = some c →
      P (t.absorb i (c.entry.pass t.roster.policy invoke delta t.world)))
    (room : Nat) (place : Option Nat) {t : TickState α σ} (ht : P t) :
    P (TickState.visitFrom invoke delta room place t) := by
  induction room generalizing place t with
  | zero => exact ht
  | succ room ih =>
    cases place with
    | none => exact ht
    | some i =>
      rw [TickState.visitFrom]
      split
      · exact ht
      · rename_i c hcell
        have hnext := habsorb t i c ht hcell
        dsimp only
        split
        · exact hnext
        · exact ih _ hnext

def Noting (invoke : α × Nat → σ × List Nat → Invocation (α × Nat) (σ × List Nat)) : Prop :=
  ∀ a w, (invoke a w).callback.2 = a.2 ∧ (invoke a w).world.2 = w.2 ++ [a.2]

/-- From one moment of a tick to a later one the entries stay in their slots, and none is run but those. -/
structure Unmoved (t t' : TickState (α × Nat) (σ × List Nat)) : Prop where
  post : t'.roster.post = t.roster.post
  idle : ∀ n, (∀ j g, t.roster.post j ≠ some (g, some n)) →
    t'.world.2.count n = t.world.2.count n

section

variable {invoke : α × Nat → σ × List Nat → Invocation (α × Nat) (σ × List Nat)} (h : Noting invoke)

include h

theorem pass_of_noting (policy : Policy) (delta : Nat) (e : Entry (α × Nat)) (w : σ × List Nat) :
    (e.pass policy invoke delta w).entry.callback.2 = e.callback.2 ∧
      ((e.pass policy invoke delta w).world.2 = w.2 ∨
        (e.pass policy invoke delta w).world.2 = w.2 ++ [e.callback.2]) := by
  obtain ⟨hkept, hnoted⟩ := h e.callback w
  rw [Entry.pass]
  by_cases hdue : (e.elapse delta).isDue
  · simp only [hdue, if_true]
    refine ⟨?_, .inr hnoted⟩
    split <;> exact hkept
  · simp only [hdue, Bool.false_eq_true, if_false]
    exact ⟨rfl, .inl trivial⟩

/-- To take up what was done to an entry leaves all entries in their slots. -/
theorem unmoved_absorb {t t' : TickState (α × Nat) (σ × List Nat)} (ht : Unmoved t t')
    (delta : Nat) {i : Nat} {c : Cell (α × Nat)} (hcell : t'.roster.cell? i = some c) :
    Unmoved t (t'.absorb i (c.entry.pass t'.roster.policy invoke delta t'.world)) := by
  obtain ⟨hkept, hworld⟩ := pass_of_noting h t'.roster.policy delta c.entry t'.world
  constructor
  case post =>
    refine Eq.trans (post_modifyCell fun c' hcell' => ?_) ht.post
    rw [hcell, Option.some.injEq] at hcell'
    exact hcell' ▸ hkept
  case idle =>
    intro n hn
    -- The entry that is passed by has another number.
    obtain ⟨g, hpost⟩ := post_of_cell hcell
    have hne : c.entry.callback.2 ≠ n := by
      rintro rfl
      exact hn i g (ht.post ▸ hpost)
    rw [← ht.idle n hn]
    rcases hworld with hsame | hnoted
    · exact congrArg (List.count n) hsame
    · exact (congrArg (List.count n) hnoted).trans (by simp [List.count_append, hne])

theorem unmoved_visitFrom (delta room : Nat) (place : Option Nat)
    (t : TickState (α × Nat) (σ × List Nat)) :
    Unmoved t (TickState.visitFrom invoke delta room place t) := by
  apply visitFrom_induction (P := Unmoved t)
  · exact fun t' i c ht hcell => unmoved_absorb h ht delta hcell
  · exact ⟨rfl, fun _ _ => rfl⟩

end

theorem unmoved_tick {invoke : Float → α × Nat → σ × List Nat → Invocation (α × Nat) (σ × List Nat)}
    (h : ∀ seconds, Noting (invoke seconds)) (r : Roster (α × Nat)) (delta : Nat)
    (world : σ × List Nat) : Unmoved (TickState.start r world) (r.tick invoke delta world) :=
  unmoved_visitFrom (h _) delta r.slots.size r.head _

/-! ## 4. The entries in their order -/

/-- The numbers in the order of registration are those in the slots. -/
theorem Holds.mem_numbers_iff (h : r.Holds ms) {n : Nat} :
    n ∈ r.numbers ↔ ∃ j g, r.post j = some (g, some n) := by
  -- What is in the slot of a member is that member.
  have hpost : ∀ m ∈ ms, r.post m.1.index = some (m.1.generation, some m.2.callback.2) := by
    intro m hm
    obtain ⟨xs, ys, rfl⟩ := List.append_of_mem hm
    exact post_of_slot h.holdsAt
  rw [numbers, h.toList_eq, List.map_map, List.mem_map]
  constructor
  · rintro ⟨m, hm, rfl⟩
    exact ⟨_, _, hpost m hm⟩
  · rintro ⟨j, g, hj⟩
    have hplace : j ∈ places ms := by
      rw [← h.isSome_cell?_iff_mem, isSome_cell?_eq, hj]
      rfl
    obtain ⟨m, hm, rfl⟩ := List.mem_map.1 hplace
    rw [hpost m hm] at hj
    cases hj
    exact ⟨m, hm, rfl⟩

end Roster

end Cadence
