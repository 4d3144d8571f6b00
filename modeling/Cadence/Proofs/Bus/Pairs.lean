import Cadence.Proofs.Bus.Mailbox

/-!
# Pairs on a bus

Callbacks publish two messages at a time, a counter and the wake delta, and readers drain the whole bus.
Each message of a transaction is accepted or dropped on its own, so what the bus holds is the beginning
of all that was published since it was last drained, cut off at its capacity (`pairs_stay_together`).
Hence pairs stay whole but for one: where the capacity is odd, the pair that finds a single slot left is
cut in two, and its counter stands alone (`pair_cut_in_two`).
-/

namespace Cadence.Bus

/-! ## 1. Turns -/

structure Pair where
  counter : Message
  delta : Message

def Pair.messages (p : Pair) : List Message := [p.counter, p.delta]

def whole (ps : List Pair) : List Message := ps.flatMap Pair.messages

/-- What is done to a bus in one transaction; who publishes may break down afterwards. -/
inductive Turn
  | publish (p : Pair) (breaksDown : Bool)
  | drain

def Turn.use : Turn → Use
  | .publish p breaksDown => .transaction ⟨p.messages.map .send, breaksDown⟩
  | .drain => .transaction ⟨[.drain], false⟩

/-- The pairs published before each drain, since the one before, and those published after the last
drain, where `held` have gone before. -/
def episodes (held : List Pair) : List Turn → List (List Pair) × List Pair
  | [] => ([], held)
  | .publish p _ :: rest => episodes (held ++ [p]) rest
  | .drain :: rest => (held :: (episodes [] rest).1, (episodes [] rest).2)

def Answer.drained? : Answer → Option (List Message)
  | .drained ms => some ms
  | _ => none

/-- What is left of pairs where there is room for so many messages: as many whole pairs as fit, and for
an odd number the counter of the next one. -/
def remains (capacity : Nat) (ps : List Pair) : List Message :=
  whole (ps.take (capacity / 2)) ++
    if capacity % 2 = 1 then (ps[capacity / 2]?.map Pair.counter).toList else []

/-! ## 2. Room for so many messages -/

theorem whole_append (ps qs : List Pair) : whole (ps ++ qs) = whole ps ++ whole qs :=
  List.flatMap_append

theorem length_whole (ps : List Pair) : (whole ps).length = 2 * ps.length := by
  induction ps with
  | nil => rfl
  | cons p rest ih =>
    show (p.messages ++ whole rest).length = _
    rw [List.length_append, ih, List.length_cons, Nat.mul_succ, Nat.add_comm]
    rfl

-- Two messages at a time, so the induction goes down by two slots.
theorem take_whole (capacity : Nat) (ps : List Pair) :
    (whole ps).take capacity = remains capacity ps := by
  induction ps generalizing capacity with
  | nil => simp [whole, remains]
  | cons p rest ih =>
    match capacity with
    | 0 => rfl
    | 1 => rfl
    | capacity + 2 =>
      have hhalf : (capacity + 2) / 2 = capacity / 2 + 1 := by omega
      have hparity : (capacity + 2) % 2 = capacity % 2 := by omega
      have hlater := ih capacity
      show p.counter :: p.delta :: (whole rest).take capacity = _
      rw [hlater, remains, remains, hhalf, hparity, List.take_succ_cons, List.getElem?_cons_succ]
      rfl

theorem remains_of_even {capacity : Nat} (heven : capacity % 2 = 0) (ps : List Pair) :
    remains capacity ps = whole (ps.take (capacity / 2)) := by
  have hodd : ¬ capacity % 2 = 1 := by omega
  rw [remains, if_neg hodd, List.append_nil]

theorem take_take_append {α : Type} (n : Nat) (xs ys : List α) :
    (xs.take n ++ ys).take n = (xs ++ ys).take n := by
  rw [List.take_append, List.take_append, List.take_take, Nat.min_self, List.length_take]
  congr 2
  omega

end Cadence.Bus

namespace Cadence.Mailbox

open Bus (Pair Turn whole remains episodes)

/-- Messages are accepted as long as there is room, and after that none is. -/
theorem values_send (m : Mailbox) (ms : List Message) (hfits : m.box.values.length ≤ m.box.limit) :
    (m.after (ms.map .send)).box.values = (m.box.values ++ ms).take m.box.limit := by
  induction ms generalizing m with
  | nil =>
    rw [List.append_nil]
    exact (List.take_of_length_le hfits).symm
  | cons msg rest ih =>
    show ((m.access (.send msg)).2.after (rest.map .send)).box.values = _
    have hlimit : (m.access (.send msg)).2.box.limit = m.box.limit := m.limit_access _
    by_cases hroom : m.box.values.length < m.box.limit
    · have hsent : (m.access (.send msg)).2.box.values = m.box.values ++ [msg] := by
        simp [access, Fifo.push, hroom]
      rw [ih _ (by rw [hsent, hlimit, List.length_append]; exact hroom), hsent, hlimit,
        List.append_assoc]
      rfl
    · have hsent : (m.access (.send msg)).2.box.values = m.box.values := by
        simp [access, Fifo.push, hroom]
      have hfull : m.box.limit - m.box.values.length = 0 := by omega
      rw [ih _ (by rw [hsent, hlimit]; exact hfits), hsent, hlimit, List.take_append, List.take_append,
        hfull]
      rfl

theorem limit_after (m : Mailbox) (accesses : List Bus.Access) :
    (m.after accesses).box.limit = m.box.limit := by
  induction accesses generalizing m with
  | nil => rfl
  | cons a rest ih => exact (ih _).trans (m.limit_access a)

/-- Of the answers to what is sent, none is a drain. -/
theorem drained_send (m : Mailbox) (ms : List Message) :
    (m.trace (ms.map .send)).filterMap (·.1.drained?) = [] := by
  induction ms generalizing m with
  | nil => rfl
  | cons msg rest ih =>
    have hfirst : (m.access (.send msg)).1.drained? = none := by
      rw [access]
      split <;> rfl
    rw [List.map_cons, trace, List.filterMap_cons, hfirst]
    exact ih _

/-- A mailbox that holds what there was room for goes on to do so, and that is what is drained. -/
theorem episodes_after (m : Mailbox) (held : List Pair)
    (hholds : m.box.values = (whole held).take m.box.limit) (turns : List Turn) :
    (m.trace (turns.flatMap (·.use.accesses))).filterMap (·.1.drained?) =
        (episodes held turns).1.map (remains m.box.limit) ∧
      (m.after (turns.flatMap (·.use.accesses))).box.values =
        remains m.box.limit (episodes held turns).2 := by
  -- Both the box and what has been published since the last drain change from turn to turn.
  induction turns generalizing m held with
  | nil => exact ⟨rfl, hholds.trans (Bus.take_whole _ _)⟩
  | cons turn rest ih =>
    rw [List.flatMap_cons, trace_append, after_append, List.filterMap_append]
    cases turn with
    | publish p breaksDown =>
      let sent := m.after (p.messages.map .send)
      have hlimit : sent.box.limit = m.box.limit := m.limit_after _
      have hfits : m.box.values.length ≤ m.box.limit := by
        rw [hholds]
        exact List.length_take_le _ _
      -- What is cut off once stays cut off when more is published.
      have hgrown : sent.box.values = (whole (held ++ [p])).take sent.box.limit := by
        have hsingle : whole [p] = p.messages := List.flatMap_singleton _ _
        rw [hlimit, m.values_send _ hfits, hholds, Bus.take_take_append, Bus.whole_append, hsingle]
      have hlater := ih sent (held ++ [p]) hgrown
      rw [hlimit] at hlater
      show (m.trace (p.messages.map .send)).filterMap _ ++ _ = _ ∧ _
      rw [m.drained_send]
      exact hlater
    | drain =>
      have hemptied : (m.access .drain).2.box.values =
          (whole []).take (m.access .drain).2.box.limit := List.take_nil.symm
      obtain ⟨hdrains, hleft⟩ := ih (m.access .drain).2 [] hemptied
      rw [m.limit_access] at hdrains hleft
      refine ⟨?_, hleft⟩
      show m.box.values :: _ = remains m.box.limit held :: _
      rw [hholds, Bus.take_whole]
      exact congrArg _ hdrains

end Cadence.Mailbox

namespace Cadence.Bus

/-! ## 3. The bus -/

theorem flatMap_accesses (turns : List Turn) :
    (turns.map Turn.use).flatMap Use.accesses = turns.flatMap (·.use.accesses) :=
  List.flatMap_map ..

theorem drained_of_alike {xs : List (Answer × Bus)} {ys : List (Answer × Mailbox)}
    (halike : List.Forall₂ Alike xs ys) :
    xs.filterMap (·.1.drained?) = ys.filterMap (·.1.drained?) := by
  induction halike with
  | nil => rfl
  | cons hsame _ ih => rw [List.filterMap_cons, List.filterMap_cons, hsame.answer, ih]

/-- Each drain takes out what there was room for of the pairs published since the one before. -/
theorem drained_eq (n : Nat) (turns : List Turn) :
    ((withSlots n).useAll (turns.map Turn.use)).1.filterMap (·.1.drained?) =
      (episodes [] turns).1.map (remains (max n 2 - 1)) := by
  have halike := (alike_useAll (matches_withSlots n) (turns.map Turn.use)).1
  rw [flatMap_accesses] at halike
  exact (drained_of_alike halike).trans (Mailbox.episodes_after _ [] List.take_nil.symm turns).1

/-- The bus holds what there was room for of the pairs published since the last drain. -/
theorem held_eq (n : Nat) (turns : List Turn) :
    ((withSlots n).useAll (turns.map Turn.use)).2.ring.toList =
      remains (max n 2 - 1) (episodes [] turns).2 := by
  have hholds := (alike_useAll (matches_withSlots n) (turns.map Turn.use)).2
  rw [flatMap_accesses] at hholds
  exact hholds.values_eq.symm.trans (Mailbox.episodes_after _ [] List.take_nil.symm turns).2

/-- What the readers of a bus of `n` slots get of pairs, and what is left for them. -/
structure StayTogether (n : Nat) (turns : List Turn) : Prop where
  drained : ((withSlots n).useAll (turns.map Turn.use)).1.filterMap (·.1.drained?) =
    (episodes [] turns).1.map (remains (max n 2 - 1))
  held : ((withSlots n).useAll (turns.map Turn.use)).2.ring.toList =
    remains (max n 2 - 1) (episodes [] turns).2
  /-- With room for an even number of messages no pair is ever cut in two. -/
  uncut : (max n 2 - 1) % 2 = 0 → ∀ ps, remains (max n 2 - 1) ps = whole (ps.take ((n - 1) / 2))

/-- The first pairs after a drain stay whole as far as there is room, the next one keeps its counter if
there is room for that, and of the others nothing is left. -/
theorem pairs_stay_together (n : Nat) (turns : List Turn) : StayTogether n turns where
  drained := drained_eq n turns
  held := held_eq n turns
  uncut heven ps := by
    have hslots : max n 2 - 1 = n - 1 := by omega
    rw [remains_of_even heven, hslots]

/-- Two pairs on a bus of four slots: the delta of the second is dropped and its counter is not. -/
theorem pair_cut_in_two : ¬ ∀ (n : Nat) (turns : List Turn),
    ∃ ps, ((withSlots n).useAll (turns.map Turn.use)).2.ring.toList = whole ps := by
  intro hclaim
  let sample (count : UInt64) : Pair := ⟨.u64 7 count, .f64 7 0⟩
  obtain ⟨ps, hcontent⟩ := hclaim 4 [.publish (sample 1) false, .publish (sample 2) false]
  have hthree := congrArg List.length hcontent
  rw [held_eq, length_whole] at hthree
  -- A counter, its delta and a counter: an odd number of messages.
  have hodd : 3 = 2 * ps.length := hthree
  omega

end Cadence.Bus
