import Cadence.Clock

/-!
# How far a manual clock can be moved

Setting a manual clock never moves it back.  Advancing it does if the count runs over its end, so the
readings of a clock that is moved in any way never decrease exactly if none of its advances does so
(`readings_of_moves`).
-/

namespace Cadence.ManualClock

/-! ## 1. One move -/

def Move.Fits (t : Timestamp) : Move → Prop
  | .advance micros => t.toNat + micros.toNat ≤ maxWord
  | .set _ => True

theorem toNat_advance (c : ManualClock) (micros : UInt64) :
    (c.advance micros).now.toNat = (c.now.toNat + micros.toNat) % (maxWord + 1) :=
  UInt64.toNat_add _ _

theorem le_set (c : ManualClock) (target : Timestamp) : c.now ≤ (c.set target).now := by
  show c.now ≤ if c.now ≤ target then target else c.now
  by_cases hlater : c.now ≤ target
  · rw [if_pos hlater]
    exact hlater
  · rw [if_neg hlater]
    exact UInt64.le_refl _

/-- An advance that does not fit takes off the whole range, which is more than it adds. -/
theorem le_move_iff (c : ManualClock) (m : Move) : c.now ≤ (c.move m).now ↔ m.Fits c.now := by
  cases m with
  | set target => exact iff_of_true (c.le_set target) trivial
  | advance micros =>
    have hnow := c.now.toNat_lt
    have hmore := micros.toNat_lt
    show c.now ≤ (c.advance micros).now ↔ c.now.toNat + micros.toNat ≤ maxWord
    rw [UInt64.le_iff_toNat_le, toNat_advance, maxWord]
    omega

/-! ## 2. Moves one after the other -/

def run (c : ManualClock) (moves : List Move) : ManualClock := moves.foldl move c

theorem readings_getElem? (c : ManualClock) (before after : List Move) :
    (c.readings (before ++ after))[before.length]? = some (c.run before).now := by
  induction before generalizing c with
  | nil =>
    cases after with
    | nil => rfl
    | cons m rest => rfl
  | cons m rest ih =>
    rw [List.cons_append, readings, List.length_cons, List.getElem?_cons_succ, ih]
    rfl

theorem nonDecreasing_readings_cons (c : ManualClock) (m : Move) (rest : List Move) :
    Timestamp.nonDecreasing (c.readings (m :: rest)) = true ↔
      m.Fits c.now ∧ Timestamp.nonDecreasing ((c.move m).readings rest) = true := by
  have hfirst : Timestamp.nonDecreasing (c.readings (m :: rest)) =
      (decide (c.now ≤ (c.move m).now) && Timestamp.nonDecreasing ((c.move m).readings rest)) := by
    cases rest with
    | nil => rfl
    | cons m' rest' => rfl
  rw [hfirst, Bool.and_eq_true, decide_eq_true_iff, le_move_iff]

/-- Readings never decrease if each of the moves fits where it is made. -/
theorem nonDecreasing_readings_iff (c : ManualClock) (moves : List Move) :
    Timestamp.nonDecreasing (c.readings moves) = true ↔
      ∀ before m after, moves = before ++ m :: after → m.Fits (c.run before).now := by
  induction moves generalizing c with
  | nil => exact iff_of_true rfl fun before m after hsplit => by cases before <;> cases hsplit
  | cons m rest ih =>
    rw [nonDecreasing_readings_cons, ih]
    constructor
    · rintro ⟨hfirst, hothers⟩ before m' after hsplit
      cases before with
      | nil =>
        cases hsplit
        exact hfirst
      | cons _ before =>
        cases hsplit
        exact hothers before m' after rfl
    · intro hall
      refine ⟨hall [] m rest rfl, fun before m' after hsplit => ?_⟩
      exact hall (m :: before) m' after (congrArg (m :: ·) hsplit)

/-- After a set the clock reads its target, or what it read before if that is later.  After an advance it
reads so much more, modulo the range of the count, which is less than before if it does not fit. -/
theorem readings_of_moves (c : ManualClock) (moves : List Move) :
    (Timestamp.nonDecreasing (c.readings moves) = true ↔
        ∀ before m after, moves = before ++ m :: after → m.Fits (c.run before).now) ∧
      ∀ before m after, moves = before ++ m :: after → ∃ t u,
        (c.readings moves)[before.length]? = some t ∧ (c.run before).now = t ∧
          (c.readings moves)[before.length + 1]? = some u ∧ (t ≤ u ↔ m.Fits t) ∧
            match m with
            | .advance micros => u.toNat = (t.toNat + micros.toNat) % (maxWord + 1)
            | .set target => u = max t target := by
  refine ⟨c.nonDecreasing_readings_iff moves, ?_⟩
  rintro before m after rfl
  have hnext := c.readings_getElem? (before ++ [m]) after
  rw [List.append_assoc, List.singleton_append, List.length_append, List.length_singleton, run,
    List.foldl_append] at hnext
  refine ⟨_, _, c.readings_getElem? before (m :: after), rfl, hnext, (c.run before).le_move_iff m, ?_⟩
  cases m with
  | advance micros => exact (c.run before).toNat_advance micros
  | set target => rfl

/-- At the end of the range, advancing by a microsecond starts again at zero. -/
theorem advance_starts_again :
    let c : ManualClock := ⟨0xffffffffffffffff⟩
    c.readings [.advance 1] = [0xffffffffffffffff, 0] ∧
      Timestamp.nonDecreasing (c.readings [.advance 1]) = false := by
  decide

end Cadence.ManualClock
