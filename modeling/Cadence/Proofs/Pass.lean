import Cadence.Proofs.Grid
import Cadence.Roster.Tick
import Mathlib.Algebra.GroupWithZero.Nat

/-!
# One entry in one tick

What a completed pass leaves of an entry: its period, its countdown and, for a callback that counts
its own invocations, the tally.  The two policies are followed through the number of grid points that
have been reached (`gridCount`): with `SkipMissed` the countdown leads to the next one of them, with
`CatchUp` to the one after the last turn, however long ago that may have been.
-/

namespace Cadence

variable {α σ : Type}

/-! ## 1. Counting callbacks -/

def counting (invoke : Float → α → σ → Invocation α σ) (seconds : Float) (c : α × Nat) (world : σ) :
    Invocation (α × Nat) σ :=
  let did := invoke seconds c.1 world
  ⟨(did.callback, c.2 + 1), did.world, did.asksStop, did.breaksDown⟩

namespace Entry

def phase (e : Entry α) : Nat := e.countdown.toNat

def tally (e : Entry (α × Nat)) : Nat := e.callback.2

/-- The countdown and the period of a new entry are in the range of signed 64-bit numbers, and it does
not begin in the past. -/
structure Fits (e : Entry α) : Prop where
  nonneg : 0 ≤ e.countdown
  countdown_le : e.countdown ≤ maxSigned
  period_le : e.period ≤ maxSigned

theorem Fits.countdown_eq {e : Entry α} (h : e.Fits) : e.countdown = e.phase :=
  (Int.toNat_of_nonneg h.nonneg).symm

/-! ## 2. Completed passes -/

section

variable {policy : Policy} {invoke : α → σ → Invocation α σ} {delta : Nat} {e : Entry α} {world : σ}

theorem pass_of_waiting (h : 0 < (e.elapse delta).countdown) :
    e.pass policy invoke delta world = ⟨e.elapse delta, world, false, false, false⟩ := by
  have hdue : (e.elapse delta).isDue = false := decide_eq_false (Int.not_le.2 h)
  rw [pass]
  simp only [hdue, Bool.false_eq_true, if_false]

theorem pass_completes (h : ∀ a w, (invoke a w).breaksDown = false) :
    (e.pass policy invoke delta world).breaksDown = false := by
  unfold pass
  by_cases hdue : (e.elapse delta).isDue
  · simp only [hdue, if_true]
    exact h _ _
  · simp only [hdue, Bool.false_eq_true, if_false]

theorem pass_of_due (h : (e.elapse delta).countdown ≤ 0)
    (hdone : (e.pass policy invoke delta world).breaksDown = false) :
    (e.pass policy invoke delta world).entry =
      { e with
        callback := (invoke e.callback world).callback
        countdown := policy.rearm e.period (e.elapse delta).countdown } := by
  have hdue : (e.elapse delta).isDue = true := decide_eq_true h
  rw [pass] at hdone ⊢
  simp only [hdue, if_true] at hdone ⊢
  rw [hdone]
  rfl

end

/-- While nothing stops at the end of the range, time that passes is subtracted. -/
theorem countdown_elapse {e : Entry α} {delta : Nat} (hdelta : delta ≤ maxSigned)
    (hhigh : e.countdown ≤ maxSigned) (hlow : (delta : Int) ≤ e.countdown + maxSigned) :
    (e.elapse delta).countdown = e.countdown - delta := by
  have hmin : min delta maxSigned = delta := Nat.min_eq_left hdelta
  show clampSigned (e.countdown - (min delta maxSigned : Nat)) = _
  rw [hmin]
  apply clampSigned_eq_self <;> omega

/-! ## 3. Countdowns that start again -/

/-- Nothing stops at the end of the range if the countdown has not. -/
theorem rearm_catchUp {period : Nat} (hperiod : period ≤ maxSigned) {c : Int} (hc : c ≤ 0)
    (hlow : 0 ≤ c + maxSigned) : Policy.catchUp.rearm period c = c + period := by
  show clampSigned (c + period) = _
  apply clampSigned_eq_self <;> omega

/-- Periods are added until the countdown is positive, one at least if it was not. -/
theorem rearm_skipMissed {period : Nat} (hperiod : 0 < period) {c : Int} (hc : c ≤ 0) :
    0 < Policy.skipMissed.rearm period c ∧ Policy.skipMissed.rearm period c ≤ period ∧
      ∃ n : Nat, Policy.skipMissed.rearm period c = c + n * period := by
  have hpos : (0 : Int) < period := Int.natCast_pos.2 hperiod
  have hlow := Int.emod_nonneg c (Int.ne_of_gt hpos)
  have hhigh := Int.emod_lt_of_pos c hpos
  have hdiv := Int.emod_add_mul_ediv c period
  have hquot : c / period ≤ 0 := Int.ediv_nonpos_of_nonpos_of_neg hc (by omega)
  show 0 < ite _ _ _ ∧ ite _ _ _ ≤ _ ∧ ∃ n : Nat, ite _ _ _ = _
  split
  · rename_i hzero
    refine ⟨hpos, Int.le_refl _, (1 - c / period).toNat, ?_⟩
    rw [Int.toNat_of_nonneg (by omega), Int.sub_mul, Int.one_mul, Int.mul_comm (c / period)]
    omega
  · rename_i hrest
    refine ⟨by omega, by omega, (-(c / period)).toNat, ?_⟩
    rw [Int.toNat_of_nonneg (by omega), Int.neg_mul, Int.mul_comm (c / period)]
    omega

/-- Under `SkipMissed` no entry is left due, however late the wake is and whatever the countdown was. -/
theorem pos_of_skipMissed {invoke : α → σ → Invocation α σ} {delta : Nat} {e : Entry α} {world : σ}
    (hdone : (e.pass .skipMissed invoke delta world).breaksDown = false) :
    0 < (e.pass .skipMissed invoke delta world).entry.countdown := by
  by_cases hdue : (e.elapse delta).countdown ≤ 0
  · rw [pass_of_due hdue hdone]
    exact (rearm_skipMissed e.period_pos hdue).1
  · rw [pass_of_waiting (Int.not_le.1 hdue)]
    exact Int.not_le.1 hdue

/-! ## 4. Turns -/

/-- The countdown of an entry leads from the time that has passed to the point of its grid with the
number `turns`, and all points before that one have been reached. -/
structure AtTurn (first e : Entry α) (time turns : Nat) : Prop where
  period : e.period = first.period
  countdown : e.countdown = first.phase + turns * first.period - time
  turns_le : turns ≤ gridCount first.phase first.period time

namespace AtTurn

variable {first e : Entry α} {time turns : Nat}

theorem start (h : first.Fits) : AtTurn first first 0 0 where
  period := rfl
  countdown := by
    rw [h.countdown_eq]
    simp
  turns_le := Nat.zero_le _

section

variable (h : AtTurn first e time turns)

include h

theorem behind (hsome : 0 < turns) :
    first.phase + turns * first.period ≤ time + first.period := by
  obtain ⟨n, rfl⟩ := Nat.exists_eq_add_one.2 hsome
  have hlast := (lt_gridCount_iff first.period_pos n time).1 h.turns_le
  rw [Nat.succ_mul]
  omega

theorem countdown_le : e.countdown ≤ max first.phase first.period := by
  have hbehind := h.behind
  rw [h.countdown]
  by_cases hzero : turns = 0
  · subst hzero
    omega
  · have hlast := hbehind (Nat.pos_of_ne_zero hzero)
    omega

theorem countdown_le_maxSigned (hfits : first.Fits) : e.countdown ≤ maxSigned := by
  have hnext := h.countdown_le
  have hphase := hfits.countdown_eq
  have hphase_le := hfits.countdown_le
  have hperiod_le := hfits.period_le
  omega

theorem countdown_nonpos_iff :
    e.countdown ≤ 0 ↔ turns < gridCount first.phase first.period time := by
  rw [lt_gridCount_iff first.period_pos, h.countdown]
  omega

theorem gridCount_eq (hpos : 0 < e.countdown) :
    gridCount first.phase first.period time = turns := by
  have hnone : ¬ turns < gridCount first.phase first.period time := by
    rw [← h.countdown_nonpos_iff]
    exact Int.not_le.2 hpos
  exact Nat.le_antisymm (Nat.le_of_not_lt hnone) h.turns_le

/-- Time that passes brings an entry nearer to the same point. -/
theorem elapse (hfits : first.Fits) {delta : Nat} (hdelta : delta ≤ maxSigned)
    (hlow : (delta : Int) ≤ e.countdown + maxSigned) :
    AtTurn first (e.elapse delta) (time + delta) turns where
  period := h.period
  countdown := by
    rw [countdown_elapse hdelta (h.countdown_le_maxSigned hfits) hlow, h.countdown]
    omega
  turns_le := Nat.le_trans h.turns_le (gridCount_mono first.period_pos (Nat.le_add_right _ _))

/-- Periods that are added lead on to a later point.  If the countdown is not longer than one period
then, the point before it has been reached. -/
theorem advance {c : Int} {n : Nat} (hc : c = e.countdown + n * e.period) (hle : c ≤ e.period)
    (a : α) : AtTurn first { e with callback := a, countdown := c } time (turns + n) := by
  have hahead : c = first.phase + (turns + n : Nat) * first.period - time := by
    rw [hc, h.countdown, h.period, Int.natCast_add, Int.add_mul]
    omega
  refine ⟨h.period, hahead, ?_⟩
  rw [hahead, h.period] at hle
  cases hlast : turns + n with
  | zero => exact Nat.zero_le _
  | succ last =>
    rw [hlast, Int.natCast_succ, Int.add_mul, Int.one_mul] at hle
    apply Nat.succ_le_of_lt
    rw [lt_gridCount_iff first.period_pos]
    omega

end

/-- The invocation that the pass makes is for one turn at least. -/
theorem pass_of_due {policy : Policy} {invoke : α → σ → Invocation α σ} {delta : Nat} {world : σ}
    (h : AtTurn first (e.elapse delta) time turns) (hdue : (e.elapse delta).countdown ≤ 0)
    (hdone : (e.pass policy invoke delta world).breaksDown = false) {n : Nat}
    (hrearm : policy.rearm e.period (e.elapse delta).countdown =
      (e.elapse delta).countdown + n * e.period)
    (hle : policy.rearm e.period (e.elapse delta).countdown ≤ e.period) :
    AtTurn first (e.pass policy invoke delta world).entry time (turns + n) := by
  rw [Entry.pass_of_due hdue hdone]
  exact h.advance hrearm hle _

end AtTurn

/-! ## 5. Turns that are dropped -/

/-- How many turns an entry had reached at its last wake, given the time that passed up to each. -/
def reached (first : Entry α) : List Nat → Nat
  | [] => 0
  | delta :: deltas => gridCount first.phase first.period (delta :: deltas).sum

/-- The countdown of an entry leads to the first point of its grid that has not been reached. -/
structure Skipping (first e : Entry α) (deltas : List Nat) : Prop extends
    AtTurn first e deltas.sum (reached first deltas) where
  nonneg : 0 ≤ e.countdown

theorem Skipping.start {first : Entry α} (h : first.Fits) : Skipping first first [] :=
  ⟨.start h, h.nonneg⟩

section

variable {invoke : Float → α → σ → Invocation α σ} {seconds : Float} {delta : Nat}
  {first e : Entry (α × Nat)} {deltas : List Nat} {world : σ}

/-- One pass keeps the countdown on the grid, and invokes the callback once if points of the grid have
been reached and not otherwise. -/
theorem Skipping.pass (h : Skipping first e deltas) (hfits : first.Fits) (hdelta : delta ≤ maxSigned)
    (hdone : (e.pass .skipMissed (counting invoke seconds) delta world).breaksDown = false) :
    Skipping first (e.pass .skipMissed (counting invoke seconds) delta world).entry
        (delta :: deltas) ∧
      (e.pass .skipMissed (counting invoke seconds) delta world).entry.tally = e.tally +
        if reached first deltas < reached first (delta :: deltas) then 1 else 0 := by
  have hpos := pos_of_skipMissed hdone
  have helapsed : AtTurn first (e.elapse delta) (delta :: deltas).sum (reached first deltas) := by
    have hnonneg := h.nonneg
    rw [List.sum_cons, Nat.add_comm]
    exact h.elapse hfits hdelta (by omega)
  by_cases hdue : (e.elapse delta).countdown ≤ 0
  · have hlt : reached first deltas < reached first (delta :: deltas) :=
      helapsed.countdown_nonpos_iff.1 hdue
    obtain ⟨-, hle, n, hn⟩ := rearm_skipMissed e.period_pos hdue
    -- As many periods are added as points have been reached.
    have hnext := helapsed.pass_of_due hdue hdone hn hle
    rw [← hnext.gridCount_eq hpos] at hnext
    refine ⟨⟨hnext, Int.le_of_lt hpos⟩, ?_⟩
    rw [if_pos hlt, pass_of_due hdue hdone]
    rfl
  · rw [pass_of_waiting (Int.not_le.1 hdue)] at hpos ⊢
    have hsame : reached first (delta :: deltas) = reached first deltas :=
      helapsed.gridCount_eq hpos
    rw [← hsame] at helapsed
    exact ⟨⟨helapsed, Int.le_of_lt hpos⟩, by rw [hsame, if_neg (Nat.lt_irrefl _)]; rfl⟩

end

/-! ## 6. Turns that are made up for -/

/-- How often an entry has been invoked: on each wake once more, but not more often than it has had
turns. -/
def caughtUp (first : Entry α) : List Nat → Nat
  | [] => 0
  | delta :: deltas =>
    min (caughtUp first deltas + 1) (gridCount first.phase first.period (delta :: deltas).sum)

/-- The countdown of an entry leads to the turn after the last one for which it was invoked. -/
structure CatchingUp (first e : Entry (α × Nat)) (deltas : List Nat) : Prop extends
    AtTurn first e deltas.sum (caughtUp first deltas) where
  tally : e.tally = first.tally + caughtUp first deltas

theorem caughtUp_le (first : Entry α) (deltas : List Nat) :
    caughtUp first deltas ≤ gridCount first.phase first.period deltas.sum := by
  cases deltas with
  | nil => exact Nat.zero_le _
  | cons delta deltas => exact Nat.min_le_right _ _

theorem CatchingUp.start {first : Entry (α × Nat)} (h : first.Fits) :
    CatchingUp first first [] :=
  ⟨.start h, rfl⟩

/-- One pass invokes the callback once if it is behind and not otherwise. -/
theorem CatchingUp.pass {invoke : Float → α → σ → Invocation α σ} {seconds : Float} {delta : Nat}
    {first e : Entry (α × Nat)} {deltas : List Nat} {world : σ}
    (h : CatchingUp first e deltas) (hfits : first.Fits)
    (hsum : (delta :: deltas).sum ≤ maxSigned)
    (hdone : (e.pass .catchUp (counting invoke seconds) delta world).breaksDown = false) :
    CatchingUp first (e.pass .catchUp (counting invoke seconds) delta world).entry
      (delta :: deltas) := by
  -- The time that has passed is in range, and so is what is left of the first countdown.
  have hturns : 0 ≤ (caughtUp first deltas : Int) * first.period :=
    Int.mul_nonneg (Int.natCast_nonneg _) (Int.natCast_nonneg _)
  have helapsed : AtTurn first (e.elapse delta) (delta :: deltas).sum (caughtUp first deltas) := by
    have hcountdown := h.countdown
    rw [List.sum_cons] at hsum
    rw [List.sum_cons, Nat.add_comm]
    exact h.elapse hfits (by omega) (by omega)
  by_cases hdue : (e.elapse delta).countdown ≤ 0
  · -- One period is added, however many points have been reached.
    have hturn : caughtUp first (delta :: deltas) = caughtUp first deltas + 1 :=
      Nat.min_eq_left (helapsed.countdown_nonpos_iff.1 hdue)
    have hrearm : Policy.catchUp.rearm e.period (e.elapse delta).countdown =
        (e.elapse delta).countdown + (1 : Nat) * e.period := by
      have hleft := helapsed.countdown
      rw [rearm_catchUp (by rw [h.period]; exact hfits.period_le) hdue (by omega)]
      omega
    have hnext := helapsed.pass_of_due hdue hdone hrearm (by rw [hrearm]; omega)
    rw [← hturn] at hnext
    refine ⟨hnext, ?_⟩
    rw [hturn, ← Nat.add_assoc, ← h.tally, pass_of_due hdue hdone]
    rfl
  · have hturn : caughtUp first (delta :: deltas) = caughtUp first deltas := by
      have hcount := helapsed.gridCount_eq (Int.not_le.1 hdue)
      rw [caughtUp, hcount]
      exact Nat.min_eq_right (Nat.le_succ _)
    rw [pass_of_waiting (Int.not_le.1 hdue)]
    rw [← hturn] at helapsed
    exact ⟨helapsed, by rw [hturn]; exact h.tally⟩

end Entry

end Cadence
