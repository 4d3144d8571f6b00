import Cadence.Proofs.RunLoop.CatchUp
import Cadence.Proofs.RunLoop.Moves

/-!
# The delay before the first invocation

A new entry starts with its delay as its countdown, and the next wake charges it with all the time
since the wake before.  The delay counts from the last wake before the registration, then, and not from
the registration itself: an entry that is registered while the loop sleeps may be invoked at once.
`invoked_once_delay_has_passed` says when the first invocation comes, whatever the policy and the
other entries are, and `invoked_before_delay_has_passed` has a registration that comes too early.
-/

namespace Cadence

variable {α σ : Type}

namespace Entry

/-! ## 1. One entry -/

/-- An entry that has not been invoked waits for the rest of its delay, and one that has been invoked
has waited for all of it. -/
structure Delayed (first e : Entry (α × Nat)) (time : Nat) : Prop where
  tally_le : first.tally ≤ e.tally
  waiting : e.tally = first.tally → e.countdown = first.phase - time
  passed : first.tally < e.tally → first.phase ≤ time

theorem Delayed.start {first : Entry (α × Nat)} (h : first.Fits) : Delayed first first 0 where
  tally_le := Nat.le_refl _
  waiting _ := by
    rw [h.countdown_eq]
    simp
  passed hlt := absurd hlt (Nat.lt_irrefl _)

/-- An invocation that breaks down is counted as well. -/
theorem tally_pass (policy : Policy) (invoke : Float → α → σ → Invocation α σ) (seconds : Float)
    (delta : Nat) (e : Entry (α × Nat)) (world : σ) :
    (e.pass policy (counting invoke seconds) delta world).entry.tally =
      e.tally + if (e.elapse delta).isDue then 1 else 0 := by
  unfold pass
  by_cases hdue : (e.elapse delta).isDue = true
  · simp only [hdue, if_true]
    split
    · rfl
    · rfl
  · simp only [hdue, Bool.false_eq_true, if_false]
    rfl

section

variable {policy : Policy} {invoke : Float → α → σ → Invocation α σ} {seconds : Float}
  {first e : Entry (α × Nat)} {time delta : Nat} {world : σ} (h : Delayed first e time)
  (hfits : first.Fits) (hsum : time + delta ≤ maxSigned)

include h hfits hsum

theorem Delayed.countdown_elapse (hnew : e.tally = first.tally) :
    (e.elapse delta).countdown = first.phase - (time + delta : Nat) := by
  have hcountdown := h.waiting hnew
  have hphase := hfits.countdown_eq
  have hhigh := hfits.countdown_le
  rw [Entry.countdown_elapse (by omega) (by omega) (by omega), hcountdown]
  omega

/-- As long as an entry has not been invoked, it is due as soon as its delay has passed. -/
theorem Delayed.isDue_iff (hnew : e.tally = first.tally) :
    (e.elapse delta).isDue = true ↔ first.phase ≤ time + delta := by
  rw [isDue, decide_eq_true_eq, h.countdown_elapse hfits hsum hnew]
  omega

theorem Delayed.passed_of_isDue (hdue : (e.elapse delta).isDue = true) :
    first.phase ≤ time + delta := by
  rcases Nat.lt_or_eq_of_le h.tally_le with hlt | heq
  · exact Nat.le_trans (h.passed hlt) (Nat.le_add_right _ _)
  · exact (h.isDue_iff hfits hsum heq.symm).1 hdue

/-- An entry goes on to wait for its delay, or its delay has passed. -/
theorem Delayed.pass :
    Delayed first (e.pass policy (counting invoke seconds) delta world).entry (time + delta) := by
  have htally := tally_pass policy invoke seconds delta e world
  have hle := h.tally_le
  by_cases hdue : (e.elapse delta).isDue = true
  · rw [if_pos hdue] at htally
    have hover := h.passed_of_isDue hfits hsum hdue
    exact ⟨by omega, fun heq => by omega, fun _ => hover⟩
  · rw [if_neg hdue, Nat.add_zero] at htally
    refine ⟨by omega, fun heq => ?_, fun hlt => ?_⟩
    · -- Nothing but time has passed.
      have hleft : 0 < (e.elapse delta).countdown := by
        rw [isDue, decide_eq_true_eq] at hdue
        omega
      rw [pass_of_waiting hleft]
      exact h.countdown_elapse hfits hsum (htally ▸ heq)
    · exact Nat.le_trans (h.passed (htally ▸ hlt)) (Nat.le_add_right _ _)

end

end Entry

namespace Interleaving

/-! ## 2. Any wakes -/

def Waits (st : Stay (α × Nat) Wakes) (e : Entry (α × Nat)) : Prop :=
  InRange st → st.entry.Delayed e st.notes.deltas.sum

theorem sum_deltas_wake (st : Stay α Wakes) (now : Timestamp) :
    (st.wake now).notes.deltas.sum = st.notes.deltas.sum + now.since st.notes.last := by
  show (st.notes.wake now).deltas.sum = _
  rw [Wakes.deltas_wake, List.sum_cons, Nat.add_comm]

theorem waits_pass {s : RunLoop.Surroundings α σ} {policy : Policy} {now : Timestamp}
    {st : Stay (α × Nat) Wakes} {e : Entry (α × Nat)} {world : σ} (h : Waits st e) :
    let delta := Timestamp.since now st.notes.last
    let p := e.pass policy (s.counting.invoke (secondsOfMicros delta)) delta world
    p.breaksDown = false → Waits (st.wake now) p.entry := by
  intro delta p _ hrange
  obtain ⟨hfits, hsum⟩ := hrange
  rw [sum_deltas_wake] at hsum ⊢
  exact (h ⟨hfits, by omega⟩).pass hfits hsum

theorem waits_history {s : RunLoop.Surroundings α σ} {id : Nat} {o : LoopOptions} {now : Timestamp}
    {world : σ} {events : List (LoopEvent (α × Nat) σ)} {c : Interleaving (α × Nat) σ}
    {stays : List (Stay (α × Nat) Wakes)}
    (hhistory : history s.counting (quiet (RunLoop.create id o now) world) [] events =
      some (c, stays)) (hplace : c.loop.place ≠ .broken) :
    Tells Waits o.policy c.loop stays :=
  tells_history (fun _ _ _ hrange => Entry.Delayed.start hrange.1) (fun _ _ _ _ h => waits_pass h)
    (tells_create _ id o now) hhistory hplace

/-- On a clock that does not go back, the time noted up to a wake is what lies between two readings.
-/
theorem before_add_sum {w : Wakes} {now : Timestamp}
    (hclock : (now :: w.readings ++ [w.before]).Pairwise fun later earlier => earlier ≤ later) :
    w.before.toNat + (w.wake now).deltas.sum = now.toNat := by
  have hsum : (w.wake now).deltas.sum = now.since w.before := Wakes.sum_deltas hclock
  have hle : w.before ≤ now := by
    rw [List.cons_append, List.pairwise_cons] at hclock
    exact hclock.1 _ (List.mem_append_right _ List.mem_cons_self)
  rw [UInt64.le_iff_toNat_le] at hle
  rw [hsum, Timestamp.since]
  omega

/-- On a clock that does not go back, no wake invokes an entry before its delay has passed since the
last wake before its registration, and the first wake after that does, unless it is cut short. -/
theorem invoked_once_delay_has_passed (s : RunLoop.Surroundings α σ) {id : Nat} {o : LoopOptions}
    {now : Timestamp} {first : σ} {events : List (LoopEvent (α × Nat) σ)}
    {c : Interleaving (α × Nat) σ} {stays : List (Stay (α × Nat) Wakes)}
    (hhistory : history s.counting (quiet (RunLoop.create id o now) first) [] events =
      some (c, stays)) (hplace : c.loop.place ≠ .broken) :
    ∀ st ∈ stays, st.entry.Fits → ∀ world,
      ((s.now world :: st.notes.readings ++ [st.notes.before]).Pairwise
        fun later earlier => earlier ≤ later) →
      (s.now world).toNat ≤ st.notes.before.toNat + maxSigned →
      ∃ e e', c.loop.roster.lookup st.ticket = some e ∧
        (c.loop.tick s.counting world).2.1.roster.lookup st.ticket = some e' ∧
        (e.tally < e'.tally → st.notes.before.toNat + st.entry.phase ≤ (s.now world).toNat) ∧
        (e.tally = st.entry.tally → (c.loop.tick s.counting world).1.isSome →
          st.notes.before.toNat + st.entry.phase ≤ (s.now world).toNat → e.tally < e'.tally) := by
  intro st hst hfits world hclock hlimit
  have htells := waits_history hhistory hplace
  obtain ⟨hpolicy, hfollows⟩ := htells
  obtain ⟨ms, hholds⟩ := hfollows.holds
  obtain ⟨e, he, hwaits, hlast⟩ := hfollows.lookup_eq hst
  let delta := (s.now world).since c.loop.lastWake
  -- On such a clock the time noted in the stay is the time since its beginning.
  have hnow := before_add_sum hclock
  have hsum : (st.notes.wake (s.now world)).deltas.sum = st.notes.deltas.sum + delta := by
    show (st.wake (s.now world)).notes.deltas.sum = _
    rw [sum_deltas_wake, hlast]
  rw [hsum] at hnow
  have hrange : st.notes.deltas.sum + delta ≤ maxSigned := by omega
  have hdelayed := hwaits ⟨hfits, by omega⟩
  rw [(RunLoop.tick_eq s.counting c.loop world).1]
  obtain ⟨e', he', hpass⟩ := hholds.lookup_tick s.counting.invoke delta world he
  refine ⟨e, e', he, he', fun hmore => ?_, fun hnew htrace hover => ?_⟩
  · -- Whoever was invoked was due.
    rcases hpass with rfl | ⟨w, rfl⟩
    · exact absurd hmore (Nat.lt_irrefl _)
    · have htally := Entry.tally_pass c.loop.roster.policy s.invoke (secondsOfMicros delta) delta e w
      have hdue : (e.elapse delta).isDue = true := by
        by_contra hdue
        rw [if_neg hdue] at htally
        exact absurd htally (Nat.ne_of_gt hmore)
      have hdelay := hdelayed.passed_of_isDue hfits hrange hdue
      omega
  · -- The tick was not cut short, so it has come to this entry.
    obtain ⟨trace, htrace⟩ := Option.isSome_iff_exists.1 htrace
    have hwhole : (c.loop.roster.tick s.counting.invoke delta world).cutShort = false :=
      RunLoop.whole_of_place (by rw [RunLoop.returning_of_trace htrace]; decide)
    obtain ⟨e₁, w, he₁, -, -, he₂⟩ := hfollows.lookup_tick hwhole hst
    rw [he, Option.some.injEq] at he₁
    rw [he', Option.some.injEq] at he₂
    subst he₁ he₂
    have hdue := (hdelayed.isDue_iff hfits hrange hnew).2 (by omega)
    have htally := Entry.tally_pass c.loop.roster.policy s.invoke (secondsOfMicros delta) delta e w
    rw [if_pos hdue] at htally
    show _ < Entry.tally (Entry.pass _ (counting s.invoke _) _ _ _).entry
    omega

/-- A loop that has gone to sleep at 0, and then the clock moves on to 50000. -/
def untilAsleep : List (LoopEvent (Unit × Nat) Timestamp) :=
  [.advance, .advance, .advance, .advance, .advance, .advance, .elapse 50000]

def delayed : Entry (Unit × Nat) := ⟨((), 0), 1000000, 10000, by decide⟩

/-- The entry is registered at 50000, in a loop that has slept since 0, and the wake that this
brings about finds that its delay has passed. -/
theorem invoked_once_delay_has_passed_of_sleeper :
    ∃ c, history instantly.counting
        (quiet (RunLoop.create 1 ⟨"", Duration.second, .catchUp, 0⟩ 0) 0) []
        (untilAsleep ++ [.enroll delayed, .flag, .rouse, .advance, .advance]) =
          some (c, [⟨⟨0, 0⟩, delayed, ⟨0, []⟩⟩]) ∧
      ∃ e e', c.loop.roster.lookup ⟨0, 0⟩ = some e ∧
        (c.loop.tick instantly.counting 50000).2.1.roster.lookup ⟨0, 0⟩ = some e' ∧
        e.tally < e'.tally := by
  have hrun : ∃ c, history instantly.counting
      (quiet (RunLoop.create 1 ⟨"", Duration.second, .catchUp, 0⟩ 0) 0) []
      (untilAsleep ++ [.enroll delayed, .flag, .rouse, .advance, .advance]) =
        some (c, [⟨⟨0, 0⟩, delayed, ⟨0, []⟩⟩]) ∧
      c.loop.place = .ticking ∧ (c.loop.roster.lookup ⟨0, 0⟩).map Entry.tally = some 0 ∧
      (c.loop.tick instantly.counting 50000).1.isSome := by
    refine ⟨_, rfl, ?_, ?_, ?_⟩ <;> decide +kernel
  obtain ⟨c, hhistory, hplace, htally, htrace⟩ := hrun
  have hfits : delayed.Fits := ⟨by decide, by decide, by decide⟩
  obtain ⟨e, e', he, he', -, hfirst⟩ := invoked_once_delay_has_passed instantly hhistory
    (by rw [hplace]; decide) _ List.mem_cons_self hfits 50000 (by decide) (by decide)
  rw [he, Option.map_some, Option.some.injEq] at htally
  exact ⟨c, hhistory, e, e', he, he', hfirst htally htrace (by decide)⟩

/-- With respect to the registration that is too early: the clock reads 50000 both then and at the
wake, and the delay is 10000. -/
theorem invoked_before_delay_has_passed :
    ∃ c₀ c, (quiet (RunLoop.create 1 ⟨"", Duration.second, .catchUp, 0⟩ 0) 0).run?
        instantly.counting untilAsleep = some c₀ ∧
      c₀.run? instantly.counting [.enroll delayed, .flag, .rouse, .advance, .advance] = some c ∧
      c.loop.place = .ticking ∧
      (c.loop.roster.lookup (c₀.loop.enroll delayed).1.ticket).map Entry.tally = some 0 ∧
      ((c.loop.tick instantly.counting c.world).2.1.roster.lookup
        (c₀.loop.enroll delayed).1.ticket).map Entry.tally = some 1 ∧
      ¬ (instantly.now c₀.world).toNat + delayed.phase ≤ (instantly.now c.world).toNat := by
  refine ⟨_, _, rfl, rfl, ?_, ?_, ?_, ?_⟩ <;> decide +kernel

end Interleaving

end Cadence
