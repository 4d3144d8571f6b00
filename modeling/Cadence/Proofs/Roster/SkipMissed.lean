import Cadence.Proofs.Pass
import Cadence.Proofs.Roster.Stays

/-!
# Missed periods that are dropped

Under `SkipMissed` an entry is invoked at most once in a tick, and if and only if a point of its grid
has been reached since the tick before.  Its countdown then leads to the next point, so the grid is
kept however late the ticks are, and no tick leaves an entry due at once.
-/

namespace Cadence.Roster

variable {α σ : Type}

def Skips (s : Stay (α × Nat) (List Nat)) (e : Entry (α × Nat)) : Prop :=
  s.entry.Fits → (∀ delta ∈ s.notes, delta ≤ maxSigned) → s.entry.Skipping e s.notes

theorem skips_follow {invoke : Float → α → σ → Invocation α σ} {requests : List (Request (α × Nat) σ)}
    {r : Roster (α × Nat)} {stays : List (Stay (α × Nat) (List Nat))}
    (hfollow : follow (counting invoke) (empty .skipMissed) [] requests = some (r, stays)) :
    r.Follows Skips stays ∧ r.policy = .skipMissed := by
  refine follows_follow (fun t e hfits _ => Entry.Skipping.start hfits) ?_ (follows_empty _) rfl
    hfollow
  intro delta s e w hskips hdone hfits hdeltas
  have hdelta : delta ≤ maxSigned := hdeltas _ List.mem_cons_self
  have hearlier := hskips hfits fun d hd => hdeltas d (List.mem_cons_of_mem _ hd)
  exact (hearlier.pass hfits hdelta hdone).1

theorem sweep_countdown_pos {invoke : α → σ → Invocation α σ} {delta : Nat}
    {ms : List (Ticket × Entry α)} {world : σ}
    (hwhole : (sweep .skipMissed invoke delta ms world).cutShort = false) :
    ∀ m ∈ (sweep .skipMissed invoke delta ms world).members, 0 < m.2.countdown := by
  have hmembers := sweep_members (fun _ => True) (fun _ _ _ => trivial) ms trivial hwhole
  intro m hm
  obtain ⟨i, hi, rfl⟩ := List.mem_iff_getElem.1 hm
  obtain ⟨-, w, -, hdone, hentry⟩ := hmembers.get (hmembers.length_eq ▸ hi) hi
  rw [List.get_eq_getElem] at hentry
  rw [hentry]
  exact Entry.pos_of_skipMissed hdone

/-- Under `SkipMissed` a loop never wakes again at once, whatever the countdowns were before. -/
theorem nextDue_pos {r : Roster α} {ms : List (Ticket × Entry α)} (h : r.Holds ms)
    (hpolicy : r.policy = .skipMissed) {invoke : Float → α → σ → Invocation α σ} {delta : Nat}
    {world : σ} {o : TickOutcome} (ho : (r.tick invoke delta world).outcome = some o)
    (hsome : r.length ≠ 0) : ∃ n, o.nextDue = some n ∧ 1 ≤ n := by
  obtain ⟨hwhole, -, hnext⟩ := tick_of_outcome h ho
  rw [hpolicy] at hwhole hnext
  -- A roster with entries has some after the tick as well.
  have hne : (sweep .skipMissed (invoke (secondsOfMicros delta)) delta ms world).members ≠ [] := by
    intro hnil
    have hlength := congrArg List.length hnil
    rw [length_sweep, ← h.length] at hlength
    exact hsome hlength
  obtain ⟨c, hc, ⟨m, hm, rfl⟩, -⟩ := soonest_of_ne_nil hne
  have hpos := sweep_countdown_pos hwhole m hm
  rw [hnext, hc]
  exact ⟨_, rfl, by omega⟩

/-- Under `SkipMissed` the countdown of an entry leads from the time that has passed since its
registration to the next point of its grid, whatever became of other entries in the meantime.  A tick
invokes it once if a point has been reached since the tick before, and not otherwise.  No tick reports
that an entry is due at once. -/
theorem skipMissed_keeps_grid (invoke : Float → α → σ → Invocation α σ) :
    (∀ requests r stays,
      follow (counting invoke) (empty .skipMissed) [] requests = some (r, stays) →
      ∀ s ∈ stays, s.entry.Fits → ∀ delta world, (∀ d ∈ delta :: s.notes, d ≤ maxSigned) →
      (r.tick (counting invoke) delta world).cutShort = false →
      ∃ before after, r.lookup s.ticket = some before ∧
        (r.tick (counting invoke) delta world).roster.lookup s.ticket = some after ∧
        after.tally = before.tally +
          (if s.entry.reached s.notes < s.entry.reached (delta :: s.notes) then 1 else 0) ∧
        after.countdown = s.entry.phase + s.entry.reached (delta :: s.notes) * s.entry.period -
          ((delta :: s.notes).sum : Nat) ∧
        1 ≤ after.countdown ∧ after.countdown ≤ max s.entry.phase s.entry.period ∧
        (before.elapse delta).countdown = before.countdown - delta ∧
        before.period ≠ 0) ∧
    ∀ requests delta world o,
      let r := (run invoke (empty .skipMissed) requests).2
      (r.tick invoke delta world).outcome = some o → r.length ≠ 0 →
      ∃ n, o.nextDue = some n ∧ 1 ≤ n := by
  constructor
  · intro requests r stays hfollow s hs hfits delta world hdeltas hwhole
    obtain ⟨hfollows, hpolicy⟩ := skips_follow hfollow
    obtain ⟨e, w, he, hskips, hdone, hafter⟩ := hfollows.lookup_tick hwhole hs
    rw [hpolicy] at hdone hafter
    have hdelta : delta ≤ maxSigned := hdeltas _ List.mem_cons_self
    have hskipping := hskips hfits fun d hd => hdeltas d (List.mem_cons_of_mem _ hd)
    obtain ⟨hlater, htally⟩ := hskipping.pass hfits hdelta hdone
    refine ⟨e, _, he, hafter, htally, hlater.countdown, ?_, hlater.countdown_le, ?_, ?_⟩
    · exact Entry.pos_of_skipMissed hdone
    · -- The countdown was not negative, so there is room for what is subtracted.
      have hnonneg := hskipping.nonneg
      exact Entry.countdown_elapse hdelta (hskipping.countdown_le_maxSigned hfits) (by omega)
    · exact Nat.ne_of_gt e.period_pos
  · intro requests delta world o r ho hsome
    obtain ⟨ms, -, hholds, hpolicy⟩ := run_step (holds_empty .skipMissed) invoke requests
    exact nextDue_pos hholds hpolicy ho hsome

/-- An entry of phase 3 and period 10 after a tick at 25 and one at 38, with another entry
registered in between. -/
theorem skipMissed_keeps_grid_of_late_ticks :
    let invoke : Float → Unit → Unit → Invocation Unit Unit := fun _ a w => ⟨a, w, false, false⟩
    let e : Entry (Unit × Nat) := ⟨((), 0), 10, 3, by decide⟩
    ∃ r stays, follow (counting invoke) (empty .skipMissed) []
        [.insert e, .tick 25 (), .insert ⟨((), 0), 7, 0, by decide⟩] = some (r, stays) ∧
      (∃ before after, r.lookup ⟨0, 0⟩ = some before ∧
        (r.tick (counting invoke) 13 ()).roster.lookup ⟨0, 0⟩ = some after ∧
        after.tally = before.tally + 1 ∧ after.countdown = 5) ∧
      ∃ n, ((run invoke (empty .skipMissed) [.insert ⟨(), 10, 3, by decide⟩]).2.tick invoke
        (2 ^ 64 - 1) ()).outcome = some ⟨1, some n⟩ ∧ 1 ≤ n := by
  intro invoke e
  have hfollow : ∃ r stays, follow (counting invoke) (empty .skipMissed) []
      [.insert e, .tick 25 (), .insert ⟨((), 0), 7, 0, by decide⟩] = some (r, stays) ∧
      (⟨⟨0, 0⟩, e, [25]⟩ : Stay (Unit × Nat) (List Nat)) ∈ stays ∧
      (r.tick (counting invoke) 13 ()).cutShort = false := by
    refine ⟨_, _, rfl, List.Mem.head _, ?_⟩
    decide +kernel
  obtain ⟨r, stays, hrun, hs, hwhole⟩ := hfollow
  obtain ⟨before, after, hbefore, hafter, htally, hcountdown, -⟩ :=
    (skipMissed_keeps_grid invoke).1 _ r stays hrun _ hs ⟨by decide, by decide, by decide⟩ 13 ()
      (by decide) hwhole
  refine ⟨r, stays, hrun, ⟨before, after, hbefore, hafter, ?_, ?_⟩, ?_⟩
  · rw [htally, if_pos (by decide)]
  · exact hcountdown.trans (by decide)
  · obtain ⟨n, hn, hpos⟩ := (skipMissed_keeps_grid invoke).2 [.insert ⟨(), 10, 3, by decide⟩]
      (2 ^ 64 - 1) () ⟨1, some 6⟩ (by decide +kernel) (by decide)
    exact ⟨n, by rw [← hn]; decide +kernel, hpos⟩

end Cadence.Roster
