import Cadence.Proofs.Pass
import Cadence.Proofs.RunLoop.History

/-!
# Missed periods that are made up for

Under `CatchUp` a loop invokes an entry once on each wake for as long as it is behind its grid.  However
late the wakes come and however long callbacks take, no turn is lost and none comes twice; a loop that
is behind wakes at once until it has caught up.
-/

namespace Cadence

variable {α σ : Type}

def RunLoop.Surroundings.counting (s : RunLoop.Surroundings α σ) :
    RunLoop.Surroundings (α × Nat) σ :=
  ⟨Cadence.counting s.invoke, s.now⟩

/-- How many turns an entry has had for which it has not been invoked. -/
def Stay.backlog (st : Stay α Wakes) : Nat :=
  gridCount st.entry.phase st.entry.period st.notes.deltas.sum - st.entry.caughtUp st.notes.deltas

def largestBacklog (stays : List (Stay α Wakes)) : Nat := (stays.map Stay.backlog).foldr max 0

theorem lt_largestBacklog_iff (n : Nat) (stays : List (Stay α Wakes)) :
    n < largestBacklog stays ↔ ∃ st ∈ stays, n < st.backlog := by
  unfold largestBacklog
  induction stays with
  | nil => simp
  | cons st rest ih =>
    rw [List.map_cons, List.foldr_cons, List.exists_mem_cons_iff, ← ih]
    omega

namespace Interleaving

/-! ## 1. Any wakes -/

def MakesUp (st : Stay (α × Nat) Wakes) (e : Entry (α × Nat)) : Prop :=
  st.entry.Fits → st.notes.deltas.sum ≤ maxSigned → st.entry.CatchingUp e st.notes.deltas

theorem makesUp_pass {s : RunLoop.Surroundings α σ} {now : Timestamp}
    {st : Stay (α × Nat) Wakes} {e : Entry (α × Nat)} {world : σ} (h : MakesUp st e) :
    let delta := Timestamp.since now st.notes.last
    let p := e.pass .catchUp (s.counting.invoke (secondsOfMicros delta)) delta world
    p.breaksDown = false → MakesUp (st.wake now) p.entry := by
  intro delta p hdone hfits hsum
  have hearlier : st.notes.deltas.sum ≤ maxSigned := by
    refine Nat.le_trans ?_ hsum
    show _ ≤ (delta :: st.notes.deltas).sum
    rw [List.sum_cons]
    exact Nat.le_add_left _ _
  exact (h hfits hearlier).pass hfits hsum hdone

theorem makesUp_history {s : RunLoop.Surroundings α σ} {id : Nat} {o : LoopOptions} {now : Timestamp}
    {world : σ} {events : List (LoopEvent (α × Nat) σ)} {c : Interleaving (α × Nat) σ}
    {stays : List (Stay (α × Nat) Wakes)} (ho : o.policy = .catchUp)
    (hhistory : history s.counting (quiet (RunLoop.create id o now) world) [] events =
      some (c, stays)) (hplace : c.loop.place ≠ .broken) :
    Tells MakesUp .catchUp c.loop stays := by
  have hnew : ∀ t (e : Entry (α × Nat)) before, MakesUp ⟨t, e, ⟨before, []⟩⟩ e :=
    fun _ _ _ hfits _ => Entry.CatchingUp.start hfits
  refine tells_history hnew (fun now st e w h => makesUp_pass h) ?_ hhistory hplace
  rw [← ho]
  exact tells_create _ id o now

def InRange (st : Stay α Wakes) : Prop := st.entry.Fits ∧ st.notes.deltas.sum ≤ maxSigned

section

variable {s : RunLoop.Surroundings α σ} {l : RunLoop (α × Nat)} {stays : List (Stay (α × Nat) Wakes)}
  (h : Tells MakesUp .catchUp l stays)

include h

theorem tells_woken {world : σ} (hplace : (l.tick s.counting world).2.1.place ≠ .broken) :
    Tells MakesUp .catchUp (l.tick s.counting world).2.1
      (stays.map fun st => st.wake (s.now world)) :=
  tells_tick (s := s.counting) (fun _ _ _ _ hst => makesUp_pass hst) h hplace

/-- The next entry is due at once if and only if some entry is behind. -/
theorem nextDue_eq_zero_iff {world : σ} {o : TickOutcome}
    (ho : (l.roster.tick s.counting.invoke ((s.now world).since l.lastWake) world).outcome = some o)
    (hrange : ∀ st ∈ stays.map fun st => st.wake (s.now world), InRange st) :
    o.nextDue = some 0 ↔ ∃ st ∈ stays.map fun st => st.wake (s.now world), 0 < st.backlog := by
  have hplace : (l.tick s.counting world).2.1.place ≠ .broken := by
    rw [(RunLoop.tick_of_completed s.counting l world ho).2.2]
    decide
  obtain ⟨-, hfollows⟩ := tells_woken h hplace
  rw [(RunLoop.tick_eq s.counting l world).1] at hfollows
  obtain ⟨-, ms, hholds, -⟩ := h
  obtain ⟨-, hmembers, hnext⟩ := Roster.tick_of_outcome hholds ho
  rw [hnext, Roster.soonest_toNat_eq_zero_iff]
  -- A member that is due is one whose stay has a backlog.
  refine (hfollows.exists_iff hmembers fun e => e.countdown ≤ 0).trans ?_
  constructor
  · rintro ⟨st, hst, e, -, ⟨hmakes, -⟩, hdue⟩
    obtain ⟨hfits, hsum⟩ := hrange st hst
    exact ⟨st, hst, Nat.sub_pos_of_lt ((hmakes hfits hsum).countdown_nonpos_iff.1 hdue)⟩
  · rintro ⟨st, hst, hbehind⟩
    obtain ⟨hfits, hsum⟩ := hrange st hst
    obtain ⟨e, he, hmakes, hlast⟩ := hfollows.lookup_eq hst
    refine ⟨st, hst, e, he, ⟨hmakes, hlast⟩, (hmakes hfits hsum).countdown_nonpos_iff.2 ?_⟩
    exact Nat.lt_of_sub_pos hbehind

/-- The loop means to wake again at once if and only if some entry is behind. -/
theorem interval_eq_zero_iff {world : σ} {trace : RunLoop.Trace}
    (htrace : (l.tick s.counting world).1 = some trace)
    (hrange : ∀ st ∈ stays.map fun st => st.wake (s.now world), InRange st) :
    (l.tick s.counting world).2.1.interval = 0 ↔
      0 < largestBacklog (stays.map fun st => st.wake (s.now world)) := by
  rw [lt_largestBacklog_iff]
  cases ho : (l.roster.tick s.counting.invoke ((s.now world).since l.lastWake) world).outcome with
  | none =>
    rw [(RunLoop.tick_of_cutShort s.counting l world ho).1] at htrace
    cases htrace
  | some o =>
    rw [(RunLoop.tick_of_completed s.counting l world ho).2.1, ← nextDue_eq_zero_iff h ho hrange]
    have hpos := l.maxWait_pos
    cases o.nextDue with
    | none =>
      simp only [Option.getD_none, reduceCtorEq, iff_false]
      omega
    | some n =>
      simp only [Option.getD_some, Option.some.injEq]
      omega

end

/-! ## 2. Wakes without delay -/

inductive Rewakes (s : RunLoop.Surroundings α σ) : RunLoop α → Nat → RunLoop α → Prop
  | none {l : RunLoop α} : Rewakes s l 0 l
  | once {l l' : RunLoop α} {n : Nat} {world : σ} {trace : RunLoop.Trace} (rewakes : Rewakes s l n l')
    (still : (s.now world).since l'.lastWake = 0) (ticked : (l'.tick s world).1 = some trace) :
    Rewakes s l (n + 1) (l'.tick s world).2.1

theorem caughtUp_replicate (first : Entry α) (n : Nat) (deltas : List Nat) :
    first.caughtUp (List.replicate n 0 ++ deltas) =
      min (first.caughtUp deltas + n) (gridCount first.phase first.period deltas.sum) := by
  induction n with
  | zero => exact (Nat.min_eq_left (Entry.caughtUp_le first deltas)).symm
  | succ n ih =>
    have hsum : (List.replicate n 0 ++ deltas).sum = deltas.sum := by simp
    -- No new turns come up, so one more of the old ones is made up for.
    rw [List.replicate_succ, List.cons_append, Entry.caughtUp, ih, List.sum_cons, Nat.zero_add, hsum]
    omega

/-- What is noted of a stay when the loop has woken `n` times more and no time has passed. -/
structure Idled (n : Nat) (st st' : Stay α Wakes) : Prop where
  ticket : st'.ticket = st.ticket
  entry : st'.entry = st.entry
  deltas : st'.notes.deltas = List.replicate n 0 ++ st.notes.deltas

theorem Idled.backlog {n : Nat} {st st' : Stay α Wakes} (h : Idled n st st') :
    st'.backlog = st.backlog - n := by
  have hsum : (List.replicate n 0 ++ st.notes.deltas).sum = st.notes.deltas.sum := by simp
  have hle := Entry.caughtUp_le st.entry st.notes.deltas
  rw [Stay.backlog, h.entry, h.deltas, caughtUp_replicate, hsum, Stay.backlog]
  omega

theorem Idled.inRange {n : Nat} {st st' : Stay α Wakes} (h : Idled n st st') (hst : InRange st) :
    InRange st' := by
  have hsum : (List.replicate n 0 ++ st.notes.deltas).sum = st.notes.deltas.sum := by simp
  rw [InRange, h.entry, h.deltas, hsum]
  exact hst

theorem idled_wake {n : Nat} {stays stays' : List (Stay α Wakes)}
    (h : List.Forall₂ (Idled n) stays stays') {last now : Timestamp}
    (hlast : ∀ st' ∈ stays', st'.notes.last = last) (hstill : now.since last = 0) :
    List.Forall₂ (Idled (n + 1)) stays (stays'.map fun st' => st'.wake now) := by
  rw [List.forall₂_map_right_iff]
  refine (Roster.forall₂_and_right h hlast).imp fun st st' hboth => ?_
  obtain ⟨hst, hlast'⟩ := hboth
  refine ⟨hst.ticket, hst.entry, ?_⟩
  show (st'.notes.wake now).deltas = _
  rw [Wakes.deltas_wake, hlast', hstill, hst.deltas, List.replicate_succ, List.cons_append]

theorem tells_rewakes {s : RunLoop.Surroundings α σ} {l l' : RunLoop (α × Nat)}
    {stays : List (Stay (α × Nat) Wakes)} (h : Tells MakesUp .catchUp l stays) {n : Nat}
    (hrewakes : Rewakes s.counting l n l') :
    ∃ stays', Tells MakesUp .catchUp l' stays' ∧ List.Forall₂ (Idled n) stays stays' := by
  induction hrewakes with
  | none => exact ⟨stays, h, List.forall₂_same.2 fun st _ => ⟨rfl, rfl, rfl⟩⟩
  | @once l' n world trace _ hstill hticked ih =>
    obtain ⟨stays', htells, hidled⟩ := ih
    have hplace : (l'.tick s.counting world).2.1.place ≠ .broken := by
      rw [RunLoop.returning_of_trace hticked]
      decide
    exact ⟨_, tells_woken htells hplace, idled_wake hidled htells.last_eq hstill⟩

theorem backlog_of_idled {n : Nat} {stays stays' : List (Stay α Wakes)}
    (h : List.Forall₂ (Idled n) stays stays') : largestBacklog stays' = largestBacklog stays - n := by
  unfold largestBacklog
  induction h with
  | nil => exact (Nat.zero_sub n).symm
  | cons hst _ ih =>
    rw [List.map_cons, List.map_cons, List.foldr_cons, List.foldr_cons, ih, hst.backlog]
    omega

structure CaughtUpAfter (stays : List (Stay (α × Nat) Wakes)) (n : Nat) (l : RunLoop (α × Nat)) :
    Prop where
  /-- It would wake at once again if and only if it has not made up for the largest backlog. -/
  interval : l.interval = 0 ↔ n < largestBacklog stays
  tally : ∀ st ∈ stays, ∃ e, l.roster.lookup st.ticket = some e ∧
    e.tally = st.entry.tally + min (st.entry.caughtUp st.notes.deltas + n)
      (gridCount st.entry.phase st.entry.period st.notes.deltas.sum)

/-- No entry is behind by more wakes than the largest backlog. -/
theorem CaughtUpAfter.tally_eq {stays : List (Stay (α × Nat) Wakes)} {n : Nat}
    {l : RunLoop (α × Nat)} (h : CaughtUpAfter stays n l) (hdone : largestBacklog stays ≤ n)
    {st : Stay (α × Nat) Wakes} (hst : st ∈ stays) :
    ∃ e, l.roster.lookup st.ticket = some e ∧
      e.tally = st.entry.tally +
        gridCount st.entry.phase st.entry.period st.notes.deltas.sum := by
  obtain ⟨e, he, htally⟩ := h.tally st hst
  have hbacklog : st.backlog ≤ n := by
    refine Nat.le_trans (Nat.le_of_not_lt fun hlt => ?_) hdone
    exact Nat.lt_irrefl _ ((lt_largestBacklog_iff _ _).2 ⟨st, hst, hlt⟩)
  rw [Stay.backlog] at hbacklog
  exact ⟨e, he, by rw [htally, Nat.min_eq_right (by omega)]⟩

/-- While no time passes, each wake makes up for one turn of every entry that is behind. -/
theorem caughtUpAfter_rewakes {s : RunLoop.Surroundings α σ} {l l' : RunLoop (α × Nat)}
    {stays : List (Stay (α × Nat) Wakes)} (h : Tells MakesUp .catchUp l stays) {world : σ}
    {trace : RunLoop.Trace} (htrace : (l.tick s.counting world).1 = some trace)
    (hrange : ∀ st ∈ stays.map fun st => st.wake (s.now world), InRange st) {n : Nat}
    (hrewakes : Rewakes s.counting (l.tick s.counting world).2.1 n l') :
    CaughtUpAfter (stays.map fun st => st.wake (s.now world)) n l' := by
  have hplace : (l.tick s.counting world).2.1.place ≠ .broken := by
    rw [RunLoop.returning_of_trace htrace]
    decide
  have hwoken := tells_woken h hplace
  constructor
  case interval =>
    cases hrewakes with
    | none => exact interval_eq_zero_iff h htrace hrange
    | @once l'' n world' trace' hearlier hstill hticked =>
      -- The last wake finds what all wakes before it have left.
      obtain ⟨stays', htells, hidled⟩ := tells_rewakes hwoken hearlier
      have hlast := idled_wake hidled htells.last_eq hstill
      have hrange' : ∀ st' ∈ stays'.map fun st' => st'.wake (s.now world'), InRange st' := by
        intro st' hst'
        obtain ⟨st, hst, hsame⟩ := Roster.exists_of_mem_right hlast hst'
        exact hsame.inRange (hrange st hst)
      have hbacklog : largestBacklog (stays'.map fun st' => st'.wake (s.now world')) =
          largestBacklog (stays.map fun st => st.wake (s.now world)) - (n + 1) :=
        backlog_of_idled hlast
      rw [interval_eq_zero_iff htells hticked hrange', hbacklog]
      omega
  case tally =>
    intro st hst
    obtain ⟨stays', htells, hidled⟩ := tells_rewakes hwoken hrewakes
    obtain ⟨st', hst', hsame⟩ := Roster.exists_of_mem_left hidled hst
    obtain ⟨e, he, hmakes, -⟩ := htells.2.lookup_eq hst'
    obtain ⟨hfits, hsum⟩ := hsame.inRange (hrange st hst)
    rw [hsame.ticket] at he
    refine ⟨e, he, ?_⟩
    rw [(hmakes hfits hsum).tally, hsame.entry, hsame.deltas, caughtUp_replicate]

/-- Under `CatchUp` an entry is invoked once on each wake until it has had every turn of its grid, so
none is lost and none comes twice.  On a clock that does not go back the grid is that of the clock.  A
loop goes to sleep for no time if and only if some entry is behind, and it has caught up when it has
woken again as often as the largest backlog. -/
theorem catchUp_makes_up_for_every_turn (s : RunLoop.Surroundings α σ) {id : Nat} {o : LoopOptions}
    {now : Timestamp} {first : σ} {events : List (LoopEvent (α × Nat) σ)}
    {c : Interleaving (α × Nat) σ} {stays : List (Stay (α × Nat) Wakes)} (ho : o.policy = .catchUp)
    (hhistory : history s.counting (quiet (RunLoop.create id o now) first) [] events =
      some (c, stays)) (hplace : c.loop.place ≠ .broken) :
    (∀ t, (c.loop.roster.lookup t).isSome ↔ t ∈ stays.map Stay.ticket) ∧
      (∀ st ∈ stays, InRange st → ∃ e, c.loop.roster.lookup st.ticket = some e ∧
        e.tally = st.entry.tally + st.entry.caughtUp st.notes.deltas) ∧
      (∀ st ∈ stays,
        ((st.notes.readings ++ [st.notes.before]).Pairwise fun later earlier => earlier ≤ later) →
        st.notes.deltas.sum = c.loop.lastWake.since st.notes.before) ∧
      ∀ world report,
        (c.loop.roster.tick s.counting.invoke ((s.now world).since c.loop.lastWake)
          world).outcome = some report →
        let woken := stays.map fun st => st.wake (s.now world)
        (∀ st ∈ woken, InRange st) →
        (report.nextDue = some 0 ↔ ∃ st ∈ woken, st.entry.caughtUp st.notes.deltas <
          gridCount st.entry.phase st.entry.period st.notes.deltas.sum) ∧
        ∀ n l, Rewakes s.counting (c.loop.tick s.counting world).2.1 n l →
          CaughtUpAfter woken n l ∧
          (largestBacklog woken ≤ n → ∀ st ∈ woken, ∃ e, l.roster.lookup st.ticket = some e ∧
            e.tally = st.entry.tally +
              gridCount st.entry.phase st.entry.period st.notes.deltas.sum) := by
  -- All parts are read off what is known of the stays at the end of the run.
  have htells := makesUp_history ho hhistory hplace
  refine ⟨htells.2.isSome_lookup_iff, ?_, ?_, ?_⟩
  · intro st hst hrange
    obtain ⟨e, he, hmakes, -⟩ := htells.2.lookup_eq hst
    exact ⟨e, he, (hmakes hrange.1 hrange.2).tally⟩
  · intro st hst hclock
    rw [Wakes.sum_deltas hclock, htells.last_eq st hst]
  · intro world report hreport woken hrange
    have htrace := (RunLoop.tick_of_completed s.counting c.loop world hreport).1
    refine ⟨?_, fun n l hrewakes => ?_⟩
    · rw [nextDue_eq_zero_iff htells hreport hrange]
      simp only [Stay.backlog, Nat.sub_pos_iff_lt]
      rfl
    · have hafter := caughtUpAfter_rewakes htells htrace hrange hrewakes
      exact ⟨hafter, fun hdone st hst => hafter.tally_eq hdone hst⟩

def slowly : RunLoop.Surroundings Unit Timestamp :=
  ⟨fun _ a now => ⟨a, now + 2, false, false⟩, fun now => now⟩

/-- The stay of an entry of phase 3 and period 10 in a loop that has woken at 0 and at 25. -/
def lateStay : Stay (Unit × Nat) Wakes :=
  ⟨⟨0, 0⟩, ⟨((), 0), 10, 3, by decide⟩, ⟨0, [25, 0]⟩⟩

/-- At 25 one turn of three has been made up for, and after one more wake at 40 the loop is still
behind. -/
theorem catchUp_makes_up_for_late_wakes :
    ∃ c, history slowly.counting
        (quiet (RunLoop.create 1 ⟨"", Duration.second, .catchUp, 0⟩ 0) 0) []
        [.advance, .advance, .advance, .enroll lateStay.entry, .advance, .elapse 25, .advance,
          .advance, .advance, .advance] = some (c, [lateStay]) ∧
      (∃ e, c.loop.roster.lookup ⟨0, 0⟩ = some e ∧ e.tally = 1) ∧
      (c.loop.tick slowly.counting 40).2.1.interval = 0 := by
  have hrun : ∃ c, history slowly.counting
      (quiet (RunLoop.create 1 ⟨"", Duration.second, .catchUp, 0⟩ 0) 0) []
      [.advance, .advance, .advance, .enroll lateStay.entry, .advance, .elapse 25, .advance,
        .advance, .advance, .advance] = some (c, [lateStay]) ∧ c.loop.place ≠ .broken ∧
      (c.loop.roster.tick slowly.counting.invoke
        (Timestamp.since 40 c.loop.lastWake) 40).outcome = some ⟨1, some 0⟩ := by
    refine ⟨_, rfl, ?_, ?_⟩ <;> decide +kernel
  obtain ⟨c, hhistory, hplace, hreport⟩ := hrun
  have hfits : lateStay.entry.Fits := ⟨by decide, by decide, by decide⟩
  have hrange : ∀ st ∈ [lateStay].map fun st => st.wake (slowly.now 40), InRange st := by
    intro st hst
    rw [List.mem_singleton.1 hst]
    exact ⟨hfits, by decide⟩
  obtain ⟨-, htally, -, hwake⟩ :=
    catchUp_makes_up_for_every_turn slowly rfl hhistory hplace
  refine ⟨c, hhistory, htally lateStay List.mem_cons_self ⟨hfits, by decide⟩, ?_⟩
  obtain ⟨-, hrewakes⟩ := hwake 40 _ hreport hrange
  exact (hrewakes 0 _ .none).1.interval.2 (by decide)

end Interleaving

end Cadence
