import Cadence.Proofs.Roster.EarlyTicks
import Cadence.Proofs.RunLoop.Delay
import Cadence.Proofs.RunLoop.Slots

/-!
# Wakes that come early

A loop sleeps at most once before each tick, so whatever rouses it, it ticks: its deadline, a change of
the entries or nothing at all.  Ticks that come before an entry is due leave that entry waiting
(`dormant_history`), and the wake that finds it due is the same as if it had been the only one
(`early_wakes_change_nothing`).
-/

namespace Cadence

variable {α σ : Type}

namespace Interleaving

/-! ## 1. Stays that begin at some moment -/

def Begins (st : Stay α Wakes) (e : Entry α) : Prop := st.entry = e ∧ st.notes.readings = []

/-- Nothing has become of an entry but that it has waited, provided that the time that passed does not
reach its first countdown. -/
def Dormant (st : Stay α Wakes) (e : Entry α) : Prop :=
  st.entry.Bounded → (st.notes.deltas.sum : Int) < st.entry.countdown →
    e = st.entry.elapse st.notes.deltas.sum

theorem exists_begins {l : RunLoop α} (h : ∃ ms, l.roster.Holds ms) :
    ∃ stays, Tells Begins l.roster.policy l stays := by
  obtain ⟨ms, hholds⟩ := h
  refine ⟨ms.map fun m => ⟨m.1, m.2, ⟨l.lastWake, []⟩⟩, rfl, ms, hholds, ?_⟩
  rw [List.forall₂_map_left_iff]
  exact List.forall₂_same.2 fun m _ => ⟨rfl, ⟨rfl, rfl⟩, rfl⟩

theorem dormant_of_begins {st : Stay α Wakes} {e : Entry α} (h : Begins st e) : Dormant st e := by
  obtain ⟨hentry, hreadings⟩ := h
  have hnone : st.notes.deltas = [] := by
    rw [Wakes.deltas, hreadings]
    rfl
  intro hbounded hearly
  rw [hnone] at hearly ⊢
  rw [← hentry]
  exact (Entry.elapse_zero hbounded hearly).symm

/-- An entry that is not due when the loop wakes has only waited. -/
theorem dormant_pass {s : RunLoop.Surroundings α σ} {policy : Policy} {now : Timestamp}
    {st : Stay α Wakes} {e : Entry α} {world : σ} (h : Dormant st e) :
    let delta := Timestamp.since now st.notes.last
    let p := e.pass policy (s.invoke (secondsOfMicros delta)) delta world
    p.breaksDown = false → Dormant (st.wake now) p.entry := by
  intro delta p _ (hbounded : st.entry.Bounded) hwaits
  rw [sum_deltas_wake] at hwaits ⊢
  have hearly : ((st.notes.deltas.sum + delta : Nat) : Int) < st.entry.countdown := hwaits
  -- What is early at this wake was so before.
  have hearlier : (st.notes.deltas.sum : Int) < st.entry.countdown := by omega
  have hhigh := hbounded.countdown_le
  have hsum : st.notes.deltas.sum + delta ≤ maxSigned := by omega
  have helapsed : e.elapse delta = st.entry.elapse (st.notes.deltas.sum + delta) := by
    rw [h hbounded hearlier, Entry.elapse_elapse hbounded hearlier hsum]
  have hwaiting : 0 < (e.elapse delta).countdown := by
    rw [helapsed]
    exact Entry.elapse_waiting hbounded hearly
  show (e.pass policy _ delta world).entry = _
  rw [Entry.pass_of_waiting hwaiting]
  exact helapsed

/-- Whatever wakes a loop, an entry that is not due yet is left waiting. -/
theorem dormant_history {s : RunLoop.Surroundings α σ} {c c' : Interleaving α σ}
    {stays stays' : List (Stay α Wakes)} (h : Tells Begins c.loop.roster.policy c.loop stays)
    {events : List (LoopEvent α σ)} (hhistory : history s c stays events = some (c', stays'))
    (hplace : c'.loop.place ≠ .broken) : Tells Dormant c.loop.roster.policy c'.loop stays' := by
  have hnew : ∀ t (e : Entry α) before, Dormant ⟨t, e, ⟨before, []⟩⟩ e :=
    fun _ _ _ => dormant_of_begins ⟨rfl, rfl⟩
  refine tells_history hnew (fun _ _ _ _ hst => dormant_pass hst) ?_ hhistory hplace
  obtain ⟨hpolicy, hfollows⟩ := h
  exact ⟨hpolicy, hfollows.imp fun st e hst => ⟨dormant_of_begins hst.1, hst.2⟩⟩

/-! ## 2. The wake that finds an entry due -/

/-- In a loop that wakes too early for one of its entries, that entry has only waited. -/
theorem woken_of_dormant {s : RunLoop.Surroundings α σ} {policy : Policy} {l : RunLoop (α × Nat)}
    {stays : List (Stay (α × Nat) Wakes)} (h : Tells Dormant policy l stays) {world : σ}
    (hplace : (l.tick s.counting world).2.1.place ≠ .broken) {st : Stay (α × Nat) Wakes}
    (hst : st ∈ stays) (hbounded : st.entry.Bounded)
    (hearly : (st.notes.deltas.sum : Int) < st.entry.countdown) {time : Nat}
    (htime : (st.wake (s.now world)).notes.deltas.sum = time) (hrange : time ≤ maxSigned) :
    ∃ e, (l.tick s.counting world).2.1.roster.lookup st.ticket = some e ∧
      e.countdown = st.entry.countdownAfter policy time ∧
      e.tally = st.entry.tally + if st.entry.countdown ≤ time then 1 else 0 := by
  obtain ⟨hpolicy, hfollows⟩ := h
  let delta := (s.now world).since l.lastWake
  have hwhole : (l.roster.tick s.counting.invoke delta world).cutShort = false :=
    RunLoop.whole_of_place hplace
  obtain ⟨e, w, -, ⟨hdormant, hlast⟩, hdone, hafter⟩ := hfollows.lookup_tick hwhole hst
  have hsum : st.notes.deltas.sum + delta = time := by
    rw [← htime, sum_deltas_wake, hlast]
  subst hsum
  have hentry := hdormant hbounded hearly
  -- The pass cannot tell the entry from one that gets all its time at once.
  have hpass : e.pass policy (s.counting.invoke (secondsOfMicros delta)) delta w =
      st.entry.pass policy (s.counting.invoke (secondsOfMicros delta))
        (st.notes.deltas.sum + delta) w := by
    rw [hentry]
    exact Entry.pass_elapse hbounded hearly hrange policy _ w
  rw [hpolicy, hpass] at hafter
  rw [hpolicy, hpass] at hdone
  rw [(RunLoop.tick_eq s.counting l world).1]
  refine ⟨_, hafter, Entry.countdown_pass_early hbounded hearly hrange hdone, ?_⟩
  have htally := Entry.tally_pass policy s.invoke (secondsOfMicros delta)
    (st.notes.deltas.sum + delta) st.entry w
  have hdue := Entry.isDue_early_iff hbounded hearly hrange
  simp only [hdue] at htally
  exact htally

end Interleaving

open Interleaving in
/-- A tick before anything is due runs nothing, and a second one does what a single tick at its time
would have done.  In a loop, whatever woke it in between and whatever became of other entries, an
entry is invoked at the first wake at which as much time has passed as its countdown was to begin with,
and has the countdown then that a single wake would have left. -/
theorem early_wakes_change_nothing (s : RunLoop.Surroundings α σ) :
    (∀ (policy : Policy) (requests : List (Roster.Request (α × Nat) (σ × List Nat))) (d₁ d₂ : Nat),
      (∀ e, .insert e ∈ requests → e.Bounded) → d₁ + d₂ ≤ maxSigned →
      let r := (Roster.run s.noting.invoke (Roster.empty policy) requests).2
      (∀ e ∈ r.toList, (d₁ : Int) < e.countdown) →
      ∀ w₁ w, r.Harmless s.noting.invoke d₁ d₂ w₁ w) ∧
    ∀ (id : Nat) (o : LoopOptions) (now : Timestamp) (first : σ)
      (earlier : List (LoopEvent (α × Nat) σ)) (c : Interleaving (α × Nat) σ),
      (quiet (RunLoop.create id o now) first).run? s.counting earlier = some c →
      ∃ stays, Tells Begins c.loop.roster.policy c.loop stays ∧
        ∀ events c' stays', history s.counting c stays events = some (c', stays') →
        c'.loop.place ≠ .broken →
        ∀ st ∈ stays', st.entry.Bounded → (st.notes.deltas.sum : Int) < st.entry.countdown →
          c'.loop.roster.lookup st.ticket = some (st.entry.elapse st.notes.deltas.sum) ∧
          ∀ world, (c'.loop.tick s.counting world).2.1.place ≠ .broken →
            let time := (st.wake (s.now world)).notes.deltas.sum
            time ≤ maxSigned →
            ∃ e, (c'.loop.tick s.counting world).2.1.roster.lookup st.ticket = some e ∧
              e.countdown = st.entry.countdownAfter c.loop.roster.policy time ∧
              e.tally = st.entry.tally + if st.entry.countdown ≤ time then 1 else 0 := by
  constructor
  · intro policy requests d₁ d₂ hnew hsum r hearly w₁ w
    obtain ⟨ms, hrun, hholds, -⟩ :=
      Roster.run_step (Roster.holds_empty policy) s.noting.invoke requests
    have hbounded : ∀ m ∈ ms, m.2.Bounded := Roster.bounded_run hrun hnew nofun
    have hwaiting : Roster.Early d₁ d₂ ms :=
      ⟨hbounded, fun m hm => hearly _ (hholds.toList_eq ▸ List.mem_map_of_mem hm), hsum⟩
    exact Roster.harmless_of_early hholds (noting_noting s) hwaiting w₁ w
  · -- The stays begin at the moment from which the run is watched.
    intro id o now first earlier c hrun
    obtain ⟨stays, hbegins⟩ := exists_begins (holds_run_create hrun)
    refine ⟨stays, hbegins, ?_⟩
    intro events c' stays' hhistory hplace st hst hbounded hearly
    have hdormant := dormant_history hbegins hhistory hplace
    obtain ⟨e, he, hentry, -⟩ := hdormant.2.lookup_eq hst
    refine ⟨hentry hbounded hearly ▸ he, ?_⟩
    intro world hwoken time hrange
    exact woken_of_dormant hdormant hwoken hst hbounded hearly rfl hrange

def twoEntries : List (Roster.Request (Unit × Nat) (Timestamp × List Nat)) :=
  [.insert ⟨((), 7), 100, 30, by decide⟩, .insert ⟨((), 3), 100, 25, by decide⟩]

/-- A loop sleeps from 0 on; an entry is registered, and the loop wakes for no reason at 4000 and then
at 10000. -/
def spuriousWake : List (LoopEvent (Unit × Nat) Timestamp) :=
  [.advance, .advance, .advance, .advance, .advance, .advance, .enroll Interleaving.delayed,
    .elapse 4000, .wake, .advance, .advance, .advance, .advance, .advance,
    .elapse 10000, .wake, .advance, .advance]

open Interleaving in
/-- Ticks at 20 and at 32 are compared with one at 32; an entry with a delay of 10000 is not
disturbed by the wake at 4000. -/
theorem early_wakes_change_nothing_of_spurious_wake :
    (let r := (Roster.run instantly.noting.invoke (Roster.empty .catchUp) twoEntries).2
      let t := (r.tick instantly.noting.invoke 20 (0, [])).roster.tick instantly.noting.invoke 12 (0, [])
      t.outcome = (r.tick instantly.noting.invoke 32 (0, [])).outcome ∧ t.world = (0, [7, 3])) ∧
    ∃ stays c, Tells Begins .catchUp (RunLoop.create 1 ⟨"", Duration.second, .catchUp, 0⟩ 0) stays ∧
      history instantly.counting
        (quiet (RunLoop.create 1 ⟨"", Duration.second, .catchUp, 0⟩ 0) 0) stays spuriousWake =
          some (c, [⟨⟨0, 0⟩, delayed, ⟨0, [4000]⟩⟩]) ∧
      ∃ e, (c.loop.tick instantly.counting 10000).2.1.roster.lookup ⟨0, 0⟩ = some e ∧
        e.countdown = 1000000 ∧ e.tally = 1 := by
  obtain ⟨hticks, hwakes⟩ := early_wakes_change_nothing instantly
  constructor
  · intro r t
    have hbounded : ∀ e, .insert e ∈ twoEntries → e.Bounded := by
      intro e he
      simp only [twoEntries, List.mem_cons, Roster.Request.insert.injEq, List.not_mem_nil,
        or_false] at he
      rcases he with rfl | rfl
      · exact ⟨by decide, by decide⟩
      · exact ⟨by decide, by decide⟩
    have hharmless := hticks .catchUp twoEntries 20 12 hbounded (by decide) (by decide) (0, []) (0, [])
    obtain ⟨hworld, -, houtcome, -⟩ := hharmless.blind fun _ _ => rfl
    exact ⟨houtcome, hworld.trans (by decide)⟩
  · obtain ⟨stays, hbegins, hall⟩ := hwakes 1 ⟨"", Duration.second, .catchUp, 0⟩ 0 0 [] _ rfl
    -- A new loop has no entries to follow.
    have hnone : stays = [] := by
      obtain ⟨-, ms, hholds, hstays⟩ := hbegins
      have hnil := hholds.unique (Roster.holds_empty _)
      subst hnil
      cases hstays
      rfl
    have hrun : ∃ c, history instantly.counting
        (quiet (RunLoop.create 1 ⟨"", Duration.second, .catchUp, 0⟩ 0) 0) stays spuriousWake =
          some (c, [⟨⟨0, 0⟩, delayed, ⟨0, [4000]⟩⟩]) ∧ c.loop.place = .ticking ∧
        (c.loop.tick instantly.counting 10000).2.1.place = .returning := by
      rw [hnone]
      refine ⟨_, rfl, ?_, ?_⟩ <;> decide +kernel
    obtain ⟨c, hhistory, hplace, hwoken⟩ := hrun
    obtain ⟨-, hlast⟩ := hall _ _ _ hhistory (by rw [hplace]; decide) _ List.mem_cons_self
      ⟨by decide, by decide⟩ (by decide)
    obtain ⟨e, he, hcountdown, htally⟩ := hlast 10000 (by rw [hwoken]; decide) (by decide)
    exact ⟨stays, c, hbegins, hhistory, e, he, hcountdown.trans (by decide), htally.trans (by decide)⟩

end Cadence
