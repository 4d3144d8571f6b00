import Cadence.Proofs.RunLoop.Frame
import Mathlib.Algebra.GroupWithZero.Nat

/-!
# Histories

What happens to the entries of a run loop, told from outside: each stay with the readings of the clock
at the wakes since its registration.  `history` is a run of a loop with such notes,
`tells_history` carries what is known of single passes through all of it.
-/

namespace Cadence

structure Wakes where
  /-- At the last wake before its registration, or when the loop was created. -/
  before : Timestamp
  /-- At each wake since, the latest first. -/
  readings : List Timestamp

namespace Wakes

def last (w : Wakes) : Timestamp := w.readings.headD w.before

def wake (w : Wakes) (now : Timestamp) : Wakes := { w with readings := now :: w.readings }

def deltasFrom (before : Timestamp) : List Timestamp → List Nat
  | [] => []
  | now :: earlier => now.since (earlier.headD before) :: deltasFrom before earlier

def deltas (w : Wakes) : List Nat := deltasFrom w.before w.readings

theorem deltas_wake (w : Wakes) (now : Timestamp) :
    (w.wake now).deltas = now.since w.last :: w.deltas := rfl

/-- On a clock that does not go back, the times between readings add up to the time between the
first and the last. -/
theorem sum_deltasFrom {before : Timestamp} {readings : List Timestamp}
    (h : (readings ++ [before]).Pairwise fun later earlier => earlier ≤ later) :
    before ≤ readings.headD before ∧
      (deltasFrom before readings).sum = (readings.headD before).since before := by
  induction readings with
  | nil => exact ⟨UInt64.le_refl _, (Nat.sub_self _).symm⟩
  | cons now earlier ih =>
    rw [List.cons_append, List.pairwise_cons] at h
    obtain ⟨hle, hsum⟩ := ih h.2
    have hnow : earlier.headD before ≤ now := by
      cases earlier with
      | nil => exact h.1 _ List.mem_cons_self
      | cons e rest => exact h.1 _ List.mem_cons_self
    refine ⟨UInt64.le_trans hle hnow, ?_⟩
    rw [UInt64.le_iff_toNat_le] at hle hnow
    show (deltasFrom before (now :: earlier)).sum = now.since before
    rw [deltasFrom, List.sum_cons, hsum]
    simp only [Timestamp.since]
    omega

/-- On a clock that does not go back, the time that passed is what lies between two readings. -/
theorem sum_deltas {w : Wakes}
    (h : (w.readings ++ [w.before]).Pairwise fun later earlier => earlier ≤ later) :
    w.deltas.sum = w.last.since w.before :=
  (sum_deltasFrom h).2

end Wakes

def Stay.wake {α : Type} (s : Stay α Wakes) (now : Timestamp) : Stay α Wakes :=
  { s with notes := s.notes.wake now }

namespace Interleaving

variable {α σ : Type}

def noted (s : RunLoop.Surroundings α σ) (c c' : Interleaving α σ) (stays : List (Stay α Wakes)) :
    LoopEvent α σ → List (Stay α Wakes)
  | .enroll e => stays ++ [⟨(c.loop.enroll e).1.ticket, e, ⟨c.loop.lastWake, []⟩⟩]
  | .advance =>
    if c.loop.place = .ticking then stays.map fun st => st.wake (s.now c.world)
    else c'.loop.roster.remaining stays
  | _ => c'.loop.roster.remaining stays

def history (s : RunLoop.Surroundings α σ) (c : Interleaving α σ) (stays : List (Stay α Wakes)) :
    List (LoopEvent α σ) → Option (Interleaving α σ × List (Stay α Wakes))
  | [] => some (c, stays)
  | ev :: rest => (c.step? s ev).bind fun c' => history s c' (noted s c c' stays ev) rest

/-- The notes do not change the run. -/
theorem history_run (s : RunLoop.Surroundings α σ) (c : Interleaving α σ) (stays : List (Stay α Wakes))
    (events : List (LoopEvent α σ)) : (history s c stays events).map Prod.fst = c.run? s events := by
  induction events generalizing c stays with
  | nil => rfl
  | cons ev rest ih =>
    rw [history, run?, Option.map_bind]
    congr 1
    funext c'
    exact ih c' _

theorem history_of_broken {s : RunLoop.Surroundings α σ} {c c' : Interleaving α σ}
    {stays stays' : List (Stay α Wakes)} {events : List (LoopEvent α σ)}
    (hplace : c.loop.place = .broken) (h : history s c stays events = some (c', stays')) :
    c'.loop.place = .broken := by
  induction events generalizing c stays with
  | nil =>
    cases h
    exact hplace
  | cons ev rest ih =>
    obtain ⟨c'', hstep, hrest⟩ := Option.bind_eq_some_iff.1 h
    exact ih (step_of_broken hstep hplace) hrest

/-- What is known of the stays at some moment, together with the wake that each was noted at last. -/
def Tells (R : Stay α Wakes → Entry α → Prop) (policy : Policy) (l : RunLoop α)
    (stays : List (Stay α Wakes)) : Prop :=
  l.roster.policy = policy ∧
    l.roster.Follows (fun st e => R st e ∧ st.notes.last = l.lastWake) stays

section

variable {R : Stay α Wakes → Entry α → Prop} {policy : Policy} {s : RunLoop.Surroundings α σ}

theorem Tells.last_eq {l : RunLoop α} {stays : List (Stay α Wakes)} (h : Tells R policy l stays) :
    ∀ st ∈ stays, st.notes.last = l.lastWake := by
  intro st hst
  obtain ⟨e, -, -, hlast⟩ := h.2.lookup_eq hst
  exact hlast

/-- What removes an entry at most, or all, ends the stays of what is gone. -/
theorem tells_alters {l l' : RunLoop α} {stays : List (Stay α Wakes)} (h : Tells R policy l stays)
    (halters : RunLoop.Alters l l') : Tells R policy l' (l'.roster.remaining stays) := by
  obtain ⟨hpolicy, hfollows⟩ := h
  rw [Tells, halters.lastWake]
  cases halters with
  | kept hkeeps =>
    rw [hkeeps.roster]
    exact ⟨hpolicy, Roster.follows_unchanged hfollows⟩
  | removed hremoval hkeeps =>
    rw [hkeeps.roster]
    obtain ⟨ms, hholds⟩ := hfollows.holds
    obtain ⟨-, -, -, -, hsame, -⟩ := Roster.holds_of_remove hholds hremoval
    exact ⟨hsame.trans hpolicy, Roster.follows_remove hfollows hremoval⟩
  | emptied hkeeps =>
    rw [hkeeps.roster]
    exact ⟨hpolicy, Roster.follows_clear hfollows⟩

variable (hnew : ∀ t e before, R ⟨t, e, ⟨before, []⟩⟩ e)
  (hpass : ∀ now st e w, R st e →
    let delta := Timestamp.since now st.notes.last
    let p := e.pass policy (s.invoke (secondsOfMicros delta)) delta w
    p.breaksDown = false → R (st.wake now) p.entry)

include hnew in
theorem tells_enroll {l : RunLoop α} {stays : List (Stay α Wakes)} (h : Tells R policy l stays)
    (e : Entry α) : Tells R policy (l.enroll e).2
      (stays ++ [⟨(l.enroll e).1.ticket, e, ⟨l.lastWake, []⟩⟩]) := by
  obtain ⟨hpolicy, hfollows⟩ := h
  let st : Stay α Wakes := ⟨(l.roster.insert e).1, e, ⟨l.lastWake, []⟩⟩
  have hinserted := Roster.follows_insert (s := st) hfollows rfl ⟨hnew _ e _, rfl⟩
  refine ⟨?_, hinserted⟩
  obtain ⟨ms, hholds, -⟩ := hfollows
  exact (hholds.policy_insert e).trans hpolicy

include hpass in
/-- A tick is one more wake in every stay. -/
theorem tells_tick {l : RunLoop α} {stays : List (Stay α Wakes)} (h : Tells R policy l stays)
    {world : σ} (hplace : (l.tick s world).2.1.place ≠ .broken) :
    Tells R policy (l.tick s world).2.1 (stays.map fun st => st.wake (s.now world)) := by
  obtain ⟨hpolicy, hfollows⟩ := h
  obtain ⟨hroster, hlastWake, -, -⟩ := RunLoop.tick_eq s l world
  let delta := (s.now world).since l.lastWake
  have hwhole : (l.roster.tick s.invoke delta world).cutShort = false :=
    RunLoop.whole_of_place hplace
  rw [Tells, hroster, hlastWake]
  constructor
  · obtain ⟨ms, hholds⟩ := hfollows.holds
    exact (Roster.tick_swept hholds s.invoke delta world).policy.trans hpolicy
  · refine Roster.follows_tick (fun _ => True) hfollows (fun _ _ _ => trivial) trivial hwhole
      (fun _ => rfl) fun st e w hr _ hdone => ⟨?_, rfl⟩
    subst hpolicy
    obtain ⟨hr, hlast⟩ := hr
    have := hpass (s.now world) st e w hr
    rw [hlast] at this
    exact this hdone

include hnew hpass in
/-- What is known of the stays goes on to be known, whatever thread takes the step. -/
theorem tells_step {c c' : Interleaving α σ} {stays : List (Stay α Wakes)}
    (h : Tells R policy c.loop stays) {ev : LoopEvent α σ} (hstep : c.step? s ev = some c')
    (hplace : c'.loop.place ≠ .broken) :
    Tells R policy c'.loop (noted s c c' stays ev) := by
  cases ev with
  | advance =>
    rw [noted]
    rcases advance_cases hstep with ⟨hticking, hloop, -⟩ | ⟨hticking, halters⟩
    · rw [if_pos hticking]
      rw [hloop] at hplace ⊢
      exact tells_tick hpass h hplace
    · rw [if_neg hticking]
      exact tells_alters h halters
  | enroll e =>
    cases hstep
    exact tells_enroll hnew h e
  | _ => exact tells_alters h (others_alter hstep nofun nofun)

include hnew hpass in
/-- What holds of every new entry and is kept by every pass holds of the stays in all runs, up to a
tick that is cut short. -/
theorem tells_history {c c' : Interleaving α σ} {stays stays' : List (Stay α Wakes)}
    (h : Tells R policy c.loop stays) {events : List (LoopEvent α σ)}
    (hhistory : history s c stays events = some (c', stays')) (hplace : c'.loop.place ≠ .broken) :
    Tells R policy c'.loop stays' := by
  induction events generalizing c stays with
  | nil =>
    cases hhistory
    exact h
  | cons ev rest ih =>
    obtain ⟨c'', hstep, hrest⟩ := Option.bind_eq_some_iff.1 hhistory
    -- A thread that has broken down stays so, hence it has not yet.
    have hplace'' : c''.loop.place ≠ .broken := fun hbroken =>
      hplace (history_of_broken hbroken hrest)
    exact ih (tells_step hnew hpass h hstep hplace'') hrest

end

theorem tells_create (R : Stay α Wakes → Entry α → Prop) (id : Nat) (o : LoopOptions)
    (now : Timestamp) : Tells R o.policy (RunLoop.create id o now : RunLoop α) [] :=
  ⟨rfl, Roster.follows_empty o.policy⟩

end Interleaving

end Cadence
