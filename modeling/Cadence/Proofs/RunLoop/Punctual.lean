import Cadence.Proofs.Pass
import Cadence.Proofs.RunLoop.Frame

/-!
# Punctual wakes

A loop whose thread wakes exactly when it means to, with callbacks that take no time.  It never sleeps
beyond the next turn of any entry, so every entry is invoked at the points of its grid and at no other
time, whichever others there are.
-/

namespace Cadence

variable {α σ : Type}

def RunLoop.Surroundings.recording (act : Float → α → σ → α × σ) :
    RunLoop.Surroundings (α × List Timestamp) (Timestamp × σ) where
  invoke seconds c world :=
    let did := act seconds c.1 world.2
    ⟨(did.1, c.2 ++ [world.1]), (world.1, did.2), false, false⟩
  now := Prod.fst

namespace Entry

def record (e : Entry (α × List Timestamp)) : List Timestamp := e.callback.2

/-! ## 1. One entry -/

/-- An entry has been invoked at the first `turns` points of its grid, and its countdown leads to the
next one. -/
structure OnTime (start : Timestamp) (time turns : Nat) (first e : Entry (α × List Timestamp)) :
    Prop extends AtTurn first e time turns where
  record : e.record = first.record ++
    (List.range turns).map fun n => start.after (first.phase + n * first.period)

theorem OnTime.start {first : Entry (α × List Timestamp)} (h : first.Fits) (start : Timestamp) :
    OnTime start 0 0 first first :=
  ⟨.start h, (List.append_nil _).symm⟩

/-- An entry that is due on the dot waits for one period, under either policy. -/
theorem rearm_zero (policy : Policy) {period : Nat} (h : period ≤ maxSigned) :
    policy.rearm period 0 = period := by
  cases policy with
  | catchUp =>
    rw [rearm_catchUp h (Int.le_refl 0) (by omega)]
    omega
  | skipMissed =>
    show (if (0 : Int) % period = 0 then (period : Int) else 0 % period) = period
    rw [if_pos (Int.zero_emod _)]

/-- If a wake does not come later than the next point of the grid, the entry is invoked if and only if
it comes at that point. -/
theorem OnTime.pass {start : Timestamp} {time turns delta : Nat}
    {first e : Entry (α × List Timestamp)} (h : OnTime start time turns first e)
    (hfits : first.Fits) (hearly : (delta : Int) ≤ e.countdown) (policy : Policy)
    (act : Float → α → σ → α × σ) (seconds : Float) {world : Timestamp × σ}
    (hnow : world.1 = start.after (time + delta)) :
    OnTime start (time + delta) (gridCount first.phase first.period (time + delta)) first
      (e.pass policy ((RunLoop.Surroundings.recording act).invoke seconds) delta world).entry := by
  have hhigh := h.countdown_le_maxSigned hfits
  have helapsed : AtTurn first (e.elapse delta) (time + delta) turns :=
    h.elapse hfits (by omega) (by omega)
  by_cases hdue : (e.elapse delta).countdown ≤ 0
  · -- The wake does not come later than the point, so it comes at the point.
    have hleft := helapsed.countdown
    have hdot : (e.elapse delta).countdown = 0 := by
      rw [h.countdown] at hearly
      omega
    have hpoint : time + delta = first.phase + turns * first.period := by omega
    have hrearm : policy.rearm e.period (e.elapse delta).countdown = e.period := by
      rw [hdot, rearm_zero policy (by rw [h.period]; exact hfits.period_le)]
    have hdone : (e.pass policy ((RunLoop.Surroundings.recording act).invoke seconds) delta
        world).breaksDown = false := pass_completes fun _ _ => rfl
    have hlater : AtTurn first _ _ (turns + 1) :=
      helapsed.pass_of_due hdue hdone (by rw [hrearm]; omega) (Int.le_of_eq hrearm)
    -- An entry that has just started again has had all turns so far.
    have hcount : gridCount first.phase first.period (time + delta) = turns + 1 := by
      apply hlater.gridCount_eq
      rw [pass_of_due hdue hdone]
      show 0 < policy.rearm e.period _
      rw [hrearm]
      exact Int.natCast_pos.2 e.period_pos
    rw [hcount]
    refine ⟨hlater, ?_⟩
    rw [pass_of_due hdue hdone]
    show e.record ++ [world.1] = _
    rw [h.record, List.range_succ, List.map_append, List.append_assoc, hnow, hpoint]
    rfl
  · rw [pass_of_waiting (Int.not_le.1 hdue), helapsed.gridCount_eq (Int.not_le.1 hdue)]
    exact ⟨helapsed, h.record⟩

/-- Until the next point of the grid nothing is missing from the record. -/
theorem OnTime.record_eq {start : Timestamp} {time horizon : Nat}
    {first e : Entry (α × List Timestamp)}
    (h : OnTime start time (gridCount first.phase first.period time) first e)
    (hreached : time ≤ horizon) (hnext : (horizon : Int) < time + e.countdown) :
    e.record =
      first.record ++ (gridPoints first.phase first.period horizon).map fun p => start.after p := by
  have hcount : gridCount first.phase first.period horizon =
      gridCount first.phase first.period time := by
    rw [h.countdown] at hnext
    apply Nat.le_antisymm
    · rw [gridCount_le_iff first.period_pos]
      omega
    · exact gridCount_mono first.period_pos hreached
  rw [h.record, gridPoints, hcount, List.map_map]
  rfl

end Entry

namespace RunLoop

/-! ## 2. Coming round -/

def Ready (l : RunLoop α) : Prop := l.place = .ticking ∧ l.control.stop = false

theorem settle_of_ready {l : RunLoop α} (h : l.Ready) (now : Timestamp) (steps : Nat) :
    l.settle now steps = l := by
  cases steps with
  | zero => rfl
  | succ steps =>
    rw [settle]
    simp only [h.1]

theorem settle_of_proceeding {l : RunLoop α} (hplace : l.place = .proceeding)
    (hstop : l.control.stop = false) (now : Timestamp) (steps : Nat) :
    Keeps l (l.settle now (steps + 1)) ∧ (l.settle now (steps + 1)).Ready := by
  have hproceed : l.proceed.Ready := by
    rw [proceed, hstop]
    exact ⟨rfl, hstop⟩
  have hsettle : l.settle now (steps + 1) = l.proceed := by
    rw [settle]
    simp only [hplace]
    exact settle_of_ready hproceed now steps
  rw [hsettle]
  exact ⟨keeps_proceed hplace, hproceed⟩

/-- Nobody else is there, so the thread sleeps, is woken and goes on to tick. -/
theorem settle_of_deciding {l : RunLoop α} (hplace : l.place = .deciding)
    (hstop : l.control.stop = false) (now : Timestamp) (steps : Nat) :
    Keeps l (l.settle now (steps + 4)) ∧ (l.settle now (steps + 4)).Ready := by
  let l' : RunLoop α := { l with place := .proceeding }
  have hsettle : l.settle now (steps + 4) = (l.sleepOrProceed now).settle now (steps + 3) := by
    rw [settle]
    simp only [hplace]
  obtain ⟨n, hn⟩ : ∃ n, l.settle now (steps + 4) = l'.settle now (n + 1) := by
    rw [hsettle, sleepOrProceed]
    split
    · -- The thread sleeps, and is roused before it proceeds.
      exact ⟨steps, rfl⟩
    · exact ⟨steps + 2, rfl⟩
  obtain ⟨hkeeps, hready⟩ := settle_of_proceeding (l := l') rfl hstop now n
  rw [hn]
  exact ⟨.of_place hplace (by decide) hkeeps.roster hkeeps.lastWake hkeeps.interval hkeeps.maxWait
    hkeeps.metrics, hready⟩

/-! ## 3. The start -/

def enlist (l : RunLoop α) (es : List (Entry α)) : RunLoop α :=
  es.foldl (fun l e => (l.enroll e).2.flagRescan.rouse) l

def begun (id : Nat) (o : LoopOptions) (now : Timestamp) (es : List (Entry α)) : RunLoop α :=
  ((create id o now).enlist es).settle now cycleLength

structure Waits (now : Timestamp) (l : RunLoop α) : Prop where
  place : l.place = .starting
  lifecycle : l.control.lifecycle = Lifecycle.new
  stop : l.control.stop = false
  lastWake : l.lastWake = now
  interval : l.interval = 0

/-- Registrations leave a thread that waits where it is. -/
theorem waits_enlist {now : Timestamp} {l : RunLoop α} (h : Waits now l) (es : List (Entry α)) :
    Waits now (l.enlist es) := by
  induction es generalizing l with
  | nil => exact h
  | cons e rest ih =>
    apply ih
    -- There is nobody to rouse yet.
    have hplace : (l.enroll e).2.flagRescan.place ≠ .asleep := by
      show l.place ≠ .asleep
      rw [h.place]
      decide
    have hrouse : (l.enroll e).2.flagRescan.rouse = (l.enroll e).2.flagRescan := if_neg hplace
    show Waits now (l.enroll e).2.flagRescan.rouse
    rw [hrouse]
    exact ⟨h.place, h.lifecycle, h.stop, h.lastWake, h.interval⟩

/-- The entries registered one after the other are followed from their registration on. -/
theorem follows_enlist {ω : Type} {R : Stay α ω → Entry α → Prop} {l : RunLoop α}
    {stays : List (Stay α ω)} (h : l.roster.Follows R stays) {es : List (Entry α)} (notes : ω)
    (hnew : ∀ e ∈ es, ∀ t, R ⟨t, e, notes⟩ e) :
    ∃ stays', stays'.map Stay.entry = stays.map Stay.entry ++ es ∧
      (l.enlist es).roster.Follows R stays' := by
  induction es generalizing l stays with
  | nil => exact ⟨stays, (List.append_nil _).symm, h⟩
  | cons e rest ih =>
    rw [List.forall_mem_cons] at hnew
    let s : Stay α ω := ⟨(l.roster.insert e).1, e, notes⟩
    have hinserted := Roster.follows_insert (s := s) h rfl (hnew.1 _)
    have hkeeps := keeps_rouse (l.enroll e).2.flagRescan
    have hroster : (l.enroll e).2.flagRescan.rouse.roster.Follows R (stays ++ [s]) := by
      rw [hkeeps.roster]
      exact hinserted
    obtain ⟨stays', hentries, hfollows⟩ := ih hroster hnew.2
    refine ⟨stays', ?_, hfollows⟩
    rw [hentries, List.map_append, List.append_assoc]
    rfl

/-- When the thread of such a loop is about to tick for the first time, no time has passed. -/
theorem begun_spec (id : Nat) (o : LoopOptions) (now : Timestamp) (es : List (Entry α)) :
    (begun id o now es).Ready ∧ (begun id o now es).lastWake = now ∧
      (begun id o now es).interval = 0 ∧
      (begun id o now es).roster = ((create id o now).enlist es).roster := by
  have hcreated : Waits now (create id o now : RunLoop α) := ⟨rfl, rfl, rfl, rfl, rfl⟩
  have hwaits := waits_enlist hcreated es
  unfold begun
  generalize (create id o now).enlist es = l at hwaits ⊢
  -- Once up, the thread is about to decide whether to sleep.
  have hup : l.comeUp.place = .deciding ∧ l.comeUp.control.stop = false := by
    unfold comeUp
    rw [hwaits.lifecycle]
    exact ⟨rfl, hwaits.stop⟩
  have hsettle : l.settle now cycleLength = l.comeUp.settle now 7 := by
    rw [cycleLength, settle]
    simp only [hwaits.place]
  obtain ⟨hkeeps, hready⟩ := settle_of_deciding hup.1 hup.2 now 3
  have hkept := (keeps_comeUp hwaits.place).trans hkeeps
  rw [hsettle]
  exact ⟨hready, hkept.lastWake.trans hwaits.lastWake, hkept.interval.trans hwaits.interval,
    hkept.roster⟩

/-! ## 4. Wake after wake -/

/-- Wake whenever the loop means to, until it means to sleep beyond the horizon, but so many times at
most. -/
def drive (act : Float → α → σ → α × σ) (horizon : Nat) :
    Nat → RunLoop (α × List Timestamp) → σ → RunLoop (α × List Timestamp)
  | 0, l, _ => l
  | most + 1, l, world =>
    if horizon < l.lastWake.toNat + l.interval then l
    else
      let (_, l', world') := l.tick (.recording act) (l.deadline, world)
      drive act horizon most (l'.settle l.deadline cycleLength) world'.2

structure Awaits (start : Timestamp) (time interval : Nat)
    (s : Stay (α × List Timestamp) Unit) (e : Entry (α × List Timestamp)) : Prop where
  fits : s.entry.Fits
  onTime : ∃ turns, Entry.OnTime start time turns s.entry e
  inTime : (interval : Int) ≤ e.countdown

structure OnSchedule (start : Timestamp) (es : List (Entry (α × List Timestamp))) (time : Nat)
    (l : RunLoop (α × List Timestamp)) : Prop where
  ready : l.Ready
  lastWake : l.lastWake.toNat = start.toNat + time
  entries : ∃ stays : List (Stay (α × List Timestamp) Unit), stays.map Stay.entry = es ∧
    l.roster.Follows (Awaits start time l.interval) stays

/-- After a wake every entry has been invoked at all points of its grid so far, and the next one lies
ahead. -/
structure Awaiting (start : Timestamp) (time : Nat) (s : Stay (α × List Timestamp) Unit)
    (e : Entry (α × List Timestamp)) : Prop where
  fits : s.entry.Fits
  onTime : Entry.OnTime start time (gridCount s.entry.phase s.entry.period time) s.entry e

theorem Awaiting.countdown_pos {start : Timestamp} {time : Nat}
    {s : Stay (α × List Timestamp) Unit} {e : Entry (α × List Timestamp)}
    (h : Awaiting start time s e) : 0 < e.countdown := by
  have hahead : time < s.entry.phase +
      gridCount s.entry.phase s.entry.period time * s.entry.period :=
    (gridCount_le_iff s.entry.period_pos _ time).1 (Nat.le_refl _)
  rw [h.onTime.countdown]
  omega

structure Woken (start : Timestamp) (es : List (Entry (α × List Timestamp))) (time : Nat)
    (l : RunLoop (α × List Timestamp)) : Prop where
  ready : l.Ready
  lastWake : l.lastWake.toNat = start.toNat + time
  interval_pos : 0 < l.interval
  entries : ∃ stays : List (Stay (α × List Timestamp) Unit), stays.map Stay.entry = es ∧
    l.roster.Follows (fun s e => Awaiting start time s e ∧ (l.interval : Int) ≤ e.countdown) stays

theorem Woken.onSchedule {start : Timestamp} {es : List (Entry (α × List Timestamp))} {time : Nat}
    {l : RunLoop (α × List Timestamp)} (h : Woken start es time l) : OnSchedule start es time l := by
  obtain ⟨stays, hentries, ms, hholds, hstays⟩ := h.entries
  refine ⟨h.ready, h.lastWake, stays, hentries, ms, hholds, hstays.imp fun s m hsm => ?_⟩
  obtain ⟨hticket, hawaiting, hle⟩ := hsm
  exact ⟨hticket, hawaiting.fits, ⟨_, hawaiting.onTime⟩, hle⟩

theorem onSchedule_begun (id : Nat) (o : LoopOptions) (start : Timestamp)
    {es : List (Entry (α × List Timestamp))} (hes : ∀ e ∈ es, e.Fits) :
    OnSchedule start es 0 (begun id o start es) ∧ (begun id o start es).interval = 0 := by
  obtain ⟨hready, hlastWake, hinterval, hroster⟩ := begun_spec id o start es
  refine ⟨⟨hready, by rw [hlastWake]; rfl, ?_⟩, hinterval⟩
  rw [hinterval, hroster]
  have hnew : ∀ e ∈ es, ∀ t, Awaits start 0 0 ⟨t, e, ()⟩ e := fun e he t =>
    ⟨hes e he, ⟨0, Entry.OnTime.start (hes e he) start⟩, (hes e he).nonneg⟩
  exact follows_enlist (l := create id o start) (Roster.follows_empty o.policy) () hnew

section

variable {start : Timestamp} {es : List (Entry (α × List Timestamp))} {time : Nat}
  {l : RunLoop (α × List Timestamp)} (h : OnSchedule start es time l)

include h

theorem OnSchedule.delta_eq (hclock : start.toNat + time + l.interval ≤ maxWord) :
    l.deadline.since l.lastWake = l.interval := by
  rw [deadline, Timestamp.since, Timestamp.toNat_after, h.lastWake, Nat.min_eq_left hclock]
  omega

theorem OnSchedule.deadline_eq : l.deadline = start.after (time + l.interval) := by
  rw [← UInt64.toNat_inj, deadline, Timestamp.toNat_after, Timestamp.toNat_after, h.lastWake,
    Nat.add_assoc]

theorem OnSchedule.tick (act : Float → α → σ → α × σ) (world : σ) :
    let t := l.roster.tick (Surroundings.recording act).invoke l.interval (l.deadline, world)
    ∃ o, t.outcome = some o ∧ t.stopAsked = false ∧
      0 < min (o.nextDue.getD l.maxWait) l.maxWait ∧
      ∃ stays : List (Stay (α × List Timestamp) Unit), stays.map Stay.entry = es ∧
        t.roster.Follows (fun s e => Awaiting start (time + l.interval) s e ∧
          (min (o.nextDue.getD l.maxWait) l.maxWait : Nat) ≤ e.countdown) stays := by
  intro t
  obtain ⟨stays, hentries, hfollows⟩ := h.entries
  obtain ⟨ms, hholds⟩ := hfollows.holds
  obtain ⟨hwhole, hstop⟩ : t.cutShort = false ∧ t.stopAsked = false :=
    Roster.tick_uneventful hholds _ _ fun _ _ _ => ⟨rfl, rfl⟩
  -- No callback moves the clock, so all of them run at the deadline.
  have hticked : t.roster.Follows (Awaiting start (time + l.interval)) (stays.map fun s => s) := by
    refine Roster.follows_tick (fun w => w.1 = l.deadline) hfollows (fun _ _ hw => hw) rfl hwhole
      (fun _ => rfl) fun s e w hs hw _ => ⟨hs.fits, ?_⟩
    obtain ⟨turns, honTime⟩ := hs.onTime
    exact honTime.pass hs.fits hs.inTime _ act _ (hw.trans h.deadline_eq)
  rw [List.map_id'] at hticked
  have houtcome : t.outcome = some ⟨t.fired, t.soonest.map Int.toNat⟩ := by
    rw [TickState.outcome, hwhole]
    rfl
  obtain ⟨hpos, hle⟩ := hfollows.nextDue_le houtcome hticked (fun _ _ hs => hs.countdown_pos)
    l.maxWait_pos
  exact ⟨_, houtcome, hstop, hpos, stays, hentries, hle⟩

/-- A wake at the time at which the loop means to wake. -/
theorem OnSchedule.wake (hclock : start.toNat + time + l.interval ≤ maxWord)
    (act : Float → α → σ → α × σ) (world : σ) :
    Woken start es (time + l.interval)
      ((l.tick (.recording act) (l.deadline, world)).2.1.settle l.deadline cycleLength) := by
  obtain ⟨o, ho, hstop, hpos, hentries⟩ := h.tick act world
  let s : Surroundings (α × List Timestamp) (Timestamp × σ) := .recording act
  let ticked := (l.tick s (l.deadline, world)).2.1
  have hdelta : (s.now (l.deadline, world)).since l.lastWake = l.interval := h.delta_eq hclock
  have htick := tick_eq s l (l.deadline, world)
  have hcompleted := tick_of_completed s l (l.deadline, world) (by rw [hdelta]; exact ho)
  have hcontrol := control_tick s l (l.deadline, world) (by rw [hdelta]; exact hstop)
  rw [hdelta] at htick
  obtain ⟨hroster, hlastWake, -, -⟩ := htick
  obtain ⟨-, hinterval, hplace⟩ := hcompleted
  -- The thread comes round to the same place.
  have hsettle : ticked.settle l.deadline cycleLength = ticked.relock.settle l.deadline 7 := by
    rw [cycleLength, settle]
    simp only [ticked, hplace]
  obtain ⟨hkeeps, hready⟩ := settle_of_deciding (l := ticked.relock) rfl
    (by show ticked.control.stop = false; rw [hcontrol]; exact h.ready.2) l.deadline 3
  have hinterval' : (ticked.relock.settle l.deadline 7).interval =
      min (o.nextDue.getD l.maxWait) l.maxWait := hkeeps.interval.trans hinterval
  show Woken _ _ _ (ticked.settle _ _)
  rw [hsettle]
  refine ⟨hready, ?_, ?_, ?_⟩
  · rw [hkeeps.lastWake]
    show ticked.lastWake.toNat = _
    rw [hlastWake]
    show l.deadline.toNat = _
    rw [h.deadline_eq, Timestamp.toNat_after]
    omega
  · rw [hinterval']
    exact hpos
  · rw [hinterval', hkeeps.roster]
    show ∃ stays, _ ∧ ticked.roster.Follows _ stays
    rw [hroster]
    exact hentries

end

/-! ## 5. Up to the horizon -/

/-- Each wake is a microsecond later than the one before it at least, so that `most` of them lead to
the horizon. -/
theorem Woken.drive {start : Timestamp} {es : List (Entry (α × List Timestamp))} {time : Nat}
    {l : RunLoop (α × List Timestamp)} (h : Woken start es time l) {horizon : Nat}
    (hle : time ≤ horizon) (hclock : start.toNat + horizon ≤ maxWord) {most : Nat}
    (hmost : horizon ≤ time + most) (act : Float → α → σ → α × σ) (world : σ) :
    ∃ time', Woken start es time' (drive act (start.toNat + horizon) most l world) ∧
      time' ≤ horizon ∧
      horizon < time' + (RunLoop.drive act (start.toNat + horizon) most l world).interval := by
  -- Every wake moves the time on, so the horizon comes nearer.
  induction most generalizing l time world with
  | zero =>
    have hpos := h.interval_pos
    exact ⟨time, h, hle, by show horizon < time + l.interval; omega⟩
  | succ most ih =>
    have hpos := h.interval_pos
    have hlast := h.lastWake
    rw [RunLoop.drive]
    split
    · exact ⟨time, h, hle, by omega⟩
    · exact ih (h.onSchedule.wake (by omega) act world) (by omega) (by omega) _

/-- When a loop wakes exactly when it means to and callbacks take no time, an entry is invoked at the
points of its grid and at no other time, whatever the policy, the longest sleep and the other entries
are.  The loop sleeps beyond any horizon after a number of wakes that the horizon limits. -/
theorem punctual_wakes_keep_schedule (act : Float → α → σ → α × σ) (id : Nat) (o : LoopOptions)
    (start : Timestamp) {es : List (Entry (α × List Timestamp))} (hes : ∀ e ∈ es, e.Fits)
    {horizon : Nat} (hclock : start.toNat + horizon ≤ maxWord) {most : Nat} (hmost : horizon < most)
    (world : σ) :
    let l := drive act (start.toNat + horizon) most (begun id o start es) world
    l.place = .ticking ∧ l.lastWake.toNat ≤ start.toNat + horizon ∧
      start.toNat + horizon < l.lastWake.toNat + l.interval ∧
      l.roster.toList.map Entry.record = es.map fun e =>
        e.record ++ (gridPoints e.phase e.period horizon).map fun p => start.after p := by
  intro l
  obtain ⟨hbegun, hinterval⟩ := onSchedule_begun id o start hes
  -- The first wake comes at once, as nothing has been due before.
  obtain ⟨most, rfl⟩ : ∃ n, most = n + 1 := Nat.exists_eq_add_one.2 (by omega)
  have hlast := hbegun.lastWake
  obtain ⟨time, hwoken, hle, hbeyond⟩ : ∃ time, Woken start es time l ∧ time ≤ horizon ∧
      horizon < time + l.interval := by
    have hfirst := hbegun.wake (by omega) act world
    rw [hinterval, Nat.add_zero] at hfirst
    simp only [l]
    rw [drive, if_neg (by omega)]
    exact hfirst.drive (Nat.zero_le _) hclock (by omega) act _
  obtain ⟨stays, rfl, hfollows⟩ := hwoken.entries
  have hwake := hwoken.lastWake
  refine ⟨hwoken.ready.1, by omega, by omega, ?_⟩
  rw [List.map_map]
  refine hfollows.map_toList fun s e hs => ?_
  obtain ⟨hawaiting, hnext⟩ := hs
  exact hawaiting.onTime.record_eq hle (by omega)

/-- Two rates over a tenth of a second. -/
theorem punctual_wakes_keep_two_rates :
    (drive (fun _ (a : Unit) (x : Unit) => (a, x)) 100000 100001
      (begun 1 ⟨"", Duration.second, .skipMissed, 0⟩ 0
        [⟨((), []), 10000, 3000, by decide⟩, ⟨((), []), 25000, 7000, by decide⟩]) ()).roster.toList.map
      Entry.record =
        [[3000, 13000, 23000, 33000, 43000, 53000, 63000, 73000, 83000, 93000],
          [7000, 32000, 57000, 82000]] := by
  have hes : ∀ e ∈ ([⟨((), []), 10000, 3000, by decide⟩, ⟨((), []), 25000, 7000, by decide⟩] :
      List (Entry (Unit × List Timestamp))), e.Fits := by
    rw [List.forall_mem_cons, List.forall_mem_singleton]
    exact ⟨⟨by decide, by decide, by decide⟩, ⟨by decide, by decide, by decide⟩⟩
  have hclock : (0 : Timestamp).toNat + 100000 ≤ maxWord := by decide
  have hmost : 100000 < 100001 := by decide
  obtain ⟨-, -, -, hrecords⟩ := punctual_wakes_keep_schedule
    (fun _ (a : Unit) (x : Unit) => (a, x)) 1 ⟨"", Duration.second, .skipMissed, 0⟩ 0 hes hclock
    hmost ()
  exact hrecords.trans (by decide)

end RunLoop

end Cadence
