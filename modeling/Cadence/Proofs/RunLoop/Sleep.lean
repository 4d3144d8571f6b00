import Cadence.Proofs.RunLoop.Frame
import Cadence.Proofs.RunLoop.Moves

/-!
# Sleeping

The entries are under one lock and the flag that tells of a change under another, so a change may fall
anywhere between the thread's taking the flag down, its tick and its falling asleep.  `Watchful` is what
holds at every moment all the same: unless a change is still to be flagged, the flag is up or the thread
is about to tick, the thread does not mean to sleep beyond the time when some entry is due; and if it
sleeps while the flag is up, someone is about to rouse it.
-/

namespace Cadence

variable {α σ : Type}

namespace RunLoop

def dueTime (l : RunLoop α) (e : Entry α) : Int := l.lastWake.toNat + max 0 e.countdown

def InTime (l : RunLoop α) : Prop :=
  ∀ e ∈ l.roster.toList, (l.lastWake.toNat : Int) + l.interval ≤ l.dueTime e

/-! ## 1. In time -/

theorem InTime.of_keeps {l l' : RunLoop α} (h : l.InTime) (hkeeps : Keeps l l') : l'.InTime := by
  rw [InTime, hkeeps.roster, hkeeps.lastWake, hkeeps.interval]
  intro e he
  rw [dueTime, hkeeps.lastWake]
  exact h e he

theorem inTime_of_nil {l : RunLoop α} (h : l.roster.toList = []) : l.InTime := by
  rw [InTime, h]
  exact fun e he => by cases he

/-- A completed tick finds out how long no entry is due. -/
theorem inTime_tick {s : Surroundings α σ} {l : RunLoop α} {world : σ}
    {ms : List (Ticket × Entry α)} (hholds : l.roster.Holds ms) {o : TickOutcome}
    (ho : (l.roster.tick s.invoke ((s.now world).since l.lastWake) world).outcome = some o) :
    (l.tick s world).2.1.InTime ∧ (l.tick s world).2.1.interval ≤ (l.tick s world).2.1.maxWait := by
  obtain ⟨hroster, -, hmaxWait, -⟩ := tick_eq s l world
  obtain ⟨-, hinterval, -⟩ := tick_of_completed s l world ho
  have hswept := Roster.tick_swept hholds s.invoke ((s.now world).since l.lastWake) world
  obtain ⟨-, hmembers, hnext⟩ := Roster.tick_of_outcome hholds ho
  refine ⟨?_, ?_⟩
  · rw [InTime, hroster, hmembers.toList_eq]
    intro e he
    obtain ⟨m, hm, rfl⟩ := List.mem_map.1 he
    obtain ⟨c, hc, -, hleast⟩ := Roster.soonest_of_ne_nil (List.ne_nil_of_mem hm)
    have hle := hleast m hm
    rw [hnext, hc, Option.map_some, Option.getD_some] at hinterval
    rw [hinterval, dueTime]
    omega
  · rw [hinterval, hmaxWait]
    exact Nat.min_le_right _ _

end RunLoop

namespace Interleaving

/-! ## 2. At every moment -/

/-- Whoever changes the entries is heard of before the thread sleeps beyond their time. -/
structure Watchful (c : Interleaving α σ) : Prop where
  interval_le : c.loop.place ≠ .broken → c.loop.interval ≤ c.loop.maxWait
  inTime : c.loop.place ≠ .broken → c.loop.place ≠ .ticking → c.unflagged = 0 →
    c.loop.control.rescan = false → c.loop.InTime
  stop : c.loop.place = .asleep → c.loop.control.stop = false
  rescan : c.loop.place = .asleep → c.loop.control.rescan = true → 0 < c.unroused

theorem watchful_create (id : Nat) (o : LoopOptions) (now : Timestamp) (world : σ) :
    Watchful (quiet (RunLoop.create id o now : RunLoop α) world) where
  interval_le _ := Nat.zero_le _
  inTime _ _ _ _ := RunLoop.inTime_of_nil (Roster.holds_empty o.policy).toList_eq
  stop := nofun
  rescan := nofun

section

variable {c : Interleaving α σ} (h : Watchful c) {l : RunLoop α} {unflagged unroused : Nat}
  {stops : List StopCall} {world : σ}

include h

/-- What leaves the entries and the times alone has only to see to the flags. -/
theorem Watchful.of_keeps (hkeeps : RunLoop.Keeps c.loop l)
    (hseen : l.place ≠ .ticking → unflagged = 0 → l.control.rescan = false →
      c.loop.place ≠ .ticking ∧ c.unflagged = 0 ∧ c.loop.control.rescan = false)
    (hsleep : l.place = .asleep →
      l.control.stop = false ∧ (l.control.rescan = true → 0 < unroused)) :
    Watchful ⟨l, world, unflagged, unroused, stops⟩ where
  interval_le hplace := by
    rw [hkeeps.interval, hkeeps.maxWait]
    exact h.interval_le (hplace ∘ hkeeps.broken)
  inTime hplace hticking hunflagged hrescan := by
    have hbefore := hseen hticking hunflagged hrescan
    exact (h.inTime (hplace ∘ hkeeps.broken) hbefore.1 hbefore.2.1 hbefore.2.2).of_keeps hkeeps
  stop hplace := (hsleep hplace).1
  rescan hplace := (hsleep hplace).2

/-- A step that leaves the flags and the thread alone too. -/
theorem Watchful.of_same (hkeeps : RunLoop.Keeps c.loop l) (hplace : l.place = c.loop.place)
    (hcontrol : l.control = c.loop.control) :
    Watchful ⟨l, world, c.unflagged, c.unroused, stops⟩ := by
  apply h.of_keeps hkeeps
  · rw [hplace, hcontrol]
    exact fun hticking hunflagged hrescan => ⟨hticking, hunflagged, hrescan⟩
  · rw [hplace, hcontrol]
    exact fun hasleep => ⟨h.stop hasleep, h.rescan hasleep⟩

/-- A step from which the thread does not sleep, and which does not bring it past a tick. -/
theorem Watchful.of_awake (hkeeps : RunLoop.Keeps c.loop l) (hawake : l.place ≠ .asleep)
    (hticking : c.loop.place = .ticking → l.place = .ticking)
    (hrescan : l.control.rescan = c.loop.control.rescan) :
    Watchful ⟨l, world, c.unflagged, unroused, stops⟩ := by
  apply h.of_keeps hkeeps
  · rw [hrescan]
    exact fun hplace hunflagged hdown => ⟨hplace ∘ hticking, hunflagged, hdown⟩
  · exact fun hasleep => absurd hasleep hawake

theorem Watchful.of_rouse (hkeeps : RunLoop.Keeps c.loop l) (hplace : l.place = c.loop.place)
    (hrescan : l.control.rescan = c.loop.control.rescan) :
    Watchful ⟨l.rouse, world, c.unflagged, unroused, stops⟩ := by
  apply h.of_awake (hkeeps.trans (RunLoop.keeps_rouse l))
  · exact RunLoop.rouse_ne_asleep l
  · rw [RunLoop.rouse_eq_iff l (by decide) (by decide), hplace]
    exact fun hticking => hticking
  · rw [RunLoop.control_rouse, hrescan]

/-- A change that is still to be flagged may be any. -/
theorem Watchful.of_changed (r : Roster α) :
    Watchful ⟨{ c.loop with roster := r }, world, c.unflagged + 1, c.unroused, stops⟩ where
  interval_le := h.interval_le
  inTime _ _ hunflagged := absurd hunflagged (Nat.succ_ne_zero _)
  stop := h.stop
  rescan := h.rescan

/-- Without entries there is nothing to be in time for. -/
theorem Watchful.of_emptied (hkeeps : RunLoop.Keeps { c.loop with roster := c.loop.roster.clear } l)
    (hsleep : l.place = .asleep →
      l.control.stop = false ∧ (l.control.rescan = true → 0 < unroused)) :
    Watchful ⟨l, world, unflagged, unroused, stops⟩ := by
  constructor
  case interval_le =>
    intro hplace
    rw [hkeeps.interval, hkeeps.maxWait]
    exact h.interval_le (hplace ∘ hkeeps.broken)
  case inTime =>
    intro _ _ _ _
    apply RunLoop.inTime_of_nil
    rw [hkeeps.roster]
    exact Roster.toList_clear c.loop.roster
  case stop => exact fun hplace => (hsleep hplace).1
  case rescan => exact fun hplace => (hsleep hplace).2

end

variable {s : RunLoop.Surroundings α σ} {c c' : Interleaving α σ} {ev : LoopEvent α σ}

/-- After a tick the thread means to sleep until the first entry is due, at most. -/
theorem watchful_tick {ms : List (Ticket × Entry α)} (hholds : c.loop.roster.Holds ms) :
    Watchful { c with
      loop := (c.loop.tick s c.world).2.1
      world := (c.loop.tick s c.world).2.2 } := by
  cases ho : (c.loop.roster.tick s.invoke ((s.now c.world).since c.loop.lastWake) c.world).outcome with
  | none =>
    have hplace := (RunLoop.tick_of_cutShort s c.loop c.world ho).2
    constructor
    case interval_le => exact fun hbroken => absurd hplace hbroken
    case inTime => exact fun hbroken => absurd hplace hbroken
    case stop => exact fun hasleep => by simp [hplace] at hasleep
    case rescan => exact fun hasleep => by simp [hplace] at hasleep
  | some o =>
    have hplace := (RunLoop.tick_of_completed s c.loop c.world ho).2.2
    have hintime := RunLoop.inTime_tick hholds ho
    constructor
    case interval_le => exact fun _ => hintime.2
    case inTime => exact fun _ _ _ _ => hintime.1
    case stop => exact fun hasleep => by simp [hplace] at hasleep
    case rescan => exact fun hasleep => by simp [hplace] at hasleep

/-- Every step keeps watch, wherever it falls. -/
theorem watchful_move {ms : List (Ticket × Entry α)} (hholds : c.loop.roster.Holds ms)
    (h : Watchful c) (hmove : Move s c ev c') : Watchful c' := by
  cases hmove with
  | comeUp hplace =>
    apply h.of_awake (RunLoop.keeps_comeUp hplace)
    · exact RunLoop.comeUp_ne_asleep c.loop
    · simp [hplace]
    · exact RunLoop.rescan_comeUp c.loop
  | relock hplace =>
    apply h.of_awake (RunLoop.keeps_relock hplace)
    · simp [RunLoop.relock]
    · simp [hplace]
    · rfl
  | decide hplace =>
    apply h.of_keeps (RunLoop.keeps_sleepOrProceed hplace _)
    · intro _ hunflagged hrescan
      refine ⟨by simp [hplace], hunflagged, ?_⟩
      unfold RunLoop.sleepOrProceed at hrescan
      split at hrescan <;> exact hrescan
    · -- The thread falls asleep only where nothing has been asked or flagged.
      unfold RunLoop.sleepOrProceed
      split
      · rename_i hquiet
        simp only [Bool.and_eq_true, Bool.not_eq_true'] at hquiet
        intro _
        exact ⟨hquiet.1.1, fun hrescan => absurd hrescan (by simp [hquiet.1.2])⟩
      · exact fun hasleep => absurd hasleep (by simp)
  | awaken hplace =>
    apply h.of_awake (RunLoop.keeps_awaken hplace)
    · simp [RunLoop.awaken]
    · simp [hplace]
    · rfl
  | proceed hplace =>
    apply h.of_keeps (RunLoop.keeps_proceed hplace)
    · unfold RunLoop.proceed
      split
      · simp only [RunLoop.rescan_moveTo]
        exact fun _ hunflagged hrescan => ⟨by simp [hplace], hunflagged, hrescan⟩
      · -- Where the flag is taken down the thread is about to tick.
        exact fun hticking => absurd rfl hticking
    · exact fun hasleep => absurd hasleep (RunLoop.proceed_ne_asleep c.loop)
  | tick hplace => exact watchful_tick hholds
  | leave hplace =>
    apply h.of_emptied (RunLoop.keeps_leave hplace)
    exact fun hasleep => absurd hasleep (by simp [RunLoop.leave])
  | wake hplace => exact h.of_rouse (RunLoop.Keeps.refl _) rfl rfl
  | elapse world => exact h.of_same (RunLoop.Keeps.refl _) rfl rfl
  -- A change of the entries is not flagged yet, which is all that has to be known of it.
  | enroll e => exact h.of_changed _
  | dismiss hown hremoval => exact h.of_changed _
  | refuse hunknown => exact h.of_same (RunLoop.keeps_note _ _) rfl rfl
  | flag hsome hfree =>
    apply h.of_keeps (RunLoop.keeps_flagRescan c.loop)
    · exact fun _ _ hrescan => absurd hrescan (by simp [RunLoop.flagRescan])
    · exact fun hasleep => ⟨h.stop hasleep, fun _ => Nat.succ_pos _⟩
  | rouse hsome => exact h.of_rouse (RunLoop.Keeps.refl _) rfl rfl
  | claim hfirst => exact h.of_same (RunLoop.keeps_claim _) rfl rfl
  | late hclaimed => exact h.of_same (RunLoop.Keeps.refl _) rfl rfl
  | ask hcall hfree =>
    -- A request to stop wakes the thread.
    apply h.of_rouse
    · exact (RunLoop.keeps_control c.loop _).trans (RunLoop.keeps_moveTo _ _ _)
    · rw [RunLoop.place_moveTo]
    · rw [RunLoop.rescan_moveTo]
  | complete hcall hended =>
    apply h.of_awake (RunLoop.keeps_complete c.loop)
    · rw [RunLoop.place_complete]
      intro hasleep
      simp [hasleep, Place.isEnd] at hended
    · rw [RunLoop.place_complete]
      exact fun hticking => hticking
    · exact RunLoop.rescan_complete c.loop
  | conclude hcall =>
    apply h.of_emptied (RunLoop.keeps_conclude c.loop)
    rw [RunLoop.place_conclude, RunLoop.control_conclude]
    exact fun hasleep => ⟨h.stop hasleep, h.rescan hasleep⟩

theorem watchful_run {events : List (LoopEvent α σ)} (hholds : ∃ ms, c.loop.roster.Holds ms)
    (h : Watchful c) (hrun : c.run? s events = some c') : Watchful c' := by
  have hboth : (∃ ms, c'.loop.roster.Holds ms) ∧ Watchful c' := by
    apply run_induction _ ⟨hholds, h⟩ hrun
    rintro c c' ev ⟨⟨ms, hms⟩, h⟩ hstep
    exact ⟨holds_step hstep ⟨ms, hms⟩, watchful_move hms h (move_of_step hstep)⟩
  exact hboth.2

/-- However other threads come in between: if the thread sleeps and nobody is still to flag a change or
to rouse it, nothing has been asked or flagged, and the thread means to wake no later than its longest
sleep allows and no later than any entry is due. -/
theorem no_change_slept_through (s : RunLoop.Surroundings α σ) {id : Nat} {o : LoopOptions}
    {now : Timestamp} {first : σ} {events : List (LoopEvent α σ)} {c : Interleaving α σ}
    (hrun : (quiet (RunLoop.create id o now) first).run? s events = some c)
    (hasleep : c.loop.place = .asleep) (hunflagged : c.unflagged = 0) (hunroused : c.unroused = 0) :
    c.loop.control.stop = false ∧ c.loop.control.rescan = false ∧
      c.loop.interval ≤ c.loop.maxWait ∧
      c.loop.deadline.toNat ≤ c.loop.lastWake.toNat + c.loop.interval ∧
      ∀ e ∈ c.loop.roster.toList,
        (c.loop.lastWake.toNat : Int) + c.loop.interval ≤ c.loop.dueTime e := by
  have hwatchful : Watchful c :=
    watchful_run ⟨[], Roster.holds_empty o.policy⟩ (watchful_create id o now first) hrun
  have hrescan : c.loop.control.rescan = false := by
    rw [← Bool.not_eq_true]
    intro hup
    have hpos := hwatchful.rescan hasleep hup
    omega
  refine ⟨hwatchful.stop hasleep, hrescan, ?_, ?_, ?_⟩
  · exact hwatchful.interval_le (by simp [hasleep])
  · rw [RunLoop.deadline, Timestamp.toNat_after]
    omega
  · exact hwatchful.inTime (by simp [hasleep]) (by simp [hasleep]) hunflagged hrescan

/-- An entry that is registered after a tick, when the thread has already found out how long to sleep.
The change is flagged when it sleeps. -/
def betweenTickAndSleep : List (LoopEvent Unit Timestamp) :=
  [.advance, .advance, .advance, .advance, .enroll ⟨(), 50000, 10000, by decide⟩, .advance, .advance,
    .flag, .rouse, .advance, .advance, .advance, .advance, .advance]

/-- The thread sleeps again in the end, no longer for a second but until the entry is due. -/
theorem no_change_slept_through_of_late_entry :
    ∃ c, (quiet (RunLoop.create 1 ⟨"", Duration.second, .catchUp, 0⟩ 0) 0).run? instantly
        betweenTickAndSleep = some c ∧
      c.loop.place = .asleep ∧ c.loop.deadline = 10000 ∧ c.loop.maxWait = 1000000 ∧
      c.loop.control.rescan = false ∧ c.loop.entryCount = 1 ∧
      ∀ e ∈ c.loop.roster.toList,
        (c.loop.lastWake.toNat : Int) + c.loop.interval ≤ c.loop.dueTime e := by
  have hrun : ∃ c, (quiet (RunLoop.create 1 ⟨"", Duration.second, .catchUp, 0⟩ 0) 0).run? instantly
        betweenTickAndSleep = some c ∧
      c.loop.place = .asleep ∧ c.loop.deadline = 10000 ∧ c.loop.maxWait = 1000000 ∧
      c.loop.entryCount = 1 ∧ c.unflagged = 0 ∧ c.unroused = 0 := by
    refine ⟨_, rfl, ?_⟩
    decide +kernel
  obtain ⟨c, hrun, hasleep, hdeadline, hmaxWait, hcount, hunflagged, hunroused⟩ := hrun
  have hheard := no_change_slept_through instantly hrun hasleep hunflagged hunroused
  exact ⟨c, hrun, hasleep, hdeadline, hmaxWait, hheard.2.1, hcount, hheard.2.2.2.2⟩

end Interleaving

end Cadence
