import Cadence.Proofs.RunLoop.Stopping

/-!
# Loops that their own callbacks stop

A callback that is the first to ask its loop to stop leaves everything else to the thread.  If nothing
breaks down in that tick, the thread completes the lifecycle and drops the entries on its way out.  If
that callback or a later one breaks down, nobody ever does: the loop stays as it is, and whoever asks
it to stop learns nothing of the breakdown (`Stuck`).  Where somebody outside has asked before, that
call completes the lifecycle in either case and returns what became of the thread.

`own_stop` tells these cases apart, and `own_stop_left_undone` has a loop that gets stuck.
-/

namespace Cadence.Interleaving

variable {α σ : Type} {s : RunLoop.Surroundings α σ} {c c' : Interleaving α σ} {ev : LoopEvent α σ}
  {first : Caller}

/-! ## 1. On the way out -/

theorem Orderly.started (h : Orderly c first) : c.loop.place ≠ .starting := by
  intro hplace
  cases h.phase with
  | running hstate hstop hthere => simp [hplace, Place.inCycle] at hthere
  | stopping hstate hstop hclaimed hawake hthere => simp [hplace, Place.inCycle] at hthere
  | stopped hstate hstop hclaimed hout => simp [hplace, Place.isEnd] at hout

/-- A thread that is gone has completed the lifecycle before. -/
theorem state_of_gone (h : Orderly c first) (hgone : c.loop.place = .gone) :
    c.loop.state = .stopped := by
  cases h.phase with
  | running hstate hstop hthere => simp [hgone, Place.inCycle] at hthere
  | stopping hstate hstop hclaimed hawake hthere => simp [hgone, Place.inCycle] at hthere
  | stopped hstate hstop hclaimed hout => exact hstate

/-- The step with which it goes drops the entries. -/
theorem empty_of_leave {ms : List (Ticket × Entry α)} (h : Orderly c first)
    (hholds : c.loop.roster.Holds ms) (hstep : c.step? s .advance = some c')
    (hgone : c'.loop.place = .gone) : c'.loop.roster.Holds [] := by
  cases move_of_step hstep with
  | comeUp hplace => exact absurd hplace h.started
  | relock hplace => cases hgone
  | decide hplace =>
    have hthere : (c.loop.sleepOrProceed (s.now c.world)).place ≠ .gone := by
      unfold RunLoop.sleepOrProceed
      split <;> simp
    exact absurd hgone hthere
  | awaken hplace => cases hgone
  | proceed hplace =>
    have hthere : c.loop.proceed.place ≠ .gone := by
      unfold RunLoop.proceed
      split <;> simp
    exact absurd hgone hthere
  | tick hplace =>
    have hthere : (c.loop.tick s c.world).2.1.place ≠ .gone := by
      rw [RunLoop.place_tick]
      split <;> simp
    exact absurd hgone hthere
  | leave hplace => exact Roster.holds_clear hholds

/-! ## 2. The tick in question -/

/-- A callback that asks for something is the callback of an entry, and a tick drops none. -/
theorem entryCount_tick {ms : List (Ticket × Entry α)} (hholds : c.loop.roster.Holds ms)
    (hasks : (c.loop.sweepAt s c.world).stopAsked = true) :
    0 < (c.loop.tick s c.world).2.1.entryCount := by
  have hswept := Roster.tick_swept hholds s.invoke ((s.now c.world).since c.loop.lastWake) c.world
  have hlength := hswept.holds.length
  rw [RunLoop.entryCount, (RunLoop.tick_eq s c.loop c.world).1, hlength, List.nil_append,
    Roster.length_sweep]
  cases ms with
  | nil =>
    have hnobody : (c.loop.sweepAt s c.world).stopAsked = false := hswept.stopAsked
    rw [hnobody] at hasks
    cases hasks
  | cons m rest => exact Nat.succ_pos _

structure OwnAsked (c : Interleaving α σ) : Prop where
  state : c.loop.state = .stopping
  stop : c.loop.control.stop = true
  claimed : c.loop.unclaimed = false
  stops : c.stops = []

/-- When a callback is the first to ask, only a breakdown keeps the thread from its way out. -/
theorem ownAsked_tick (h : Orderly c first) (hunclaimed : c.loop.unclaimed = true)
    (hasks : CallsStop s c .advance) (hstep : c.step? s .advance = some c') :
    OwnAsked c' ∧ c'.loop.place =
      if (c.loop.sweepAt s c.world).cutShort then .broken else .returning := by
  obtain ⟨hticking, hasked⟩ := hasks
  have hfirst : c.loop.isAsked s c.world = true := by
    rw [RunLoop.isAsked, hasked, hunclaimed]
    rfl
  have hcontrol := RunLoop.control_tick_eq s c.loop c.world
  rw [hfirst, if_pos rfl] at hcontrol
  -- Nobody has asked before, so the loop is running and no call is under way.
  have hrunning : c.loop.state = .running := by
    cases h.phase with
    | running hstate hstop hthere => exact hstate
    | stopping hstate hstop hclaimed hawake hthere => simp [hunclaimed] at hclaimed
    | stopped hstate hstop hclaimed hout => simp [hunclaimed] at hclaimed
  have hstops : c.stops = [] := by
    cases h.calls with
    | nobody hunclaimed' hstops' => exact hstops'
    | callback hclaimed hstop hlate => simp [hunclaimed] at hclaimed
    | outside hclaimed hstops' hlate hsuits => simp [hunclaimed] at hclaimed
  rw [step?, advance?, hticking] at hstep
  cases hstep
  refine ⟨⟨?_, ?_, ?_, hstops⟩, RunLoop.place_tick s c.loop c.world⟩
  · exact RunLoop.state_of_allowed (congrArg Control.lifecycle hcontrol) (by rw [hrunning]; rfl)
  · exact congrArg Control.stop hcontrol
  · show (c.loop.tick s c.world).2.1.unclaimed = false
    rw [RunLoop.unclaimed_tick, hasked, Bool.not_true, Bool.and_false]

/-- Everybody is in order, and the thread does not tick any more once a callback has been the first to
ask. -/
def Sorted (c : Interleaving α σ) : Prop :=
  ∃ first, Orderly c first ∧ (first = .callback → stepsLeft c.loop.place ≤ 4)

/-- Everybody stays in order, whoever was the first to ask. -/
theorem sorted_step (h : Sorted c) (hstep : c.step? s ev = some c') : Sorted c' := by
  obtain ⟨first, h, hleft⟩ := h
  obtain ⟨first', h', hsame⟩ := orderly_step h hstep
  refine ⟨first', h', fun hcallback => ?_⟩
  subst hcallback
  rcases hsame with rfl | rfl
  · -- Then it is with this step that a callback asks.
    cases h'.calls with
    | callback hclaimed hstop hlate =>
      cases h.calls with
      | nobody hunclaimed hstops =>
        have hcalls := ((claimed_step hstep).1 hclaimed).resolve_left (by simp [hunclaimed])
        cases move_of_step hstep with
        | tick hplace =>
          rw [RunLoop.place_tick]
          split <;> decide
        | claim _ =>
          have hasking := hlate .asking (List.mem_append_right _ List.mem_cons_self)
          cases hasking
        | late hclaimed' => simp [hunclaimed] at hclaimed'
        | comeUp hplace | relock hplace | decide hplace | awaken hplace | proceed hplace
        | leave hplace =>
          simp [CallsStop, hplace] at hcalls
        | _ => exact hcalls.elim
  · cases h.calls with
    | callback hclaimed hstop hlate =>
      have hless := (stepsLeft_step hstop hstep).2
      have hbefore := hleft rfl
      omega

/-- If somebody has asked before a tick, that was outside. -/
theorem outside_of_ticking (h : Sorted c) (hticking : c.loop.place = .ticking)
    (hclaimed : c.loop.unclaimed = false) : Orderly c .outside := by
  obtain ⟨first, h, hleft⟩ := h
  cases first with
  | nobody =>
    cases h.calls with
    | nobody hunclaimed hstops => simp [hclaimed] at hunclaimed
  | callback =>
    rw [hticking] at hleft
    exact absurd (hleft rfl) (by decide)
  | outside => exact h

/-! ## 3. Without a breakdown -/

/-- A thread that is to stop and does not tick any more has no occasion to break down. -/
theorem unbroken_run (hstop : c.loop.control.stop = true) (hleft : stepsLeft c.loop.place ≤ 4)
    (hplace : c.loop.place ≠ .broken) {events : List (LoopEvent α σ)}
    (hrun : c.run? s events = some c') : c'.loop.place ≠ .broken := by
  intro hbroken
  have hdown := ((run_iff_happens broken_step hrun).1 hbroken).resolve_left hplace
  refine not_happens (P := fun c => c.loop.control.stop = true ∧ stepsLeft c.loop.place ≤ 4)
    ?_ ?_ ⟨hstop, hleft⟩ hdown
  · rintro c c' ev ⟨hstop, hleft⟩ hstep
    obtain ⟨hstop', hless⟩ := stepsLeft_step hstop hstep
    exact ⟨hstop', by omega⟩
  · rintro c ev ⟨-, hleft⟩ hbreaks
    cases ev with
    | advance =>
      rw [hbreaks.1] at hleft
      exact absurd hleft (by decide)
    | _ => exact hbreaks

theorem gone_of_isEnd {p : Place} (hend : p.isEnd = true) (hunbroken : p ≠ .broken) :
    p = .gone := by
  revert hend hunbroken
  cases p <;> decide

theorem stepsLeft_eq_zero_iff {p : Place} : stepsLeft p = 0 ↔ p.isEnd = true := by
  cases p <;> decide

/-- A thread that is gone stays so, and the lifecycle stays complete. -/
theorem state_run_of_gone (h : Orderly c first) (hgone : c.loop.place = .gone)
    {events : List (LoopEvent α σ)} (hrun : c.run? s events = some c') :
    c'.loop.state = .stopped := by
  have hstop : c.loop.control.stop = true := by
    cases h.phase with
    | running hstate hstop' hthere => simp [hgone, Place.inCycle] at hthere
    | stopping hstate hstop' hclaimed hawake hthere => exact hstop'
    | stopped hstate hstop' hclaimed hout => exact hstop'
  have hleft : stepsLeft c.loop.place = 0 := by rw [hgone]; rfl
  have hless := (stepsLeft_run hstop hrun).2
  have hunbroken := unbroken_run hstop (by omega) (by simp [hgone]) hrun
  obtain ⟨first', h', -⟩ := orderly_run h hrun
  exact state_of_gone h' (gone_of_isEnd (stepsLeft_eq_zero_iff.1 (by omega)) hunbroken)

/-! ## 4. With a breakdown -/

/-- The thread is no longer there, the lifecycle is not complete, and all who asked the loop to stop
have got the answer that all is well. -/
structure Stuck (c : Interleaving α σ) : Prop where
  broken : c.loop.place = .broken
  state : c.loop.state = .stopping
  claimed : c.loop.unclaimed = false
  returned : ∀ call ∈ c.stops, call = .returned (.ok ())

theorem OwnAsked.stuck (h : OwnAsked c) (hbroken : c.loop.place = .broken) : Stuck c where
  broken := hbroken
  state := h.state
  claimed := h.claimed
  returned := by
    rw [h.stops]
    exact List.forall_mem_nil _

def ofEntries : LoopEvent α σ → Bool
  | .enroll _ | .dismiss _ => true
  | _ => false

/-- Nobody gets such a loop going again, and only those who remove entries do away with them. -/
theorem stuck_step (h : Stuck c) (hstep : c.step? s ev = some c') :
    Stuck c' ∧ (ofEntries ev = false → c'.loop.roster = c.loop.roster) := by
  obtain ⟨hbroken, hstate', hclaimed, hreturned'⟩ := h
  have hreturned : ∀ {i call}, c.stops[i]? = some call →
      call = StopCall.returned (.ok ()) := fun hcall =>
    hreturned' _ (List.mem_of_getElem? hcall)
  have hsame : ∀ {l : RunLoop α} {world : σ} {unflagged unroused : Nat}, l.place = c.loop.place →
      l.state = c.loop.state → l.unclaimed = c.loop.unclaimed →
      Stuck ⟨l, world, unflagged, unroused, c.stops⟩ := fun hplace hstate hunclaimed =>
    ⟨hplace.trans hbroken, hstate.trans hstate', hunclaimed.trans hclaimed, hreturned'⟩
  -- The thread takes no step any more, and all calls have returned.
  cases move_of_step hstep with
  | comeUp hplace' | relock hplace' | decide hplace' | awaken hplace' | proceed hplace' | tick hplace'
  | leave hplace' | wake hplace' => simp [hbroken] at hplace'
  | elapse world => exact ⟨hsame rfl rfl rfl, fun _ => rfl⟩
  | enroll e => exact ⟨hsame rfl rfl rfl, nofun⟩
  | dismiss hown hremoval => exact ⟨hsame rfl rfl rfl, nofun⟩
  | refuse hunknown => exact ⟨hsame rfl rfl rfl, nofun⟩
  | flag hsome hfree => exact ⟨hsame rfl rfl rfl, fun _ => rfl⟩
  | rouse hsome =>
    have hrouse : c.loop.rouse = c.loop := if_neg (by simp [hbroken])
    rw [hrouse]
    exact ⟨hsame rfl rfl rfl, fun _ => rfl⟩
  | claim hunclaimed' => simp [hclaimed] at hunclaimed'
  | late _ =>
    refine ⟨⟨hbroken, hstate', hclaimed, List.forall_mem_append.2 ⟨hreturned', ?_⟩⟩, fun _ => rfl⟩
    simp
  | ask hcall' hfree => cases hreturned hcall'
  | complete hcall' hended => cases hreturned hcall'
  | conclude hcall' => cases hreturned hcall'

/-- Whatever happens then, a loop that is stuck stays so. -/
theorem stuck_run (h : Stuck c) {events : List (LoopEvent α σ)} (hrun : c.run? s events = some c') :
    Stuck c' ∧ (events.countP ofEntries = 0 → c'.loop.roster = c.loop.roster) := by
  induction events generalizing c with
  | nil =>
    cases hrun
    exact ⟨h, fun _ => rfl⟩
  | cons ev rest ih =>
    obtain ⟨c'', hstep, hrest⟩ := Option.bind_eq_some_iff.1 hrun
    obtain ⟨h', hsame⟩ := stuck_step h hstep
    obtain ⟨h'', hsame'⟩ := ih h' hrest
    refine ⟨h'', fun hnone => ?_⟩
    rw [List.countP_cons] at hnone
    have hev : ofEntries ev = false := by
      cases hof : ofEntries ev with
      | false => rfl
      | true => simp [hof] at hnone
    exact (hsame' (by omega)).trans (hsame hev)

/-! ## 5. The whole -/

/-- What becomes of a loop after a tick from `c` to `c'` in which a callback asked it to stop. -/
structure OwnStop (s : RunLoop.Surroundings α σ) (c c' : Interleaving α σ) : Prop where
  /-- A thread that goes has completed the lifecycle and has dropped the entries, and there are none
  until someone registers another one. -/
  gone : ∀ {more d d'}, c'.run? s more = some d → d.step? s .advance = some d' →
    d'.loop.place = .gone → ∀ {later last}, d'.run? s later = some last →
      last.loop.state = .stopped ∧ ((∀ e, .enroll e ∉ later) → last.loop.entryCount = 0)
  /-- If nobody has asked before and nothing breaks down, the thread goes and nobody has to do anything
  for that. -/
  goes : c.loop.unclaimed = true → (c.loop.sweepAt s c.world).cutShort = false →
    ∀ {more d}, c'.run? s more = some d → d.loop.place ≠ .broken ∧ more.countP ofThread ≤ 4 ∧
      (d.loop.place = .gone ∨ ∃ d', d.step? s .advance = some d') ∧
      ∀ call ∈ d.stops, call = .returned (.ok ())
  /-- If nobody has asked before and something breaks down, the loop is stuck with its entries. -/
  stuck : c.loop.unclaimed = true → (c.loop.sweepAt s c.world).cutShort = true →
    0 < c'.loop.entryCount ∧ ∀ {more d}, c'.run? s more = some d → Stuck d ∧
      (more.countP ofEntries = 0 → d.loop.entryCount = c'.loop.entryCount)
  /-- If somebody outside has asked before, that call can return, and learns what became of the
  thread. -/
  joined : c.loop.unclaimed = false → ∀ {more d}, c'.run? s more = some d → Returns s 10 d ∧
    ∀ {result}, d.stops[0]? = some (.returned result) →
      d.loop.state = .stopped ∧ result = d.loop.verdict
  /-- When it returns there are no entries, until someone registers another one. -/
  emptied : c.loop.unclaimed = false → ∀ {more d ev d' result}, c'.run? s more = some d →
    d.step? s ev = some d' → d.stops[0]? ≠ some (.returned result) →
    d'.stops[0]? = some (.returned result) → ∀ {later last}, d'.run? s later = some last →
      (∀ e, .enroll e ∉ later) → last.loop.entryCount = 0

section

variable (h : Sorted c) (hasks : CallsStop s c .advance) (htick : c.step? s .advance = some c')
  {more : List (LoopEvent α σ)} {d : Interleaving α σ} (hmore : c'.run? s more = some d)

include h hasks htick hmore

/-- A tick that is not cut short leaves a thread that goes without the help of anybody. -/
theorem goes_of_whole (hunclaimed : c.loop.unclaimed = true)
    (hwhole : (c.loop.sweepAt s c.world).cutShort = false) :
    d.loop.place ≠ .broken ∧ more.countP ofThread ≤ 4 ∧
      (d.loop.place = .gone ∨ ∃ d', d.step? s .advance = some d') ∧
      ∀ call ∈ d.stops, call = .returned (.ok ()) := by
  obtain ⟨first, h, -⟩ := h
  obtain ⟨hasked, hplace⟩ := ownAsked_tick h hunclaimed hasks htick
  rw [hwhole, if_neg Bool.false_ne_true] at hplace
  have hfour : stepsLeft c'.loop.place = 4 := by rw [hplace]; rfl
  obtain ⟨hstop, hless⟩ := stepsLeft_run hasked.stop hmore
  have hunbroken := unbroken_run hasked.stop (by omega) (by simp [hplace]) hmore
  -- The first to ask is a callback, and remains so.
  obtain ⟨first', h', -⟩ := orderly_step h htick
  have h'' : Orderly c' .callback :=
    ⟨h'.phase, .callback hasked.claimed hasked.stop (by simp [hasked.stops])⟩
  obtain ⟨first'', hd, hsame⟩ := orderly_run h'' hmore
  obtain rfl := hsame.resolve_left (by simp)
  refine ⟨hunbroken, by omega, ?_, ?_⟩
  · cases hend : d.loop.place.isEnd with
    | false =>
      obtain ⟨d', hstep, -⟩ := advance_of_stop hd hstop hend
      exact .inr ⟨d', hstep⟩
    | true =>
      exact .inl (gone_of_isEnd hend hunbroken)
  · cases hd.calls with
    | callback hclaimed hstop' hlate => exact hlate

theorem stuck_of_cutShort (hunclaimed : c.loop.unclaimed = true)
    (hcut : (c.loop.sweepAt s c.world).cutShort = true) :
    Stuck d ∧ (more.countP ofEntries = 0 → d.loop.entryCount = c'.loop.entryCount) := by
  obtain ⟨first, h, -⟩ := h
  obtain ⟨hasked, hplace⟩ := ownAsked_tick h hunclaimed hasks htick
  rw [hcut, if_pos rfl] at hplace
  obtain ⟨hstuck, hsame⟩ := stuck_run (hasked.stuck hplace) hmore
  exact ⟨hstuck, fun hnone => congrArg Roster.length (hsame hnone)⟩

theorem outside_of_claimed (hclaimed : c.loop.unclaimed = false) : Orderly d .outside := by
  obtain ⟨first', h', hsame⟩ := orderly_step (outside_of_ticking h hasks.1 hclaimed) htick
  obtain rfl := hsame.resolve_left (by simp)
  obtain ⟨first'', hd, hsame'⟩ := orderly_run h' hmore
  obtain rfl := hsame'.resolve_left (by simp)
  exact hd

end

/-- Whatever happens at a loop before and after a tick in which a callback asks it to stop, this is
what it comes to. -/
theorem own_stop (s : RunLoop.Surroundings α σ) {id : Nat} {o : LoopOptions} {now : Timestamp}
    {first : σ} {events : List (LoopEvent α σ)} {c c' : Interleaving α σ}
    (hrun : (quiet (RunLoop.create id o now) first).run? s (.advance :: events) = some c)
    (hasks : CallsStop s c .advance) (htick : c.step? s .advance = some c') : OwnStop s c c' := by
  obtain ⟨c₀, hspawn, hrest⟩ := Option.bind_eq_some_iff.1 hrun
  -- What holds before the tick comes from the run, and what holds after it from this tick.
  have h : Sorted c :=
    run_induction sorted_step ⟨.nobody, orderly_spawned hspawn, by simp⟩ hrest
  have hholds := holds_run_create hrun
  have hlater : ∀ {more d}, c'.run? s more = some d →
      (∃ first, Orderly d first) ∧ ∃ ms, d.loop.roster.Holds ms := by
    intro more d hmore
    obtain ⟨caller, hc, -⟩ := h
    obtain ⟨caller', hc', -⟩ := orderly_step hc htick
    obtain ⟨caller'', hd, -⟩ := orderly_run hc' hmore
    exact ⟨⟨caller'', hd⟩, holds_run (holds_step htick hholds) hmore⟩
  constructor
  case gone =>
    intro more d d' hmore hstep hgone later last hafter
    obtain ⟨⟨caller, hd⟩, ms, hms⟩ := hlater hmore
    obtain ⟨caller', hd', -⟩ := orderly_step hd hstep
    have hempty := empty_of_leave hd hms hstep hgone
    exact ⟨state_run_of_gone hd' hgone hafter,
      fun henroll => (empty_run hempty hafter henroll).length⟩
  case goes =>
    intro hunclaimed hwhole more d hmore
    exact goes_of_whole h hasks htick hmore hunclaimed hwhole
  case stuck =>
    intro hunclaimed hcut
    refine ⟨?_, fun hmore => stuck_of_cutShort h hasks htick hmore hunclaimed hcut⟩
    obtain ⟨ms, hms⟩ := hholds
    have hsome := entryCount_tick hms hasks.2
    rw [step?, advance?, hasks.1] at htick
    cases htick
    exact hsome
  case joined =>
    intro hclaimed more d hmore
    have hd := outside_of_claimed h hasks htick hmore hclaimed
    exact ⟨can_return hd, result_of_claimed hd⟩
  case emptied =>
    intro hclaimed more d ev d' result hmore hstep hbefore hafter later last hlater' henroll
    have hd := outside_of_claimed h hasks htick hmore hclaimed
    obtain ⟨-, ms, hms⟩ := hlater hmore
    have hempty : d'.loop.roster.Holds [] := by
      cases hd.calls with
      | outside hclaimed' hstops hlate hsuits =>
        exact empty_of_return hms hclaimed' hstep hbefore hafter (by simp [hstops])
    exact (empty_run hempty hlater' henroll).length

def scripted : RunLoop.Surroundings (Bool × Bool) Timestamp :=
  ⟨fun _ a now => ⟨a, now, a.1, a.2⟩, fun now => now⟩

def script (asks breaks : Bool) : Entry (Bool × Bool) := ⟨(asks, breaks), 50000, 0, Nat.succ_pos _⟩

/-- The first callback asks the loop to stop and the second one breaks down.  Nobody learns of it.
-/
theorem own_stop_before_breakdown :
    ∃ c c' d, (quiet (RunLoop.create 1 ⟨"tick", Duration.second, .catchUp, 0⟩ 0) 0).run? scripted
        [.advance, .enroll (script true false), .enroll (script false true), .advance, .advance] =
          some c ∧
      CallsStop scripted c .advance ∧ c.step? scripted .advance = some c' ∧
      c'.run? scripted [.elapse 100000, .stop] = some d ∧ Stuck d ∧ d.stops.length = 1 ∧
      0 < d.loop.entryCount := by
  have hruns : ∃ c c' d,
      (quiet (RunLoop.create 1 ⟨"tick", Duration.second, .catchUp, 0⟩ 0) 0).run? scripted
        [.advance, .enroll (script true false), .enroll (script false true), .advance, .advance] =
          some c ∧
      CallsStop scripted c .advance ∧ c.step? scripted .advance = some c' ∧
      c'.run? scripted [.elapse 100000, .stop] = some d ∧ c.loop.unclaimed = true ∧
      (c.loop.sweepAt scripted c.world).cutShort = true ∧ d.stops.length = 1 :=
    ⟨_, _, _, rfl, ⟨rfl, rfl⟩, rfl, rfl, rfl, rfl, rfl⟩
  obtain ⟨c, c', d, hrun, hasks, htick, hmore, hunclaimed, hcut, hcalls⟩ := hruns
  obtain ⟨hsome, hlater⟩ := (own_stop scripted hrun hasks htick).stuck hunclaimed hcut
  obtain ⟨hstuck, hsame⟩ := hlater hmore
  refine ⟨c, c', d, hrun, hasks, htick, hmore, hstuck, hcalls, ?_⟩
  rw [hsame rfl]
  exact hsome

/-- The stop that the callback asks for is left undone: the thread is no longer there, but the loop
is still about to stop and has its entry, and a call from outside finds nothing wrong. -/
theorem own_stop_left_undone :
    ∃ c c' d, (quiet (RunLoop.create 1 ⟨"tick", Duration.second, .catchUp, 0⟩ 0) 0).run? scripted
        [.advance, .enroll (script true true), .advance, .advance] = some c ∧
      CallsStop scripted c .advance ∧ c.step? scripted .advance = some c' ∧
      c'.loop.place = .broken ∧ c'.loop.state ≠ .stopped ∧ c'.loop.entryCount ≠ 0 ∧
      c'.step? scripted .stop = some d ∧ d.stops = [.returned (.ok ())] := by
  refine ⟨_, _, _, rfl, ⟨rfl, rfl⟩, rfl, rfl, ?_, ?_, rfl, rfl⟩ <;> decide +kernel

end Cadence.Interleaving
