import Cadence.Proofs.RunLoop.Frame
import Cadence.Proofs.RunLoop.Moves

/-!
# Phases of a loop

The thread and whoever asks for a stop move the same lifecycle on.  `attempt?` says which move a step
attempts, and `lifecycle_step` that nothing else changes the lifecycle.  From the moment when the thread
has come up, the state of the loop tells where the thread may be and whether the loop has been asked to
stop (`Phase`), which every function of the loop respects.
-/

namespace Cadence

variable {α σ : Type}

theorem Lifecycle.state_tryMoveTo (l : Lifecycle) (target : LoopState) :
    (l.tryMoveTo target).state = if l.state.canMoveTo target then target else l.state := by
  unfold tryMoveTo moveTo
  by_cases hallowed : l.state.canMoveTo target = true
  · simp only [hallowed, if_true]
  · simp only [hallowed, Bool.false_eq_true, if_false]

namespace RunLoop

/-! ## 1. Control -/

@[simp]
theorem lifecycle_moveTo (l : RunLoop α) (target : LoopState) (refusal : Failure → Notice) :
    (l.moveTo target refusal).control.lifecycle = l.control.lifecycle.tryMoveTo target := by
  unfold moveTo Lifecycle.tryMoveTo
  cases l.control.lifecycle.moveTo target <;> rfl

/-- A move that the lifecycle allows is not noted. -/
theorem log_moveTo {l : RunLoop α} {target : LoopState} (refusal : Failure → Notice)
    (hallowed : l.state.canMoveTo target = true) : (l.moveTo target refusal).log = l.log := by
  unfold moveTo Lifecycle.moveTo
  rw [state] at hallowed
  simp only [hallowed, if_true]

theorem lifecycle_comeUp (l : RunLoop α) :
    l.comeUp.control.lifecycle = l.control.lifecycle.tryMoveTo .running := by
  unfold comeUp Lifecycle.tryMoveTo
  cases l.control.lifecycle.moveTo .running <;> rfl

theorem control_sleepOrProceed (l : RunLoop α) (now : Timestamp) :
    (l.sleepOrProceed now).control = l.control := by
  unfold sleepOrProceed
  split <;> rfl

theorem control_askToStop (l : RunLoop α) :
    l.askToStop.control = ⟨l.control.lifecycle.tryMoveTo .stopping, true, l.control.rescan⟩ := by
  unfold askToStop
  rw [control_rouse]
  unfold moveTo Lifecycle.tryMoveTo
  cases l.control.lifecycle.moveTo .stopping <;> rfl

theorem lifecycle_proceed (l : RunLoop α) :
    l.proceed.control.lifecycle =
      if l.control.stop then l.control.lifecycle.tryMoveTo .stopped else l.control.lifecycle := by
  unfold proceed
  split
  · exact lifecycle_moveTo l .stopped .exitRefused
  · rfl

theorem lifecycle_complete (l : RunLoop α) :
    l.complete.control.lifecycle =
      if l.state = .stopped then l.control.lifecycle
      else l.control.lifecycle.tryMoveTo .stopped := by
  unfold complete
  split <;> rfl

/-- Only a call to stop claims the loop. -/
@[simp]
theorem unclaimed_comeUp (l : RunLoop α) : l.comeUp.unclaimed = l.unclaimed := by
  unfold comeUp
  split <;> rfl

@[simp]
theorem unclaimed_sleepOrProceed (l : RunLoop α) (now : Timestamp) :
    (l.sleepOrProceed now).unclaimed = l.unclaimed := by
  unfold sleepOrProceed
  split <;> rfl

@[simp]
theorem unclaimed_proceed (l : RunLoop α) : l.proceed.unclaimed = l.unclaimed := by
  unfold proceed
  split
  · exact unclaimed_moveTo _ _ _
  · rfl

@[simp]
theorem unclaimed_askToStop (l : RunLoop α) : l.askToStop.unclaimed = l.unclaimed := by
  simp [askToStop]

@[simp]
theorem unclaimed_complete (l : RunLoop α) : l.complete.unclaimed = l.unclaimed := by
  unfold complete
  split <;> rfl

@[simp]
theorem unclaimed_conclude (l : RunLoop α) : l.conclude.2.unclaimed = l.unclaimed := by
  unfold conclude
  dsimp only
  split <;> rfl

theorem stop_proceed (l : RunLoop α) : l.proceed.control.stop = l.control.stop := by
  unfold proceed
  split
  · exact stop_moveTo _ _ _
  · rfl

theorem stop_comeUp (l : RunLoop α) : l.comeUp.control.stop = l.control.stop := by
  unfold comeUp
  split <;> rfl

theorem state_of_allowed {l l' : RunLoop α} {target : LoopState}
    (h : l'.control.lifecycle = l.control.lifecycle.tryMoveTo target)
    (hallowed : l.state.canMoveTo target = true) : l'.state = target := by
  rw [state] at hallowed
  rw [state, h, Lifecycle.state_tryMoveTo, if_pos hallowed]

/-! ## 2. A tick -/

def sweepAt (s : Surroundings α σ) (l : RunLoop α) (world : σ) : TickState α σ :=
  l.roster.tick s.invoke ((s.now world).since l.lastWake) world

def isAsked (s : Surroundings α σ) (l : RunLoop α) (world : σ) : Bool :=
  (l.sweepAt s world).stopAsked && l.unclaimed

/-- Apart from the entries and the times a tick does what its callbacks ask for. -/
theorem tick_asked (s : Surroundings α σ) (l : RunLoop α) (world : σ) :
    let ticked := { l with roster := (l.sweepAt s world).roster, lastWake := s.now world }
    let asked := if (l.sweepAt s world).stopAsked then ticked.requestStop else ticked
    (l.tick s world).2.1.control = asked.control ∧ (l.tick s world).2.1.log = asked.log ∧
      (l.tick s world).2.1.unclaimed = asked.unclaimed := by
  intro ticked asked
  unfold tick
  dsimp only
  split
  · exact ⟨rfl, rfl, rfl⟩
  · exact ⟨rfl, rfl, rfl⟩

theorem place_tick (s : Surroundings α σ) (l : RunLoop α) (world : σ) :
    (l.tick s world).2.1.place = if (l.sweepAt s world).cutShort then .broken else .returning := by
  cases hcut : (l.sweepAt s world).cutShort with
  | false =>
    have hsome : (l.sweepAt s world).outcome = some ⟨_, _⟩ := if_neg (Bool.eq_false_iff.1 hcut)
    exact (tick_of_completed s l world hsome).2.2
  | true => exact (tick_of_cutShort s l world (if_pos hcut)).2

theorem unclaimed_tick (s : Surroundings α σ) (l : RunLoop α) (world : σ) :
    (l.tick s world).2.1.unclaimed = (l.unclaimed && !(l.sweepAt s world).stopAsked) := by
  rw [(tick_asked s l world).2.2]
  cases (l.sweepAt s world).stopAsked with
  | false => simp
  | true => cases l.unclaimed <;> simp [requestStop, askToStop, claim]

theorem control_tick_eq (s : Surroundings α σ) (l : RunLoop α) (world : σ) :
    (l.tick s world).2.1.control =
      if l.isAsked s world then
        ⟨l.control.lifecycle.tryMoveTo .stopping, true, l.control.rescan⟩
      else l.control := by
  rw [(tick_asked s l world).1, isAsked]
  cases (l.sweepAt s world).stopAsked with
  | false => simp
  | true => cases l.unclaimed <;> simp [requestStop, control_askToStop, claim]

/-- A tick writes nothing to the log, unless a callback asks for a move that is not allowed. -/
theorem log_tick {s : Surroundings α σ} {l : RunLoop α} {world : σ}
    (hallowed : l.isAsked s world = true → l.state.canMoveTo .stopping = true) :
    (l.tick s world).2.1.log = l.log := by
  rw [(tick_asked s l world).2.1]
  rw [isAsked] at hallowed
  cases hasked : (l.sweepAt s world).stopAsked with
  | false => simp
  | true =>
    cases hunclaimed : l.unclaimed with
    | false => simp [requestStop]
    | true =>
      simp only [hasked, hunclaimed, Bool.and_self, forall_const] at hallowed
      simp only [requestStop, if_true, askToStop, claim, log_rouse]
      exact log_moveTo .stopRefused hallowed

end RunLoop

namespace Interleaving

/-! ## 3. What a step attempts -/

def attempt? (s : RunLoop.Surroundings α σ) (c : Interleaving α σ) :
    LoopEvent α σ → Option LoopState
  | .advance =>
    match c.loop.place with
    | .starting => some .running
    | .proceeding => if c.loop.control.stop then some .stopped else none
    | .ticking => if c.loop.isAsked s c.world then some .stopping else none
    | _ => none
  | .resume i =>
    match c.stops[i]? with
    | some .asking => some .stopping
    | some .joining => if c.loop.state = .stopped then none else some .stopped
    | _ => none
  | _ => none

variable {s : RunLoop.Surroundings α σ} {c c' : Interleaving α σ} {ev : LoopEvent α σ}

/-- Nothing changes the lifecycle but an attempt to move it. -/
theorem lifecycle_step (h : c.step? s ev = some c') :
    c'.loop.control.lifecycle =
      match c.attempt? s ev with
      | some target => c.loop.control.lifecycle.tryMoveTo target
      | none => c.loop.control.lifecycle := by
  -- The attempt of a step is read off the place of the thread or the stage of the call.
  cases move_of_step h with
  | comeUp hplace => simp only [attempt?, hplace, RunLoop.lifecycle_comeUp]
  | relock hplace => simp only [attempt?, hplace, RunLoop.relock]
  | decide hplace => simp only [attempt?, hplace, RunLoop.control_sleepOrProceed]
  | awaken hplace => simp only [attempt?, hplace, RunLoop.awaken]
  | proceed hplace =>
    simp only [attempt?, hplace, RunLoop.lifecycle_proceed]
    cases c.loop.control.stop <;> rfl
  | tick hplace =>
    simp only [attempt?, hplace, RunLoop.control_tick_eq]
    cases c.loop.isAsked s c.world <;> rfl
  | leave hplace => simp only [attempt?, hplace, RunLoop.leave]
  | wake hplace => simp only [attempt?, RunLoop.control_rouse]
  | rouse hsome => simp only [attempt?, RunLoop.control_rouse]
  | ask hcall hfree => simp only [attempt?, hcall, RunLoop.control_askToStop]
  | complete hcall hended =>
    simp only [attempt?, hcall, RunLoop.lifecycle_complete]
    split <;> rfl
  | conclude hcall => simp only [attempt?, hcall, RunLoop.control_conclude]
  | elapse | enroll | dismiss | refuse | flag | claim | late => rfl

end Interleaving

/-! ## 4. Phases -/

def Place.inCycle : Place → Bool
  | returning | deciding | asleep | roused | proceeding | ticking => true
  | starting | emptying | gone | broken => false

namespace RunLoop

/-- What a loop is like from the moment when its thread has come up. -/
inductive Phase (l : RunLoop α) : Prop
  | running (state : l.state = .running) (stop : l.control.stop = false)
    (there : l.place.inCycle = true ∨ l.place = .broken)
  | stopping (state : l.state = .stopping) (stop : l.control.stop = true)
    (claimed : l.unclaimed = false) (awake : l.place ≠ .asleep)
    (there : l.place.inCycle = true ∨ l.place = .broken)
  | stopped (state : l.state = .stopped) (stop : l.control.stop = true)
    (claimed : l.unclaimed = false) (out : l.place = .emptying ∨ l.place.isEnd = true)

section

variable {l l' : RunLoop α} (h : l.Phase)

include h

/-- Wherever the thread goes from its cycle, except to sleep when it is to stop. -/
theorem Phase.of_place (hstate : l'.state = l.state) (hstop : l'.control.stop = l.control.stop)
    (hclaimed : l.unclaimed = false → l'.unclaimed = false)
    (hplace : l'.place = l.place ∨ l.place.inCycle = true ∧
      (l'.place.inCycle = true ∨ l'.place = .broken) ∧
      (l.control.stop = true → l'.place ≠ .asleep)) : l'.Phase := by
  rcases hplace with hsame | ⟨hfrom, hto, hawake⟩
  · cases h with
    | running hstate' hstop' hthere =>
      exact .running (hstate.trans hstate') (hstop.trans hstop') (hsame ▸ hthere)
    | stopping hstate' hstop' hclaimed' hawake' hthere =>
      exact .stopping (hstate.trans hstate') (hstop.trans hstop') (hclaimed hclaimed') (hsame ▸ hawake')
        (hsame ▸ hthere)
    | stopped hstate' hstop' hclaimed' hout' =>
      exact .stopped (hstate.trans hstate') (hstop.trans hstop') (hclaimed hclaimed') (hsame ▸ hout')
  · cases h with
    | running hstate' hstop' hthere => exact .running (hstate.trans hstate') (hstop.trans hstop') hto
    | stopping hstate' hstop' hclaimed' hawake' hthere =>
      exact .stopping (hstate.trans hstate') (hstop.trans hstop') (hclaimed hclaimed')
        (hawake hstop') hto
    | stopped hstate' hstop' hclaimed' hout' =>
      rcases hout' with hout | hout
      · simp [hout, Place.inCycle] at hfrom
      · cases hplace : l.place <;> simp [hplace, Place.inCycle, Place.isEnd] at hfrom hout

theorem Phase.rouse : l.rouse.Phase := by
  apply h.of_place
  · rw [state, control_rouse, state]
  · rw [control_rouse]
  · rw [unclaimed_rouse]
    exact fun hclaimed => hclaimed
  · rw [place_rouse]
    split
    · rename_i hasleep
      exact .inr (by simp [hasleep, Place.inCycle])
    · exact .inl rfl

theorem Phase.relock (hplace : l.place = .returning) : l.relock.Phase := by
  apply h.of_place
  · rfl
  · rfl
  · exact fun hclaimed => hclaimed
  · simp [RunLoop.relock, hplace, Place.inCycle]

theorem Phase.awaken (hplace : l.place = .roused) : l.awaken.Phase := by
  apply h.of_place
  · rfl
  · rfl
  · exact fun hclaimed => hclaimed
  · simp [RunLoop.awaken, hplace, Place.inCycle]

theorem Phase.sleepOrProceed (hplace : l.place = .deciding) (now : Timestamp) :
    (l.sleepOrProceed now).Phase := by
  apply h.of_place
  · rw [state, control_sleepOrProceed, state]
  · rw [control_sleepOrProceed]
  · rw [unclaimed_sleepOrProceed]
    exact fun hclaimed => hclaimed
  · right
    unfold RunLoop.sleepOrProceed
    split
    · rename_i hquiet
      simp only [Bool.and_eq_true, Bool.not_eq_true'] at hquiet
      simp [hplace, Place.inCycle, hquiet.1.1]
    · simp [hplace, Place.inCycle]

theorem Phase.proceed (hplace : l.place = .proceeding) : l.proceed.Phase := by
  have hlifecycle := lifecycle_proceed l
  cases h with
  | running hstate hstop hthere =>
    rw [hstop] at hlifecycle
    refine .running ((congrArg Lifecycle.state hlifecycle).trans hstate) ?_ (.inl ?_)
    · rw [stop_proceed, hstop]
    · simp [RunLoop.proceed, hstop, Place.inCycle]
  | stopping hstate hstop hclaimed hawake hthere =>
    -- The thread leaves its cycle, and completes the lifecycle.
    rw [hstop, if_pos rfl] at hlifecycle
    refine .stopped (state_of_allowed hlifecycle (by rw [hstate]; rfl)) ?_ ?_ (.inl ?_)
    · rw [stop_proceed, hstop]
    · rw [unclaimed_proceed, hclaimed]
    · simp [RunLoop.proceed, hstop]
  | stopped hstate hstop hclaimed hout => simp [hplace, Place.isEnd] at hout

/-- A tick leaves the thread on its way round, on its way out, or broken. -/
theorem Phase.tick (hplace : l.place = .ticking) (s : Surroundings α σ) (world : σ) :
    (l.tick s world).2.1.Phase := by
  have hcontrol := control_tick_eq s l world
  have hunclaimed := unclaimed_tick s l world
  have hafter : (l.tick s world).2.1.place.inCycle = true ∨ (l.tick s world).2.1.place = .broken := by
    rw [place_tick]
    split
    · exact .inr rfl
    · exact .inl rfl
  have hawake : (l.tick s world).2.1.place ≠ .asleep := by
    rw [place_tick]
    split <;> simp
  cases hasked : l.isAsked s world with
  | false =>
    rw [hasked, if_neg Bool.false_ne_true] at hcontrol
    apply h.of_place
    · rw [state, hcontrol, state]
    · rw [hcontrol]
    · rw [hunclaimed]
      exact fun hclaimed => by simp [hclaimed]
    · exact .inr ⟨by simp [hplace, Place.inCycle], hafter, fun _ => hawake⟩
  | true =>
    -- Nobody has asked before, so the loop is running.
    rw [hasked, if_pos rfl] at hcontrol
    rw [isAsked, Bool.and_eq_true] at hasked
    have hrunning : l.state = .running := by
      cases h with
      | running hstate hstop hthere => exact hstate
      | stopping hstate hstop hclaimed' hawake' hthere => simp [hclaimed'] at hasked
      | stopped hstate hstop hclaimed' hout => simp [hclaimed'] at hasked
    have hlifecycle := congrArg Control.lifecycle hcontrol
    refine .stopping (state_of_allowed hlifecycle (by rw [hrunning]; rfl)) ?_ ?_ hawake hafter
    · rw [hcontrol]
    · rw [hunclaimed, hasked.1, Bool.not_true, Bool.and_false]

theorem Phase.leave (hplace : l.place = .emptying) : l.leave.Phase := by
  cases h with
  | running hstate hstop hthere => simp [hplace, Place.inCycle] at hthere
  | stopping hstate hstop hclaimed hawake hthere => simp [hplace, Place.inCycle] at hthere
  | stopped hstate hstop hclaimed hout => exact .stopped hstate hstop hclaimed (.inr rfl)

theorem Phase.askToStop (hclaimed : l.unclaimed = false) (hstop : l.control.stop = false) :
    l.askToStop.Phase := by
  have hcontrol := control_askToStop l
  cases h with
  | running hstate hstop' hthere =>
    have hlifecycle := congrArg Control.lifecycle hcontrol
    refine .stopping (state_of_allowed hlifecycle (by rw [hstate]; rfl)) ?_ ?_ ?_ ?_
    · rw [hcontrol]
    · rw [unclaimed_askToStop, hclaimed]
    · exact rouse_ne_asleep _
    · rw [RunLoop.askToStop, place_rouse, place_moveTo]
      split
      · exact .inl rfl
      · exact hthere
  | stopping hstate hstop' hclaimed' hawake hthere => simp [hstop] at hstop'
  | stopped hstate hstop' hclaimed' hout => simp [hstop] at hstop'

/-- Once the thread is no longer there the lifecycle can be completed. -/
theorem Phase.complete (hplace : l.place.isEnd = true) (hstop : l.control.stop = true) :
    l.complete.Phase ∧ l.complete.state = .stopped := by
  cases h with
  | running hstate' hstop' hthere => simp [hstop] at hstop'
  | stopping hstate' hstop' hclaimed hawake hthere =>
    have hlifecycle := lifecycle_complete l
    rw [if_neg (by simp [hstate'])] at hlifecycle
    have hstate := state_of_allowed hlifecycle (by rw [hstate']; rfl)
    refine ⟨.stopped hstate ?_ ?_ (.inr ?_), hstate⟩
    · simp [RunLoop.complete, hstate', hstop']
    · rw [unclaimed_complete, hclaimed]
    · rw [place_complete]
      exact hplace
  | stopped hstate' hstop' hclaimed hout =>
    rw [RunLoop.complete, if_pos hstate']
    exact ⟨.stopped hstate' hstop' hclaimed hout, hstate'⟩

end

theorem phase_comeUp {l : RunLoop α} (hstate : l.state = .created)
    (hstop : l.control.stop = false) : l.comeUp.Phase := by
  have hlifecycle := lifecycle_comeUp l
  refine .running (state_of_allowed hlifecycle (by rw [hstate]; rfl)) ?_ (.inl ?_)
  · rw [stop_comeUp, hstop]
  · rw [state] at hstate
    simp [comeUp, Lifecycle.moveTo, hstate, LoopState.canMoveTo, Place.inCycle]

end RunLoop

end Cadence
