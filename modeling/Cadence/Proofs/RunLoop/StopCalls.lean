import Cadence.Proofs.RunLoop.Phases

/-!
# Calls to stop a loop

Only the first call to stop a loop does anything, whether it comes from outside or from a callback, and
the thread and the calls never get into each other's way: `Orderly` is what holds at every moment from
when the thread has come up.
-/

namespace Cadence

variable {α σ : Type}

namespace RunLoop

/-- What the first call to stop a loop from outside returns once the thread is gone. -/
def verdict (l : RunLoop α) : Except Failure Unit :=
  if l.place = .broken then .error (.fault ("run loop `" ++ l.name ++ "` thread panicked"))
  else .ok ()

theorem conclude_eq_verdict (l : RunLoop α) : l.conclude.1 = l.verdict := by
  unfold conclude verdict
  dsimp only
  split <;> rfl

def Suits (l : RunLoop α) : StopCall → Prop
  | .asking => l.control.stop = false
  | .joining => l.control.stop = true
  | .concluding => l.state = .stopped ∧ l.place.isEnd = true
  | .returned result => l.state = .stopped ∧ l.place.isEnd = true ∧ result = l.verdict

/-- How far a call may have got does not depend on anything else of the loop. -/
theorem Suits.of_same {l l' : RunLoop α} {call : StopCall} (h : l.Suits call)
    (hstop : l'.control.stop = l.control.stop) (hname : l'.name = l.name)
    (hend : l.place.isEnd = true → l'.state = l.state ∧ l'.place = l.place) : l'.Suits call := by
  cases call with
  | asking => exact hstop.trans h
  | joining => exact hstop.trans h
  | concluding =>
    have hsame := hend h.2
    rw [Suits, hsame.1, hsame.2]
    exact h
  | returned result =>
    have hsame := hend h.2.1
    rw [Suits, verdict, hsame.1, hsame.2, hname]
    exact h

end RunLoop

namespace Interleaving

inductive Caller
  | nobody
  | callback
  | outside
  deriving DecidableEq

/-- Where the calls to stop have got to, depending on who was the first.  All later calls have
returned. -/
inductive Calls (c : Interleaving α σ) : Caller → Prop
  | nobody (unclaimed : c.loop.unclaimed = true) (stops : c.stops = []) : Calls c .nobody
  | callback (claimed : c.loop.unclaimed = false) (stop : c.loop.control.stop = true)
    (late : ∀ call ∈ c.stops, call = .returned (.ok ())) : Calls c .callback
  | outside (claimed : c.loop.unclaimed = false) {call : StopCall} {rest : List StopCall}
    (stops : c.stops = call :: rest) (late : ∀ call ∈ rest, call = .returned (.ok ()))
    (suits : c.loop.Suits call) : Calls c .outside

/-- What holds from the moment when the thread has come up. -/
structure Orderly (c : Interleaving α σ) (first : Caller) : Prop where
  phase : c.loop.Phase
  calls : Calls c first

variable {s : RunLoop.Surroundings α σ} {c c' : Interleaving α σ} {ev : LoopEvent α σ}

/-! ## 1. One step -/

section

variable {first : Caller} (h : Calls c first) {l : RunLoop α} {world : σ} {unflagged unroused : Nat}

include h

/-- A step that has nothing to do with such calls, and leaves a thread that is no longer there
alone. -/
theorem Calls.of_same (hunclaimed : l.unclaimed = c.loop.unclaimed)
    (hstop : l.control.stop = c.loop.control.stop) (hname : l.name = c.loop.name)
    (hend : c.loop.place.isEnd = true → l.state = c.loop.state ∧ l.place = c.loop.place) :
    Calls ⟨l, world, unflagged, unroused, c.stops⟩ first := by
  cases h with
  | nobody hunclaimed' hstops => exact .nobody (hunclaimed.trans hunclaimed') hstops
  | callback hclaimed hstop' hlate =>
    exact .callback (hunclaimed.trans hclaimed) (hstop.trans hstop') hlate
  | outside hclaimed hstops hlate hsuits =>
    exact .outside (hunclaimed.trans hclaimed) hstops hlate (hsuits.of_same hstop hname hend)

/-- A call that has not returned is the first one. -/
theorem Calls.busy {i : Nat} {call : StopCall} (hcall : c.stops[i]? = some call)
    (hbusy : call ≠ .returned (.ok ())) :
    i = 0 ∧ first = .outside ∧ c.loop.unclaimed = false ∧ c.loop.Suits call ∧
      ∃ rest, c.stops = call :: rest ∧ ∀ call ∈ rest, call = .returned (.ok ()) := by
  cases h with
  | nobody hunclaimed hstops => simp [hstops] at hcall
  | callback hclaimed hstop hlate => exact absurd (hlate call (List.mem_of_getElem? hcall)) hbusy
  | @outside hclaimed head rest hstops hlate hsuits =>
    rw [hstops] at hcall
    cases i with
    | zero =>
      rw [List.getElem?_cons_zero, Option.some.injEq] at hcall
      exact ⟨rfl, rfl, hclaimed, hcall ▸ hsuits, rest, hcall ▸ hstops, hlate⟩
    | succ i =>
      rw [List.getElem?_cons_succ] at hcall
      exact absurd (hlate call (List.mem_of_getElem? hcall)) hbusy

theorem Calls.suits {call : StopCall} (houtside : first = .outside)
    (hcall : c.stops[0]? = some call) : c.loop.Suits call := by
  subst houtside
  cases h with
  | outside hclaimed hstops hlate hsuits =>
    rw [hstops, List.getElem?_cons_zero, Option.some.injEq] at hcall
    exact hcall ▸ hsuits

/-- The first call gets further. -/
theorem Calls.resume {i : Nat} {call call' : StopCall} (hcall : c.stops[i]? = some call)
    (hbusy : call ≠ .returned (.ok ())) (hclaimed : l.unclaimed = c.loop.unclaimed)
    (hsuits : c.loop.Suits call → l.Suits call') :
    Calls ⟨l, world, unflagged, unroused, c.stops.set i call'⟩ first := by
  obtain ⟨rfl, rfl, hunclaimed, hcalled, rest, hstops, hlate⟩ := h.busy hcall hbusy
  have hset : c.stops.set 0 call' = call' :: rest := by
    rw [hstops]
    rfl
  exact .outside (hclaimed.trans hunclaimed) hset hlate (hsuits hcalled)

end

variable {s : RunLoop.Surroundings α σ} {c c' : Interleaving α σ} {ev : LoopEvent α σ}

/-- If nobody has asked before, a callback may be the first to ask. -/
theorem Calls.tick {first : Caller} (h : Calls c first) (hplace : c.loop.place = .ticking)
    (hname : (c.loop.tick s c.world).2.1.name = c.loop.name) :
    ∃ first', Calls { c with
      loop := (c.loop.tick s c.world).2.1
      world := (c.loop.tick s c.world).2.2 } first' ∧ (first = .nobody ∨ first' = first) := by
  have hcontrol := RunLoop.control_tick_eq s c.loop c.world
  have hunclaimed := RunLoop.unclaimed_tick s c.loop c.world
  cases hasked : c.loop.isAsked s c.world with
  | false =>
    rw [hasked, if_neg Bool.false_ne_true] at hcontrol
    refine ⟨first, h.of_same ?_ ?_ ?_ ?_, .inr rfl⟩
    · rw [hunclaimed]
      rw [RunLoop.isAsked] at hasked
      revert hasked
      cases c.loop.unclaimed <;> cases (c.loop.sweepAt s c.world).stopAsked <;> decide
    · rw [hcontrol]
    · exact hname
    · exact fun hend => by simp [hplace, Place.isEnd] at hend
  | true =>
    rw [hasked, if_pos rfl] at hcontrol
    rw [RunLoop.isAsked, Bool.and_eq_true] at hasked
    cases h with
    | nobody hunclaimed' hstops =>
      -- Nobody has called from outside either, so the callback was first.
      refine ⟨.callback, .callback ?_ ?_ ?_, .inl rfl⟩
      · rw [hunclaimed, hasked.1, Bool.not_true, Bool.and_false]
      · rw [hcontrol]
      · rw [hstops]
        exact List.forall_mem_nil _
    | callback hclaimed hstop hlate => simp [hclaimed] at hasked
    | outside hclaimed hstops hlate hsuits => simp [hclaimed] at hasked

/-- Who was first remains so. -/
theorem calls_step {first : Caller} (h : Orderly c first) (hstep : c.step? s ev = some c') :
    ∃ first', Calls c' first' ∧ (first = .nobody ∨ first' = first) := by
  have hname := (identity_step hstep).2
  have hcalls := h.calls
  cases move_of_step hstep with
  | comeUp hplace =>
    refine ⟨first, hcalls.of_same ?_ ?_ hname (by simp [hplace, Place.isEnd]), .inr rfl⟩
    · exact RunLoop.unclaimed_comeUp _
    · exact RunLoop.stop_comeUp _
  | relock hplace =>
    exact ⟨first, hcalls.of_same rfl rfl hname (by simp [hplace, Place.isEnd]), .inr rfl⟩
  | decide hplace =>
    refine ⟨first, hcalls.of_same ?_ ?_ hname (by simp [hplace, Place.isEnd]), .inr rfl⟩
    · exact RunLoop.unclaimed_sleepOrProceed _ _
    · rw [RunLoop.control_sleepOrProceed]
  | awaken hplace =>
    exact ⟨first, hcalls.of_same rfl rfl hname (by simp [hplace, Place.isEnd]), .inr rfl⟩
  | proceed hplace =>
    refine ⟨first, hcalls.of_same ?_ ?_ hname (by simp [hplace, Place.isEnd]), .inr rfl⟩
    · exact RunLoop.unclaimed_proceed _
    · exact RunLoop.stop_proceed _
  | tick hplace => exact hcalls.tick hplace hname
  | leave hplace =>
    exact ⟨first, hcalls.of_same rfl rfl hname (by simp [hplace, Place.isEnd]), .inr rfl⟩
  | wake hplace =>
    refine ⟨first, hcalls.of_same ?_ ?_ hname (by simp [hplace, Place.isEnd]), .inr rfl⟩
    · exact RunLoop.unclaimed_rouse _
    · rw [RunLoop.control_rouse]
  | elapse | enroll | dismiss | refuse | flag =>
    exact ⟨first, hcalls.of_same rfl rfl hname fun _ => ⟨rfl, rfl⟩, .inr rfl⟩
  | rouse hsome =>
    refine ⟨first, hcalls.of_same ?_ ?_ hname fun hend => ?_, .inr rfl⟩
    · exact RunLoop.unclaimed_rouse _
    · rw [RunLoop.control_rouse]
    · rw [RunLoop.state, RunLoop.control_rouse, RunLoop.place_rouse, if_neg]
      · exact ⟨rfl, rfl⟩
      · exact fun hasleep => by simp [hasleep, Place.isEnd] at hend
  | claim hunclaimed =>
    -- Nobody has asked before, so this call is the first one and the only one.
    cases hcalls with
    | nobody _ hstops =>
      have hfirst : c.stops ++ [.asking] = .asking :: [] := by rw [hstops, List.nil_append]
      refine ⟨.outside, .outside rfl hfirst (List.forall_mem_nil _) ?_, .inl rfl⟩
      cases h.phase with
      | running hstate hstop' hthere => exact hstop'
      | stopping hstate hstop' hclaimed hawake hthere => simp [hclaimed] at hunclaimed
      | stopped hstate hstop' hclaimed hout => simp [hclaimed] at hunclaimed
    | callback hclaimed hstop' hlate' => simp [hclaimed] at hunclaimed
    | outside hclaimed hstops hlate' hsuits' => simp [hclaimed] at hunclaimed
  | late hclaimed =>
    -- A later call returns at once, and is only one more in the list.
    have hreturned : ∀ call ∈ [StopCall.returned (.ok ())], call = .returned (.ok ()) := by simp
    cases hcalls with
    | nobody hunclaimed hstops => simp [hunclaimed] at hclaimed
    | callback hclaimed hstop' hlate' =>
      have hlate := List.forall_mem_append.2 ⟨hlate', hreturned⟩
      exact ⟨.callback, .callback hclaimed hstop' hlate, .inr rfl⟩
    | @outside hclaimed call rest hstops hlate' hsuits' =>
      have hmore : c.stops ++ [.returned (.ok ())] = call :: (rest ++ [.returned (.ok ())]) := by
        rw [hstops, List.cons_append]
      have hlate := List.forall_mem_append.2 ⟨hlate', hreturned⟩
      exact ⟨.outside, .outside hclaimed hmore hlate hsuits', .inr rfl⟩
  | ask hcall hfree =>
    refine ⟨first, hcalls.resume hcall (by simp) ?_ fun _ => ?_, .inr rfl⟩
    · exact RunLoop.unclaimed_askToStop _
    · rw [RunLoop.Suits, RunLoop.control_askToStop]
  | complete hcall hended =>
    obtain ⟨-, -, -, hstop, -⟩ := hcalls.busy hcall (by simp)
    refine ⟨first, hcalls.resume hcall (by simp) ?_ fun _ => ?_, .inr rfl⟩
    · exact RunLoop.unclaimed_complete _
    · rw [RunLoop.Suits, RunLoop.place_complete]
      exact ⟨(h.phase.complete hended hstop).2, hended⟩
  | conclude hcall =>
    -- The first call returns what has become of the thread.
    refine ⟨first, hcalls.resume hcall (by simp) ?_ fun hsuits => ?_, .inr rfl⟩
    · exact RunLoop.unclaimed_conclude _
    · rw [RunLoop.Suits, RunLoop.state, RunLoop.control_conclude, RunLoop.place_conclude,
        RunLoop.conclude_eq_verdict, RunLoop.verdict, RunLoop.verdict, RunLoop.place_conclude, hname]
      exact ⟨hsuits.1, hsuits.2, rfl⟩

/-- Whatever step is taken, the loop is in one of the phases of its life. -/
theorem phase_step {first : Caller} (h : Orderly c first) (hstep : c.step? s ev = some c') :
    c'.loop.Phase := by
  have hphase := h.phase
  cases move_of_step hstep with
  | comeUp hplace =>
    -- The thread has come up already.
    cases hphase with
    | running hstate hstop' hthere => simp [hplace, Place.inCycle] at hthere
    | stopping hstate hstop' hclaimed' hawake hthere => simp [hplace, Place.inCycle] at hthere
    | stopped hstate hstop' hclaimed' hout => simp [hplace, Place.isEnd] at hout
  | relock hplace => exact hphase.relock hplace
  | decide hplace => exact hphase.sleepOrProceed hplace _
  | awaken hplace => exact hphase.awaken hplace
  | proceed hplace => exact hphase.proceed hplace
  | tick hplace => exact hphase.tick hplace s c.world
  | leave hplace => exact hphase.leave hplace
  | wake hplace => exact hphase.rouse
  | rouse hsome => exact hphase.rouse
  | elapse | enroll | dismiss | refuse | flag | late =>
    exact hphase.of_place rfl rfl (fun hclaimed => hclaimed) (.inl rfl)
  | claim hfirst => exact hphase.of_place rfl rfl (fun _ => rfl) (.inl rfl)
  | ask hcall hfree =>
    obtain ⟨-, -, hclaimed, hstop, -⟩ := h.calls.busy hcall (by simp)
    exact hphase.askToStop hclaimed hstop
  | complete hcall hended =>
    obtain ⟨-, -, -, hstop, -⟩ := h.calls.busy hcall (by simp)
    exact (hphase.complete hended hstop).1
  | conclude hcall =>
    apply hphase.of_place
    · rw [RunLoop.state, RunLoop.control_conclude, RunLoop.state]
    · rw [RunLoop.control_conclude]
    · rw [RunLoop.unclaimed_conclude]
      exact fun hclaimed => hclaimed
    · exact .inl (RunLoop.place_conclude _)

/-- Every step keeps order. -/
theorem orderly_step {first : Caller} (h : Orderly c first) (hstep : c.step? s ev = some c') :
    ∃ first', Orderly c' first' ∧ (first = .nobody ∨ first' = first) := by
  obtain ⟨first', hcalls, hsame⟩ := calls_step h hstep
  exact ⟨first', ⟨phase_step h hstep, hcalls⟩, hsame⟩

theorem orderly_run {first : Caller} (h : Orderly c first) {events : List (LoopEvent α σ)}
    (hrun : c.run? s events = some c') :
    ∃ first', Orderly c' first' ∧ (first = .nobody ∨ first' = first) := by
  apply run_induction _ ⟨first, h, .inr rfl⟩ hrun
  rintro c c' ev ⟨first', h', hsame⟩ hstep
  obtain ⟨first'', h'', hsame'⟩ := orderly_step h' hstep
  refine ⟨first'', h'', ?_⟩
  rcases hsame with hnobody | rfl
  · exact .inl hnobody
  · exact hsame'

/-- A call from outside that is the first one remains so. -/
theorem orderly_claimed {first : Caller} (h : Orderly c first) (hunclaimed : c.loop.unclaimed = true)
    {events : List (LoopEvent α σ)} (hrun : c.run? s (.stop :: events) = some c') :
    Orderly c' .outside := by
  obtain ⟨c₁, hstep, hrest⟩ := Option.bind_eq_some_iff.1 hrun
  obtain ⟨first₁, h₁, -⟩ := orderly_step h hstep
  have hasking : c₁.stops[0]? = some .asking := by
    cases h.calls with
    | nobody _ hstops =>
      rw [step?, if_pos hunclaimed, hstops] at hstep
      cases hstep
      rfl
    | callback hclaimed hstop hlate => simp [hunclaimed] at hclaimed
    | outside hclaimed hstops hlate hsuits => simp [hunclaimed] at hclaimed
  obtain ⟨-, rfl, -⟩ := h₁.calls.busy hasking (by simp)
  obtain ⟨first', h', hsame⟩ := orderly_run h₁ hrest
  obtain rfl := hsame.resolve_left (by simp)
  exact h'

theorem orderly_spawned {id : Nat} {o : LoopOptions} {now : Timestamp} {world : σ}
    (hstep : (quiet (RunLoop.create id o now) world).step? s .advance = some c) :
    Orderly c .nobody := by
  have hphase : (RunLoop.create id o now : RunLoop α).comeUp.Phase := RunLoop.phase_comeUp rfl rfl
  cases hstep
  exact ⟨hphase, .nobody rfl rfl⟩

end Interleaving

end Cadence
