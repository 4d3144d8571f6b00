import Cadence.Proofs.RunLoop.StopCalls
import Mathlib.Data.List.Destutter

/-!
# Stopping a loop

What stopping comes to, whoever asks for it and whenever: the loop goes through its states in order, no
move is refused, the first call alone has an effect and learns whether the thread broke down, and the
thread runs no callbacks any more except in a tick that it has already gone on to.
-/

namespace Cadence

variable {α σ : Type}

/-! ## 1. States in order -/

/-- A list of states in which each is the one before it or the next one, once repetitions are left
out. -/
theorem LoopState.destutter_prefix {x : LoopState} {xs : List LoopState}
    (h : (x :: xs).IsChain fun a b => b = a ∨ [a, b] <:+: LoopState.all) :
    xs.destutter' (· ≠ ·) x <+: LoopState.all.dropWhile (· ≠ x) := by
  induction xs generalizing x with
  | nil => cases x <;> decide
  | cons y ys ih =>
    rw [List.isChain_cons_cons] at h
    have hys := ih h.2
    by_cases hsame : y = x
    · rw [List.destutter'_cons_neg (h := by simp [hsame]), ← hsame]
      exact hys
    · rw [List.destutter'_cons_pos (h := Ne.symm hsame)]
      have hnext := h.1.resolve_left hsame
      have hall : LoopState.all.dropWhile (· ≠ x) = x :: LoopState.all.dropWhile (· ≠ y) := by
        revert hnext
        cases x <;> cases y <;> decide
      rw [hall]
      exact (List.prefix_cons_inj x).2 hys

namespace Interleaving

def states (s : RunLoop.Surroundings α σ) (c : Interleaving α σ) :
    List (LoopEvent α σ) → List LoopState
  | [] => [c.loop.state]
  | ev :: rest =>
    match c.step? s ev with
    | some c' => c.loop.state :: states s c' rest
    | none => [c.loop.state]

variable {s : RunLoop.Surroundings α σ} {c c' : Interleaving α σ} {ev : LoopEvent α σ}
  {first : Caller}

/-- A move that is attempted is one that the lifecycle allows. -/
theorem attempt_allowed (h : Orderly c first) {target : LoopState}
    (hattempt : c.attempt? s ev = some target) : c.loop.state.canMoveTo target = true := by
  have hrunning : c.loop.control.stop = false → c.loop.state = .running := by
    intro hstop
    cases h.phase with
    | running hstate hstop' hthere => exact hstate
    | stopping hstate hstop' hclaimed hawake hthere => simp [hstop] at hstop'
    | stopped hstate hstop' hclaimed hout => simp [hstop] at hstop'
  -- The phase of the loop tells the state that the move starts from.
  cases ev with
  | advance =>
    rw [attempt?] at hattempt
    split at hattempt
    · rename_i hplace
      cases h.phase with
      | running hstate hstop' hthere => simp [hplace, Place.inCycle] at hthere
      | stopping hstate hstop' hclaimed hawake hthere => simp [hplace, Place.inCycle] at hthere
      | stopped hstate hstop' hclaimed hout => simp [hplace, Place.isEnd] at hout
    · rename_i hplace
      split at hattempt
      · rename_i hstop
        cases hattempt
        cases h.phase with
        | running hstate hstop' hthere => simp [hstop] at hstop'
        | stopping hstate hstop' hclaimed hawake hthere => simp [hstate, LoopState.canMoveTo]
        | stopped hstate hstop' hclaimed hout => simp [hplace, Place.isEnd] at hout
      · cases hattempt
    · split at hattempt
      · rename_i hasked
        cases hattempt
        rw [RunLoop.isAsked, Bool.and_eq_true] at hasked
        cases h.phase with
        | running hstate hstop' hthere => simp [hstate, LoopState.canMoveTo]
        | stopping hstate hstop' hclaimed hawake hthere => simp [hclaimed] at hasked
        | stopped hstate hstop' hclaimed hout => simp [hclaimed] at hasked
      · cases hattempt
    · cases hattempt
  | resume i =>
    rw [attempt?] at hattempt
    split at hattempt
    · rename_i hcall
      cases hattempt
      obtain ⟨-, -, -, hstop, -⟩ := h.calls.busy hcall (by simp)
      simp [hrunning hstop, LoopState.canMoveTo]
    · rename_i hcall
      split at hattempt
      · cases hattempt
      · rename_i hstopped
        cases hattempt
        obtain ⟨-, -, -, hstop, -⟩ := h.calls.busy hcall (by simp)
        rw [RunLoop.Suits] at hstop
        cases h.phase with
        | running hstate hstop' hthere => simp [hstop] at hstop'
        | stopping hstate hstop' hclaimed hawake hthere => simp [hstate, LoopState.canMoveTo]
        | stopped hstate hstop' hclaimed hout => exact absurd hstate hstopped
    · cases hattempt
  | _ => cases hattempt

/-- A step leaves the lifecycle alone or moves it to the next state. -/
theorem state_step (h : Orderly c first) (hstep : c.step? s ev = some c') :
    c'.loop.state = c.loop.state ∨ [c.loop.state, c'.loop.state] <:+: LoopState.all := by
  have hlifecycle := lifecycle_step hstep
  have hcreated : c.loop.state ≠ .created := by
    cases h.phase with
    | running hstate hstop hthere => simp [hstate]
    | stopping hstate hstop hclaimed hawake hthere => simp [hstate]
    | stopped hstate hstop hclaimed hout => simp [hstate]
  cases hattempt : c.attempt? s ev with
  | none =>
    rw [hattempt] at hlifecycle
    exact .inl (congrArg Lifecycle.state hlifecycle)
  | some target =>
    rw [hattempt] at hlifecycle
    have hallowed := attempt_allowed h hattempt
    rw [RunLoop.state_of_allowed hlifecycle hallowed]
    revert hcreated hallowed
    cases c.loop.state <;> cases target <;> decide

/-- The states in the course of a run come in order, and none is passed over. -/
theorem states_chain (s : RunLoop.Surroundings α σ) (h : Orderly c first)
    (events : List (LoopEvent α σ)) :
    ∃ rest, states s c events = c.loop.state :: rest ∧
      (states s c events).IsChain fun a b => b = a ∨ [a, b] <:+: LoopState.all := by
  induction events generalizing c first with
  | nil => exact ⟨[], rfl, List.isChain_singleton _⟩
  | cons ev events ih =>
    rw [states]
    cases hstep : c.step? s ev with
    | none => exact ⟨[], rfl, List.isChain_singleton _⟩
    | some c' =>
      obtain ⟨first', h', -⟩ := orderly_step h hstep
      obtain ⟨rest, hrest, hchain⟩ := ih h'
      refine ⟨_, rfl, ?_⟩
      show List.IsChain _ (_ :: states s c' events)
      rw [hrest] at hchain ⊢
      exact List.isChain_cons_cons.2 ⟨state_step h hstep, hchain⟩

/-! ## 2. What is noted -/

/-- A move that the lifecycle does not allow is never noted. -/
theorem log_step (h : Orderly c first) (hstep : c.step? s ev = some c') :
    c'.loop.log = c.loop.log ∨ c'.loop.log = c.loop.log ++ [.unknownHandle] ∨
      c'.loop.log = c.loop.log ++ [.threadBroken] := by
  -- A note would be written for a move that is not allowed, and there is none.
  have hallowed : ∀ target, c.attempt? s ev = some target →
      c.loop.state.canMoveTo target = true := fun _ => attempt_allowed h
  cases move_of_step hstep with
  | comeUp hplace =>
    left
    unfold RunLoop.comeUp
    split <;> rfl
  | decide hplace =>
    left
    unfold RunLoop.sleepOrProceed
    split <;> rfl
  | proceed hplace =>
    left
    unfold RunLoop.proceed
    split
    · rename_i hstop
      exact RunLoop.log_moveTo _ (hallowed .stopped (by simp [attempt?, hplace, hstop]))
    · rfl
  | tick hplace =>
    left
    apply RunLoop.log_tick
    intro hasked
    exact hallowed .stopping (by simp [attempt?, hplace, hasked])
  | wake hplace => exact .inl (RunLoop.log_rouse _)
  | refuse hunknown => exact .inr (.inl rfl)
  | rouse hsome => exact .inl (RunLoop.log_rouse _)
  | ask hcall hfree =>
    left
    rw [RunLoop.askToStop, RunLoop.log_rouse]
    apply RunLoop.log_moveTo
    exact hallowed .stopping (by simp [attempt?, hcall])
  | complete hcall hended =>
    left
    unfold RunLoop.complete
    split <;> rfl
  | conclude hcall =>
    unfold RunLoop.conclude
    dsimp only
    split
    · exact .inr (.inr rfl)
    · exact .inl rfl
  | relock | awaken | leave | elapse | enroll | dismiss | flag | claim | late => exact .inl rfl

/-- Of a lifecycle that is misused nothing is ever logged. -/
theorem log_run (h : Orderly c first) {events : List (LoopEvent α σ)}
    (hlog : ∀ n ∈ c.loop.log, n = .unknownHandle ∨ n = .threadBroken)
    (hrun : c.run? s events = some c') :
    ∀ n ∈ c'.loop.log, n = .unknownHandle ∨ n = .threadBroken := by
  have hboth : (∃ first, Orderly c' first) ∧
      ∀ n ∈ c'.loop.log, n = .unknownHandle ∨ n = .threadBroken := by
    apply run_induction _ ⟨⟨first, h⟩, hlog⟩ hrun
    rintro c c' ev ⟨⟨first, h⟩, hlog⟩ hstep
    obtain ⟨first', h', -⟩ := orderly_step h hstep
    refine ⟨⟨first', h'⟩, ?_⟩
    rcases log_step h hstep with hsame | hnoted | hnoted
    · rw [hsame]
      exact hlog
    · rw [hnoted, List.forall_mem_append]
      exact ⟨hlog, by simp⟩
    · rw [hnoted, List.forall_mem_append]
      exact ⟨hlog, by simp⟩
  exact hboth.2

/-! ## 3. Calls -/

def CallsStop (s : RunLoop.Surroundings α σ) (c : Interleaving α σ) : LoopEvent α σ → Prop
  | .stop => True
  | .advance => c.loop.place = .ticking ∧ (c.loop.sweepAt s c.world).stopAsked = true
  | _ => False

def BreaksDown (s : RunLoop.Surroundings α σ) (c : Interleaving α σ) : LoopEvent α σ → Prop
  | .advance => c.loop.place = .ticking ∧ (c.loop.sweepAt s c.world).cutShort = true
  | _ => False

/-- A loop is claimed by the first call to stop it. -/
theorem claimed_step (hstep : c.step? s ev = some c') :
    c'.loop.unclaimed = false ↔ c.loop.unclaimed = false ∨ CallsStop s c ev := by
  cases move_of_step hstep with
  | comeUp hplace => simp [CallsStop, hplace]
  | relock hplace => simp [RunLoop.relock, CallsStop, hplace]
  | decide hplace => simp [CallsStop, hplace]
  | awaken hplace => simp [RunLoop.awaken, CallsStop, hplace]
  | proceed hplace => simp [CallsStop, hplace]
  | tick hplace =>
    rw [RunLoop.unclaimed_tick]
    simp only [CallsStop, hplace, true_and]
    cases c.loop.unclaimed <;> simp
  | leave hplace => simp [RunLoop.leave, CallsStop, hplace]
  | claim hunclaimed => simp [RunLoop.claim, CallsStop]
  | late hclaimed => simp [hclaimed, CallsStop]
  | wake | rouse | ask | complete | conclude => simp [CallsStop]
  | elapse | enroll | dismiss | refuse | flag =>
    simp [CallsStop, RunLoop.enroll, RunLoop.note, RunLoop.flagRescan]

/-- A thread is broken if and only if a callback has broken down. -/
theorem broken_step (hstep : c.step? s ev = some c') :
    c'.loop.place = .broken ↔ c.loop.place = .broken ∨ BreaksDown s c ev := by
  -- Only a tick leads there, and no step leads away.
  cases move_of_step hstep with
  | comeUp hplace =>
    have hthere : c.loop.comeUp.place ≠ .broken := by
      unfold RunLoop.comeUp
      split <;> simp
    simp [hthere, BreaksDown, hplace]
  | relock hplace => simp [RunLoop.relock, BreaksDown, hplace]
  | decide hplace =>
    have hthere : (c.loop.sleepOrProceed (s.now c.world)).place ≠ .broken := by
      unfold RunLoop.sleepOrProceed
      split <;> simp
    simp [hthere, BreaksDown, hplace]
  | awaken hplace => simp [RunLoop.awaken, BreaksDown, hplace]
  | proceed hplace =>
    have hthere : c.loop.proceed.place ≠ .broken := by
      unfold RunLoop.proceed
      split <;> simp
    simp [hthere, BreaksDown, hplace]
  | tick hplace => simp [RunLoop.place_tick, BreaksDown, hplace]
  | leave hplace => simp [RunLoop.leave, BreaksDown, hplace]
  | wake hplace => simp [RunLoop.place_rouse, BreaksDown, hplace]
  | rouse hsome =>
    simp [RunLoop.rouse_eq_iff, BreaksDown]
  | ask hcall hfree =>
    simp [RunLoop.askToStop, RunLoop.rouse_eq_iff, BreaksDown]
  | complete | conclude => simp [BreaksDown]
  | elapse | enroll | dismiss | refuse | flag | claim | late =>
    simp [BreaksDown, RunLoop.enroll, RunLoop.note, RunLoop.flagRescan, RunLoop.claim]

/-- A call that is not the first one returns at once, or does nothing in its callback. -/
theorem late_call (hclaimed : c.loop.unclaimed = false) (hstep : c.step? s ev = some c')
    (hcall : CallsStop s c ev) :
    ev = .stop ∧ c' = { c with stops := c.stops ++ [.returned (.ok ())] } ∨
      ev = .advance ∧ c'.loop.control = c.loop.control ∧ c'.loop.log = c.loop.log ∧
        c'.stops = c.stops := by
  cases move_of_step hstep with
  | claim hunclaimed => simp [hclaimed] at hunclaimed
  | late hclaimed' => exact .inl ⟨rfl, rfl⟩
  | tick hplace =>
    have hunasked : c.loop.isAsked s c.world = false := by
      rw [RunLoop.isAsked, hclaimed, Bool.and_false]
    refine .inr ⟨rfl, ?_, ?_, rfl⟩
    · rw [RunLoop.control_tick_eq, hunasked, if_neg Bool.false_ne_true]
    · apply RunLoop.log_tick
      rw [hunasked]
      exact fun hasked => absurd hasked Bool.false_ne_true
  | comeUp hplace | relock hplace | decide hplace | awaken hplace | proceed hplace | leave hplace =>
    simp [CallsStop, hplace] at hcall
  | _ => simp [CallsStop] at hcall

/-! ## 4. The entries that are left -/

/-- Without entries there is nothing that could come from them. -/
theorem empty_step (hempty : c.loop.roster.Holds []) (hstep : c.step? s ev = some c')
    (henroll : ∀ e, ev ≠ .enroll e) : c'.loop.roster.Holds [] := by
  have halters : RunLoop.Alters c.loop c'.loop → c'.loop.roster.Holds [] := by
    intro halters
    cases halters with
    | kept hkeeps => exact hkeeps.roster ▸ hempty
    | removed hremoval hkeeps =>
      obtain ⟨xs, ys, hmember, -⟩ := Roster.holds_of_remove hempty hremoval
      simp at hmember
    | emptied hkeeps => exact hkeeps.roster ▸ Roster.holds_clear hempty
  cases ev with
  | advance =>
    rcases advance_cases hstep with ⟨-, hloop, -⟩ | ⟨-, hothers⟩
    · rw [hloop, (RunLoop.tick_eq s c.loop c.world).1]
      exact (Roster.tick_swept hempty _ _ _).holds
    · exact halters hothers
  | enroll e => exact absurd rfl (henroll e)
  | _ => exact halters (others_alter hstep nofun nofun)

theorem empty_run {events : List (LoopEvent α σ)} (hempty : c.loop.roster.Holds [])
    (hrun : c.run? s events = some c') (henroll : ∀ e, .enroll e ∉ events) :
    c'.loop.roster.Holds [] := by
  induction events generalizing c with
  | nil =>
    cases hrun
    exact hempty
  | cons ev rest ih =>
    obtain ⟨c'', hstep, hrest⟩ := Option.bind_eq_some_iff.1 hrun
    have hfirst := empty_step hempty hstep fun e he => henroll e (he ▸ List.mem_cons_self)
    exact ih hfirst hrest fun e he => henroll e (List.mem_cons_of_mem _ he)

/-- The first call drops what entries are left when it returns. -/
theorem empty_of_return {ms : List (Ticket × Entry α)} (hholds : c.loop.roster.Holds ms)
    (hclaimed : c.loop.unclaimed = false) (hstep : c.step? s ev = some c')
    {result : Except Failure Unit} (hbefore : c.stops[0]? ≠ some (.returned result))
    (hafter : c'.stops[0]? = some (.returned result)) (hcall : c.stops ≠ []) :
    c'.loop.roster.Holds [] := by
  -- The first call is the only one in its place, so it returns only by concluding.
  have hset : ∀ i call, call ≠ .returned result →
      (c.stops.set i call)[0]? ≠ some (.returned result) := by
    intro i call hcall'
    rw [List.getElem?_set]
    split
    · split
      · exact fun h => hcall' (Option.some.inj h)
      · exact nofun
    · exact hbefore
  cases move_of_step hstep with
  | claim hunclaimed => simp [hclaimed] at hunclaimed
  | late hclaimed' =>
    rw [List.getElem?_append_left (List.length_pos_iff.2 hcall)] at hafter
    exact absurd hafter hbefore
  | ask hcall'' hfree => exact absurd hafter (hset _ _ (by simp))
  | complete hcall'' hended => exact absurd hafter (hset _ _ (by simp))
  | conclude hcall'' =>
    rw [(RunLoop.keeps_conclude c.loop).roster]
    exact Roster.holds_clear hholds
  | _ => exact absurd hafter hbefore

/-! ## 5. The last steps -/

/-- How many steps the thread still takes from a place, at most, when it is to stop. -/
def stepsLeft : Place → Nat
  | .ticking => 5
  | .starting | .returning => 4
  | .deciding | .asleep | .roused => 3
  | .proceeding => 2
  | .emptying => 1
  | .gone | .broken => 0

theorem stepsLeft_le (p : Place) : stepsLeft p ≤ 5 := by
  cases p <;> decide

def ofThread : LoopEvent α σ → Bool
  | .advance => true
  | _ => false

theorem stepsLeft_rouse (l : RunLoop α) : stepsLeft l.rouse.place = stepsLeft l.place := by
  rw [RunLoop.place_rouse]
  split
  · rename_i hasleep
    rw [hasleep]
    rfl
  · rfl

/-- Once the loop has been asked to stop, each step of the thread brings it nearer to its end. -/
theorem stepsLeft_step (hstop : c.loop.control.stop = true) (hstep : c.step? s ev = some c') :
    c'.loop.control.stop = true ∧
      stepsLeft c'.loop.place + (ofThread ev).toNat ≤ stepsLeft c.loop.place := by
  -- No place on the way out leads back to one before it.
  cases move_of_step hstep with
  | comeUp hplace =>
    rw [RunLoop.stop_comeUp, hplace]
    refine ⟨hstop, ?_⟩
    unfold RunLoop.comeUp
    split <;> simp [stepsLeft, ofThread]
  | relock hplace => simp [RunLoop.relock, hplace, hstop, stepsLeft, ofThread]
  | decide hplace =>
    simp [RunLoop.sleepOrProceed, hplace, hstop, stepsLeft, ofThread]
  | awaken hplace => simp [RunLoop.awaken, hplace, hstop, stepsLeft, ofThread]
  | proceed hplace =>
    rw [RunLoop.stop_proceed, hplace]
    simp [RunLoop.proceed, hstop, stepsLeft, ofThread]
  | tick hplace =>
    rw [RunLoop.control_tick_eq, RunLoop.place_tick, hplace]
    refine ⟨by split <;> simp [hstop], ?_⟩
    split <;> simp [stepsLeft, ofThread]
  | leave hplace => simp [RunLoop.leave, hplace, hstop, stepsLeft, ofThread]
  | wake hplace => simp [stepsLeft_rouse, hstop, ofThread]
  | rouse hsome => simp [stepsLeft_rouse, hstop, ofThread]
  | ask hcall hfree =>
    rw [RunLoop.control_askToStop, RunLoop.askToStop, stepsLeft_rouse, RunLoop.place_moveTo]
    exact ⟨rfl, Nat.le_refl _⟩
  | complete hcall hended =>
    rw [RunLoop.place_complete]
    refine ⟨?_, Nat.le_refl _⟩
    unfold RunLoop.complete
    split <;> exact hstop
  | conclude hcall =>
    rw [RunLoop.place_conclude, RunLoop.control_conclude]
    exact ⟨hstop, Nat.le_refl _⟩
  | elapse | enroll | dismiss | refuse | flag | claim | late => exact ⟨hstop, Nat.le_refl _⟩

/-- With every step that the thread takes on its way out there are fewer left. -/
theorem stepsLeft_run (hstop : c.loop.control.stop = true) {events : List (LoopEvent α σ)}
    (hrun : c.run? s events = some c') :
    c'.loop.control.stop = true ∧
      stepsLeft c'.loop.place + events.countP ofThread ≤ stepsLeft c.loop.place := by
  induction events generalizing c with
  | nil =>
    cases hrun
    exact ⟨hstop, Nat.le_refl _⟩
  | cons ev rest ih =>
    obtain ⟨c'', hstep, hrest⟩ := Option.bind_eq_some_iff.1 hrun
    have hfirst := stepsLeft_step hstop hstep
    have hlater := ih hfirst.1 hrest
    refine ⟨hlater.1, ?_⟩
    rw [List.countP_cons]
    cases hthread : ofThread ev with
    | false =>
      rw [hthread, Bool.toNat_false] at hfirst
      simp only [Bool.false_eq_true, if_false]
      omega
    | true =>
      rw [hthread, Bool.toNat_true] at hfirst
      simp only [if_true]
      omega

/-- A thread that is to stop does not sleep, so it can always go on. -/
theorem advance_of_stop (h : Orderly c first) (hstop : c.loop.control.stop = true)
    (hend : c.loop.place.isEnd = false) :
    ∃ c', c.step? s .advance = some c' ∧ c'.stops = c.stops := by
  have hasleep : c.loop.place ≠ .asleep := by
    cases h.phase with
    | running hstate hstop' hthere => simp [hstop] at hstop'
    | stopping hstate hstop' hclaimed hawake hthere => exact hawake
    | stopped hstate hstop' hclaimed hout =>
      intro hasleep
      simp [hasleep, Place.isEnd] at hout
  rw [step?, advance?]
  cases hplace : c.loop.place with
  | asleep => exact absurd hplace hasleep
  | gone => simp [hplace, Place.isEnd] at hend
  | broken => simp [hplace, Place.isEnd] at hend
  | _ => exact ⟨_, rfl, rfl⟩

/-- Nobody but the thread and the first call needs to do anything for that call to return, and they
need so many steps at most. -/
inductive Returns (s : RunLoop.Surroundings α σ) : Nat → Interleaving α σ → Prop
  | done {n : Nat} {c : Interleaving α σ} {result : Except Failure Unit}
    (returned : c.stops[0]? = some (.returned result)) : Returns s n c
  | step {n : Nat} {c c' : Interleaving α σ} {ev : LoopEvent α σ}
    (own : ev = .advance ∨ ev = .resume 0) (step : c.step? s ev = some c')
    (rest : Returns s n c') : Returns s (n + 1) c

theorem Returns.mono {n m : Nat} (h : Returns s n c) (hle : n ≤ m) : Returns s m c := by
  induction h generalizing m with
  | done hreturned => exact .done hreturned
  | step hown hstep _ ih =>
    obtain ⟨m, rfl⟩ := Nat.exists_eq_add_of_le' (Nat.le_trans (Nat.succ_le_succ (Nat.zero_le _)) hle)
    exact .step hown hstep (ih (Nat.le_of_succ_le_succ hle))

theorem getElem?_set_of_some {calls : List StopCall} {call call' : StopCall} {i : Nat}
    (hcall : calls[i]? = some call) : (calls.set i call')[i]? = some call' :=
  List.getElem?_set_self (List.getElem?_eq_some_iff.1 hcall).1

theorem returns_of_concluding (hcall : c.stops[0]? = some .concluding) : Returns s 1 c := by
  have hstep : c.step? s (.resume 0) = some { c with
      loop := c.loop.conclude.2
      stops := c.stops.set 0 (.returned c.loop.conclude.1) } := by
    rw [step?, resume?, hcall]
  exact .step (.inr rfl) hstep (.done (getElem?_set_of_some hcall))

theorem returns_of_end (hcall : c.stops[0]? = some .joining)
    (hend : c.loop.place.isEnd = true) : Returns s 2 c := by
  have hstep : c.step? s (.resume 0) = some { c with
      loop := c.loop.complete
      stops := c.stops.set 0 .concluding } := by
    rw [step?, resume?, hcall]
    simp only [hend, if_true]
  exact .step (.inr rfl) hstep (returns_of_concluding (getElem?_set_of_some hcall))

/-- A call that waits for the thread returns when the thread has come to its end. -/
theorem returns_of_joining {n : Nat} (h : Orderly c .outside) (hcall : c.stops[0]? = some .joining)
    (hleft : stepsLeft c.loop.place ≤ n) : Returns s (n + 2) c := by
  induction n generalizing c with
  | zero =>
    have hend : c.loop.place.isEnd = true := by
      cases hplace : c.loop.place <;> simp [hplace, stepsLeft] at hleft <;> rfl
    exact returns_of_end hcall hend
  | succ n ih =>
    cases hend : c.loop.place.isEnd with
    | true => exact (returns_of_end hcall hend).mono (by omega)
    | false =>
      -- The thread goes on.
      obtain ⟨-, -, -, hstop, -⟩ := h.calls.busy hcall (by simp)
      obtain ⟨c', hstep, hsame⟩ := advance_of_stop h hstop hend
      obtain ⟨first', h', hfirst⟩ := orderly_step h hstep
      obtain rfl := hfirst.resolve_left (by simp)
      have hless := (stepsLeft_step hstop hstep).2
      rw [ofThread, Bool.toNat_true] at hless
      exact .step (.inl rfl) hstep (ih h' (hsame ▸ hcall) (by omega))

theorem returns_of_asking (h : Orderly c .outside) (hcall : c.stops[0]? = some .asking)
    (hfree : c.loop.place.holdsControl = false) : Returns s 8 c := by
  have hstep : c.step? s (.resume 0) = some { c with
      loop := c.loop.askToStop
      stops := c.stops.set 0 .joining } := by
    rw [step?, resume?, hcall]
    simp only [hfree, Bool.false_eq_true, if_false]
  obtain ⟨first', h', hfirst⟩ := orderly_step h hstep
  obtain rfl := hfirst.resolve_left (by simp)
  have hjoining : Returns s 7 _ :=
    returns_of_joining h' (getElem?_set_of_some hcall) (stepsLeft_le _)
  exact .step (.inr rfl) hstep hjoining

theorem returns_of_proceeding (h : Orderly c .outside) (hcall : c.stops[0]? = some .asking)
    (hplace : c.loop.place = .proceeding) : Returns s 9 c := by
  have hstep : c.step? s .advance = some { c with loop := c.loop.proceed } := by
    rw [step?, advance?, hplace]
  obtain ⟨-, -, -, hstop, -⟩ := h.calls.busy hcall (by simp)
  obtain ⟨first', h', hfirst⟩ := orderly_step h hstep
  obtain rfl := hfirst.resolve_left (by simp)
  -- Nobody has asked yet, so the thread goes on to tick.
  have hticking : c.loop.proceed.place = .ticking := by
    rw [RunLoop.Suits] at hstop
    simp [RunLoop.proceed, hstop]
  have hasking : Returns s 8 _ := returns_of_asking h' hcall (by rw [hticking]; rfl)
  exact .step (.inl rfl) hstep hasking

/-- The first call returns also if it finds the thread about to decide whether to sleep. -/
theorem returns_of_deciding (h : Orderly c .outside) (hcall : c.stops[0]? = some .asking)
    (hplace : c.loop.place = .deciding) : Returns s 10 c := by
  have hstep : c.step? s .advance =
      some { c with loop := c.loop.sleepOrProceed (s.now c.world) } := by
    rw [step?, advance?, hplace]
  obtain ⟨first', h', hfirst⟩ := orderly_step h hstep
  obtain rfl := hfirst.resolve_left (by simp)
  refine .step (.inl rfl) hstep ?_
  have hnext : (c.loop.sleepOrProceed (s.now c.world)).place = .asleep ∨
      (c.loop.sleepOrProceed (s.now c.world)).place = .proceeding := by
    unfold RunLoop.sleepOrProceed
    split
    · exact .inl rfl
    · exact .inr rfl
  rcases hnext with hasleep | hproceeding
  · exact (returns_of_asking h' hcall (by rw [hasleep]; rfl)).mono (by omega)
  · exact returns_of_proceeding h' hcall hproceeding

/-- A first call from outside can always return. -/
theorem can_return (h : Orderly c .outside) : Returns s 10 c := by
  cases h.calls with
  | @outside hclaimed call rest hstops hlate hsuits =>
    have hcall : c.stops[0]? = some call := by
      rw [hstops]
      rfl
    cases call with
    | asking =>
      cases hplace : c.loop.place with
      | deciding => exact returns_of_deciding h hcall hplace
      | proceeding => exact (returns_of_proceeding h hcall hplace).mono (by omega)
      | _ => exact (returns_of_asking h hcall (by rw [hplace]; rfl)).mono (by omega)
    | joining => exact (returns_of_joining h hcall (stepsLeft_le _)).mono (by omega)
    | concluding => exact (returns_of_concluding hcall).mono (by omega)
    | returned result => exact .done hcall

/-! ## 6. The whole -/

def Invokes (s : RunLoop.Surroundings α σ) (c : Interleaving α σ) : LoopEvent α σ → Prop
  | .advance => c.loop.place = .ticking ∧
    (0 < (c.loop.sweepAt s c.world).fired ∨ (c.loop.sweepAt s c.world).cutShort = true)
  | _ => False

/-- Once the loop has been asked to stop, the thread does not go on to another tick. -/
theorem tick_of_stop (hstop : c.loop.control.stop = true) {events : List (LoopEvent α σ)}
    (hrun : c.run? s events = some c') (hplace : c'.loop.place = .ticking) :
    c.loop.place = .ticking ∧ events.countP ofThread = 0 := by
  have hless := (stepsLeft_run hstop hrun).2
  rw [hplace] at hless
  have hmost := stepsLeft_le c.loop.place
  have hfive : stepsLeft .ticking = 5 := rfl
  refine ⟨?_, by omega⟩
  have hleft : stepsLeft c.loop.place = 5 := by omega
  cases hbefore : c.loop.place <;> simp [hbefore, stepsLeft] at hleft
  rfl

/-- What is promised of a run that has come from `start` to `c`. -/
structure StopsProperly (s : RunLoop.Surroundings α σ) (start : Interleaving α σ)
    (events : List (LoopEvent α σ)) (c : Interleaving α σ) : Prop where
  /-- The loop passes through its states in order. -/
  inOrder : (states s start events).destutter (· ≠ ·) <+: LoopState.all
  /-- No move that is attempted is one that the lifecycle does not allow. -/
  allowed : ¬ Happens s (fun c ev => ∃ target, c.attempt? s ev = some target ∧
    c.loop.state.canMoveTo target = false) start events
  unnoted : ∀ n ∈ c.loop.log, ∀ cause, n ≠ .stopRefused cause ∧ n ≠ .exitRefused cause
  /-- A call to stop that is not the first one returns at once, or does nothing in its callback. -/
  late : Happens s (CallsStop s) start events → ∀ {ev c'}, c.step? s ev = some c' →
    CallsStop s c ev →
      ev = .stop ∧ c' = { c with stops := c.stops ++ [.returned (.ok ())] } ∨
        ev = .advance ∧ c'.loop.control = c.loop.control ∧ c'.loop.log = c.loop.log ∧
          c'.stops = c.stops
  /-- A first call from outside can return, and learns whether a callback broke down. -/
  returns : ¬ Happens s (CallsStop s) start events → ∀ {more c'},
    c.run? s (.stop :: more) = some c' → Returns s 10 c' ∧
      ∀ {result}, c'.stops[0]? = some (.returned result) → c'.loop.state = .stopped ∧
        (¬ Happens s (BreaksDown s) start (events ++ .stop :: more) ∧ result = .ok () ∨
          Happens s (BreaksDown s) start (events ++ .stop :: more) ∧
            result = .error (.fault ("run loop `" ++ start.loop.name ++ "` thread panicked")))
  /-- When it returns there are no entries, until someone registers another one. -/
  emptied : ¬ Happens s (CallsStop s) start events → ∀ {more c' ev c'' result},
    c.run? s (.stop :: more) = some c' → c'.step? s ev = some c'' →
    c'.stops[0]? ≠ some (.returned result) → c''.stops[0]? = some (.returned result) →
      ∀ {later last}, c''.run? s later = some last → (∀ e, .enroll e ∉ later) →
        last.loop.entryCount = 0
  /-- Once the loop has been asked to stop, the thread comes to its end, and no callback is invoked but
  in a tick to which it had gone on before. -/
  silent : c.loop.control.stop = true → ∀ {more c'}, c.run? s more = some c' →
    more.countP ofThread ≤ 5 ∧
      ∀ {ev}, Invokes s c' ev → c.loop.place = .ticking ∧ more.countP ofThread = 0

section

variable {id : Nat} {o : LoopOptions} {now : Timestamp} {world : σ} {c₀ : Interleaving α σ}
  {events : List (LoopEvent α σ)}
  (hspawn : (quiet (RunLoop.create id o now) world).step? s .advance = some c₀)

include hspawn

theorem states_spawned : (states s (quiet (RunLoop.create id o now) world)
    (.advance :: events)).destutter (· ≠ ·) <+: LoopState.all := by
  have h₀ := orderly_spawned hspawn
  obtain ⟨rest, hrest, hchain⟩ := states_chain s h₀ events
  have hrunning : c₀.loop.state = .running := by
    cases hspawn
    rfl
  rw [states, hspawn]
  show List.destutter _ (.created :: states s c₀ events) <+: _
  rw [hrest, hrunning] at hchain ⊢
  refine LoopState.destutter_prefix (x := .created) (List.isChain_cons_cons.2 ⟨?_, hchain⟩)
  exact .inr (by decide)

/-- From the start on no move is attempted that the lifecycle does not allow. -/
theorem allowed_spawned : ¬ Happens s (fun c ev => ∃ target, c.attempt? s ev = some target ∧
    c.loop.state.canMoveTo target = false) (quiet (RunLoop.create id o now) world)
    (.advance :: events) := by
  rw [happens_cons_iff hspawn, not_or]
  constructor
  · rintro ⟨target, hattempt, hrefused⟩
    cases hattempt
    cases hrefused
  · apply not_happens (P := fun c => ∃ first, Orderly c first)
    · rintro c c' ev ⟨first, h⟩ hstep
      obtain ⟨first', h', -⟩ := orderly_step h hstep
      exact ⟨first', h'⟩
    · rintro c ev ⟨first, h⟩ ⟨target, hattempt, hrefused⟩
      rw [attempt_allowed h hattempt] at hrefused
      cases hrefused
    · exact ⟨.nobody, orderly_spawned hspawn⟩

theorem log_spawned (hrun : c₀.run? s events = some c) :
    ∀ n ∈ c.loop.log, ∀ cause, n ≠ .stopRefused cause ∧ n ≠ .exitRefused cause := by
  have hempty : ∀ n ∈ c₀.loop.log, n = .unknownHandle ∨ n = .threadBroken := by
    cases hspawn
    exact fun n hn => by cases hn
  intro n hn cause
  rcases log_run (orderly_spawned hspawn) hempty hrun n hn with rfl | rfl
  · simp
  · simp

end

/-- What a first call from outside returns. -/
theorem result_of_claimed (h : Orderly c .outside) {result : Except Failure Unit}
    (hreturned : c.stops[0]? = some (.returned result)) :
    c.loop.state = .stopped ∧ result = c.loop.verdict := by
  have hsuits := h.calls.suits rfl hreturned
  exact ⟨hsuits.1, hsuits.2.2⟩

/-- Whatever other threads do from the moment when a loop has come up, and whatever its callbacks do,
the loop stops properly. -/
theorem stops_properly (s : RunLoop.Surroundings α σ) {id : Nat} {o : LoopOptions} {now : Timestamp}
    {first : σ} {events : List (LoopEvent α σ)} {c : Interleaving α σ}
    (hrun : (quiet (RunLoop.create id o now) first).run? s (.advance :: events) = some c) :
    StopsProperly s (quiet (RunLoop.create id o now) first) (.advance :: events) c := by
  obtain ⟨c₀, hspawn, hrest⟩ := Option.bind_eq_some_iff.1 hrun
  obtain ⟨caller, h, -⟩ := orderly_run (orderly_spawned hspawn) hrest
  have hclaimed := run_iff_happens claimed_step hrun
  -- As long as nobody has called, the call from outside that comes next is the first one.
  have houtside : ∀ {more c'}, ¬ Happens s (CallsStop s) (quiet (RunLoop.create id o now) first)
      (.advance :: events) → c.run? s (.stop :: more) = some c' → Orderly c' .outside := by
    intro more c' hnobody hmore
    refine orderly_claimed h ?_ hmore
    rw [← Bool.not_eq_false, hclaimed]
    exact fun hsome => hsome.elim (by simp [quiet, RunLoop.create]) hnobody
  constructor
  case inOrder => exact states_spawned hspawn
  case allowed => exact allowed_spawned hspawn
  case unnoted => exact log_spawned hspawn hrest
  case late =>
    intro hcalled ev c' hstep hcall
    exact late_call (hclaimed.2 (.inr hcalled)) hstep hcall
  case returns =>
    intro hnobody more c' hmore
    have h' := houtside hnobody hmore
    refine ⟨can_return h', fun hreturned => ?_⟩
    obtain ⟨hstopped, hresult⟩ := result_of_claimed h' hreturned
    refine ⟨hstopped, ?_⟩
    have hwhole : (quiet (RunLoop.create id o now) first).run? s
        (.advance :: events ++ .stop :: more) = some c' := by
      rw [run?_append, hrun]
      exact hmore
    have hbroken := run_iff_happens broken_step hwhole
    have hname := name_run hwhole
    rw [hresult, RunLoop.verdict, hname]
    by_cases hplace : c'.loop.place = .broken
    · rw [if_pos hplace]
      exact .inr ⟨(hbroken.1 hplace).resolve_left (by simp [quiet, RunLoop.create]), rfl⟩
    · rw [if_neg hplace]
      exact .inl ⟨fun hdown => hplace (hbroken.2 (.inr hdown)), rfl⟩
  case emptied =>
    intro hnobody more c' ev c'' result hmore hstep hbefore hafter later last hlater henroll
    have h' := houtside hnobody hmore
    obtain ⟨ms, hholds⟩ := holds_run (holds_run_create hrun) hmore
    have hempty : c''.loop.roster.Holds [] := by
      cases h'.calls with
      | outside hclaimed' hstops hlate hsuits =>
        exact empty_of_return hholds hclaimed' hstep hbefore hafter (by simp [hstops])
    exact (empty_run hempty hlater henroll).length
  case silent =>
    intro hstop more c' hmore
    have hleft := (stepsLeft_run hstop hmore).2
    have hmost := stepsLeft_le c.loop.place
    refine ⟨by omega, fun {ev} hinvokes => ?_⟩
    cases ev with
    | advance => exact tick_of_stop hstop hmore hinvokes.1
    | _ => exact hinvokes.elim

def fragile : RunLoop.Surroundings Unit Timestamp :=
  ⟨fun _ a now => ⟨a, now, false, true⟩, fun now => now⟩

/-- The callback of the only entry breaks down in the first tick, and whoever stops the loop then
learns of it. -/
theorem stops_properly_of_breakdown :
    ∃ c c', (quiet (RunLoop.create 1 ⟨"tick", Duration.second, .catchUp, 0⟩ 0) 0).run? fragile
        [.advance, .enroll ⟨(), 50000, 0, by decide⟩, .advance, .advance, .advance] = some c ∧
      c.run? fragile [.stop, .resume 0, .resume 0, .resume 0] = some c' ∧
      c'.stops[0]? = some (.returned (.error (.fault "run loop `tick` thread panicked"))) ∧
      c'.loop.state = .stopped := by
  have hruns : ∃ c c' result, (quiet (RunLoop.create 1 ⟨"tick", Duration.second, .catchUp, 0⟩ 0)
        0).run? fragile
        [.advance, .enroll ⟨(), 50000, 0, by decide⟩, .advance, .advance, .advance] = some c ∧
      c.loop.unclaimed = true ∧ c.loop.place = .broken ∧
      c.run? fragile [.stop, .resume 0, .resume 0, .resume 0] = some c' ∧
      c'.stops[0]? = some (.returned result) := ⟨_, _, _, rfl, rfl, rfl, rfl, rfl⟩
  obtain ⟨c, c', result, hrun, hunclaimed, hbroken, hmore, hreturned⟩ := hruns
  have hproper := stops_properly fragile hrun
  have hnobody := not_or.1 ((run_iff_happens claimed_step hrun).not.1 (by simp [hunclaimed]))
  have hdown := ((run_iff_happens broken_step hrun).1 hbroken).resolve_left
    (by simp [quiet, RunLoop.create])
  obtain ⟨hstopped, hresult⟩ := (hproper.returns hnobody.2 hmore).2 hreturned
  rcases hresult with ⟨hwhole, -⟩ | ⟨-, rfl⟩
  · exact absurd (hdown.append _) hwhole
  · exact ⟨c, c', hrun, hmore, hreturned, hstopped⟩

end Interleaving

end Cadence
