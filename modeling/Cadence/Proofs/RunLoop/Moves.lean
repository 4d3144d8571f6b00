import Cadence.Proofs.RunLoop.Frame

/-!
# What a step can be

`Move` lists the steps of an interleaving by what they do and when they can happen, so that what holds
at every moment is shown by going through this list once (`move_of_step`, `run_induction`).
-/

namespace Cadence.Interleaving

variable {α σ : Type}

inductive Move (s : RunLoop.Surroundings α σ) (c : Interleaving α σ) :
    LoopEvent α σ → Interleaving α σ → Prop
  | comeUp (place : c.loop.place = .starting) : Move s c .advance { c with loop := c.loop.comeUp }
  | relock (place : c.loop.place = .returning) : Move s c .advance { c with loop := c.loop.relock }
  | decide (place : c.loop.place = .deciding) :
    Move s c .advance { c with loop := c.loop.sleepOrProceed (s.now c.world) }
  | awaken (place : c.loop.place = .roused) : Move s c .advance { c with loop := c.loop.awaken }
  | proceed (place : c.loop.place = .proceeding) :
    Move s c .advance { c with loop := c.loop.proceed }
  | tick (place : c.loop.place = .ticking) :
    Move s c .advance
      { c with loop := (c.loop.tick s c.world).2.1, world := (c.loop.tick s c.world).2.2 }
  | leave (place : c.loop.place = .emptying) : Move s c .advance { c with loop := c.loop.leave }
  | wake (place : c.loop.place = .asleep) : Move s c .wake { c with loop := c.loop.rouse }
  | elapse (world : σ) : Move s c (.elapse world) { c with world := world }
  | enroll (e : Entry α) :
    Move s c (.enroll e)
      { c with loop := (c.loop.enroll e).2, unflagged := c.unflagged + 1 }
  | dismiss {h : Handle} {e : Entry α} {r : Roster α} (own : h.loop = c.loop.id)
    (removal : c.loop.roster.remove h.ticket = some (e, r)) :
    Move s c (.dismiss h)
      { c with loop := { c.loop with roster := r }, unflagged := c.unflagged + 1 }
  | refuse {h : Handle} (unknown : c.loop.dismiss h = none) :
    Move s c (.dismiss h) { c with loop := c.loop.note .unknownHandle }
  | flag (some : c.unflagged ≠ 0) (free : c.loop.place.holdsControl = false) :
    Move s c .flag
      { c with
        loop := c.loop.flagRescan
        unflagged := c.unflagged - 1
        unroused := c.unroused + 1 }
  | rouse (some : c.unroused ≠ 0) :
    Move s c .rouse { c with loop := c.loop.rouse, unroused := c.unroused - 1 }
  | claim (first : c.loop.unclaimed = true) :
    Move s c .stop { c with loop := c.loop.claim, stops := c.stops ++ [.asking] }
  | late (claimed : c.loop.unclaimed = false) :
    Move s c .stop { c with stops := c.stops ++ [.returned (.ok ())] }
  | ask {i : Nat} (call : c.stops[i]? = some .asking)
    (free : c.loop.place.holdsControl = false) :
    Move s c (.resume i) { c with loop := c.loop.askToStop, stops := c.stops.set i .joining }
  | complete {i : Nat} (call : c.stops[i]? = some .joining) (ended : c.loop.place.isEnd = true) :
    Move s c (.resume i) { c with loop := c.loop.complete, stops := c.stops.set i .concluding }
  | conclude {i : Nat} (call : c.stops[i]? = some .concluding) :
    Move s c (.resume i)
      { c with
        loop := c.loop.conclude.2
        stops := c.stops.set i (.returned c.loop.conclude.1) }

variable {s : RunLoop.Surroundings α σ} {c c' : Interleaving α σ} {ev : LoopEvent α σ}

theorem move_of_advance (h : c.advance? s = some c') : Move s c .advance c' := by
  cases hplace : c.loop.place <;> rw [advance?, hplace] at h <;> cases h
  case starting => exact .comeUp hplace
  case returning => exact .relock hplace
  case deciding => exact .decide hplace
  case roused => exact .awaken hplace
  case proceeding => exact .proceed hplace
  case ticking => exact .tick hplace
  case emptying => exact .leave hplace

theorem move_of_resume {i : Nat} (h : c.resume? i = some c') : Move s c (.resume i) c' := by
  rw [resume?] at h
  split at h
  · rename_i hcall
    split at h
    · cases h
    · rename_i hfree
      cases h
      exact .ask hcall (Bool.eq_false_iff.2 hfree)
  · rename_i hcall
    split at h
    · rename_i hend
      cases h
      exact .complete hcall hend
    · cases h
  · rename_i hcall
    cases h
    exact .conclude hcall
  · cases h

/-- Every step is one of the list. -/
theorem move_of_step (h : c.step? s ev = some c') : Move s c ev c' := by
  cases ev with
  | advance => exact move_of_advance h
  | wake =>
    rw [step?] at h
    split at h
    · rename_i hplace
      cases h
      exact .wake hplace
    · cases h
  | elapse world =>
    cases h
    exact .elapse world
  | enroll e =>
    cases h
    exact .enroll e
  | dismiss h' =>
    rw [step?] at h
    split at h
    · rename_i e loop hdismiss
      cases h
      obtain ⟨hown, r, hremove, rfl⟩ := RunLoop.dismiss_eq_some_iff.1 hdismiss
      exact .dismiss hown hremove
    · rename_i hdismiss
      cases h
      exact .refuse hdismiss
  | flag =>
    rw [step?] at h
    split at h
    · cases h
    · rename_i hfree
      rw [not_or, Bool.not_eq_true] at hfree
      cases h
      exact .flag hfree.1 hfree.2
  | rouse =>
    rw [step?] at h
    split at h
    · cases h
    · rename_i hsome
      cases h
      exact .rouse hsome
  | stop =>
    rw [step?] at h
    split at h
    · rename_i hfirst
      cases h
      exact .claim hfirst
    · rename_i hclaimed
      cases h
      exact .late (Bool.eq_false_iff.2 hclaimed)
  | resume i => exact move_of_resume h

/-- A loop stays the one it is. -/
theorem identity_step (h : c.step? s ev = some c') :
    c'.loop.id = c.loop.id ∧ c'.loop.name = c.loop.name := by
  cases move_of_step h with
  | comeUp hplace =>
    simp only [RunLoop.comeUp]
    split <;> exact ⟨rfl, rfl⟩
  | decide hplace =>
    simp only [RunLoop.sleepOrProceed]
    split <;> exact ⟨rfl, rfl⟩
  | proceed hplace =>
    simp only [RunLoop.proceed]
    split
    · exact RunLoop.identity_moveTo _ _ _
    · exact ⟨rfl, rfl⟩
  | tick hplace => exact RunLoop.identity_tick s c.loop c.world
  | wake hplace => exact RunLoop.identity_rouse _
  | rouse hsome => exact RunLoop.identity_rouse _
  | ask hcall hfree => exact RunLoop.identity_askToStop _
  | complete hcall hended =>
    simp only [RunLoop.complete]
    split <;> exact ⟨rfl, rfl⟩
  | conclude hcall =>
    simp only [RunLoop.conclude]
    split <;> exact ⟨rfl, rfl⟩
  | relock | awaken | leave | elapse | enroll | dismiss | refuse | flag | claim | late =>
    exact ⟨rfl, rfl⟩

theorem run?_append (s : RunLoop.Surroundings α σ) (c : Interleaving α σ)
    (xs ys : List (LoopEvent α σ)) : c.run? s (xs ++ ys) = (c.run? s xs).bind fun c => c.run? s ys := by
  induction xs generalizing c with
  | nil => rfl
  | cons ev rest ih =>
    rw [List.cons_append, run?, run?, Option.bind_assoc]
    congr 1
    funext c'
    exact ih c'

/-- What every step keeps is kept by every run. -/
theorem run_induction {P : Interleaving α σ → Prop}
    (hkeep : ∀ {c c' ev}, P c → c.step? s ev = some c' → P c') {events : List (LoopEvent α σ)}
    (hc : P c) (hrun : c.run? s events = some c') : P c' := by
  induction events generalizing c with
  | nil =>
    cases hrun
    exact hc
  | cons ev rest ih =>
    obtain ⟨c'', hstep, hrest⟩ := Option.bind_eq_some_iff.1 hrun
    exact ih (hkeep hc hstep) hrest

theorem holds_run {events : List (LoopEvent α σ)} (hholds : ∃ ms, c.loop.roster.Holds ms)
    (hrun : c.run? s events = some c') : ∃ ms, c'.loop.roster.Holds ms :=
  run_induction (fun hholds hstep => holds_step hstep hholds) hholds hrun

/-- The roster of a new loop is empty. -/
theorem holds_run_create {id : Nat} {o : LoopOptions} {now : Timestamp} {first : σ}
    {events : List (LoopEvent α σ)}
    (hrun : (quiet (RunLoop.create id o now) first).run? s events = some c) :
    ∃ ms, c.loop.roster.Holds ms :=
  holds_run ⟨[], Roster.holds_empty o.policy⟩ hrun

theorem name_run {events : List (LoopEvent α σ)} (hrun : c.run? s events = some c') :
    c'.loop.name = c.loop.name := by
  apply run_induction (P := fun c' => c'.loop.name = c.loop.name) _ rfl hrun
  intro c' c'' ev hname hstep
  exact (identity_step hstep).2.trans hname

/-! ## Steps of some kind -/

inductive Happens (s : RunLoop.Surroundings α σ) (p : Interleaving α σ → LoopEvent α σ → Prop) :
    Interleaving α σ → List (LoopEvent α σ) → Prop
  | now {c c' : Interleaving α σ} {ev : LoopEvent α σ} {events : List (LoopEvent α σ)}
    (step : c.step? s ev = some c') (such : p c ev) : Happens s p c (ev :: events)
  | later {c c' : Interleaving α σ} {ev : LoopEvent α σ} {events : List (LoopEvent α σ)}
    (step : c.step? s ev = some c') (rest : Happens s p c' events) : Happens s p c (ev :: events)

theorem not_happens_nil {p : Interleaving α σ → LoopEvent α σ → Prop} : ¬ Happens s p c [] := nofun

theorem happens_cons_iff {p : Interleaving α σ → LoopEvent α σ → Prop}
    (hstep : c.step? s ev = some c') {rest : List (LoopEvent α σ)} :
    Happens s p c (ev :: rest) ↔ p c ev ∨ Happens s p c' rest := by
  constructor
  · intro h
    cases h with
    | now _ hsuch => exact .inl hsuch
    | later hstep' hrest =>
      rw [hstep, Option.some.injEq] at hstep'
      exact .inr (hstep' ▸ hrest)
  · rintro (hsuch | hrest)
    · exact .now hstep hsuch
    · exact .later hstep hrest

theorem Happens.append {p : Interleaving α σ → LoopEvent α σ → Prop} {events : List (LoopEvent α σ)}
    (h : Happens s p c events) (more : List (LoopEvent α σ)) : Happens s p c (events ++ more) := by
  induction h with
  | now hstep hsuch => exact .now hstep hsuch
  | later hstep _ ih => exact .later hstep ih

/-- A step that is never possible in a run is not taken. -/
theorem not_happens {P : Interleaving α σ → Prop} {p : Interleaving α σ → LoopEvent α σ → Prop}
    (hkeep : ∀ {c c' ev}, P c → c.step? s ev = some c' → P c') (hnot : ∀ {c ev}, P c → ¬ p c ev)
    {events : List (LoopEvent α σ)} (hc : P c) : ¬ Happens s p c events := by
  intro h
  induction h with
  | now _ hsuch => exact hnot hc hsuch
  | later hstep _ ih => exact ih (hkeep hc hstep)

/-- What only such a step brings about, and nothing undoes, tells whether one was taken. -/
theorem run_iff_happens {q : Interleaving α σ → Prop}
    {p : Interleaving α σ → LoopEvent α σ → Prop}
    (hstep : ∀ {c c' ev}, c.step? s ev = some c' → (q c' ↔ q c ∨ p c ev))
    {events : List (LoopEvent α σ)} (hrun : c.run? s events = some c') :
    q c' ↔ q c ∨ Happens s p c events := by
  induction events generalizing c with
  | nil =>
    cases hrun
    simp only [not_happens_nil, or_false]
  | cons ev rest ih =>
    obtain ⟨c'', hfirst, hrest⟩ := Option.bind_eq_some_iff.1 hrun
    rw [ih hrest, hstep hfirst, happens_cons_iff hfirst, or_assoc]

def instantly : RunLoop.Surroundings Unit Timestamp :=
  ⟨fun _ a now => ⟨a, now, false, false⟩, fun now => now⟩

end Cadence.Interleaving
