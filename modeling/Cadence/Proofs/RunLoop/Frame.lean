import Cadence.Proofs.Roster.Stays
import Cadence.RunLoop.Interleaving

/-!
# What a step leaves alone

Most of what happens at a run loop moves its thread on, its flags and its lifecycle, and leaves alone
the entries, the times that the thread goes by and what it has recorded (`Keeps`).  `advance_cases`
and `others_alter` sort the steps by what they do to the entries: one of them is a tick, others
register an entry, remove one or drop all.
-/

namespace Cadence.RunLoop

variable {α σ : Type}

/-- The entries, the times that the thread goes by and its records are the same, and a thread that has
broken down is not there again. -/
structure Keeps (l l' : RunLoop α) : Prop where
  roster : l'.roster = l.roster
  lastWake : l'.lastWake = l.lastWake
  interval : l'.interval = l.interval
  maxWait : l'.maxWait = l.maxWait
  metrics : l'.metrics = l.metrics
  broken : l.place = .broken → l'.place = .broken

theorem Keeps.refl (l : RunLoop α) : Keeps l l := ⟨rfl, rfl, rfl, rfl, rfl, fun h => h⟩

theorem Keeps.trans {l l' l'' : RunLoop α} (h : Keeps l l') (h' : Keeps l' l'') : Keeps l l'' :=
  ⟨h'.roster.trans h.roster, h'.lastWake.trans h.lastWake, h'.interval.trans h.interval,
    h'.maxWait.trans h.maxWait,
    h'.metrics.trans h.metrics, h'.broken ∘ h.broken⟩

/-- The thread itself has not broken down where it goes on. -/
theorem Keeps.of_place {l l' : RunLoop α} {p : Place} (hplace : l.place = p) (hp : p ≠ .broken)
    (hroster : l'.roster = l.roster) (hlastWake : l'.lastWake = l.lastWake)
    (hinterval : l'.interval = l.interval) (hmaxWait : l'.maxWait = l.maxWait)
    (hmetrics : l'.metrics = l.metrics) : Keeps l l' :=
  ⟨hroster, hlastWake, hinterval, hmaxWait, hmetrics,
    fun hbroken => absurd (hplace.symm.trans hbroken) hp⟩

/-- Beyond that, at most some entry or all of them are gone. -/
inductive Alters (l l' : RunLoop α) : Prop
  | kept (keeps : Keeps l l')
  | removed {t : Ticket} {e : Entry α} {r : Roster α} (removal : l.roster.remove t = some (e, r))
    (keeps : Keeps { l with roster := r } l')
  | emptied (keeps : Keeps { l with roster := l.roster.clear } l')

theorem Alters.lastWake {l l' : RunLoop α} (h : Alters l l') : l'.lastWake = l.lastWake := by
  cases h with
  | kept hkeeps => exact hkeeps.lastWake
  | removed _ hkeeps => exact hkeeps.lastWake
  | emptied hkeeps => exact hkeeps.lastWake

theorem Alters.interval {l l' : RunLoop α} (h : Alters l l') : l'.interval = l.interval := by
  cases h with
  | kept hkeeps => exact hkeeps.interval
  | removed _ hkeeps => exact hkeeps.interval
  | emptied hkeeps => exact hkeeps.interval

theorem Alters.metrics {l l' : RunLoop α} (h : Alters l l') : l'.metrics = l.metrics := by
  cases h with
  | kept hkeeps => exact hkeeps.metrics
  | removed _ hkeeps => exact hkeeps.metrics
  | emptied hkeeps => exact hkeeps.metrics

theorem Alters.broken {l l' : RunLoop α} (h : Alters l l') (hplace : l.place = .broken) :
    l'.place = .broken := by
  cases h with
  | kept hkeeps => exact hkeeps.broken hplace
  | removed _ hkeeps => exact hkeeps.broken hplace
  | emptied hkeeps => exact hkeeps.broken hplace

/-! ## 1. The functions of a loop -/

theorem keeps_note (l : RunLoop α) (n : Notice) : Keeps l (l.note n) :=
  ⟨rfl, rfl, rfl, rfl, rfl, fun h => h⟩

theorem keeps_control (l : RunLoop α) (control : Control) : Keeps l { l with control := control } :=
  ⟨rfl, rfl, rfl, rfl, rfl, fun h => h⟩

theorem keeps_moveTo (l : RunLoop α) (target : LoopState) (refusal : Failure → Notice) :
    Keeps l (l.moveTo target refusal) := by
  unfold moveTo
  split
  · exact keeps_control l _
  · exact keeps_note l _

theorem keeps_rouse (l : RunLoop α) : Keeps l l.rouse := by
  unfold rouse
  split
  · rename_i hplace
    exact .of_place hplace (by decide) rfl rfl rfl rfl rfl
  · exact Keeps.refl l

/-- A refusal is noted, and else only the lifecycle changes. -/
@[simp]
theorem stop_moveTo (l : RunLoop α) (target : LoopState) (refusal : Failure → Notice) :
    (l.moveTo target refusal).control.stop = l.control.stop := by
  unfold moveTo
  split <;> rfl

@[simp]
theorem rescan_moveTo (l : RunLoop α) (target : LoopState) (refusal : Failure → Notice) :
    (l.moveTo target refusal).control.rescan = l.control.rescan := by
  unfold moveTo
  split <;> rfl

@[simp]
theorem place_moveTo (l : RunLoop α) (target : LoopState) (refusal : Failure → Notice) :
    (l.moveTo target refusal).place = l.place := by
  unfold moveTo
  split <;> rfl

@[simp]
theorem unclaimed_moveTo (l : RunLoop α) (target : LoopState) (refusal : Failure → Notice) :
    (l.moveTo target refusal).unclaimed = l.unclaimed := by
  unfold moveTo
  split <;> rfl

@[simp]
theorem roster_rouse (l : RunLoop α) : l.rouse.roster = l.roster := (keeps_rouse l).roster

@[simp]
theorem control_rouse (l : RunLoop α) : l.rouse.control = l.control := by
  unfold rouse
  split <;> rfl

@[simp]
theorem unclaimed_rouse (l : RunLoop α) : l.rouse.unclaimed = l.unclaimed := by
  unfold rouse
  split <;> rfl

@[simp]
theorem log_rouse (l : RunLoop α) : l.rouse.log = l.log := by
  unfold rouse
  split <;> rfl

theorem place_rouse (l : RunLoop α) :
    l.rouse.place = if l.place = .asleep then .roused else l.place := by
  unfold rouse
  split <;> rfl

theorem rouse_ne_asleep (l : RunLoop α) : l.rouse.place ≠ .asleep := by
  rw [place_rouse]
  split
  · decide
  · assumption

theorem rouse_eq_iff (l : RunLoop α) {p : Place} (hasleep : p ≠ .asleep) (hroused : p ≠ .roused) :
    l.rouse.place = p ↔ l.place = p := by
  rw [place_rouse]
  split
  · rename_i hplace
    rw [hplace]
    exact ⟨fun h => absurd h.symm hroused, fun h => absurd h.symm hasleep⟩
  · rfl

theorem keeps_claim (l : RunLoop α) : Keeps l l.claim := ⟨rfl, rfl, rfl, rfl, rfl, fun h => h⟩

theorem keeps_askToStop (l : RunLoop α) : Keeps l l.askToStop := by
  refine Keeps.trans ?_ (keeps_rouse _)
  exact (keeps_control l _).trans (keeps_moveTo _ _ _)

theorem keeps_requestStop (l : RunLoop α) : Keeps l l.requestStop := by
  unfold requestStop
  split
  · exact (keeps_claim l).trans (keeps_askToStop _)
  · exact Keeps.refl l

theorem keeps_comeUp {l : RunLoop α} (hplace : l.place = .starting) : Keeps l l.comeUp := by
  unfold comeUp
  split
  · exact .of_place hplace (by decide) rfl rfl rfl rfl rfl
  · exact .of_place hplace (by decide) rfl rfl rfl rfl rfl

theorem comeUp_ne_asleep (l : RunLoop α) : l.comeUp.place ≠ .asleep := by
  unfold comeUp
  split
  · exact nofun
  · exact nofun

theorem rescan_comeUp (l : RunLoop α) : l.comeUp.control.rescan = l.control.rescan := by
  unfold comeUp
  split <;> rfl

theorem keeps_relock {l : RunLoop α} (hplace : l.place = .returning) : Keeps l l.relock :=
  .of_place hplace (by decide) rfl rfl rfl rfl rfl

theorem keeps_awaken {l : RunLoop α} (hplace : l.place = .roused) : Keeps l l.awaken :=
  .of_place hplace (by decide) rfl rfl rfl rfl rfl

theorem keeps_sleepOrProceed {l : RunLoop α} (hplace : l.place = .deciding) (now : Timestamp) :
    Keeps l (l.sleepOrProceed now) := by
  unfold sleepOrProceed
  split
  · exact .of_place hplace (by decide) rfl rfl rfl rfl rfl
  · exact .of_place hplace (by decide) rfl rfl rfl rfl rfl

theorem keeps_proceed {l : RunLoop α} (hplace : l.place = .proceeding) : Keeps l l.proceed := by
  unfold proceed
  split
  · have h := keeps_moveTo l .stopped .exitRefused
    exact .of_place hplace (by decide) h.roster h.lastWake h.interval h.maxWait h.metrics
  · exact .of_place hplace (by decide) rfl rfl rfl rfl rfl

theorem proceed_ne_asleep (l : RunLoop α) : l.proceed.place ≠ .asleep := by
  unfold proceed
  split
  · exact nofun
  · exact nofun

theorem keeps_leave {l : RunLoop α} (hplace : l.place = .emptying) :
    Keeps { l with roster := l.roster.clear } l.leave :=
  .of_place hplace (by decide) rfl rfl rfl rfl rfl

theorem keeps_flagRescan (l : RunLoop α) : Keeps l l.flagRescan := keeps_control l _

theorem keeps_complete (l : RunLoop α) : Keeps l l.complete := by
  unfold complete
  split
  · exact Keeps.refl l
  · exact keeps_control l _

theorem keeps_conclude (l : RunLoop α) :
    Keeps { l with roster := l.roster.clear } l.conclude.2 := by
  unfold conclude
  dsimp only
  split
  · exact keeps_note _ _
  · exact Keeps.refl _

@[simp]
theorem place_conclude (l : RunLoop α) : l.conclude.2.place = l.place := by
  unfold conclude
  dsimp only
  split <;> rfl

@[simp]
theorem control_conclude (l : RunLoop α) : l.conclude.2.control = l.control := by
  unfold conclude
  dsimp only
  split <;> rfl

@[simp]
theorem place_complete (l : RunLoop α) : l.complete.place = l.place := by
  unfold complete
  split <;> rfl

@[simp]
theorem rescan_complete (l : RunLoop α) : l.complete.control.rescan = l.control.rescan := by
  unfold complete
  split <;> rfl

/-- A removal needs a handle of this loop, and changes nothing but the roster. -/
theorem dismiss_eq_some_iff {l l' : RunLoop α} {h : Handle} {e : Entry α} :
    l.dismiss h = some (e, l') ↔
      h.loop = l.id ∧ ∃ r, l.roster.remove h.ticket = some (e, r) ∧ l' = { l with roster := r } := by
  rw [dismiss]
  split
  · rename_i hown
    simp only [Option.map_eq_some_iff, Prod.exists, Prod.mk.injEq, hown, true_and]
    constructor
    · rintro ⟨e', r, hremove, rfl, rfl⟩
      exact ⟨r, hremove, rfl⟩
    · rintro ⟨r, hremove, rfl⟩
      exact ⟨e, r, hremove, rfl, rfl⟩
  · rename_i hforeign
    simp [hforeign]

/-- Unregistering removes the entry of the handle and wakes the thread, or is refused. -/
theorem unregister_cases (l : RunLoop α) (h : Handle) :
    (∃ e r, h.loop = l.id ∧ l.roster.remove h.ticket = some (e, r) ∧
        l.unregister h = (.ok e, (flagRescan { l with roster := r }).rouse)) ∨
      l.dismiss h = none ∧
        l.unregister h = (.error (.handle l.name h), l.note .unknownHandle) := by
  rw [unregister]
  cases hdismiss : l.dismiss h with
  | none => exact .inr ⟨rfl, rfl⟩
  | some removed =>
    obtain ⟨e, l'⟩ := removed
    obtain ⟨hown, r, hremove, rfl⟩ := dismiss_eq_some_iff.1 hdismiss
    exact .inl ⟨e, r, hown, hremove, rfl⟩

/-- Registering appends the entry and wakes the thread, or is refused. -/
theorem submit_cases (l : RunLoop α) (hertz : Float) (e : Entry α) :
    Frequency.isValid hertz = true ∧
        l.submit hertz e = (.ok (l.enroll e).1, (l.enroll e).2.flagRescan.rouse) ∨
      Frequency.isValid hertz = false ∧
        l.submit hertz e = (.error (.frequency hertz), l.note .invalidFrequency) := by
  rw [submit]
  cases hvalid : Frequency.isValid hertz with
  | true => exact .inl ⟨rfl, rfl⟩
  | false => exact .inr ⟨rfl, rfl⟩

/-! ## 2. A tick -/

theorem tick_eq (s : Surroundings α σ) (l : RunLoop α) (world : σ) :
    let t := l.roster.tick s.invoke ((s.now world).since l.lastWake) world
    (l.tick s world).2.1.roster = t.roster ∧ (l.tick s world).2.1.lastWake = s.now world ∧
      (l.tick s world).2.1.maxWait = l.maxWait ∧ (l.tick s world).2.2 = t.world := by
  intro t
  -- A request to stop that a callback makes leaves the entries and the times alone.
  let ticked := { l with roster := t.roster, lastWake := s.now world }
  let asked := if t.stopAsked then ticked.requestStop else ticked
  have hasked : Keeps ticked asked := by
    show Keeps _ (if _ then _ else _)
    split
    · exact keeps_requestStop ticked
    · exact Keeps.refl ticked
  unfold tick
  dsimp only
  split
  · exact ⟨hasked.roster, hasked.lastWake, hasked.maxWait, rfl⟩
  · exact ⟨hasked.roster, hasked.lastWake, hasked.maxWait, rfl⟩

theorem identity_moveTo (l : RunLoop α) (target : LoopState) (refusal : Failure → Notice) :
    (l.moveTo target refusal).id = l.id ∧ (l.moveTo target refusal).name = l.name := by
  unfold moveTo
  split <;> exact ⟨rfl, rfl⟩

theorem identity_rouse (l : RunLoop α) : l.rouse.id = l.id ∧ l.rouse.name = l.name := by
  unfold rouse
  split <;> exact ⟨rfl, rfl⟩

theorem identity_askToStop (l : RunLoop α) :
    l.askToStop.id = l.id ∧ l.askToStop.name = l.name := by
  unfold askToStop
  obtain ⟨hid, hname⟩ := identity_rouse (moveTo _ _ _)
  rw [hid, hname]
  exact identity_moveTo _ _ _

/-- A loop stays the one it is, also where a callback asks it to stop. -/
theorem identity_requestStop (l : RunLoop α) :
    l.requestStop.id = l.id ∧ l.requestStop.name = l.name := by
  unfold requestStop
  split
  · exact l.claim.identity_askToStop
  · exact ⟨rfl, rfl⟩

/-- A tick leaves the loop the one it is. -/
theorem identity_tick (s : Surroundings α σ) (l : RunLoop α) (world : σ) :
    (l.tick s world).2.1.id = l.id ∧ (l.tick s world).2.1.name = l.name := by
  unfold tick
  dsimp only
  generalize l.roster.tick s.invoke ((s.now world).since l.lastWake) world = t
  -- Between the entries and the end of the tick there is at most the request to stop.
  let ticked := { l with roster := t.roster, lastWake := s.now world }
  let asked := if t.stopAsked then ticked.requestStop else ticked
  have hasked : asked.id = l.id ∧ asked.name = l.name := by
    show (if _ then _ else _ : RunLoop α).id = _ ∧ (if _ then _ else _ : RunLoop α).name = _
    split
    · exact ticked.identity_requestStop
    · exact ⟨rfl, rfl⟩
  split <;> exact hasked

theorem tick_of_completed (s : Surroundings α σ) (l : RunLoop α) (world : σ) {o : TickOutcome}
    (ho : (l.roster.tick s.invoke ((s.now world).since l.lastWake) world).outcome = some o) :
    (l.tick s world).1 = some ⟨(s.now world).since l.lastWake, o.fired,
        min (o.nextDue.getD l.maxWait) l.maxWait⟩ ∧
      (l.tick s world).2.1.interval = min (o.nextDue.getD l.maxWait) l.maxWait ∧
      (l.tick s world).2.1.place = .returning := by
  unfold tick
  dsimp only
  rw [ho]
  exact ⟨rfl, rfl, rfl⟩

theorem tick_of_cutShort (s : Surroundings α σ) (l : RunLoop α) (world : σ)
    (ho : (l.roster.tick s.invoke ((s.now world).since l.lastWake) world).outcome = none) :
    (l.tick s world).1 = none ∧ (l.tick s world).2.1.place = .broken := by
  unfold tick
  dsimp only
  rw [ho]
  exact ⟨rfl, rfl⟩

/-- Unless the thread has broken down, the tick was completed. -/
theorem whole_of_place {s : Surroundings α σ} {l : RunLoop α} {world : σ}
    (hplace : (l.tick s world).2.1.place ≠ .broken) :
    (l.roster.tick s.invoke ((s.now world).since l.lastWake) world).cutShort = false := by
  rw [← Bool.not_eq_true]
  intro hcut
  refine hplace (tick_of_cutShort s l world ?_).2
  rw [TickState.outcome, if_pos hcut]

/-- Only a callback that asks for it stops the loop. -/
theorem control_tick (s : Surroundings α σ) (l : RunLoop α) (world : σ)
    (hstop : (l.roster.tick s.invoke ((s.now world).since l.lastWake) world).stopAsked = false) :
    (l.tick s world).2.1.control = l.control := by
  unfold tick
  dsimp only
  rw [hstop]
  split
  · rfl
  · rfl

theorem returning_of_trace {s : Surroundings α σ} {l : RunLoop α} {world : σ} {trace : Trace}
    (htrace : (l.tick s world).1 = some trace) : (l.tick s world).2.1.place = .returning := by
  cases ho : (l.roster.tick s.invoke ((s.now world).since l.lastWake) world).outcome with
  | none =>
    rw [(tick_of_cutShort s l world ho).1] at htrace
    cases htrace
  | some o => exact (tick_of_completed s l world ho).2.2

end Cadence.RunLoop

namespace Cadence.Interleaving

variable {α σ : Type} {s : RunLoop.Surroundings α σ} {c c' : Interleaving α σ}

/-! ## 3. A step -/

/-- The thread ticks, or leaves the entries alone but for dropping all of them on its way out. -/
theorem advance_cases (h : c.advance? s = some c') :
    c.loop.place = .ticking ∧ c'.loop = (c.loop.tick s c.world).2.1 ∧
        c'.world = (c.loop.tick s c.world).2.2 ∨
      c.loop.place ≠ .ticking ∧ RunLoop.Alters c.loop c'.loop := by
  cases hplace : c.loop.place <;> rw [advance?, hplace] at h <;> cases h
  case ticking => exact .inl ⟨rfl, rfl, rfl⟩
  case starting => exact .inr ⟨by decide, .kept (RunLoop.keeps_comeUp hplace)⟩
  case returning => exact .inr ⟨by decide, .kept (RunLoop.keeps_relock hplace)⟩
  case deciding => exact .inr ⟨by decide, .kept (RunLoop.keeps_sleepOrProceed hplace _)⟩
  case roused => exact .inr ⟨by decide, .kept (RunLoop.keeps_awaken hplace)⟩
  case proceeding => exact .inr ⟨by decide, .kept (RunLoop.keeps_proceed hplace)⟩
  case emptying => exact .inr ⟨by decide, .emptied (RunLoop.keeps_leave hplace)⟩

/-- Apart from a registration, others remove an entry at most or drop all of them in the end. -/
theorem others_alter {ev : LoopEvent α σ} (h : c.step? s ev = some c') (hadvance : ev ≠ .advance)
    (henroll : ∀ e, ev ≠ .enroll e) : RunLoop.Alters c.loop c'.loop := by
  -- Only a dismissal and the end of the first call to stop touch the roster.
  cases ev with
  | advance => exact absurd rfl hadvance
  | enroll e => exact absurd rfl (henroll e)
  | wake =>
    rw [step?] at h
    split at h
    · cases h
      exact .kept (RunLoop.keeps_rouse _)
    · cases h
  | elapse world =>
    cases h
    exact .kept (RunLoop.Keeps.refl _)
  | dismiss h' =>
    rw [step?] at h
    cases hdismiss : c.loop.dismiss h' with
    | none =>
      rw [hdismiss] at h
      cases h
      exact .kept (RunLoop.keeps_note _ _)
    | some removed =>
      rw [hdismiss] at h
      cases h
      obtain ⟨-, r, hremove, hloop⟩ := RunLoop.dismiss_eq_some_iff.1 hdismiss
      rw [hloop]
      exact .removed hremove (RunLoop.Keeps.refl _)
  | flag =>
    rw [step?] at h
    split at h
    · cases h
    · cases h
      exact .kept (RunLoop.keeps_flagRescan _)
  | rouse =>
    rw [step?] at h
    split at h
    · cases h
    · cases h
      exact .kept (RunLoop.keeps_rouse _)
  | stop =>
    rw [step?] at h
    split at h
    · cases h
      exact .kept (RunLoop.keeps_claim _)
    · cases h
      exact .kept (RunLoop.Keeps.refl _)
  | resume call =>
    rw [step?, resume?] at h
    split at h
    · split at h
      · cases h
      · cases h
        exact .kept (RunLoop.keeps_askToStop _)
    · split at h
      · cases h
        exact .kept (RunLoop.keeps_complete _)
      · cases h
    · cases h
      exact .emptied (RunLoop.keeps_conclude _)
    · cases h

/-- There is always a list of entries that the roster represents. -/
theorem holds_step {ev : LoopEvent α σ} (h : c.step? s ev = some c')
    (hholds : ∃ ms, c.loop.roster.Holds ms) : ∃ ms, c'.loop.roster.Holds ms := by
  obtain ⟨ms, hms⟩ := hholds
  have halters : RunLoop.Alters c.loop c'.loop → ∃ ms, c'.loop.roster.Holds ms := by
    intro halters
    cases halters with
    | kept hkeeps => exact ⟨ms, hkeeps.roster ▸ hms⟩
    | removed hremoval hkeeps =>
      obtain ⟨xs, ys, -, hrest, -⟩ := Roster.holds_of_remove hms hremoval
      exact ⟨xs ++ ys, hkeeps.roster ▸ hrest⟩
    | emptied hkeeps => exact ⟨[], hkeeps.roster ▸ Roster.holds_clear hms⟩
  cases ev with
  | advance =>
    rcases advance_cases h with ⟨-, hloop, -⟩ | ⟨-, hothers⟩
    · rw [hloop, (RunLoop.tick_eq s c.loop c.world).1]
      exact ⟨_, (Roster.tick_swept hms _ _ _).holds⟩
    · exact halters hothers
  | enroll e =>
    cases h
    exact ⟨_, (Roster.holds_insert hms e).2⟩
  | _ => exact halters (others_alter h nofun nofun)

theorem step_of_broken {ev : LoopEvent α σ} (h : c.step? s ev = some c')
    (hplace : c.loop.place = .broken) : c'.loop.place = .broken := by
  cases ev with
  | advance =>
    rcases advance_cases h with ⟨hticking, -⟩ | ⟨-, halters⟩
    · rw [hplace] at hticking
      cases hticking
    · exact halters.broken hplace
  | enroll e =>
    cases h
    exact hplace
  | _ => exact (others_alter h nofun nofun).broken hplace

end Cadence.Interleaving
