import Cadence.Proofs.RunLoop.Logs
import Cadence.Proofs.RunLoop.Registry
import Mathlib.Data.Nat.ModEq

/-!
# What handles are good for

A handle fits what is in its slot if the slot has been vacated a multiple of `2 ^ 32` times since.  So
with fewer vacations it fits its own entry and nothing else, and an entry that has been removed by it
does not come back.  A call that is refused leaves no trace but in the log.
-/

namespace Cadence

variable {α σ : Type}

def RunLoop.Accepts (l : RunLoop α) (h : Handle) : Prop := ∃ e, (l.unregister h).1 = .ok e

def LoopCall.hertz? : LoopCall α σ → Option Float
  | .registerAfter hertz _ _ | .register hertz _ _ => some hertz
  | _ => none

namespace Registry

def since (r : Registry α σ) (q : Issue) : Nat := r.vacated q.loop q.slot - q.vacated

/-- What the handles of the registrations so far are good for. -/
structure Faithful (s : RunLoop.Surroundings α σ) (r : Registry α σ) : Prop where
  grows : ∀ q ∈ r.issues, q.vacated ≤ r.vacated q.loop q.slot
  /-- A handle is accepted by the loop that issued it, as long as some entry is in its slot and the slot
  has been vacated a multiple of `2 ^ 32` times since, and never else. -/
  accepted : ∀ q ∈ r.issues, ∀ i c, r.fleet[i]? = some c →
    (c.loop.Accepts q.handle ↔ q.loop = i ∧ r.fleet.occupied i q.slot ∧ 2 ^ 32 ∣ r.since q)
  /-- No other handles are. -/
  unissued : ∀ h, (∀ q ∈ r.issues, q.handle ≠ h) → ∀ c ∈ r.fleet, ¬ c.loop.Accepts h
  /-- With fewer than `2 ^ 32` vacations it is accepted while its own entry is there, and that is the
  entry removed. -/
  own : ∀ (n : Nat) (q : Issue) (c : Interleaving (α × Nat) (σ × List Nat)), r.issues[n]? = some q →
    r.fleet[q.loop]? = some c → r.since q < 2 ^ 32 →
    (c.loop.Accepts q.handle ↔ n ∈ c.loop.roster.numbers) ∧
      ∀ e, (c.loop.unregister q.handle).1 = .ok e → e.callback.2 = n
  /-- Two registrations get the same handle only if there have been as many vacations in between. -/
  apart : ∀ (n m : Nat) (p q : Issue), n < m → r.issues[n]? = some p → r.issues[m]? = some q →
    p.handle = q.handle → p.loop = q.loop ∧ p.slot = q.slot ∧ p.vacated + 2 ^ 32 ≤ q.vacated
  /-- A removed entry is in no loop any more, and its callback does not run again. -/
  removed : ∀ ev e r', r.step? s ev = some (.unregistered (.ok e), r') →
    ∀ events last, r'.run? s events = some last →
      (∀ c ∈ last.fleet, e.callback.2 ∉ c.loop.roster.numbers) ∧
        ∀ i, (last.log i).count e.callback.2 = (r'.log i).count e.callback.2
  /-- Whoever unregisters is answered, and refused with a handle that is not accepted. -/
  unregistering : ∀ i c h, r.fleet[i]? = some c →
    (∃ r', r.step? s (.at i (.unregister h)) = some (.unregistered (c.loop.unregister h).1, r')) ∧
      (¬ c.loop.Accepts h → (c.loop.unregister h).1 = .error (.handle c.loop.name h))
  /-- A number that is no frequency is refused. -/
  registering : ∀ i call hertz, i < r.fleet.length → call.hertz? = some hertz →
    Frequency.isValid hertz = false →
    ∃ r', r.step? s (.at i call) = some (.registered (.error (.frequency hertz)), r')
  /-- Whoever is refused changes nothing but the log, and whatever comes next is answered as if there had
  been no such call. -/
  refused : ∀ ev answer r', r.step? s ev = some (answer, r') → answer.isRefusal = true →
    r.fleet.Alike r'.fleet ∧ r'.issues = r.issues ∧ r'.vacated = r.vacated ∧
      ∀ events, AnsweredAlike Fleet.Alike (r.fleet.run? s.noting events)
        (r'.fleet.run? s.noting events)

end Registry

/-! ## 1. Which handles fit -/

namespace RunLoop

theorem post_of_unregister {l : RunLoop (α × Nat)} {h : Handle} {e : Entry (α × Nat)}
    (he : (l.unregister h).1 = .ok e) :
    h.loop = l.id ∧ l.roster.post h.ticket.index = some (h.ticket.generation, some e.callback.2) := by
  rcases l.unregister_cases h with ⟨e', r, hown, hremove, hcall⟩ | ⟨-, hcall⟩ <;> rw [hcall] at he
  · cases he
    exact ⟨hown, (Roster.post_remove hremove).1⟩
  · cases he

theorem accepts_iff {l : RunLoop (α × Nat)} {h : Handle} :
    l.Accepts h ↔
      h.loop = l.id ∧ ∃ n, l.roster.post h.ticket.index = some (h.ticket.generation, some n) := by
  constructor
  · rintro ⟨e, he⟩
    obtain ⟨hown, hpost⟩ := post_of_unregister he
    exact ⟨hown, _, hpost⟩
  · rintro ⟨hown, hpost⟩
    obtain ⟨⟨e, r⟩, hremove⟩ := Option.isSome_iff_exists.1 (Roster.isSome_remove_iff.2 hpost)
    have hdismiss := dismiss_eq_some_iff.2 ⟨hown, r, hremove, rfl⟩
    refine ⟨e, ?_⟩
    rw [unregister, hdismiss]

theorem unregister_of_not_accepts {l : RunLoop α} {h : Handle} (hnot : ¬ l.Accepts h) :
    (l.unregister h).1 = .error (.handle l.name h) := by
  rcases l.unregister_cases h with ⟨e, r, -, -, hcall⟩ | ⟨-, hcall⟩
  · exact absurd ⟨e, by rw [hcall]⟩ hnot
  · rw [hcall]

theorem submit_of_invalid (l : RunLoop α) {hertz : Float} (h : Frequency.isValid hertz = false)
    (e : Entry α) : l.submit hertz e = (.error (.frequency hertz), l.note .invalidFrequency) := by
  rcases l.submit_cases hertz e with ⟨hvalid, -⟩ | ⟨-, hsubmit⟩
  · rw [h] at hvalid
    cases hvalid
  · exact hsubmit

end RunLoop

/-- The generation of a slot comes back when it has been vacated `2 ^ 32` times. -/
theorem ofNat_eq_ofNat_iff {a b : Nat} (h : a ≤ b) :
    UInt32.ofNat a = UInt32.ofNat b ↔ 2 ^ 32 ∣ b - a := by
  rw [← Nat.modEq_iff_dvd' h, ← UInt32.toNat_inj, UInt32.toNat_ofNat', UInt32.toNat_ofNat']
  rfl

section

variable {issues : List Issue} {i j : Nat} {post : Option (UInt32 × Option Nat)} {vacated : Nat}
  (h : SlotSound issues i j post vacated)

include h

theorem SlotSound.vacated_le {q : Issue} (hq : q ∈ issues) (hi : q.loop = i) (hj : q.slot = j) :
    q.vacated ≤ vacated := by
  obtain ⟨n, hn⟩ := List.getElem?_of_mem hq
  rcases h.stays n q hn hi hj with hlt | ⟨heq, -⟩
  · exact Nat.le_of_lt hlt
  · exact Nat.le_of_eq heq

/-- What is in a slot has the generation of a handle if it has been vacated as many times. -/
theorem SlotSound.fits_iff {q : Issue} (hq : q ∈ issues) (hi : q.loop = i) (hj : q.slot = j) :
    (∃ n, post = some (q.handle.ticket.generation, some n)) ↔
      (post.bind Prod.snd).isSome ∧ 2 ^ 32 ∣ vacated - q.vacated := by
  have hgeneration : q.handle.ticket.generation = UInt32.ofNat q.vacated := by
    rw [h.handle q hq hi hj]
  rw [← ofNat_eq_ofNat_iff (h.vacated_le hq hi hj), hgeneration]
  constructor
  · rintro ⟨n, hpost⟩
    refine ⟨by rw [hpost]; rfl, h.generation _ _ hpost⟩
  · rintro ⟨hsome, hsame⟩
    obtain ⟨n, hn⟩ := Option.isSome_iff_exists.1 hsome
    obtain ⟨⟨g, o⟩, hpost, hgo⟩ := Option.bind_eq_some_iff.1 hn
    refine ⟨n, ?_⟩
    rw [hpost, hsame, ← h.generation g o hpost]
    exact congrArg (fun o => some (g, o)) hgo

/-- Until the generation comes back, what fits a handle is its own entry. -/
theorem SlotSound.own {n m : Nat} {g : UInt32} {q : Issue} (hn : issues[n]? = some q)
    (hi : q.loop = i) (hj : q.slot = j) (hfew : vacated - q.vacated < 2 ^ 32)
    (hpost : post = some (g, some m)) (hg : q.handle.ticket.generation = g) : m = n := by
  have hmem := List.mem_of_getElem? hn
  have hfits := (h.fits_iff hmem hi hj).1 ⟨m, hg ▸ hpost⟩
  have hzero : vacated - q.vacated = 0 := Nat.eq_zero_of_dvd_of_lt hfits.2 hfew
  rcases h.stays n q hn hi hj with hlt | ⟨-, g', hpost'⟩
  · omega
  · rw [hpost'] at hpost
    cases hpost
    rfl

end

namespace Registry

variable {s : RunLoop.Surroundings α σ} {r r' : Registry α σ}

section

variable (h : r.Sound)

include h

theorem Sound.accepted {q : Issue} (hq : q ∈ r.issues) {i : Nat}
    {c : Interleaving (α × Nat) (σ × List Nat)} (hc : r.fleet[i]? = some c) :
    c.loop.Accepts q.handle ↔ q.loop = i ∧ r.fleet.occupied i q.slot ∧ 2 ^ 32 ∣ r.since q := by
  have hslot := h.slot q.loop q.slot
  have hhandle := hslot.handle q hq rfl rfl
  have hown : q.handle.loop = c.loop.id ↔ q.loop = i := by
    rw [h.id i c hc, hhandle, Nat.add_right_cancel_iff]
  rw [RunLoop.accepts_iff, hown]
  refine and_congr_right fun hi => ?_
  subst hi
  rw [Fleet.occupied_eq, since, ← hslot.fits_iff hq rfl rfl, Fleet.post_of_getElem? hc]
  rfl

/-- The handle of what is in a slot has been issued. -/
theorem Sound.unissued {h' : Handle} (hnone : ∀ q ∈ r.issues, q.handle ≠ h')
    {c : Interleaving (α × Nat) (σ × List Nat)} (hc : c ∈ r.fleet) : ¬ c.loop.Accepts h' := by
  rw [RunLoop.accepts_iff]
  rintro ⟨hown, n, hpost⟩
  obtain ⟨i, hi⟩ := List.getElem?_of_mem hc
  rw [← Fleet.post_of_getElem? hi] at hpost
  have hholder := (h.slot i h'.ticket.index).holder _ n hpost
  apply hnone _ (List.mem_of_getElem? hholder)
  rw [← h.id i c hi, ← hown]

/-- As long as a slot has been vacated fewer than `2 ^ 32` times since a registration, the handle
fits the entry of that registration and no other. -/
theorem Sound.own {n : Nat} {q : Issue} {c : Interleaving (α × Nat) (σ × List Nat)}
    (hn : r.issues[n]? = some q) (hc : r.fleet[q.loop]? = some c) (hfew : r.since q < 2 ^ 32) :
    (c.loop.Accepts q.handle ↔ n ∈ c.loop.roster.numbers) ∧
      ∀ e, (c.loop.unregister q.handle).1 = .ok e → e.callback.2 = n := by
  have hslot := h.slot q.loop q.slot
  rw [Fleet.post_of_getElem? hc] at hslot
  have hremoved : ∀ e, (c.loop.unregister q.handle).1 = .ok e → e.callback.2 = n := by
    intro e he
    have hpost := (RunLoop.post_of_unregister he).2
    exact hslot.own hn rfl rfl hfew hpost rfl
  refine ⟨?_, hremoved⟩
  obtain ⟨ms, hms⟩ := h.holds q.loop c hc
  rw [hms.mem_numbers_iff]
  constructor
  · rintro ⟨e, he⟩
    have hpost := (RunLoop.post_of_unregister he).2
    exact ⟨_, _, hremoved e he ▸ hpost⟩
  · rintro ⟨j, g, hpost⟩
    -- The registration of what is in a slot tells its handle.
    have hpost' := hpost
    rw [← Fleet.post_of_getElem? hc] at hpost'
    have hholder := (h.slot q.loop j).holder g n hpost'
    rw [hn, Option.some.injEq] at hholder
    have hhandle : q.handle = ⟨q.loop + 1, j, g⟩ := congrArg Issue.handle hholder
    rw [RunLoop.accepts_iff, hhandle, h.id q.loop c hc]
    exact ⟨rfl, n, hpost⟩

/-- Two registrations share a handle only if the generation of their slot has come back in between.
-/
theorem Sound.apart {n m : Nat} {p q : Issue} (hnm : n < m) (hp : r.issues[n]? = some p)
    (hq : r.issues[m]? = some q) (hsame : p.handle = q.handle) :
    p.loop = q.loop ∧ p.slot = q.slot ∧ p.vacated + 2 ^ 32 ≤ q.vacated := by
  have hp' := (h.slot p.loop p.slot).handle p (List.mem_of_getElem? hp) rfl rfl
  have hq' := (h.slot q.loop q.slot).handle q (List.mem_of_getElem? hq) rfl rfl
  have hloop : p.loop = q.loop := by
    have hloops := congrArg Handle.loop hsame
    rw [hp', hq'] at hloops
    exact Nat.add_right_cancel hloops
  have hslot : p.slot = q.slot := congrArg (fun h => h.ticket.index) hsame
  have hlt := (h.slot q.loop q.slot).ordered n m p q hnm hp hq hloop hslot rfl rfl
  have hgeneration : UInt32.ofNat p.vacated = UInt32.ofNat q.vacated := by
    have hgenerations := congrArg (fun h => h.ticket.generation) hsame
    rwa [hp', hq'] at hgenerations
  have hdvd := (ofNat_eq_ofNat_iff (Nat.le_of_lt hlt)).1 hgeneration
  have hle := Nat.le_of_dvd (Nat.sub_pos_of_lt hlt) hdvd
  exact ⟨hloop, hslot, by omega⟩

end

/-! ## 2. What has been removed -/

structure Gone (r : Registry α σ) (n : Nat) : Prop where
  issued : n < r.issues.length
  absent : ∀ i j g, r.fleet.post i j ≠ some (g, some n)

theorem log_of_getElem? {i : Nat} {c : Interleaving (α × Nat) (σ × List Nat)}
    (hc : r.fleet[i]? = some c) : r.log i = c.world.2 := by
  rw [log, hc]

/-- Nothing has run in a new loop. -/
theorem log_spawn (r : Registry α σ) (o : LoopOptions) (now : Timestamp) (world : σ) (i : Nat) :
    log { r with fleet := r.fleet ++
      [Interleaving.quiet (RunLoop.create (r.fleet.length + 1) o now) (world, [])] } i = r.log i := by
  by_cases hi : i < r.fleet.length
  · simp only [log, List.getElem?_append_left hi]
  · have hle := Nat.le_of_not_lt hi
    simp only [log, List.getElem?_append_right hle, List.getElem?_eq_none hle]
    cases i - r.fleet.length <;> rfl

theorem Gone.not_mem_numbers (h : r.Sound) {n : Nat} (hgone : r.Gone n)
    {c : Interleaving (α × Nat) (σ × List Nat)} (hc : c ∈ r.fleet) : n ∉ c.loop.roster.numbers := by
  obtain ⟨i, hi⟩ := List.getElem?_of_mem hc
  obtain ⟨ms, hms⟩ := h.holds i c hi
  rw [hms.mem_numbers_iff]
  rintro ⟨j, g, hpost⟩
  rw [← Fleet.post_of_getElem? hi] at hpost
  exact hgone.absent i j g hpost

/-- What is gone does not come back, for a new entry gets a new number. -/
theorem gone_step {ev : FleetEvent α σ} {answer : Answer (α × Nat)} (h : r.Sound) {n : Nat}
    (hgone : r.Gone n) (hstep : r.step? s ev = some (answer, r')) : r'.Gone n := by
  rcases step_cases hstep with ⟨o, now, world, -, rfl⟩ | ⟨i, call, c, c', -, hc, hcall, rfl⟩
  · constructor
    case issued => exact hgone.issued
    case absent =>
      intro i j g
      rw [Fleet.post_spawn]
      exact hgone.absent i j g
  · have hchange := Interleaving.change_call (h.holds i c hc) hcall
    constructor
    case issued =>
      show n < (r.issues ++ _).length
      rw [List.length_append]
      exact Nat.lt_add_right _ hgone.issued
    case absent =>
      intro i' j g
      show Fleet.post (r.fleet.set i c') i' j ≠ _
      rw [Fleet.post_set hc]
      split
      · have habsent := hgone.absent i j g
        rw [Fleet.post_of_getElem? hc] at habsent
        -- The post is the same as before, vacant, or that of the entry that is new.
        rcases hchange.slot j with ⟨hsame, -⟩ | ⟨g', k, -, hleft, -⟩ | ⟨g', -, hfilled, -⟩
        · rwa [hsame]
        · rw [hleft]
          simp
        · rw [hfilled]
          have hissued := hgone.issued
          simp only [ne_eq, Option.some.injEq, Prod.mk.injEq, not_and]
          omega
      · exact hgone.absent i' j g

/-- What is gone does not run. -/
theorem Gone.idle {ev : FleetEvent α σ} {answer : Answer (α × Nat)} {n : Nat} (hgone : r.Gone n)
    (hstep : r.step? s ev = some (answer, r')) (i : Nat) :
    (r'.log i).count n = (r.log i).count n := by
  rcases step_cases hstep with ⟨o, now, world, -, rfl⟩ | ⟨i', call, c, c', -, hc, hcall, rfl⟩
  · rw [log_spawn]
  · have hlt := (List.getElem?_eq_some_iff.1 hc).1
    by_cases hi : i' = i
    · subst hi
      have hc' : (r.after i' answer (r.fleet.set i' c')).fleet[i']? = some c' :=
        List.getElem?_set_self hlt
      rw [log_of_getElem? hc', log_of_getElem? hc]
      apply Interleaving.idle_call hcall
      intro j g
      rw [← Fleet.post_of_getElem? hc]
      exact hgone.absent i' j g
    · simp only [log, after, List.getElem?_set_ne hi]

theorem gone_run {events : List (FleetEvent α σ)} (h : r.Sound) {n : Nat} (hgone : r.Gone n)
    (hrun : r.run? s events = some r') :
    r'.Sound ∧ r'.Gone n ∧ ∀ i, (r'.log i).count n = (r.log i).count n := by
  apply run_induction (P := fun r' => r'.Sound ∧ r'.Gone n ∧
    ∀ i, (r'.log i).count n = (r.log i).count n) _ ⟨h, hgone, fun _ => rfl⟩ hrun
  intro x x' ev answer hx hstep
  exact ⟨sound_step hx.1 hstep, gone_step hx.1 hx.2.1 hstep,
    fun i => (hx.2.1.idle hstep i).trans (hx.2.2 i)⟩

/-- What is removed was in one slot only. -/
theorem gone_of_removal {ev : FleetEvent α σ} {e : Entry (α × Nat)} (h : r.Sound)
    (hstep : r.step? s ev = some (.unregistered (.ok e), r')) : r'.Gone e.callback.2 := by
  rcases step_cases hstep with ⟨o, now, world, hdone, -⟩ | ⟨i, call, c, c', -, hc, hcall, rfl⟩
  · cases hdone
  · have hchange := Interleaving.change_call (h.holds i c hc) hcall
    generalize hpost' : c'.loop.roster.post = post' at hchange
    cases hchange with
    | refused hrefusal => cases hrefusal
    | @removed j g _ hheld' =>
      rw [← Fleet.post_of_getElem? hc] at hheld'
      have hholder := (h.slot i j).holder g _ hheld'
      constructor
      case issued =>
        show _ < (r.issues ++ _).length
        rw [List.length_append]
        exact Nat.lt_add_right _ (List.getElem?_eq_some_iff.1 hholder).1
      case absent =>
        intro i' j' g' hpost
        replace hpost : Fleet.post (r.fleet.set i c') i' j' = some (g', some e.callback.2) := hpost
        rw [Fleet.post_set hc] at hpost
        -- Whatever slot it should be in, it would be the one that has just been vacated.
        have hsame : ∀ {i' j' g'}, r.fleet.post i' j' = some (g', some e.callback.2) →
            i' = i ∧ j' = j := by
          intro i' j' g' hheld
          have hholder' := (h.slot i' j').holder g' _ hheld
          rw [hholder, Option.some.injEq] at hholder'
          exact ⟨(congrArg Issue.loop hholder').symm, (congrArg Issue.slot hholder').symm⟩
        split at hpost
        · rw [hpost'] at hpost
          by_cases hj : j' = j
          · rw [hj, Function.update_self] at hpost
            cases hpost
          · rw [Function.update_of_ne hj, ← Fleet.post_of_getElem? hc] at hpost
            exact hj (hsame hpost).2
        · rename_i hi
          exact hi (hsame hpost).1

/-! ## 3. What is refused -/

theorem issues_of_refusal {answer : Answer α} (h : answer.isRefusal = true) (i : Nat)
    (vacated : Nat → Nat) : answer.issues i vacated = [] := by
  unfold Answer.issues
  split
  · cases h
  · rfl

/-- An event that is refused leaves the fleet as it was but for the log, and is no registration. -/
theorem alike_of_refusal {ev : FleetEvent α σ} {answer : Answer (α × Nat)}
    (hstep : r.step? s ev = some (answer, r')) (hrefusal : answer.isRefusal = true) :
    r.fleet.Alike r'.fleet ∧ r'.issues = r.issues ∧ r'.vacated = r.vacated := by
  rcases step_cases hstep with ⟨o, now, world, rfl, -⟩ | ⟨i, call, c, c', -, hc, hcall, rfl⟩
  · cases hrefusal
  · have halike := Interleaving.alike_of_refusal hcall hrefusal
    refine ⟨?_, ?_, ?_⟩
    · obtain ⟨hlt, rfl⟩ := List.getElem?_eq_some_iff.1 hc
      have hset := forall₂_set (Fleet.Alike.refl r.fleet) halike i
      rwa [List.set_getElem_self] at hset
    · simp only [after, issues_of_refusal hrefusal, List.append_nil]
    · have hroster : c'.loop.roster = c.loop.roster := by
        obtain ⟨l, ⟨log, rfl⟩, rfl⟩ := halike
        rfl
      funext i' j
      simp only [after, Fleet.occupied_eq]
      rw [Fleet.post_set_of_roster hc hroster, Bool.and_not_self, Bool.toNat_false, Nat.add_zero]

theorem step_of_call {i : Nat} {c c' : Interleaving (α × Nat) (σ × List Nat)} {call : LoopCall α σ}
    {answer : Answer (α × Nat)} (hc : r.fleet[i]? = some c)
    (hcall : c.call? s.noting (call.number r.issues.length (r.log i)) = some (answer, c')) :
    ∃ r', r.step? s (.at i call) = some (answer, r') := by
  refine ⟨r.after i answer (r.fleet.set i c'), ?_⟩
  simp only [step?, Fleet.step?, hc, Option.bind_some, hcall, Option.map_some]

/-- A number that is no frequency is refused by every loop. -/
theorem refused_register {i : Nat} {hertz : Float} {call : LoopCall α σ} (hi : i < r.fleet.length)
    (hcall : call.hertz? = some hertz) (hinvalid : Frequency.isValid hertz = false) :
    ∃ r', r.step? s (.at i call) = some (.registered (.error (.frequency hertz)), r') := by
  have hc : r.fleet[i]? = some r.fleet[i] := List.getElem?_eq_getElem hi
  cases call with
  | registerAfter hertz' delay callback =>
    cases hcall
    apply step_of_call hc
    simp only [LoopCall.number, Interleaving.call?, RunLoop.registerAfter,
      RunLoop.submit_of_invalid _ hinvalid]
    rfl
  | register hertz' random callback =>
    cases hcall
    apply step_of_call hc
    simp only [LoopCall.number, Interleaving.call?, RunLoop.register,
      RunLoop.submit_of_invalid _ hinvalid]
    rfl
  | unregister h' => cases hcall
  | step ev => cases hcall

/-! ## 4. All together -/

/-- Handles name exactly their own entries: at every moment of every run of any number of loops, whatever
is called in whatever order, all that `Faithful` says of the handles that have been issued is true. -/
theorem handles_name_own_entries (s : RunLoop.Surroundings α σ) {events : List (FleetEvent α σ)}
    (hrun : empty.run? s events = some r) : r.Faithful s := by
  have h : r.Sound := sound_run hrun
  constructor
  case grows => exact fun q hq => (h.slot q.loop q.slot).vacated_le hq rfl rfl
  case accepted => exact fun q hq i c hc => h.accepted hq hc
  case unissued => exact fun h' hnone c hc => h.unissued hnone hc
  case own => exact fun n q c hn hc hfew => h.own hn hc hfew
  case apart => exact fun n m p q hnm hp hq hsame => h.apart hnm hp hq hsame
  case removed =>
    intro ev e r' hstep events last hlast
    obtain ⟨hsound, hgone, hidle⟩ := gone_run (sound_step h hstep) (gone_of_removal h hstep) hlast
    exact ⟨fun c hc => hgone.not_mem_numbers hsound hc, hidle⟩
  case unregistering =>
    exact fun i c h' hc => ⟨step_of_call hc rfl, RunLoop.unregister_of_not_accepts⟩
  case registering => exact fun i call hertz hi hcall hinvalid => refused_register hi hcall hinvalid
  case refused =>
    intro ev answer r' hstep hrefusal
    obtain ⟨halike, hissues, hvacated⟩ := alike_of_refusal hstep hrefusal
    exact ⟨halike, hissues, hvacated, Fleet.alike_run halike s.noting⟩

/-- Two loops; an entry of the first one is unregistered, the next one gets its slot, and the other loop
is asked to remove that. -/
def reusedSlot : List (FleetEvent Unit Timestamp) :=
  [.spawn ⟨"tick", Duration.second, .catchUp, 0⟩ 0 0, .spawn ⟨"tock", Duration.second, .catchUp, 0⟩ 0 0,
    .at 0 (.step (.enroll ⟨(), 25000, 10000, by decide⟩)), .at 0 (.unregister ⟨1, 0, 0⟩),
    .at 0 (.step (.enroll ⟨(), 25000, 10000, by decide⟩)), .at 1 (.unregister ⟨1, 0, 1⟩)]

/-- The first handle is stale, and the second one fits the second entry. -/
theorem handles_name_own_entries_of_reused_slot :
    ∃ r c, empty.run? Interleaving.instantly reusedSlot = some r ∧ r.fleet[0]? = some c ∧
      ¬ c.loop.Accepts ⟨1, 0, 0⟩ ∧ c.loop.Accepts ⟨1, 0, 1⟩ ∧
        ∀ e, (c.loop.unregister ⟨1, 0, 1⟩).1 = .ok e → e.callback.2 = 1 := by
  have hruns : ∃ r c, empty.run? Interleaving.instantly reusedSlot = some r ∧
      r.fleet[0]? = some c ∧ r.issues = [⟨0, ⟨1, 0, 0⟩, 0⟩, ⟨0, ⟨1, 0, 1⟩, 1⟩] ∧
      r.vacated 0 0 = 1 ∧ 1 ∈ c.loop.roster.numbers := by
    refine ⟨_, _, rfl, rfl, ?_⟩
    decide +kernel
  obtain ⟨r, c, hrun, hc, hissues, hvacated, hthere⟩ := hruns
  have hfaithful := handles_name_own_entries Interleaving.instantly hrun
  have hstale := hfaithful.accepted ⟨0, ⟨1, 0, 0⟩, 0⟩ (by simp [hissues]) 0 c hc
  have hown := hfaithful.own 1 ⟨0, ⟨1, 0, 1⟩, 1⟩ c (by simp [hissues]) hc
    (by simp [since, Issue.slot, hvacated])
  refine ⟨r, c, hrun, hc, ?_, hown.1.2 hthere, hown.2⟩
  rw [hstale, since, Issue.slot, hvacated]
  simp

end Registry

end Cadence
