import Cadence.Proofs.Pass
import Cadence.Proofs.Roster.Posts
import Cadence.Proofs.Roster.Stays

/-!
# Ticks that come early

A tick before any entry is due runs nothing and only lets time pass, and time that passes in two parts
makes the same entries due in the same order as time that passes at once (`sweep_waited`).  Callbacks
are told different deltas, so they may break down in one case and not in the other; that apart, nobody
can tell that there was a tick in between (`harmless_of_early`).
-/

namespace Cadence

variable {α σ : Type}

namespace Entry

/-! ## 1. One entry -/

structure Bounded (e : Entry α) : Prop where
  countdown_le : e.countdown ≤ maxSigned
  period_le : e.period ≤ maxSigned

theorem clampSigned_le (i : Int) : clampSigned i ≤ maxSigned := by
  simp only [clampSigned, maxSigned]
  omega

theorem rearm_le {policy : Policy} {period : Nat} (hpos : 0 < period) (hperiod : period ≤ maxSigned)
    (c : Int) : policy.rearm period c ≤ maxSigned := by
  have hhigh := Int.emod_lt_of_pos c (Int.natCast_pos.2 hpos)
  cases policy with
  | catchUp => exact clampSigned_le _
  | skipMissed =>
    show ite _ _ _ ≤ _
    split <;> omega

theorem Bounded.pass {e : Entry α} (h : e.Bounded) (policy : Policy)
    (invoke : α → σ → Invocation α σ) (delta : Nat) (world : σ) :
    (e.pass policy invoke delta world).entry.Bounded := by
  unfold Entry.pass
  by_cases hdue : (e.elapse delta).isDue
  · simp only [hdue, if_true]
    split
    · exact ⟨clampSigned_le _, h.period_le⟩
    · exact ⟨rearm_le e.period_pos h.period_le _, h.period_le⟩
  · simp only [hdue, Bool.false_eq_true, if_false]
    exact ⟨clampSigned_le _, h.period_le⟩

theorem elapse_zero {e : Entry α} (h : e.Bounded) (hpos : 0 < e.countdown) : e.elapse 0 = e := by
  have hsame : (e.elapse 0).countdown = e.countdown := by
    rw [countdown_elapse (Nat.zero_le _) h.countdown_le (by omega), Int.natCast_zero, Int.sub_zero]
  exact congrArg (fun c => { e with countdown := c }) hsame

theorem elapse_waiting {e : Entry α} (h : e.Bounded) {delta : Nat} (hearly : delta < e.countdown) :
    0 < (e.elapse delta).countdown := by
  have hhigh := h.countdown_le
  rw [countdown_elapse (by omega) hhigh (by omega)]
  omega

def countdownAfter (policy : Policy) (delta : Nat) (e : Entry α) : Int :=
  if e.countdown ≤ delta then policy.rearm e.period (e.countdown - delta) else e.countdown - delta

section

variable {e : Entry α} (hbounded : e.Bounded) {d₁ d₂ : Nat} (hearly : d₁ < e.countdown)
  (hsum : d₁ + d₂ ≤ maxSigned)

include hbounded hearly hsum

/-- The countdown is positive, so there is room for what is subtracted. -/
theorem countdown_elapse_early : (e.elapse (d₁ + d₂)).countdown = e.countdown - (d₁ + d₂ : Nat) :=
  countdown_elapse hsum hbounded.countdown_le (by omega)

theorem isDue_early_iff : (e.elapse (d₁ + d₂)).isDue = true ↔ e.countdown ≤ (d₁ + d₂ : Nat) := by
  rw [isDue, decide_eq_true_eq, countdown_elapse_early hbounded hearly hsum]
  omega

/-- Time passes in two parts as it does at once. -/
theorem elapse_elapse : (e.elapse d₁).elapse d₂ = e.elapse (d₁ + d₂) := by
  have hfirst : (e.elapse d₁).countdown = e.countdown - d₁ :=
    countdown_elapse (by omega) hbounded.countdown_le (by omega)
  have hhigh := hbounded.countdown_le
  have hsecond : ((e.elapse d₁).elapse d₂).countdown = e.countdown - (d₁ + d₂ : Nat) := by
    rw [countdown_elapse (by omega) (by omega) (by omega), hfirst]
    omega
  rw [← countdown_elapse_early hbounded hearly hsum] at hsecond
  exact congrArg (fun c => { e with countdown := c }) hsecond

theorem pass_elapse (policy : Policy) (invoke : α → σ → Invocation α σ) (world : σ) :
    (e.elapse d₁).pass policy invoke d₂ world = e.pass policy invoke (d₁ + d₂) world := by
  unfold Entry.pass
  rw [elapse_elapse hbounded hearly hsum]
  rfl

theorem countdown_pass_early {policy : Policy} {invoke : α → σ → Invocation α σ} {world : σ}
    (hdone : (e.pass policy invoke (d₁ + d₂) world).breaksDown = false) :
    (e.pass policy invoke (d₁ + d₂) world).entry.countdown = e.countdownAfter policy (d₁ + d₂) := by
  have hcountdown := countdown_elapse_early hbounded hearly hsum
  unfold countdownAfter
  by_cases hdue : e.countdown ≤ (d₁ + d₂ : Nat)
  · rw [pass_of_due (by omega) hdone, if_pos hdue, ← hcountdown]
  · rw [pass_of_waiting (by omega), if_neg hdue, ← hcountdown]

end

end Entry

namespace Roster

/-! ## 2. All entries -/

def waited (delta : Nat) (ms : List (Ticket × Entry α)) : List (Ticket × Entry α) :=
  ms.map fun m => (m.1, m.2.elapse delta)

structure Early (d₁ d₂ : Nat) (ms : List (Ticket × Entry α)) : Prop where
  bounded : ∀ m ∈ ms, m.2.Bounded
  early : ∀ m ∈ ms, d₁ < m.2.countdown
  sum_le : d₁ + d₂ ≤ maxSigned

/-- Two sweeps do the same, and if no callback breaks down they leave the same members. -/
structure Sweep.Agrees (s s' : Sweep α σ) : Prop where
  world : s.world = s'.world
  fired : s.fired = s'.fired
  stopAsked : s.stopAsked = s'.stopAsked
  cutShort : s.cutShort = s'.cutShort
  members : s'.cutShort = false → s.members = s'.members

theorem Sweep.Agrees.outcome {s s' : Sweep α σ} (h : s.Agrees s') : s.outcome = s'.outcome := by
  unfold Sweep.outcome
  rw [h.cutShort, h.fired]
  by_cases hcut : s'.cutShort = true
  · rw [if_pos hcut, if_pos hcut]
  · rw [h.members (Bool.eq_false_iff.2 hcut)]

section

variable {policy : Policy} {d₁ d₂ : Nat} {ms : List (Ticket × Entry α)}

theorem Early.head {m : Ticket × Entry α} (h : Early d₁ d₂ (m :: ms)) :
    m.2.Bounded ∧ d₁ < m.2.countdown :=
  ⟨h.bounded m List.mem_cons_self, h.early m List.mem_cons_self⟩

theorem Early.tail {m : Ticket × Entry α} (h : Early d₁ d₂ (m :: ms)) : Early d₁ d₂ ms where
  bounded m hm := h.bounded m (List.mem_cons_of_mem _ hm)
  early m hm := h.early m (List.mem_cons_of_mem _ hm)
  sum_le := h.sum_le

variable (h : Early d₁ d₂ ms)

include h

/-- Nothing runs, and all wait. -/
theorem sweep_early (invoke : α → σ → Invocation α σ) (world : σ) :
    sweep policy invoke d₁ ms world = ⟨waited d₁ ms, world, 0, false, false⟩ := by
  induction ms with
  | nil => rfl
  | cons m rest ih =>
    obtain ⟨t, e⟩ := m
    obtain ⟨hbounded, hearly⟩ := h.head
    have hwaiting : ¬ (e.elapse d₁).countdown ≤ 0 :=
      Int.not_le.2 (Entry.elapse_waiting hbounded hearly)
    simp only [sweep, hwaiting, if_false, ih h.tail]
    rfl

/-- A sweep of members that have waited is a sweep with the time that they have waited for, except
that members behind one that breaks down keep having waited. -/
theorem sweep_waited (invoke : α → σ → Invocation α σ) (world : σ) :
    (sweep policy invoke d₂ (waited d₁ ms) world).Agrees
      (sweep policy invoke (d₁ + d₂) ms world) := by
  induction ms generalizing world with
  | nil => exact ⟨rfl, rfl, rfl, rfl, fun _ => rfl⟩
  | cons m rest ih =>
    obtain ⟨t, e⟩ := m
    obtain ⟨hbounded, hearly⟩ := h.head
    -- A pass cannot tell whether the time has passed at once.
    have hpass : (e.elapse d₁).pass policy invoke d₂ world = e.pass policy invoke (d₁ + d₂) world :=
      Entry.pass_elapse hbounded hearly h.sum_le policy invoke world
    show (sweep policy invoke d₂ ((t, e.elapse d₁) :: waited d₁ rest) world).Agrees _
    cases hdown : (e.pass policy invoke (d₁ + d₂) world).breaksDown with
    | true =>
      rw [sweep_cons_of_down (hpass ▸ hdown), sweep_cons_of_down hdown, hpass]
      exact ⟨rfl, rfl, rfl, rfl, nofun⟩
    | false =>
      have hrest := ih h.tail (e.pass policy invoke (d₁ + d₂) world).world
      rw [sweep_cons_of_done (hpass ▸ hdown), sweep_cons_of_done hdown, hpass]
      dsimp only
      constructor
      case world => exact hrest.world
      case fired => rw [hrest.fired]
      case stopAsked => rw [hrest.stopAsked]
      case cutShort => exact hrest.cutShort
      case members => exact fun hwhole => by rw [hrest.members hwhole]

/-- The countdowns after a sweep that is not cut short do not depend on what the callbacks do. -/
theorem sweep_countdowns {invoke : α → σ → Invocation α σ} {world : σ}
    (hwhole : (sweep policy invoke (d₁ + d₂) ms world).cutShort = false) :
    (sweep policy invoke (d₁ + d₂) ms world).members.map (fun m => (m.1, m.2.countdown)) =
      ms.map fun m => (m.1, m.2.countdownAfter policy (d₁ + d₂)) := by
  induction ms generalizing world with
  | nil => rfl
  | cons m rest ih =>
    obtain ⟨t, e⟩ := m
    obtain ⟨hbounded, hearly⟩ := h.head
    obtain ⟨hdone, hrest⟩ := whole_of_cons hwhole
    rw [sweep_cons_of_done hdone]
    rw [List.map_cons, List.map_cons, ih h.tail hrest,
      Entry.countdown_pass_early hbounded hearly h.sum_le hdone]

theorem soonest_sweep {invoke : α → σ → Invocation α σ} {world : σ}
    (hwhole : (sweep policy invoke (d₁ + d₂) ms world).cutShort = false) :
    soonest (sweep policy invoke (d₁ + d₂) ms world).members =
      (ms.map fun m => m.2.countdownAfter policy (d₁ + d₂)).min? := by
  have hcountdowns := congrArg (List.map Prod.snd) (sweep_countdowns h hwhole)
  rw [List.map_map, List.map_map] at hcountdowns
  exact congrArg List.min? hcountdowns

/-- What a sweep reports that is not cut short can be told from the countdowns before it, whatever the
callbacks do. -/
theorem sweep_outcome_early {invoke : α → σ → Invocation α σ} {world : σ}
    (hwhole : (sweep policy invoke (d₁ + d₂) ms world).cutShort = false) :
    (sweep policy invoke (d₁ + d₂) ms world).outcome =
      some ⟨(ms.filter fun m => (m.2.elapse (d₁ + d₂)).isDue).length,
        (ms.map fun m => m.2.countdownAfter policy (d₁ + d₂)).min?.map Int.toNat⟩ := by
  unfold Sweep.outcome
  rw [hwhole, sweep_fired ms world hwhole, soonest_sweep h hwhole]
  rfl

end

/-! ## 3. In which order -/

def dueNumbers (delta : Nat) (es : List (Entry (α × Nat))) : List Nat :=
  (es.filter fun e => decide (e.countdown ≤ (delta : Int))).map fun e => e.callback.2

theorem dueNumbers_cons_of_due {delta : Nat} {e : Entry (α × Nat)} (es : List (Entry (α × Nat)))
    (h : e.countdown ≤ (delta : Int)) :
    dueNumbers delta (e :: es) = e.callback.2 :: dueNumbers delta es := by
  simp only [dueNumbers, List.filter_cons, h, decide_true, if_true, List.map_cons]

theorem dueNumbers_cons_of_waiting {delta : Nat} {e : Entry (α × Nat)}
    (es : List (Entry (α × Nat))) (h : ¬ e.countdown ≤ (delta : Int)) :
    dueNumbers delta (e :: es) = dueNumbers delta es := by
  simp only [dueNumbers, List.filter_cons, h, decide_false, Bool.false_eq_true, if_false]

/-- From the world `w` to the world `w'` callbacks with these numbers ran in this order, or only the
first of them if they were cut short. -/
def Ran (numbers : List Nat) (cutShort : Bool) (w w' : σ × List Nat) : Prop :=
  ∃ ran, ran <+: numbers ∧ w'.2 = w.2 ++ ran ∧ (cutShort = false → ran = numbers)

/-- A sweep runs the callbacks that are due, in the order of the members. -/
theorem ran_sweep {invoke : α × Nat → σ × List Nat → Invocation (α × Nat) (σ × List Nat)}
    (hnoting : Noting invoke) {policy : Policy} {d₁ d₂ : Nat} {ms : List (Ticket × Entry (α × Nat))}
    (h : Early d₁ d₂ ms) (world : σ × List Nat) :
    Ran (dueNumbers (d₁ + d₂) (ms.map Prod.snd))
      (sweep policy invoke (d₁ + d₂) ms world).cutShort world
      (sweep policy invoke (d₁ + d₂) ms world).world := by
  induction ms generalizing world with
  | nil => exact ⟨[], List.nil_prefix, (List.append_nil _).symm, fun _ => rfl⟩
  | cons m rest ih =>
    obtain ⟨t, e⟩ := m
    obtain ⟨hbounded, hearly⟩ := h.head
    have hcountdown : (e.elapse (d₁ + d₂)).countdown = e.countdown - (d₁ + d₂ : Nat) :=
      Entry.countdown_elapse_early hbounded hearly h.sum_le
    by_cases hdue : e.countdown ≤ (d₁ + d₂ : Nat)
    · -- The number of the first one is noted, and then those of the others.
      have hnumbers := dueNumbers_cons_of_due (rest.map Prod.snd) hdue
      have hnow : (e.elapse (d₁ + d₂)).countdown ≤ 0 := by omega
      obtain ⟨-, hnoted⟩ := hnoting e.callback world
      rw [List.map_cons, hnumbers]
      simp only [sweep, hnow, if_true]
      by_cases hdown : (invoke e.callback world).breaksDown = true
      · simp only [hdown, if_true]
        exact ⟨[e.callback.2], ⟨_, rfl⟩, hnoted, fun hcut => absurd hcut Bool.noConfusion⟩
      · simp only [hdown, Bool.false_eq_true, if_false]
        obtain ⟨ran, hran, hworld, hwhole⟩ := ih h.tail (invoke e.callback world).world
        refine ⟨e.callback.2 :: ran, (List.prefix_cons_inj _).2 hran, ?_, fun hcut => ?_⟩
        · rw [hworld, hnoted, List.append_assoc]
          rfl
        · rw [hwhole hcut]
    · have hnumbers := dueNumbers_cons_of_waiting (rest.map Prod.snd) hdue
      have hlater : ¬ (e.elapse (d₁ + d₂)).countdown ≤ 0 := by omega
      rw [List.map_cons, hnumbers]
      simp only [sweep, hlater, if_false]
      exact ih h.tail world

/-! ## 4. Rosters with such entries -/

/-- Every request keeps countdowns in the range of signed 64-bit numbers. -/
theorem bounded_step {policy : Policy} {invoke : Float → α → σ → Invocation α σ}
    {ms ms' : List (Ticket × Entry α)} {q : Request α σ} {reply : Reply α σ}
    (hstep : Ledger.Step policy invoke ms q reply ms') (hnew : ∀ e, q = .insert e → e.Bounded)
    (h : ∀ m ∈ ms, m.2.Bounded) : ∀ m ∈ ms', m.2.Bounded := by
  -- What a sweep does to each member is to pass by it, or nothing.
  have hswept : ∀ {invoke delta} {world : σ} {s : Sweep α σ},
      Ledger.Tick policy invoke delta ms world s → ∀ m ∈ s.members, m.2.Bounded := by
    intro invoke delta world s hticked m' hm'
    rw [← sweep_of_tick hticked] at hm'
    obtain ⟨m, hm, -, hpass⟩ := exists_of_mem_right (sweep_each ms world) hm'
    rcases hpass with hsame | ⟨w, hpassed⟩
    · exact hsame ▸ h m hm
    · exact hpassed ▸ (h m hm).pass policy _ delta w
  cases hstep with
  | insert hfresh =>
    intro m hm
    rcases List.mem_append.1 hm with hm | hm
    · exact h m hm
    · cases List.mem_singleton.1 hm
      exact hnew _ rfl
  | remove =>
    intro m hm
    apply h m
    rcases List.mem_append.1 hm with hm | hm
    · exact List.mem_append_left _ hm
    · exact List.mem_append_right _ (List.mem_cons_of_mem _ hm)
  | stale hgone => exact h
  | clear => exact nofun
  | completed hticked' hwhole => exact hswept hticked'
  | cutShort hticked' hcut => exact hswept hticked'

theorem bounded_run {policy : Policy} {invoke : Float → α → σ → Invocation α σ}
    {ms last : List (Ticket × Entry α)} {requests : List (Request α σ)} {replies : List (Reply α σ)}
    (hrun : Ledger.Run policy invoke ms requests replies last)
    (hnew : ∀ e, .insert e ∈ requests → e.Bounded) (h : ∀ m ∈ ms, m.2.Bounded) :
    ∀ m ∈ last, m.2.Bounded := by
  induction hrun with
  | nil => exact h
  | cons hfirst _ ih =>
    refine ih (fun e he => hnew e (List.mem_cons_of_mem _ he)) (bounded_step hfirst ?_ h)
    rintro e rfl
    exact hnew e List.mem_cons_self

/-- A tick before any entry of a roster is due, and a second one.  They are compared with one tick at
the time of the second. -/
structure Harmless (r : Roster (α × Nat))
    (invoke : Float → α × Nat → σ × List Nat → Invocation (α × Nat) (σ × List Nat)) (d₁ d₂ : Nat)
    (w₁ w : σ × List Nat) : Prop where
  /-- The early tick does nothing but to let time pass. -/
  early : (r.tick invoke d₁ w₁).world = w₁ ∧ (r.tick invoke d₁ w₁).stopAsked = false ∧
    ∃ next, (r.tick invoke d₁ w₁).outcome = some ⟨0, next⟩
  /-- The second tick runs the callbacks of the entries that are due then. -/
  later : let t := (r.tick invoke d₁ w₁).roster.tick invoke d₂ w
    Ran (dueNumbers (d₁ + d₂) r.toList) t.cutShort w t.world
  /-- So does a single tick. -/
  once : let t := r.tick invoke (d₁ + d₂) w
    Ran (dueNumbers (d₁ + d₂) r.toList) t.cutShort w t.world
  /-- They report the same and leave the same countdowns, if no callback breaks down. -/
  whole : let t := (r.tick invoke d₁ w₁).roster.tick invoke d₂ w
    let t' := r.tick invoke (d₁ + d₂) w
    t.cutShort = false → t'.cutShort = false → t.outcome = t'.outcome ∧
      t.roster.toList.map Entry.countdown = t'.roster.toList.map Entry.countdown ∧
      ∀ ticket, (t.roster.lookup ticket).map Entry.countdown =
        (t'.roster.lookup ticket).map Entry.countdown
  /-- Callbacks that do not ask how much time has passed do the same in both. -/
  blind : (∀ seconds seconds', invoke seconds = invoke seconds') →
    let t := (r.tick invoke d₁ w₁).roster.tick invoke d₂ w
    let t' := r.tick invoke (d₁ + d₂) w
    t.world = t'.world ∧ t.stopAsked = t'.stopAsked ∧ t.outcome = t'.outcome ∧
      (t'.cutShort = false → t.roster.toList = t'.roster.toList)

section

variable {r r' : Roster α} {ms ms' : List (Ticket × Entry α)} (h : r.Holds ms) (h' : r'.Holds ms')

include h h'

/-- Countdowns under their tickets are countdowns in their order. -/
theorem Holds.countdowns_congr (hsame : ms.map (fun m => (m.1, m.2.countdown)) =
    ms'.map fun m => (m.1, m.2.countdown)) :
    r.toList.map Entry.countdown = r'.toList.map Entry.countdown ∧
      ∀ ticket, (r.lookup ticket).map Entry.countdown = (r'.lookup ticket).map Entry.countdown := by
  have htickets : ms.map Prod.fst = ms'.map Prod.fst := by
    have hfst := congrArg (List.map Prod.fst) hsame
    rwa [List.map_map, List.map_map] at hfst
  constructor
  · have hsnd := congrArg (List.map Prod.snd) hsame
    rw [List.map_map, List.map_map] at hsnd
    rw [h.toList_eq, h'.toList_eq, List.map_map, List.map_map]
    exact hsnd
  · intro ticket
    -- Both rosters have the same tickets, so a ticket fits in both or in neither.
    by_cases hticket : ticket ∈ ms.map Prod.fst
    · obtain ⟨m, hm, rfl⟩ := List.mem_map.1 hticket
      have hmem : (m.1, m.2.countdown) ∈ ms'.map fun m => (m.1, m.2.countdown) :=
        hsame ▸ List.mem_map_of_mem hm
      obtain ⟨m', hm', hsame'⟩ := List.mem_map.1 hmem
      obtain ⟨hfst, hcountdown⟩ := Prod.mk.inj hsame'
      have hlookup := h'.lookup_eq hm'
      rw [hfst] at hlookup
      rw [h.lookup_eq hm, hlookup, Option.map_some, Option.map_some, hcountdown]
    · have hnone : r.lookup ticket = none := by
        rw [← Option.not_isSome_iff_eq_none, h.isSome_lookup_iff]
        exact hticket
      have hnone' : r'.lookup ticket = none := by
        rw [← Option.not_isSome_iff_eq_none, h'.isSome_lookup_iff, ← htickets]
        exact hticket
      rw [hnone, hnone']

end

/-- If no entry is due by the time of a tick, it may as well be left out. -/
theorem harmless_of_early {r : Roster (α × Nat)} {ms : List (Ticket × Entry (α × Nat))}
    (hholds : r.Holds ms)
    {invoke : Float → α × Nat → σ × List Nat → Invocation (α × Nat) (σ × List Nat)}
    (hnoting : ∀ seconds, Noting (invoke seconds)) {d₁ d₂ : Nat} (h : Early d₁ d₂ ms)
    (w₁ w : σ × List Nat) : Harmless r invoke d₁ d₂ w₁ w := by
  let sweepFor (seconds : Float) := sweep r.policy (invoke seconds) (d₁ + d₂) ms w
  have hearly := tick_swept hholds invoke d₁ w₁
  have hearly_outcome := tick_outcome hholds invoke d₁ w₁
  rw [sweep_early h] at hearly hearly_outcome
  have hwaited : (r.tick invoke d₁ w₁).roster.Holds (waited d₁ ms) := hearly.holds
  -- The second tick is a sweep of the members as they were before the first one.
  have hlater := tick_swept hwaited invoke d₂ w
  have hlater_outcome := tick_outcome hwaited invoke d₂ w
  have hpolicy : (r.tick invoke d₁ w₁).roster.policy = r.policy := hearly.policy
  rw [hpolicy] at hlater hlater_outcome
  have hagrees : (sweep r.policy (invoke (secondsOfMicros d₂)) d₂ (waited d₁ ms) w).Agrees
    (sweepFor (secondsOfMicros d₂)) := sweep_waited h _ w
  have honce := tick_swept hholds invoke (d₁ + d₂) w
  have honce_outcome := tick_outcome hholds invoke (d₁ + d₂) w
  constructor
  case early => exact ⟨hearly.world, hearly.stopAsked, _, hearly_outcome⟩
  case later =>
    intro t
    rw [hholds.toList_eq, hlater.cutShort, hlater.world, hagrees.cutShort, hagrees.world]
    exact ran_sweep (hnoting _) h w
  case once =>
    intro t
    rw [hholds.toList_eq, honce.cutShort, honce.world]
    exact ran_sweep (hnoting _) h w
  case whole =>
    intro t t' hwhole hwhole'
    rw [hlater.cutShort, hagrees.cutShort] at hwhole
    rw [honce.cutShort] at hwhole'
    have hmembers := hlater.holds
    rw [hagrees.members hwhole] at hmembers
    refine ⟨?_, hmembers.countdowns_congr honce.holds ?_⟩
    · rw [hlater_outcome, honce_outcome, hagrees.outcome, sweep_outcome_early h hwhole,
        sweep_outcome_early h hwhole']
    · exact (sweep_countdowns h hwhole).trans (sweep_countdowns h hwhole').symm
  case blind =>
    intro hblind t t'
    have hsame : sweepFor (secondsOfMicros d₂) = sweepFor (secondsOfMicros (d₁ + d₂)) := by
      show sweep _ _ _ _ _ = sweep _ _ _ _ _
      rw [hblind (secondsOfMicros d₂)]
    rw [hsame] at hagrees
    refine ⟨?_, ?_, ?_, fun hwhole => ?_⟩
    · rw [hlater.world, honce.world, hagrees.world]
    · rw [hlater.stopAsked, honce.stopAsked, hagrees.stopAsked]
      rfl
    · rw [hlater_outcome, honce_outcome, hagrees.outcome]
    · rw [honce.cutShort] at hwhole
      rw [hlater.holds.toList_eq, honce.holds.toList_eq, hagrees.members hwhole]

end Roster

end Cadence
