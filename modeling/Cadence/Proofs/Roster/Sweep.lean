import Cadence.Proofs.Roster.Order
import Cadence.Roster.Tick

/-!
# A tick as a sweep

A tick follows the links from slot to slot and keeps its count and the smallest countdown as it goes.
`sweep` is the same on a plain list of members: time passes for each of them, those that are due run
and are re-armed, and one that breaks down ends it.  `tick_swept` says that a tick of a roster is the
sweep of the list that it represents.
-/

namespace Cadence.Roster

variable {α σ : Type}

structure Sweep (α σ : Type) where
  members : List (Ticket × Entry α)
  world : σ
  fired : Nat
  stopAsked : Bool
  cutShort : Bool

/-- Let time pass for each member and run the callbacks that are due, up to one that breaks down. -/
def sweep (policy : Policy) (invoke : α → σ → Invocation α σ) (delta : Nat) :
    List (Ticket × Entry α) → σ → Sweep α σ
  | [], world => ⟨[], world, 0, false, false⟩
  | (t, e) :: rest, world =>
    let left := e.elapse delta
    if left.countdown ≤ 0 then
      let did := invoke e.callback world
      let ran := { left with callback := did.callback }
      if did.breaksDown then ⟨(t, ran) :: rest, did.world, 0, did.asksStop, true⟩
      else
        let s := sweep policy invoke delta rest did.world
        { s with
          members := (t, ran.rearmed policy) :: s.members
          fired := s.fired + 1
          stopAsked := did.asksStop || s.stopAsked }
    else
      let s := sweep policy invoke delta rest world
      { s with members := (t, left) :: s.members }

theorem sweep_cons (policy : Policy) (invoke : α → σ → Invocation α σ) (delta : Nat) (t : Ticket)
    (e : Entry α) (rest : List (Ticket × Entry α)) (world : σ) :
    sweep policy invoke delta ((t, e) :: rest) world =
      let p := e.pass policy invoke delta world
      if p.breaksDown then ⟨(t, p.entry) :: rest, p.world, 0, p.asksStop, true⟩
      else
        let s := sweep policy invoke delta rest p.world
        { s with
          members := (t, p.entry) :: s.members
          fired := p.fired.toNat + s.fired
          stopAsked := p.asksStop || s.stopAsked } := by
  rw [sweep, Entry.pass]
  simp only [Entry.isDue, decide_eq_true_eq]
  by_cases hdue : (e.elapse delta).countdown ≤ 0
  · simp only [hdue, if_true]
    by_cases hdown : (invoke e.callback world).breaksDown = true
    · simp only [hdown, if_true]
    · simp only [hdown, Bool.false_eq_true, if_false, Bool.not_false, Bool.toNat_true, Nat.add_comm]
  · simp only [hdue, if_false, Bool.false_eq_true, Bool.toNat_false, Nat.zero_add, Bool.false_or]

section

variable {policy : Policy} {invoke : α → σ → Invocation α σ} {delta : Nat} {t : Ticket}
  {e : Entry α} {rest : List (Ticket × Entry α)} {world : σ}

theorem sweep_cons_of_down (hdown : (e.pass policy invoke delta world).breaksDown = true) :
    sweep policy invoke delta ((t, e) :: rest) world =
      let p := e.pass policy invoke delta world
      ⟨(t, p.entry) :: rest, p.world, 0, p.asksStop, true⟩ := by
  rw [sweep_cons]
  exact if_pos hdown

theorem sweep_cons_of_done (hdone : (e.pass policy invoke delta world).breaksDown = false) :
    sweep policy invoke delta ((t, e) :: rest) world =
      let p := e.pass policy invoke delta world
      let s := sweep policy invoke delta rest p.world
      { s with
        members := (t, p.entry) :: s.members
        fired := p.fired.toNat + s.fired
        stopAsked := p.asksStop || s.stopAsked } := by
  rw [sweep_cons]
  exact if_neg (Bool.not_eq_true _ ▸ hdone)

/-- If a sweep is not cut short, neither its first callback nor what comes after it cuts it short.
-/
theorem whole_of_cons (h : (sweep policy invoke delta ((t, e) :: rest) world).cutShort = false) :
    (e.pass policy invoke delta world).breaksDown = false ∧
      (sweep policy invoke delta rest (e.pass policy invoke delta world).world).cutShort = false := by
  cases hdown : (e.pass policy invoke delta world).breaksDown with
  | true =>
    rw [sweep_cons_of_down hdown] at h
    cases h
  | false =>
    rw [sweep_cons_of_done hdown] at h
    exact ⟨rfl, h⟩

end

/-! ## 1. From slot to slot -/

def soonest (ms : List (Ticket × Entry α)) : Option Int := (ms.map fun m => m.2.countdown).min?

theorem soonest_of_ne_nil {ms : List (Ticket × Entry α)} (h : ms ≠ []) :
    ∃ c, soonest ms = some c ∧ (∃ m ∈ ms, m.2.countdown = c) ∧ ∀ m ∈ ms, c ≤ m.2.countdown := by
  cases hc : soonest ms with
  | none =>
    rw [soonest, List.min?_eq_none_iff, List.map_eq_nil_iff] at hc
    exact absurd hc h
  | some c =>
    rw [soonest, List.min?_eq_some_iff] at hc
    refine ⟨c, rfl, List.mem_map.1 hc.1, fun m hm => hc.2 _ (List.mem_map.2 ⟨m, hm, rfl⟩)⟩

/-- The time until the next entry is due is zero if and only if some entry is due already. -/
theorem soonest_toNat_eq_zero_iff (ms : List (Ticket × Entry α)) :
    (soonest ms).map Int.toNat = some 0 ↔ ∃ m ∈ ms, m.2.countdown ≤ 0 := by
  by_cases hnil : ms = []
  · subst hnil
    simp [soonest]
  · obtain ⟨c, hc, ⟨m, hm, hmc⟩, hleast⟩ := soonest_of_ne_nil hnil
    rw [hc, Option.map_some, Option.some.injEq]
    constructor
    · intro hzero
      exact ⟨m, hm, by omega⟩
    · rintro ⟨m', hm', hdue⟩
      have hle := hleast m' hm'
      omega

theorem foldl_earlier (ms : List (Ticket × Entry α)) (start : Option Int) :
    ms.foldl (fun s m => some (TickState.earlier s m.2.countdown)) start =
      match start with
      | none => soonest ms
      | some s => some ((ms.map fun m => m.2.countdown).foldl min s) := by
  induction ms generalizing start with
  | nil => cases start <;> rfl
  | cons m rest ih =>
    rw [List.foldl_cons, ih]
    cases start <;> rfl

/-- The state of a tick that comes to the members `todo` with the members `done` behind it. -/
structure Comes (t : TickState α σ) (done todo : List (Ticket × Entry α)) (policy : Policy) :
    Prop where
  holds : t.roster.Holds (done ++ todo)
  policy : t.roster.policy = policy
  running : t.cutShort = false

structure Swept (t t' : TickState α σ) (done : List (Ticket × Entry α)) (s : Sweep α σ) : Prop where
  holds : t'.roster.Holds (done ++ s.members)
  policy : t'.roster.policy = t.roster.policy
  size : t'.roster.slots.size = t.roster.slots.size
  world : t'.world = s.world
  fired : t'.fired = t.fired + s.fired
  stopAsked : t'.stopAsked = (t.stopAsked || s.stopAsked)
  cutShort : t'.cutShort = s.cutShort
  soonest : s.cutShort = false →
    t'.soonest = s.members.foldl (fun s m => some (TickState.earlier s m.2.countdown)) t.soonest

/-- A callback that breaks down is not counted. -/
theorem fired_pass (policy : Policy) (invoke : α → σ → Invocation α σ) (delta : Nat) (e : Entry α)
    (world : σ) : (e.pass policy invoke delta world).fired =
      ((e.elapse delta).isDue && !(e.pass policy invoke delta world).breaksDown) := by
  unfold Entry.pass
  by_cases hdue : (e.elapse delta).isDue
  · simp only [hdue, if_true, Bool.true_and]
  · simp only [hdue, Bool.false_eq_true, if_false, Bool.false_and]

section

variable {policy : Policy} {invoke : α → σ → Invocation α σ} {delta : Nat} {t : TickState α σ}
  {ticket : Ticket} {e : Entry α} {done rest : List (Ticket × Entry α)}
  (h : Comes t done ((ticket, e) :: rest) policy) {p : Pass α σ}
  (hp : e.pass policy invoke delta t.world = p)

include h

/-- The entry is changed in its place, and the links lead on as before. -/
theorem holds_absorb (p : Pass α σ) :
    (t.absorb ticket.index p).roster.Holds (done ++ (ticket, p.entry) :: rest) ∧
      (t.absorb ticket.index p).roster.slots.size = t.roster.slots.size :=
  ⟨holds_setEntry h.holds p.entry, Array.size_modify⟩

include hp

theorem swept_cutShort (hdown : p.breaksDown = true) :
    Swept t (t.absorb ticket.index p) done
      (sweep policy invoke delta ((ticket, e) :: rest) t.world) := by
  obtain ⟨hholds, hsize⟩ := holds_absorb h p
  have hfired : (t.absorb ticket.index p).fired = t.fired + 0 := by
    show t.fired + p.fired.toNat = _
    rw [← hp, fired_pass, hp, hdown, Bool.not_true, Bool.and_false]
    rfl
  have hcut : (t.absorb ticket.index p).cutShort = true := hdown
  subst hp
  rw [sweep_cons_of_down hdown]
  exact ⟨hholds, rfl, hsize, rfl, hfired, rfl, hcut, fun h => by cases h⟩

/-- A tick that has taken up one member goes on with the rest. -/
theorem swept_cons (hdone : p.breaksDown = false) {t' : TickState α σ}
    (hrest : Swept (t.absorb ticket.index p) t' (done ++ [(ticket, p.entry)])
      (sweep policy invoke delta rest p.world)) :
    Swept t t' done (sweep policy invoke delta ((ticket, e) :: rest) t.world) := by
  have hsoonest : (t.absorb ticket.index p).soonest =
      some (TickState.earlier t.soonest p.entry.countdown) := by
    show (if p.breaksDown then _ else _) = _
    rw [hdone]
    rfl
  subst hp
  rw [sweep_cons_of_done hdone]
  constructor
  case holds =>
    have hmembers := hrest.holds
    rw [List.append_assoc] at hmembers
    exact hmembers
  case policy => exact hrest.policy
  case size => exact hrest.size.trans (holds_absorb h _).2
  case world => exact hrest.world
  case fired => rw [hrest.fired, ← Nat.add_assoc]; rfl
  case stopAsked => rw [hrest.stopAsked, ← Bool.or_assoc]; rfl
  case cutShort => exact hrest.cutShort
  case soonest =>
    intro hcut
    rw [hrest.soonest hcut, hsoonest, List.foldl_cons]

end

/-- Whatever the callbacks do, following the links is a sweep of the members: an entry is changed in
its place, so the links that lie ahead stay as they are. -/
theorem visitFrom_spec (policy : Policy) (invoke : α → σ → Invocation α σ) (delta : Nat)
    {todo done : List (Ticket × Entry α)} {room : Nat} {t : TickState α σ}
    (h : Comes t done todo policy) (hroom : todo.length ≤ room) :
    Swept t (TickState.visitFrom invoke delta room (firstOr none todo) t) done
      (sweep policy invoke delta todo t.world) := by
  induction todo generalizing done room t with
  | nil =>
    -- Beyond the last member the links end.
    have hstay : TickState.visitFrom invoke delta room (firstOr none ([] : List (Ticket × Entry α)))
        t = t := by cases room <;> rfl
    rw [hstay]
    exact ⟨h.holds, rfl, rfl, rfl, rfl, (Bool.or_false _).symm, h.running, fun _ => rfl⟩
  | cons m rest ih =>
    obtain ⟨ticket, e⟩ := m
    obtain ⟨room, rfl⟩ : ∃ n, room = n + 1 := by
      rw [List.length_cons] at hroom
      exact Nat.exists_eq_add_one.2 (by omega)
    have hcell : t.roster.cell? ticket.index =
        some ⟨e, lastOr none done, firstOr none rest⟩ := by
      rw [cell?, h.holds.holdsAt]
      rfl
    obtain ⟨p, hp⟩ : ∃ p, e.pass policy invoke delta t.world = p := ⟨_, rfl⟩
    have hvisit : TickState.visitFrom invoke delta (room + 1) (firstOr none ((ticket, e) :: rest)) t =
        if p.breaksDown then t.absorb ticket.index p
        else TickState.visitFrom invoke delta room (firstOr none rest)
          (t.absorb ticket.index p) := by
      rw [firstOr_cons, TickState.visitFrom]
      simp only [hcell, h.policy, hp]
      rfl
    rw [hvisit]
    by_cases hdown : p.breaksDown = true
    · rw [if_pos hdown]
      exact swept_cutShort h hp hdown
    · rw [if_neg hdown]
      rw [Bool.not_eq_true] at hdown
      have hcomes : Comes (t.absorb ticket.index p) (done ++ [(ticket, p.entry)]) rest policy :=
        ⟨by rw [List.append_assoc]; exact (holds_absorb h p).1, h.policy, hdown⟩
      exact swept_cons h hp hdown (ih hcomes (Nat.le_of_succ_le_succ hroom))

/-! ## 2. The whole tick -/

/-- A tick of a roster is the sweep of the members that it represents. -/
theorem tick_swept {r : Roster α} {ms : List (Ticket × Entry α)} (h : r.Holds ms)
    (invoke : Float → α → σ → Invocation α σ) (delta : Nat) (world : σ) :
    Swept (TickState.start r world) (r.tick invoke delta world) []
      (sweep r.policy (invoke (secondsOfMicros delta)) delta ms world) := by
  -- A tick may take as many steps as there are slots.
  have hroom : ms.length ≤ r.slots.size := by
    have hsize := h.length_add_free
    omega
  have hcomes : Comes (TickState.start r world) [] ms r.policy := ⟨h, rfl, rfl⟩
  unfold tick
  rw [h.head]
  exact visitFrom_spec r.policy (invoke (secondsOfMicros delta)) delta hcomes hroom

def Sweep.outcome (s : Sweep α σ) : Option TickOutcome :=
  if s.cutShort then none else some ⟨s.fired, (soonest s.members).map Int.toNat⟩

theorem tick_outcome {r : Roster α} {ms : List (Ticket × Entry α)} (h : r.Holds ms)
    (invoke : Float → α → σ → Invocation α σ) (delta : Nat) (world : σ) :
    (r.tick invoke delta world).outcome =
      (sweep r.policy (invoke (secondsOfMicros delta)) delta ms world).outcome := by
  have hswept := tick_swept h invoke delta world
  unfold TickState.outcome Sweep.outcome
  rw [hswept.cutShort]
  split
  · rfl
  · rename_i hcut
    rw [hswept.soonest (Bool.eq_false_iff.2 hcut), hswept.fired, foldl_earlier]
    simp only [TickState.start, Nat.zero_add]

/-- What a report of the next entry says about the members that the tick leaves. -/
theorem tick_of_outcome {r : Roster α} {ms : List (Ticket × Entry α)} (h : r.Holds ms)
    {invoke : Float → α → σ → Invocation α σ} {delta : Nat} {world : σ} {o : TickOutcome}
    (ho : (r.tick invoke delta world).outcome = some o) :
    let s := sweep r.policy (invoke (secondsOfMicros delta)) delta ms world
    s.cutShort = false ∧ (r.tick invoke delta world).roster.Holds s.members ∧
      o.nextDue = (soonest s.members).map Int.toNat := by
  intro s
  have hmembers := (tick_swept h invoke delta world).holds
  rw [tick_outcome h, Sweep.outcome] at ho
  split at ho
  · cases ho
  · rename_i hcut
    cases ho
    exact ⟨Bool.eq_false_iff.2 hcut, hmembers, rfl⟩

/-! ## 3. What a sweep does to each member -/

section

variable {policy : Policy} {invoke : α → σ → Invocation α σ} {delta : Nat}

theorem sweep_tickets (ms : List (Ticket × Entry α)) (world : σ) :
    (sweep policy invoke delta ms world).members.map Prod.fst = ms.map Prod.fst := by
  induction ms generalizing world with
  | nil => rfl
  | cons m rest ih =>
    obtain ⟨t, e⟩ := m
    cases hdown : (e.pass policy invoke delta world).breaksDown with
    | true => rw [sweep_cons_of_down hdown, List.map_cons, List.map_cons]
    | false => rw [sweep_cons_of_done hdown, List.map_cons, List.map_cons, ih]

theorem length_sweep (ms : List (Ticket × Entry α)) (world : σ) :
    (sweep policy invoke delta ms world).members.length = ms.length := by
  rw [← List.length_map Prod.fst, sweep_tickets, List.length_map]

/-- A sweep that is not cut short runs the callbacks of those members that are due. -/
theorem sweep_fired (ms : List (Ticket × Entry α)) (world : σ)
    (h : (sweep policy invoke delta ms world).cutShort = false) :
    (sweep policy invoke delta ms world).fired =
      (ms.filter fun m => (m.2.elapse delta).isDue).length := by
  induction ms generalizing world with
  | nil => rfl
  | cons m rest ih =>
    obtain ⟨t, e⟩ := m
    obtain ⟨hdone, hrest⟩ := whole_of_cons h
    rw [sweep_cons_of_done hdone]
    show (e.pass policy invoke delta world).fired.toNat + (sweep policy invoke delta rest _).fired = _
    rw [ih _ hrest, fired_pass, hdone, Bool.not_false, Bool.and_true, List.filter_cons]
    by_cases hdue : (e.elapse delta).isDue
    · simp only [hdue, Bool.toNat_true, if_true, List.length_cons, Nat.add_comm]
    · simp only [hdue, Bool.toNat_false, Bool.false_eq_true, if_false, Nat.zero_add]

/-- Only a callback cuts a sweep short or asks the loop to stop. -/
theorem sweep_uneventful (ms : List (Ticket × Entry α)) (world : σ)
    (h : ∀ a w, (invoke a w).breaksDown = false ∧ (invoke a w).asksStop = false) :
    (sweep policy invoke delta ms world).cutShort = false ∧
      (sweep policy invoke delta ms world).stopAsked = false := by
  induction ms generalizing world with
  | nil => exact ⟨rfl, rfl⟩
  | cons m rest ih =>
    obtain ⟨t, e⟩ := m
    rw [sweep]
    by_cases hdue : (e.elapse delta).countdown ≤ 0
    · obtain ⟨hdone, hstop⟩ := h e.callback world
      simp only [hdue, if_true, hdone, hstop, Bool.false_eq_true, if_false, Bool.false_or]
      exact ih _
    · simp only [hdue, if_false]
      exact ih _

/-- A sweep that is not cut short passes by every member, in worlds that have what all callbacks
keep of the first one. -/
theorem sweep_members (kept : σ → Prop) (hkept : ∀ a w, kept w → kept (invoke a w).world)
    (ms : List (Ticket × Entry α)) {world : σ} (hworld : kept world)
    (h : (sweep policy invoke delta ms world).cutShort = false) :
    List.Forall₂ (fun m m' => m'.1 = m.1 ∧ ∃ w, kept w ∧
        (m.2.pass policy invoke delta w).breaksDown = false ∧
          m'.2 = (m.2.pass policy invoke delta w).entry)
      ms (sweep policy invoke delta ms world).members := by
  induction ms generalizing world with
  | nil => exact .nil
  | cons m rest ih =>
    obtain ⟨t, e⟩ := m
    have hnext : kept (e.pass policy invoke delta world).world := by
      unfold Entry.pass
      by_cases hdue : (e.elapse delta).isDue
      · simp only [hdue, if_true]
        exact hkept _ _ hworld
      · simp only [hdue, Bool.false_eq_true, if_false]
        exact hworld
    obtain ⟨hdone, hrest⟩ := whole_of_cons h
    rw [sweep_cons_of_done hdone]
    exact .cons ⟨rfl, world, hworld, hdone, rfl⟩ (ih hnext hrest)

/-- Even a sweep that is cut short does nothing to a member but to pass by it. -/
theorem sweep_each (ms : List (Ticket × Entry α)) (world : σ) :
    List.Forall₂ (fun m m' => m'.1 = m.1 ∧
        (m'.2 = m.2 ∨ ∃ w, m'.2 = (m.2.pass policy invoke delta w).entry))
      ms (sweep policy invoke delta ms world).members := by
  induction ms generalizing world with
  | nil => exact .nil
  | cons m rest ih =>
    obtain ⟨t, e⟩ := m
    cases hdown : (e.pass policy invoke delta world).breaksDown with
    | true =>
      rw [sweep_cons_of_down hdown]
      exact .cons ⟨rfl, .inr ⟨world, rfl⟩⟩ (List.forall₂_same.2 fun m _ => ⟨rfl, .inl rfl⟩)
    | false =>
      rw [sweep_cons_of_done hdown]
      exact .cons ⟨rfl, .inr ⟨world, rfl⟩⟩ (ih _)

end

/-- Nothing cuts a tick short or stops its loop but a callback. -/
theorem tick_uneventful {r : Roster α} {ms : List (Ticket × Entry α)} (h : r.Holds ms)
    {invoke : Float → α → σ → Invocation α σ} (delta : Nat) (world : σ)
    (hinvoke : ∀ seconds a w, (invoke seconds a w).breaksDown = false ∧
      (invoke seconds a w).asksStop = false) :
    (r.tick invoke delta world).cutShort = false ∧
      (r.tick invoke delta world).stopAsked = false := by
  have hswept := tick_swept h invoke delta world
  rw [hswept.cutShort, hswept.stopAsked]
  exact sweep_uneventful ms world (hinvoke _)

end Cadence.Roster
