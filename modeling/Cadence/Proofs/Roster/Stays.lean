import Cadence.Proofs.Roster.Ledger
import Mathlib.Data.List.Forall2

/-!
# Stays

To speak of an entry while others come and go, its stay is followed from its registration on: under
which ticket it was registered, as what, and what has been noted since.  `Follows` relates such notes to
a roster that has changed in the meantime; each operation carries it on.  `follow` notes the time that
passed in every completed tick.
-/

namespace Cadence

structure Stay (α ω : Type) where
  ticket : Ticket
  /-- The entry as it was registered. -/
  entry : Entry α
  /-- What has been noted since. -/
  notes : ω

def Stay.elapse {α : Type} (s : Stay α (List Nat)) (delta : Nat) : Stay α (List Nat) :=
  { s with notes := delta :: s.notes }

namespace Roster

variable {α σ ω : Type}

/-! ## 1. Lists side by side -/

section

variable {β γ : Type} {R : β → γ → Prop} {xs : List β} {ys : List γ} (h : List.Forall₂ R xs ys)

include h

theorem forall₂_and_right {p : γ → Prop} (hp : ∀ y ∈ ys, p y) :
    List.Forall₂ (fun x y => R x y ∧ p y) xs ys := by
  induction h with
  | nil => exact .nil
  | cons hxy _ ih =>
    rw [List.forall_mem_cons] at hp
    exact .cons ⟨hxy, hp.1⟩ (ih hp.2)

theorem exists_of_mem_right {y : γ} (hy : y ∈ ys) : ∃ x ∈ xs, R x y := by
  induction h with
  | nil => cases hy
  | cons hxy _ ih =>
    rcases List.mem_cons.1 hy with rfl | hy
    · exact ⟨_, List.mem_cons_self, hxy⟩
    · obtain ⟨x, hx, hr⟩ := ih hy
      exact ⟨x, List.mem_cons_of_mem _ hx, hr⟩

theorem exists_of_mem_left {x : β} (hx : x ∈ xs) : ∃ y ∈ ys, R x y := by
  induction h with
  | nil => cases hx
  | cons hxy _ ih =>
    rcases List.mem_cons.1 hx with rfl | hx
    · exact ⟨_, List.mem_cons_self, hxy⟩
    · obtain ⟨y, hy, hr⟩ := ih hx
      exact ⟨y, List.mem_cons_of_mem _ hy, hr⟩

end

/-! ## 2. Entries by their tickets -/

def lookup (r : Roster α) (t : Ticket) : Option (Entry α) :=
  (r.remove t).map Prod.fst

theorem Holds.lookup_eq {r : Roster α} {ms : List (Ticket × Entry α)} (h : r.Holds ms)
    {m : Ticket × Entry α} (hm : m ∈ ms) : r.lookup m.1 = some m.2 := by
  obtain ⟨xs, ys, rfl⟩ := List.append_of_mem hm
  rw [lookup, remove_of_holdsAt h.holdsAt]
  rfl

theorem Holds.isSome_lookup_iff {r : Roster α} {ms : List (Ticket × Entry α)} (h : r.Holds ms)
    (t : Ticket) : (r.lookup t).isSome ↔ t ∈ ms.map Prod.fst := by
  rw [lookup, Option.isSome_map, Option.isSome_iff_ne_none, ne_eq, h.remove_eq_none_iff, not_not]

/-- What a tick makes of one entry, whether it is cut short or not. -/
theorem Holds.lookup_tick {r : Roster α} {ms : List (Ticket × Entry α)} (h : r.Holds ms)
    (invoke : Float → α → σ → Invocation α σ) (delta : Nat) (world : σ) {t : Ticket} {e : Entry α}
    (he : r.lookup t = some e) :
    ∃ e', (r.tick invoke delta world).roster.lookup t = some e' ∧
      (e' = e ∨ ∃ w, e' = (e.pass r.policy (invoke (secondsOfMicros delta)) delta w).entry) := by
  have hticket : t ∈ ms.map Prod.fst := (h.isSome_lookup_iff t).1 (by rw [he]; rfl)
  obtain ⟨m, hm, rfl⟩ := List.mem_map.1 hticket
  rw [h.lookup_eq hm, Option.some.injEq] at he
  subst he
  have hswept := (tick_swept h invoke delta world).holds
  obtain ⟨m', hm', hsame, hpass⟩ := exists_of_mem_left (sweep_each ms world) hm
  exact ⟨m'.2, hsame ▸ hswept.lookup_eq hm', hpass⟩

def remaining (r : Roster α) (stays : List (Stay α ω)) : List (Stay α ω) :=
  stays.filter fun s => (r.lookup s.ticket).isSome

/-! ## 3. Following stays -/

/-- A roster has exactly the entries of the given stays, in their order, and what has become of each
entry is as related to its stay. -/
def Follows (R : Stay α ω → Entry α → Prop) (r : Roster α) (stays : List (Stay α ω)) : Prop :=
  ∃ ms, r.Holds ms ∧ List.Forall₂ (fun s m => m.1 = s.ticket ∧ R s m.2) stays ms

section

variable {R : Stay α ω → Entry α → Prop} {r : Roster α} {stays : List (Stay α ω)}

theorem Follows.holds (h : r.Follows R stays) : ∃ ms, r.Holds ms := by
  obtain ⟨ms, hholds, -⟩ := h
  exact ⟨ms, hholds⟩

theorem Follows.lookup_eq (h : r.Follows R stays) {s : Stay α ω} (hs : s ∈ stays) :
    ∃ e, r.lookup s.ticket = some e ∧ R s e := by
  obtain ⟨ms, hholds, hstays⟩ := h
  obtain ⟨m, hm, hticket, hr⟩ := exists_of_mem_left hstays hs
  exact ⟨m.2, hticket ▸ hholds.lookup_eq hm, hr⟩

theorem tickets_eq {ms : List (Ticket × Entry α)}
    (h : List.Forall₂ (fun s m => m.1 = s.ticket ∧ R s m.2) stays ms) :
    ms.map Prod.fst = stays.map Stay.ticket := by
  induction h with
  | nil => rfl
  | cons hsm _ ih => rw [List.map_cons, List.map_cons, hsm.1, ih]

theorem Follows.isSome_lookup_iff (h : r.Follows R stays) (t : Ticket) :
    (r.lookup t).isSome ↔ t ∈ stays.map Stay.ticket := by
  obtain ⟨ms, hholds, hstays⟩ := h
  rw [hholds.isSome_lookup_iff, tickets_eq hstays]

/-- Some member is as `p` says exactly if some stay has such an entry. -/
theorem Follows.exists_iff (h : r.Follows R stays) {ms : List (Ticket × Entry α)} (hholds : r.Holds ms)
    (p : Entry α → Prop) :
    (∃ m ∈ ms, p m.2) ↔ ∃ s ∈ stays, ∃ e, r.lookup s.ticket = some e ∧ R s e ∧ p e := by
  constructor
  · rintro ⟨m, hm, hp⟩
    have hticket : (r.lookup m.1).isSome :=
      (hholds.isSome_lookup_iff _).2 (List.mem_map_of_mem hm)
    obtain ⟨s, hs, hsm⟩ := List.mem_map.1 ((h.isSome_lookup_iff _).1 hticket)
    obtain ⟨e, he, hr⟩ := h.lookup_eq hs
    have hme := hholds.lookup_eq hm
    rw [← hsm, he, Option.some.injEq] at hme
    exact ⟨s, hs, e, he, hr, hme ▸ hp⟩
  · rintro ⟨s, hs, e, he, -, hp⟩
    have hticket : s.ticket ∈ ms.map Prod.fst :=
      (hholds.isSome_lookup_iff _).1 (by rw [he]; rfl)
    obtain ⟨m, hm, hms⟩ := List.mem_map.1 hticket
    have hme := hholds.lookup_eq hm
    rw [hms, he, Option.some.injEq] at hme
    exact ⟨m, hm, hme ▸ hp⟩

theorem Follows.imp {R' : Stay α ω → Entry α → Prop} (h : r.Follows R stays)
    (himp : ∀ s e, R s e → R' s e) : r.Follows R' stays := by
  obtain ⟨ms, hholds, hstays⟩ := h
  exact ⟨ms, hholds, hstays.imp fun s m hsm => ⟨hsm.1, himp s m.2 hsm.2⟩⟩

theorem Follows.map_toList {β : Type} (h : r.Follows R stays) {f : Entry α → β} {g : Stay α ω → β}
    (hfg : ∀ s e, R s e → f e = g s) : r.toList.map f = stays.map g := by
  obtain ⟨ms, hholds, hstays⟩ := h
  rw [hholds.toList_eq]
  clear hholds
  induction hstays with
  | nil => rfl
  | cons hsm _ ih => rw [List.map_cons, List.map_cons, List.map_cons, ih, hfg _ _ hsm.2]

theorem follows_empty (policy : Policy) : (empty policy).Follows R [] :=
  ⟨[], holds_empty policy, .nil⟩

theorem follows_insert (h : r.Follows R stays) {s : Stay α ω} (hticket : (r.insert s.entry).1 = s.ticket)
    (hr : R s s.entry) : (r.insert s.entry).2.Follows R (stays ++ [s]) := by
  obtain ⟨ms, hholds, hstays⟩ := h
  exact ⟨_, (holds_insert hholds s.entry).2,
    List.rel_append hstays (.cons ⟨hticket, hr⟩ .nil)⟩

/-- Some members may be gone, as their tickets tell. -/
theorem follows_remaining {ms : List (Ticket × Entry α)}
    (hstays : List.Forall₂ (fun s m => m.1 = s.ticket ∧ R s m.2) stays ms) {r' : Roster α}
    {p : Ticket → Bool} (h : r'.Holds (ms.filter fun m => p m.1)) :
    r'.Follows R (r'.remaining stays) := by
  refine ⟨_, h, ?_⟩
  have hpresent : ∀ m ∈ ms, (r'.lookup m.1).isSome = p m.1 := by
    intro m hm
    rw [Bool.eq_iff_iff, h.isSome_lookup_iff, List.mem_map]
    constructor
    · rintro ⟨m', hm', hticket⟩
      rw [← hticket]
      exact (List.mem_filter.1 hm').2
    · exact fun hp => ⟨m, List.mem_filter.2 ⟨hm, hp⟩, rfl⟩
  have hsame : ms.filter (fun m => p m.1) = ms.filter fun m => (r'.lookup m.1).isSome :=
    List.filter_congr fun m hm => (hpresent m hm).symm
  rw [hsame]
  refine List.rel_filter (fun s m hsm => ?_) hstays
  show (r'.lookup s.ticket).isSome ↔ (r'.lookup m.1).isSome
  rw [hsm.1]

theorem follows_unchanged (h : r.Follows R stays) : r.Follows R (r.remaining stays) := by
  obtain ⟨ms, hholds, hstays⟩ := h
  refine follows_remaining (p := fun _ => true) hstays ?_
  rwa [List.filter_true]

theorem follows_clear (h : r.Follows R stays) : r.clear.Follows R (r.clear.remaining stays) := by
  obtain ⟨ms, hholds, hstays⟩ := h
  refine follows_remaining (p := fun _ => false) hstays ?_
  rw [List.filter_false]
  exact holds_clear hholds

/-- Without the entry that is removed the others are followed as before. -/
theorem follows_remove (h : r.Follows R stays) {t : Ticket} {e : Entry α} {r' : Roster α}
    (hremove : r.remove t = some (e, r')) : r'.Follows R (r'.remaining stays) := by
  obtain ⟨ms, hholds, hstays⟩ := h
  obtain ⟨before, after, rfl, hholds', -⟩ := holds_of_remove hholds hremove
  have hother : ∀ x ∈ before ++ after, decide (x.1 ≠ t) = true := by
    intro x hx
    refine decide_eq_true fun hxt => hholds.apart.1 ?_
    show t.index ∈ _
    rw [← hxt]
    exact mem_places hx
  refine follows_remaining (p := fun t' => t' ≠ t) hstays ?_
  rw [List.filter_append, List.filter_cons_of_neg (by simp), ← List.filter_append,
    List.filter_eq_self.2 hother]
  exact hholds'

/-- A completed tick changes every entry by a pass in some world, and what is noted of it with it. -/
theorem follows_tick {R' : Stay α ω → Entry α → Prop} (kept : σ → Prop) (h : r.Follows R stays)
    {invoke : Float → α → σ → Invocation α σ} {delta : Nat}
    (hkept : ∀ a w, kept w → kept (invoke (secondsOfMicros delta) a w).world) {world : σ}
    (hworld : kept world) (hwhole : (r.tick invoke delta world).cutShort = false)
    {note : Stay α ω → Stay α ω} (hticket : ∀ s, (note s).ticket = s.ticket)
    (hpass : ∀ s e w, R s e → kept w →
      (e.pass r.policy (invoke (secondsOfMicros delta)) delta w).breaksDown = false →
      R' (note s) (e.pass r.policy (invoke (secondsOfMicros delta)) delta w).entry) :
    (r.tick invoke delta world).roster.Follows R' (stays.map note) := by
  obtain ⟨ms, hholds, hstays⟩ := h
  have hswept := tick_swept hholds invoke delta world
  refine ⟨_, hswept.holds, ?_⟩
  have hmembers := sweep_members kept hkept ms hworld (hswept.cutShort ▸ hwhole)
  show List.Forall₂ _ _ (sweep _ _ _ ms world).members
  generalize (sweep _ _ _ ms world).members = ms' at hmembers
  clear hswept hholds
  -- Stay by stay, in step with the members before and after.
  induction hstays generalizing ms' with
  | nil =>
    cases hmembers
    exact .nil
  | cons hsm _ ih =>
    cases hmembers with
    | cons hm hrest =>
      obtain ⟨hticket', w, hw, hdone, hentry⟩ := hm
      refine .cons ⟨?_, ?_⟩ (ih _ hrest)
      · rw [hticket', hsm.1, hticket]
      · rw [hentry]
        exact hpass _ _ w hsm.2 hw hdone

theorem Follows.with_lookup (h : r.Follows R stays) :
    r.Follows (fun s e => R s e ∧ r.lookup s.ticket = some e) stays := by
  obtain ⟨ms, hholds, hstays⟩ := h
  have hall := forall₂_and_right hstays fun m hm => hholds.lookup_eq hm
  refine ⟨ms, hholds, hall.imp fun s m hsm => ?_⟩
  obtain ⟨⟨hticket, hr⟩, hlookup⟩ := hsm
  exact ⟨hticket, hr, hticket ▸ hlookup⟩

/-- What a completed tick makes of one entry. -/
theorem Follows.lookup_tick (h : r.Follows R stays) {invoke : Float → α → σ → Invocation α σ}
    {delta : Nat} {world : σ} (hwhole : (r.tick invoke delta world).cutShort = false)
    {s : Stay α ω} (hs : s ∈ stays) :
    ∃ e w, r.lookup s.ticket = some e ∧ R s e ∧
      (e.pass r.policy (invoke (secondsOfMicros delta)) delta w).breaksDown = false ∧
      (r.tick invoke delta world).roster.lookup s.ticket =
        some (e.pass r.policy (invoke (secondsOfMicros delta)) delta w).entry := by
  -- The entry before the tick goes into what is known of the one after it.
  let R' (s : Stay α ω) (e' : Entry α) := ∃ e w, r.lookup s.ticket = some e ∧ R s e ∧
    (e.pass r.policy (invoke (secondsOfMicros delta)) delta w).breaksDown = false ∧
    e' = (e.pass r.policy (invoke (secondsOfMicros delta)) delta w).entry
  have hticked : (r.tick invoke delta world).roster.Follows R' (stays.map id) :=
    follows_tick (fun _ => True) h.with_lookup (fun _ _ _ => trivial) trivial hwhole
      (fun _ => rfl) fun s e w hr _ hdone => ⟨e, w, hr.2, hr.1, hdone, rfl⟩
  rw [List.map_id] at hticked
  obtain ⟨e', he', e, w, he, hr, hdone, rfl⟩ := hticked.lookup_eq hs
  exact ⟨e, w, he, hr, hdone, he'⟩

/-- If a tick leaves no entry due, it reports a time that does not reach beyond any countdown. -/
theorem Follows.nextDue_le {ω' : Type} {R' : Stay α ω' → Entry α → Prop}
    {stays' : List (Stay α ω')} (h : r.Follows R stays) {invoke : Float → α → σ → Invocation α σ}
    {delta : Nat} {world : σ} {o : TickOutcome} (ho : (r.tick invoke delta world).outcome = some o)
    (hticked : (r.tick invoke delta world).roster.Follows R' stays')
    (hpos : ∀ s e, R' s e → 0 < e.countdown) {limit : Nat} (hlimit : 0 < limit) :
    0 < min (o.nextDue.getD limit) limit ∧
      (r.tick invoke delta world).roster.Follows
        (fun s e => R' s e ∧ (min (o.nextDue.getD limit) limit : Nat) ≤ e.countdown) stays' := by
  obtain ⟨ms, hholds, -⟩ := h
  obtain ⟨ms', hholds', hstays⟩ := hticked
  obtain ⟨-, hmembers, hnext⟩ := tick_of_outcome hholds ho
  rw [hnext, hmembers.unique hholds']
  by_cases hnil : ms' = []
  · -- Without entries there is no time to report.
    subst hnil
    cases hstays
    exact ⟨by simp [soonest, hlimit], [], hholds', .nil⟩
  · obtain ⟨c, hc, ⟨m, hm, rfl⟩, hleast⟩ := soonest_of_ne_nil hnil
    obtain ⟨s, -, -, hr⟩ := exists_of_mem_right hstays hm
    have hmpos := hpos s m.2 hr
    rw [hc, Option.map_some, Option.getD_some]
    refine ⟨by omega, ms', hholds', ?_⟩
    refine (forall₂_and_right hstays hleast).imp fun s m' hsm => ?_
    obtain ⟨⟨hticket, hr'⟩, hle⟩ := hsm
    exact ⟨hticket, hr', by omega⟩

end

/-! ## 4. Time noted -/

/-- Note what a request does to the stays of entries.  There is nothing more to note of a tick that
is cut short. -/
def noted (invoke : Float → α → σ → Invocation α σ) (r : Roster α)
    (stays : List (Stay α (List Nat))) : Request α σ → Option (List (Stay α (List Nat)))
  | .insert e => some (stays ++ [⟨(r.insert e).1, e, []⟩])
  | .remove t => some ((r.answer invoke (.remove t)).2.remaining stays)
  | .clear => some (r.clear.remaining stays)
  | .tick delta world =>
    if (r.tick invoke delta world).cutShort then none else some (stays.map fun s => s.elapse delta)

def follow (invoke : Float → α → σ → Invocation α σ) (r : Roster α)
    (stays : List (Stay α (List Nat))) :
    List (Request α σ) → Option (Roster α × List (Stay α (List Nat)))
  | [] => some (r, stays)
  | q :: rest =>
    (noted invoke r stays q).bind fun stays' => follow invoke (r.answer invoke q).2 stays' rest

section

variable {R : Stay α (List Nat) → Entry α → Prop} {policy : Policy}
  {invoke : Float → α → σ → Invocation α σ} (hnew : ∀ t e, R ⟨t, e, []⟩ e)
  (hpass : ∀ delta s e w, R s e →
    (e.pass policy (invoke (secondsOfMicros delta)) delta w).breaksDown = false →
    R (s.elapse delta) (e.pass policy (invoke (secondsOfMicros delta)) delta w).entry)

include hnew hpass

/-- One request is followed, if a pass keeps the relation between a stay and its entry. -/
theorem follows_noted {r : Roster α} {stays stays' : List (Stay α (List Nat))}
    (h : r.Follows R stays) (hpolicy : r.policy = policy) {q : Request α σ}
    (hnoted : noted invoke r stays q = some stays') : (r.answer invoke q).2.Follows R stays' := by
  cases q with
  | insert e =>
    cases hnoted
    exact follows_insert (s := ⟨(r.insert e).1, e, []⟩) h rfl (hnew _ e)
  | remove t =>
    cases hnoted
    cases hremove : r.remove t with
    | none =>
      simp only [answer, hremove]
      exact follows_unchanged h
    | some removed =>
      simp only [answer, hremove]
      exact follows_remove h hremove
  | clear =>
    cases hnoted
    exact follows_clear h
  | tick delta world =>
    -- A tick that is cut short ends the notes.
    by_cases hcut : (r.tick invoke delta world).cutShort = true
    · rw [noted, if_pos hcut] at hnoted
      cases hnoted
    · rw [noted, if_neg hcut] at hnoted
      cases hnoted
      rw [Bool.not_eq_true] at hcut
      subst hpolicy
      exact follows_tick (fun _ => True) h (fun _ _ _ => trivial) trivial hcut
        (fun _ => rfl) fun s e w hr _ hdone => hpass delta s e w hr hdone

/-- Requests are followed one after the other. -/
theorem follows_follow {r r' : Roster α} {stays stays' : List (Stay α (List Nat))}
    (h : r.Follows R stays) (hpolicy : r.policy = policy) {requests : List (Request α σ)}
    (hfollow : follow invoke r stays requests = some (r', stays')) :
    r'.Follows R stays' ∧ r'.policy = policy := by
  induction requests generalizing r stays with
  | nil =>
    cases hfollow
    exact ⟨h, hpolicy⟩
  | cons q rest ih =>
    obtain ⟨stays'', hnoted, hrest⟩ := Option.bind_eq_some_iff.1 hfollow
    have hpolicy' : (r.answer invoke q).2.policy = policy := by
      obtain ⟨ms, hholds, -⟩ := h
      exact (answer_frame hholds invoke q).1.trans hpolicy
    exact ih (follows_noted hnew hpass h hpolicy hnoted) hpolicy' hrest

end

end Roster

end Cadence
