import Cadence.Proofs.Pass
import Cadence.Proofs.Roster.Sweep
import Mathlib.Data.List.Count

/-!
# Rosters as ledgers

Seen from outside, a roster is a list of entries in the order of their registration, each under a
ticket.  `Ledger.Step` is what a request does to such a list, without slots, links or free places, and
with arithmetic of its own on the countdowns.  Whatever is requested of a new roster, its replies are
those of a ledger, and its links, its length and its free slots are in order for the list that the
ledger has come to.
-/

namespace Cadence.Roster

variable {α σ : Type}

/-! ## 1. Requests -/

/-- A call of a roster.  Before a tick the world may have become any other. -/
inductive Request (α σ : Type)
  | insert (e : Entry α)
  | remove (t : Ticket)
  | clear
  | tick (delta : Nat) (world : σ)

inductive Reply (α σ : Type)
  | inserted (t : Ticket)
  | removed (e : Option (Entry α))
  | cleared
  | ticked (world : σ) (stopAsked : Bool) (report : Option TickOutcome)

def answer (invoke : Float → α → σ → Invocation α σ) (r : Roster α) :
    Request α σ → Reply α σ × Roster α
  | .insert e => (.inserted (r.insert e).1, (r.insert e).2)
  | .remove t =>
    match r.remove t with
    | some (e, r') => (.removed (some e), r')
    | none => (.removed none, r)
  | .clear => (.cleared, r.clear)
  | .tick delta world =>
    let t := r.tick invoke delta world
    (.ticked t.world t.stopAsked t.outcome, t.roster)

def run (invoke : Float → α → σ → Invocation α σ) (r : Roster α) :
    List (Request α σ) → List (Reply α σ) × Roster α
  | [] => ([], r)
  | q :: rest =>
    let (reply, r') := r.answer invoke q
    let (replies, last) := run invoke r' rest
    (reply :: replies, last)

/-! ## 2. Ledgers -/

namespace Ledger

/-- Countdowns are signed numbers of 64 bits and stop at the ends of their range. -/
def clamp (i : Int) : Int := max (-9223372036854775808) (min i 9223372036854775807)

/-- What is left of a countdown when `delta` microseconds have passed, or as many as a signed number
holds. -/
def left (countdown : Int) (delta : Nat) : Int :=
  clamp (countdown - min (delta : Int) 9223372036854775807)

/-- From `c` on a countdown starts again that came down to `left`: one period later, or at the first
point in the future that is a whole number of periods away. -/
def Restarts (policy : Policy) (period : Nat) (left c : Int) : Prop :=
  match policy with
  | .catchUp => c = clamp (left + period)
  | .skipMissed => 0 < c ∧ c ≤ period ∧ (period : Int) ∣ c - left

/-- A tick comes to one member after the other.  Those with time left only wait, the others run and
start again, and one that breaks down is the last that the tick comes to. -/
inductive Tick (policy : Policy) (invoke : α → σ → Invocation α σ) (delta : Nat) :
    List (Ticket × Entry α) → σ → Sweep α σ → Prop
  | done {world : σ} : Tick policy invoke delta [] world ⟨[], world, 0, false, false⟩
  | waits {t : Ticket} {e : Entry α} {rest : List (Ticket × Entry α)} {world : σ} {s : Sweep α σ}
    (later : 0 < left e.countdown delta) (more : Tick policy invoke delta rest world s) :
    Tick policy invoke delta ((t, e) :: rest) world
      { s with members := (t, { e with countdown := left e.countdown delta }) :: s.members }
  | runs {t : Ticket} {e : Entry α} {rest : List (Ticket × Entry α)} {world : σ} {s : Sweep α σ}
    {did : Invocation α σ} {c : Int} (due : left e.countdown delta ≤ 0)
    (ran : invoke e.callback world = did) (well : did.breaksDown = false)
    (restarts : Restarts policy e.period (left e.countdown delta) c)
    (more : Tick policy invoke delta rest did.world s) :
    Tick policy invoke delta ((t, e) :: rest) world
      { s with
        members := (t, { e with callback := did.callback, countdown := c }) :: s.members
        fired := s.fired + 1
        stopAsked := did.asksStop || s.stopAsked }
  | breaks {t : Ticket} {e : Entry α} {rest : List (Ticket × Entry α)} {world : σ}
    {did : Invocation α σ} (due : left e.countdown delta ≤ 0)
    (ran : invoke e.callback world = did) (down : did.breaksDown = true) :
    Tick policy invoke delta ((t, e) :: rest) world
      ⟨(t, { e with callback := did.callback, countdown := left e.countdown delta }) :: rest,
        did.world, 0, did.asksStop, true⟩

end Ledger

/-- What a request does to a list of entries with their tickets.  A new entry comes last, under a ticket
for a place that no other entry has.  A tick that is not cut short reports how many members had no time
left, and the smallest countdown afterwards.  Callbacks are told the time in seconds. -/
inductive Ledger.Step (policy : Policy) (invoke : Float → α → σ → Invocation α σ) :
    List (Ticket × Entry α) → Request α σ → Reply α σ → List (Ticket × Entry α) → Prop
  | insert {ms : List (Ticket × Entry α)} {e : Entry α} {t : Ticket} (fresh : t.index ∉ places ms) :
    Step policy invoke ms (.insert e) (.inserted t) (ms ++ [(t, e)])
  | remove {before after : List (Ticket × Entry α)} {t : Ticket} {e : Entry α} :
    Step policy invoke (before ++ (t, e) :: after) (.remove t) (.removed (some e))
      (before ++ after)
  | stale {ms : List (Ticket × Entry α)} {t : Ticket} (gone : t ∉ ms.map Prod.fst) :
    Step policy invoke ms (.remove t) (.removed none) ms
  | clear {ms : List (Ticket × Entry α)} : Step policy invoke ms .clear .cleared []
  | completed {ms : List (Ticket × Entry α)} {delta : Nat} {world : σ} {s : Sweep α σ}
    (ticked : Tick policy (invoke (Number.ofNat64 delta / 1000000.0)) delta ms world s)
    (whole : s.cutShort = false) :
    Step policy invoke ms (.tick delta world)
      (.ticked s.world s.stopAsked (some
        ⟨ms.countP fun m => left m.2.countdown delta ≤ 0,
          (s.members.map fun m => m.2.countdown).min?.map Int.toNat⟩))
      s.members
  | cutShort {ms : List (Ticket × Entry α)} {delta : Nat} {world : σ} {s : Sweep α σ}
    (ticked : Tick policy (invoke (Number.ofNat64 delta / 1000000.0)) delta ms world s)
    (cut : s.cutShort = true) :
    Step policy invoke ms (.tick delta world) (.ticked s.world s.stopAsked none) s.members

inductive Ledger.Run (policy : Policy) (invoke : Float → α → σ → Invocation α σ) :
    List (Ticket × Entry α) → List (Request α σ) → List (Reply α σ) →
      List (Ticket × Entry α) → Prop
  | nil {ms : List (Ticket × Entry α)} : Run policy invoke ms [] [] ms
  | cons {ms ms' last : List (Ticket × Entry α)} {q : Request α σ} {reply : Reply α σ}
    {requests : List (Request α σ)} {replies : List (Reply α σ)}
    (first : Step policy invoke ms q reply ms') (rest : Run policy invoke ms' requests replies last) :
    Run policy invoke ms (q :: requests) (reply :: replies) last

/-! ## 3. Ticks -/

theorem clampSigned_eq (i : Int) : clampSigned i = Ledger.clamp i := by
  simp only [clampSigned, Ledger.clamp, maxSigned]
  omega

theorem countdown_elapse_eq (e : Entry α) (delta : Nat) :
    (e.elapse delta).countdown = Ledger.left e.countdown delta := by
  rw [Ledger.left, ← clampSigned_eq]
  show clampSigned (e.countdown - (min delta maxSigned : Nat)) = _
  congr 1
  simp only [maxSigned]
  omega

/-- No two points of a grid are less than a period apart. -/
theorem restarts_iff {policy : Policy} {period : Nat} (hperiod : 0 < period) {left : Int}
    (hleft : left ≤ 0) (c : Int) :
    Ledger.Restarts policy period left c ↔ policy.rearm period left = c := by
  cases policy with
  | catchUp =>
    show c = Ledger.clamp (left + period) ↔ clampSigned (left + period) = c
    rw [clampSigned_eq, eq_comm]
  | skipMissed =>
    obtain ⟨hpos, hle, n, hgrid⟩ := Entry.rearm_skipMissed hperiod hleft
    show 0 < c ∧ c ≤ period ∧ (period : Int) ∣ c - left ↔ _
    constructor
    · rintro ⟨hpos', hle', hdvd⟩
      -- Both are a whole number of periods away from the same point, and both in the first period
      -- after now.
      have hapart : (period : Int) ∣ Policy.skipMissed.rearm period left - c := by
        obtain ⟨k, hk⟩ := hdvd
        refine ⟨n - k, ?_⟩
        rw [Int.mul_sub, ← hk, hgrid, Int.mul_comm (period : Int)]
        omega
      have hzero := Int.eq_zero_of_dvd_of_natAbs_lt_natAbs hapart (by omega)
      omega
    · rintro rfl
      exact ⟨hpos, hle, n, by rw [hgrid, Int.mul_comm]; omega⟩

section

variable {policy : Policy} {invoke : α → σ → Invocation α σ} {delta : Nat}

/-- A sweep is a tick of a ledger. -/
theorem tick_sweep (ms : List (Ticket × Entry α)) (world : σ) :
    Ledger.Tick policy invoke delta ms world (sweep policy invoke delta ms world) := by
  induction ms generalizing world with
  | nil => exact .done
  | cons m rest ih =>
    obtain ⟨t, e⟩ := m
    have hleft := countdown_elapse_eq e delta
    rw [sweep]
    -- The cases of the sweep are those of the ledger.
    by_cases hdue : (e.elapse delta).countdown ≤ 0
    · rw [if_pos hdue]
      obtain ⟨did, hran⟩ : ∃ did, invoke e.callback world = did := ⟨_, rfl⟩
      rw [hran]
      rw [hleft] at hdue ⊢
      cases hdown : did.breaksDown with
      | true =>
        rw [if_pos hdown]
        exact .breaks hdue hran hdown
      | false =>
        rw [if_neg (by simp [hdown])]
        exact .runs hdue hran hdown ((restarts_iff e.period_pos hdue _).2 rfl) (ih _)
    · rw [if_neg hdue]
      rw [hleft, Int.not_le] at hdue
      have hwaited : e.elapse delta = { e with countdown := Ledger.left e.countdown delta } :=
        hleft ▸ rfl
      rw [hwaited]
      exact .waits hdue (ih world)

/-- A tick of a ledger is none but the sweep. -/
theorem sweep_of_tick {ms : List (Ticket × Entry α)} {world : σ} {s : Sweep α σ}
    (h : Ledger.Tick policy invoke delta ms world s) : sweep policy invoke delta ms world = s := by
  induction h with
  | done => rfl
  | @waits t e rest world s hlater _ ih =>
    have hleft := countdown_elapse_eq e delta
    rw [sweep, if_neg (by omega), ih, ← hleft]
    rfl
  | @runs t e rest world s did c hdue hran hwell hrestarts _ ih =>
    have hleft := countdown_elapse_eq e delta
    have hrearmed := (restarts_iff e.period_pos hdue c).1 hrestarts
    rw [sweep, if_pos (by omega), hran, if_neg (by simp [hwell]), ih, ← hrearmed, ← hleft]
    rfl
  | @breaks t e rest world did hdue hran hdown =>
    have hleft := countdown_elapse_eq e delta
    rw [sweep, if_pos (by omega), hran, if_pos hdown, ← hleft]
    rfl

end

/-! ## 4. One request -/

section

variable {r : Roster α} {ms : List (Ticket × Entry α)} (h : r.Holds ms)
  (invoke : Float → α → σ → Invocation α σ)

include h

/-- A tick of a roster is one of its ledger. -/
theorem tick_step (delta : Nat) (world : σ) :
    ∃ ms', Ledger.Step r.policy invoke ms (.tick delta world)
        (r.answer invoke (.tick delta world)).1 ms' ∧
      (r.tick invoke delta world).roster.Holds ms' := by
  have hswept := tick_swept h invoke delta world
  have houtcome := tick_outcome h invoke delta world
  let s := sweep r.policy (invoke (secondsOfMicros delta)) delta ms world
  have hreply : (r.answer invoke (.tick delta world)).1 =
      .ticked s.world s.stopAsked s.outcome := by
    show Reply.ticked _ _ _ = _
    rw [hswept.world, hswept.stopAsked, houtcome]
    rfl
  refine ⟨s.members, ?_, hswept.holds⟩
  rw [hreply, Sweep.outcome]
  have hticked : Ledger.Tick r.policy (invoke (secondsOfMicros delta)) delta ms world s :=
    tick_sweep ms world
  by_cases hcut : s.cutShort = true
  · rw [if_pos hcut]
    exact .cutShort hticked hcut
  · have hfired : s.fired = ms.countP fun m => Ledger.left m.2.countdown delta ≤ 0 := by
      rw [sweep_fired ms world (Bool.eq_false_iff.2 hcut), ← List.countP_eq_length_filter]
      simp only [Entry.isDue, countdown_elapse_eq]
    rw [if_neg hcut, hfired]
    exact .completed hticked (Bool.eq_false_iff.2 hcut)

/-- Every request is answered as a ledger answers it, and the roster goes on representing it. -/
theorem answer_step (q : Request α σ) :
    ∃ ms', Ledger.Step r.policy invoke ms q (r.answer invoke q).1 ms' ∧
      (r.answer invoke q).2.Holds ms' := by
  cases q with
  | insert e =>
    obtain ⟨hfresh, hholds⟩ := holds_insert h e
    exact ⟨_, .insert hfresh, hholds⟩
  | remove t =>
    cases hremove : r.remove t with
    | none =>
      simp only [answer, hremove]
      exact ⟨_, .stale ((h.remove_eq_none_iff t).1 hremove), h⟩
    | some removed =>
      obtain ⟨before, after, rfl, hholds, -⟩ := holds_of_remove h hremove
      simp only [answer, hremove]
      exact ⟨_, .remove, hholds⟩
  | clear => exact ⟨_, .clear, holds_clear h⟩
  | tick delta world => exact tick_step h invoke delta world

/-- Only a registration that finds every slot occupied adds one. -/
theorem answer_frame (q : Request α σ) :
    (r.answer invoke q).2.policy = r.policy ∧
      (r.answer invoke q).2.slots.size = max r.slots.size (r.answer invoke q).2.length := by
  obtain ⟨ms', hstep, hholds⟩ := answer_step h invoke q
  -- Every member has a slot, so where none is added the maximum is the number of slots.
  have hroom := hholds.length_add_free
  rw [hholds.length]
  -- Nothing but a registration changes the number of slots.
  have hkept : (r.answer invoke q).2.policy = r.policy ∧
      (r.answer invoke q).2.slots.size = r.slots.size →
      (r.answer invoke q).2.policy = r.policy ∧
        (r.answer invoke q).2.slots.size = max r.slots.size ms'.length := by
    rintro ⟨hpolicy, hsize⟩
    exact ⟨hpolicy, by omega⟩
  cases q with
  | insert e =>
    cases hstep
    rw [List.length_append]
    exact ⟨h.policy_insert e, h.size_insert e⟩
  | remove t =>
    apply hkept
    cases hremove : r.remove t with
    | none => simp only [answer, hremove, and_self]
    | some removed =>
      obtain ⟨before, after, -, -, hsame⟩ := holds_of_remove h hremove
      simp only [answer, hremove]
      exact hsame
  | clear => exact hkept ⟨rfl, Array.size_map⟩
  | tick delta world =>
    have hswept := tick_swept h invoke delta world
    exact hkept ⟨hswept.policy, hswept.size⟩

end

/-! ## 5. Any number of requests -/

theorem run_step {r : Roster α} {ms : List (Ticket × Entry α)} (h : r.Holds ms)
    (invoke : Float → α → σ → Invocation α σ) (requests : List (Request α σ)) :
    ∃ last, Ledger.Run r.policy invoke ms requests (run invoke r requests).1 last ∧
      (run invoke r requests).2.Holds last ∧ (run invoke r requests).2.policy = r.policy := by
  induction requests generalizing r ms with
  | nil => exact ⟨ms, .nil, h, rfl⟩
  | cons q rest ih =>
    obtain ⟨ms', hfirst, hholds⟩ := answer_step h invoke q
    -- The policy of the ledger is that of the first roster.
    obtain ⟨hpolicy, -⟩ := answer_frame h invoke q
    obtain ⟨last, hrest, hlast, hkept⟩ := ih hholds
    rw [hpolicy] at hrest hkept
    exact ⟨last, .cons hfirst hrest, hlast, hkept⟩

/-- The slots that a roster comes to have were all occupied at some moment, unless it had them to
begin with. -/
theorem run_peak {r : Roster α} {ms : List (Ticket × Entry α)} (h : r.Holds ms)
    (invoke : Float → α → σ → Invocation α σ) (requests : List (Request α σ)) :
    (run invoke r requests).2.slots.size = r.slots.size ∨
      ∃ earlier, earlier <+: requests ∧
        (run invoke r requests).2.slots.size = (run invoke r earlier).2.length := by
  induction requests generalizing r ms with
  | nil => exact .inl rfl
  | cons q rest ih =>
    obtain ⟨ms', -, hholds⟩ := answer_step h invoke q
    obtain ⟨-, hsize⟩ := answer_frame h invoke q
    rcases ih hholds with hsame | ⟨earlier, hprefix, hpeak⟩
    · -- What follows the request adds no slot.
      rcases Nat.le_total (r.answer invoke q).2.length r.slots.size with hle | hle
      · exact .inl (hsame.trans (hsize.trans (Nat.max_eq_left hle)))
      · -- The last slot was added by this request.
        have hnow : (r.answer invoke q).2.slots.size = (r.answer invoke q).2.length :=
          hsize.trans (Nat.max_eq_right hle)
        exact .inr ⟨[q], List.prefix_cons_inj q |>.2 (List.nil_prefix), hsame.trans hnow⟩
    · exact .inr ⟨q :: earlier, (List.prefix_cons_inj q).2 hprefix, hpeak⟩

/-- The links, the length and the free slots of a roster are in order for a list of entries with their
tickets.  The links may be followed for any number of steps beyond the number of slots and lead through
the members all the same, so they end behind the last one. -/
structure InOrder (r : Roster α) (ms : List (Ticket × Entry α)) : Prop where
  forward : ∀ extra, (r.chain Cell.next (r.slots.size + extra) r.head).map
    (fun p => (p.1, p.2.entry)) = ms.map fun m => (m.1.index, m.2)
  backward : ∀ extra, (r.chain Cell.before (r.slots.size + extra) r.tail).map
    (fun p => (p.1, p.2.entry)) = (ms.map fun m => (m.1.index, m.2)).reverse
  length : r.length = ms.length
  generation : ∀ m ∈ ms, r.generation m.1.index = m.1.generation
  slots : ∀ i < r.slots.size,
    (r.cell? i).isSome ∧ r.indices.count i = 1 ∧ r.free.count i = 0 ∨
      r.cell? i = none ∧ r.indices.count i = 0 ∧ r.free.count i = 1
  inRange : ∀ i ∈ r.indices ++ r.free, i < r.slots.size

/-- A roster that represents a ledger is in order for it. -/
theorem Holds.inOrder {r : Roster α} {ms : List (Ticket × Entry α)} (h : r.Holds ms) :
    r.InOrder ms := by
  have hsize := h.length_add_free
  have hforward : ∀ extra, (r.chain Cell.next (r.slots.size + extra) r.head).map
      (fun p => (p.1, p.2.entry)) = ms.map fun m => (m.1.index, m.2) := fun extra => by
    rw [h.head]
    exact chain_next h.row (by omega)
  have hindices : r.indices = places ms := by
    have hfirst := congrArg (List.map Prod.fst) (hforward 0)
    rw [List.map_map, List.map_map] at hfirst
    exact hfirst
  constructor
  case forward => exact hforward
  case backward =>
    intro extra
    rw [h.tail]
    exact chain_before h.row (by omega)
  case length => exact h.length
  case generation => exact fun m hm => h.generation_eq hm
  case slots =>
    intro i hi
    rw [hindices]
    -- The occupied slots and the free ones are all slots, each of them once.
    have hi' : i ∈ places ms ++ r.free := h.perm_range.mem_iff.2 (List.mem_range.2 hi)
    by_cases hplace : i ∈ places ms
    · exact .inl ⟨(h.isSome_cell?_iff_mem i).2 hplace, List.count_eq_one_of_mem h.distinct hplace,
        List.count_eq_zero.2 (h.not_mem_free hplace)⟩
    · have hfree := (List.mem_append.1 hi').resolve_left hplace
      refine .inr ⟨?_, List.count_eq_zero.2 hplace, List.count_eq_one_of_mem h.free_nodup hfree⟩
      exact Option.not_isSome_iff_eq_none.1 fun hsome => hplace ((h.isSome_cell?_iff_mem i).1 hsome)
  case inRange =>
    intro i hi
    rw [hindices] at hi
    exact List.mem_range.1 (h.perm_range.mem_iff.1 hi)

/-- Whatever is requested of a new roster, it replies as a ledger does.  The list that the ledger comes
to is the one that the links lead through in both directions, every slot is either linked once or
free once, and there are never more slots than there have been entries at one moment. -/
theorem run_refines_ledger (policy : Policy) (invoke : Float → α → σ → Invocation α σ)
    (requests : List (Request α σ)) :
    ∃ ms, Ledger.Run policy invoke [] requests (run invoke (empty policy) requests).1 ms ∧
      (run invoke (empty policy) requests).2.InOrder ms ∧
      ∃ earlier, earlier <+: requests ∧
        (run invoke (empty policy) requests).2.slots.size ≤
          (run invoke (empty policy) earlier).2.length := by
  obtain ⟨ms, hrun, hholds, -⟩ := run_step (holds_empty policy) invoke requests
  refine ⟨ms, hrun, hholds.inOrder, ?_⟩
  rcases run_peak (holds_empty policy) invoke requests with hsize | ⟨earlier, hprefix, hsize⟩
  · exact ⟨[], List.nil_prefix, Nat.le_of_eq hsize⟩
  · exact ⟨earlier, hprefix, Nat.le_of_eq hsize⟩

/-- The entry that is registered last has the slot that is vacated first, and its turn is behind the
other one's.  The third callback to run breaks down and keeps the tick from coming to it again. -/
theorem run_refines_ledger_of_reused_slot :
    ∃ ms, Ledger.Run .skipMissed (fun _ a ran => ⟨a, ran ++ [a], false, ran.length = 2⟩) []
        [.insert ⟨1, 10, 10, by decide⟩, .insert ⟨2, 20, 25, by decide⟩, .remove ⟨0, 0⟩,
          .insert ⟨3, 30, 5, by decide⟩, .tick 25 [], .remove ⟨0, 0⟩, .tick 20 [2, 3]]
        [.inserted ⟨0, 0⟩, .inserted ⟨1, 0⟩, .removed (some ⟨1, 10, 10, by decide⟩),
          .inserted ⟨0, 1⟩, .ticked [2, 3] false (some ⟨2, some 10⟩), .removed none,
          .ticked [2, 3, 2] false none] ms ∧
      ms.map (fun m => (m.1.index, m.2.callback, m.2.countdown)) = [(1, 2, 0), (0, 3, 10)] := by
  obtain ⟨ms, hrun, horder, -⟩ := run_refines_ledger .skipMissed
    (fun _ a ran => ⟨a, ran ++ [a], false, decide (ran.length = 2)⟩)
    [.insert ⟨1, 10, 10, by decide⟩, .insert ⟨2, 20, 25, by decide⟩, .remove ⟨0, 0⟩,
      .insert ⟨3, 30, 5, by decide⟩, .tick 25 [], .remove ⟨0, 0⟩, .tick 20 [2, 3]]
  refine ⟨ms, hrun, ?_⟩
  have hforward := congrArg (List.map fun p => (p.1, p.2.callback, p.2.countdown)) (horder.forward 0)
  rw [List.map_map, List.map_map] at hforward
  exact hforward.symm

end Cadence.Roster
