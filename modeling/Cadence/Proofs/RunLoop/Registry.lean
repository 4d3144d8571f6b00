import Cadence.Proofs.RunLoop.Slots

/-!
# Registrations by number

The registrations at all loops of a fleet are numbered in the order in which they succeed.  A `Registry`
is a fleet with what was returned for each number and how often each slot has been vacated.
`SlotSound` says what such a history tells about one slot, and is kept when the slot is left alone,
vacated or filled; hence it is true of every slot at every moment (`sound_run`).
-/

namespace Cadence

variable {α σ : Type}

/-! ## 1. What is kept of the registrations -/

/-- A registration: the place of its loop, the handle that was returned, and how often the slot of the
handle had been vacated until then. -/
structure Issue where
  loop : Nat
  handle : Handle
  vacated : Nat
  deriving DecidableEq

def Issue.slot (q : Issue) : Nat := q.handle.ticket.index

def Answer.issues (i : Nat) (vacated : Nat → Nat) : Answer α → List Issue
  | .registered (.ok h) => [⟨i, h, vacated h.ticket.index⟩]
  | _ => []

def Fleet.occupied (f : Fleet α σ) (i j : Nat) : Bool :=
  (f[i]?.bind fun c => c.loop.roster.cell? j).isSome

structure Registry (α σ : Type) where
  fleet : Fleet (α × Nat) (σ × List Nat)
  /-- The registrations by their numbers. -/
  issues : List Issue
  /-- How often an entry has left slot `j` of the loop at place `i`. -/
  vacated : Nat → Nat → Nat

namespace Registry

def empty : Registry α σ := ⟨[], [], fun _ _ => 0⟩

def log (r : Registry α σ) (i : Nat) : List Nat :=
  match r.fleet[i]? with
  | some c => c.world.2
  | none => []

def after (r : Registry α σ) (i : Nat) (answer : Answer (α × Nat))
    (fleet : Fleet (α × Nat) (σ × List Nat)) : Registry α σ where
  fleet := fleet
  issues := r.issues ++ answer.issues i (r.vacated i)
  vacated i j := r.vacated i j + (r.fleet.occupied i j && !fleet.occupied i j).toNat

/-- Carry out one event, if it can happen now.  An entry that is registered gets the next number. -/
def step? (s : RunLoop.Surroundings α σ) (r : Registry α σ) :
    FleetEvent α σ → Option (Answer (α × Nat) × Registry α σ)
  | .spawn o now world =>
    (r.fleet.step? s.noting (.spawn o now (world, []))).map fun (answer, fleet) =>
      (answer, { r with fleet := fleet })
  | .at i call =>
    (r.fleet.step? s.noting (.at i (call.number r.issues.length (r.log i)))).map
      fun (answer, fleet) => (answer, r.after i answer fleet)

def run? (s : RunLoop.Surroundings α σ) (r : Registry α σ) :
    List (FleetEvent α σ) → Option (Registry α σ)
  | [] => some r
  | ev :: rest => (r.step? s ev).bind fun (_, r') => run? s r' rest

end Registry

/-! ## 2. One slot -/

/-- What is in a list with one more member is an old member or the new one. -/
theorem of_getElem?_concat {β : Type} {xs : List β} {x y : β} {n : Nat}
    (h : (xs ++ [x])[n]? = some y) : xs[n]? = some y ∨ n = xs.length ∧ y = x := by
  rw [List.getElem?_append] at h
  split at h
  · exact .inl h
  · obtain ⟨hlt, heq⟩ := List.getElem?_eq_some_iff.1 h
    rw [List.length_singleton] at hlt
    rw [List.getElem_singleton] at heq
    exact .inr ⟨by omega, heq.symm⟩

/-- What is in a list with one member replaced is an old member or the new one. -/
theorem of_getElem?_set {β : Type} {xs : List β} {x y : β} {i n : Nat}
    (h : (xs.set i x)[n]? = some y) : xs[n]? = some y ∨ n = i ∧ y = x := by
  rw [List.getElem?_set] at h
  split at h
  · rename_i hi
    split at h
    · cases h
      exact .inr ⟨hi.symm, rfl⟩
    · cases h
  · exact .inl h

/-- What the registrations tell about slot `j` of the loop at place `i`, which has that post and has been
vacated so many times. -/
structure SlotSound (issues : List Issue) (i j : Nat) (post : Option (UInt32 × Option Nat))
    (vacated : Nat) : Prop where
  unused : post = none → vacated = 0
  generation : ∀ g o, post = some (g, o) → g = UInt32.ofNat vacated
  holder : ∀ g n, post = some (g, some n) → issues[n]? = some ⟨i, ⟨i + 1, j, g⟩, vacated⟩
  handle : ∀ q ∈ issues, q.loop = i → q.slot = j → q.handle = ⟨i + 1, j, UInt32.ofNat q.vacated⟩
  /-- An entry is in its slot until the slot is vacated. -/
  stays : ∀ (n : Nat) (q : Issue), issues[n]? = some q → q.loop = i → q.slot = j →
    q.vacated < vacated ∨ q.vacated = vacated ∧ ∃ g, post = some (g, some n)
  /-- Between two registrations in the slot it is vacated. -/
  ordered : ∀ (n m : Nat) (p q : Issue), n < m → issues[n]? = some p → issues[m]? = some q →
    p.loop = i → p.slot = j → q.loop = i → q.slot = j → p.vacated < q.vacated

section

variable {issues : List Issue} {i j : Nat} {post : Option (UInt32 × Option Nat)} {vacated : Nat}

theorem slotSound_nil : SlotSound [] i j none 0 where
  unused _ := rfl
  generation _ _ h := by cases h
  holder _ _ h := by cases h
  handle _ h := by cases h
  stays _ _ h := by cases h
  ordered _ _ _ _ _ h := by cases h

/-- Registrations elsewhere tell nothing. -/
theorem SlotSound.elsewhere (h : SlotSound issues i j post vacated) {more : List Issue}
    (hmore : ∀ q ∈ more, q.loop = i → q.slot ≠ j) :
    SlotSound (issues ++ more) i j post vacated := by
  -- A registration in this slot is one of those before.
  have hhold : ∀ {n : Nat} {q : Issue}, (issues ++ more)[n]? = some q → q.loop = i → q.slot = j →
      issues[n]? = some q := by
    intro n q hq hi hj
    rw [List.getElem?_append] at hq
    split at hq
    · exact hq
    · exact absurd hj (hmore q (List.mem_of_getElem? hq) hi)
  constructor
  case unused => exact h.unused
  case generation => exact h.generation
  case holder =>
    intro g n hpost
    have hn := h.holder g n hpost
    rw [List.getElem?_append_left (List.getElem?_eq_some_iff.1 hn).1]
    exact hn
  case handle =>
    intro q hq hi hj
    obtain ⟨n, hn⟩ := List.getElem?_of_mem hq
    exact h.handle q (List.mem_of_getElem? (hhold hn hi hj)) hi hj
  case stays => exact fun n q hq hi hj => h.stays n q (hhold hq hi hj) hi hj
  case ordered =>
    exact fun n m p q hlt hp hq hpi hpj hqi hqj =>
      h.ordered n m p q hlt (hhold hp hpi hpj) (hhold hq hqi hqj) hpi hpj hqi hqj

/-- The generation counts how often the slot has been vacated. -/
theorem SlotSound.vacate {g : UInt32} {k : Nat} (h : SlotSound issues i j (some (g, some k)) vacated) :
    SlotSound issues i j (some (g + 1, none)) (vacated + 1) := by
  constructor
  case unused => simp
  case generation =>
    intro g' o hpost
    cases hpost
    rw [h.generation g (some k) rfl, UInt32.ofNat_add]
    rfl
  case holder => simp
  case handle => exact h.handle
  case stays =>
    intro n q hq hi hj
    rcases h.stays n q hq hi hj with hlt | ⟨heq, -⟩
    · exact .inl (Nat.lt_succ_of_lt hlt)
    · exact .inl (heq ▸ Nat.lt_succ_self _)
  case ordered => exact h.ordered

theorem SlotSound.generation_of_vacant (h : SlotSound issues i j post vacated) {g : UInt32}
    (hvacant : Roster.Vacant post g) : g = UInt32.ofNat vacated := by
  rcases hvacant with ⟨hnone, rfl⟩ | hpost
  · rw [h.unused hnone]
    rfl
  · exact h.generation g none hpost

/-- What was registered in a slot before has left it when the slot is vacant. -/
theorem SlotSound.left_of_vacant (h : SlotSound issues i j post vacated) {g : UInt32}
    (hvacant : Roster.Vacant post g) {n : Nat} {q : Issue} (hq : issues[n]? = some q)
    (hi : q.loop = i) (hj : q.slot = j) : q.vacated < vacated := by
  rcases h.stays n q hq hi hj with hlt | ⟨-, g', hpost⟩
  · exact hlt
  · rcases hvacant with ⟨hnone, -⟩ | hpost'
    · rw [hnone] at hpost
      cases hpost
    · rw [hpost'] at hpost
      cases hpost

/-- A registration in a vacant slot is the one that its post tells of. -/
theorem SlotSound.fill (h : SlotSound issues i j post vacated) {g : UInt32}
    (hvacant : Roster.Vacant post g) :
    SlotSound (issues ++ [⟨i, ⟨i + 1, j, g⟩, vacated⟩]) i j (some (g, some issues.length)) vacated := by
  constructor
  case unused => simp
  case generation =>
    intro g' o hpost
    cases hpost
    exact h.generation_of_vacant hvacant
  case holder =>
    intro g' n hpost
    cases hpost
    simp
  case handle =>
    intro q hq hi hj
    -- Of two registrations in a slot the new one is the later.
    rcases List.mem_append.1 hq with hq | hq
    · exact h.handle q hq hi hj
    · cases List.mem_singleton.1 hq
      rw [h.generation_of_vacant hvacant]
  case stays =>
    intro n q hq hi hj
    rcases of_getElem?_concat hq with hq | ⟨rfl, rfl⟩
    · exact .inl (h.left_of_vacant hvacant hq hi hj)
    · exact .inr ⟨rfl, g, rfl⟩
  case ordered =>
    intro n m p q hlt hp hq hpi hpj hqi hqj
    rcases of_getElem?_concat hp with hp | ⟨rfl, rfl⟩
    · rcases of_getElem?_concat hq with hq | ⟨rfl, rfl⟩
      · exact h.ordered n m p q hlt hp hq hpi hpj hqi hqj
      · exact h.left_of_vacant hvacant hp hpi hpj
    · -- Nothing comes behind the new one.
      have hm := (List.getElem?_eq_some_iff.1 hq).1
      rw [List.length_append, List.length_singleton] at hm
      omega

end

/-! ## 3. All slots -/

def Fleet.post (f : Fleet (α × Nat) (σ × List Nat)) (i j : Nat) : Option (UInt32 × Option Nat) :=
  f[i]?.bind fun c => c.loop.roster.post j

section

variable {f : Fleet (α × Nat) (σ × List Nat)} {c : Interleaving (α × Nat) (σ × List Nat)} {i : Nat}

theorem Fleet.post_of_getElem? (h : f[i]? = some c) (j : Nat) : f.post i j = c.loop.roster.post j := by
  rw [post, h]
  rfl

theorem Fleet.post_set (h : f[i]? = some c) (c' : Interleaving (α × Nat) (σ × List Nat))
    (i' j : Nat) :
    Fleet.post (f.set i c') i' j = if i' = i then c'.loop.roster.post j else f.post i' j := by
  have hlt := (List.getElem?_eq_some_iff.1 h).1
  rw [post, List.getElem?_set]
  by_cases hi : i' = i
  · subst hi
    simp [hlt]
  · simp [hi, Ne.symm hi, post]

/-- A new loop has no slots. -/
theorem Fleet.post_spawn (o : LoopOptions) (now : Timestamp) (world : σ × List Nat) (i j : Nat) :
    Fleet.post (f ++ [Interleaving.quiet (RunLoop.create (f.length + 1) o now) world]) i j =
      f.post i j := by
  rw [post, post, List.getElem?_append]
  split
  · rfl
  · rename_i hi
    rw [List.getElem?_eq_none (Nat.le_of_not_lt hi)]
    cases i - f.length <;> rfl

/-- As long as the entries of a loop are the same, what else happens there does not show. -/
theorem Fleet.post_set_of_roster {c' : Interleaving (α × Nat) (σ × List Nat)} (h : f[i]? = some c)
    (hroster : c'.loop.roster = c.loop.roster) (i' j : Nat) :
    Fleet.post (f.set i c') i' j = f.post i' j := by
  rw [Fleet.post_set h]
  split
  · rename_i hi
    rw [hi, Fleet.post_of_getElem? h, hroster]
  · rfl

theorem Fleet.occupied_eq (f : Fleet (α × Nat) (σ × List Nat)) (i j : Nat) :
    f.occupied i j = ((f.post i j).bind Prod.snd).isSome := by
  rw [occupied, post]
  cases f[i]? with
  | none => rfl
  | some c => exact Roster.isSome_cell?_eq c.loop.roster j

end

namespace Registry

/-- The loops are identified by their places, their entries are in order, and the registrations tell of
every slot what they should. -/
structure Sound (r : Registry α σ) : Prop where
  id : ∀ (i : Nat) (c : Interleaving (α × Nat) (σ × List Nat)), r.fleet[i]? = some c →
    c.loop.id = i + 1
  holds : ∀ (i : Nat) (c : Interleaving (α × Nat) (σ × List Nat)), r.fleet[i]? = some c →
    ∃ ms, c.loop.roster.Holds ms
  slot : ∀ i j, SlotSound r.issues i j (r.fleet.post i j) (r.vacated i j)

variable {s : RunLoop.Surroundings α σ} {r r' : Registry α σ}

theorem sound_empty : (empty : Registry α σ).Sound where
  id i c h := by simp [empty] at h
  holds i c h := by simp [empty] at h
  slot _ _ := slotSound_nil

/-- Another loop has no entries and no registrations. -/
theorem sound_spawn (h : r.Sound) (o : LoopOptions) (now : Timestamp) (world : σ × List Nat) :
    Sound { r with
      fleet := r.fleet ++ [Interleaving.quiet (RunLoop.create (r.fleet.length + 1) o now) world] } := by
  constructor
  case id =>
    intro i c hc
    rcases of_getElem?_concat hc with hhold | ⟨rfl, rfl⟩
    · exact h.id i c hhold
    · rfl
  case holds =>
    intro i c hc
    rcases of_getElem?_concat hc with hhold | ⟨-, rfl⟩
    · exact h.holds i c hhold
    · exact ⟨[], Roster.holds_empty _⟩
  case slot =>
    intro i j
    rw [Fleet.post_spawn]
    exact h.slot i j

theorem mem_issues {i : Nat} {vacated : Nat → Nat} {answer : Answer α} {q : Issue}
    (hq : q ∈ answer.issues i vacated) :
    q.loop = i ∧ ∃ h, answer = .registered (.ok h) ∧ q.handle = h := by
  unfold Answer.issues at hq
  split at hq
  · cases List.mem_singleton.1 hq
    exact ⟨rfl, _, rfl, rfl⟩
  · cases hq

section

variable {i : Nat} {c c' : Interleaving (α × Nat) (σ × List Nat)} {answer : Answer (α × Nat)}

/-- A call at the loop of a slot leaves the slot alone, vacates it or fills it. -/
theorem slotSound_after (h : r.Sound) (hc : r.fleet[i]? = some c)
    (hchange : Change α c.loop.id r.issues.length c.loop.roster.post answer c'.loop.roster.post)
    (j : Nat) :
    SlotSound (r.after i answer (r.fleet.set i c')).issues i j (c'.loop.roster.post j)
      ((r.after i answer (r.fleet.set i c')).vacated i j) := by
  have hslot := h.slot i j
  rw [Fleet.post_of_getElem? hc] at hslot
  simp only [after, Fleet.occupied_eq, Fleet.post_set hc, if_true, Fleet.post_of_getElem? hc]
  rcases hchange.slot j with ⟨hsame, hother⟩ | ⟨g, k, hheld, hleft, hnone⟩ |
    ⟨g, hvacant, hfilled, hanswer⟩
  · rw [hsame, Bool.and_not_self, Bool.toNat_false, Nat.add_zero]
    apply hslot.elsewhere
    intro q hq _
    obtain ⟨-, h', hanswer, rfl⟩ := mem_issues hq
    exact hother _ hanswer
  · rw [hheld] at hslot ⊢
    rw [hleft]
    apply hslot.vacate.elsewhere
    intro q hq
    obtain ⟨-, h', hanswer, -⟩ := mem_issues hq
    exact absurd hanswer (hnone h')
  · rw [hfilled, hanswer, h.id i c hc]
    -- Nothing has left a slot that was vacant.
    have hempty : ((c.loop.roster.post j).bind Prod.snd).isSome = false := by
      rcases hvacant with ⟨hpost, -⟩ | hpost <;> rw [hpost] <;> rfl
    rw [hempty]
    exact hslot.fill hvacant

/-- A call at one loop changes the posts of that loop only, and the registrations tell how. -/
theorem sound_after (h : r.Sound) (hc : r.fleet[i]? = some c)
    (hchange : Change α c.loop.id r.issues.length c.loop.roster.post answer c'.loop.roster.post)
    (hid : c'.loop.id = c.loop.id) (hholds : ∃ ms, c'.loop.roster.Holds ms) :
    (r.after i answer (r.fleet.set i c')).Sound := by
  constructor
  case id =>
    intro i' x hx
    rcases of_getElem?_set hx with hhold | ⟨rfl, rfl⟩
    · exact h.id i' x hhold
    · exact hid.trans (h.id i' c hc)
  case holds =>
    intro i' x hx
    rcases of_getElem?_set hx with hhold | ⟨-, rfl⟩
    · exact h.holds i' x hhold
    · exact hholds
  case slot =>
    intro i' j
    show SlotSound _ i' j (Fleet.post (r.fleet.set i c') i' j) _
    rw [Fleet.post_set hc]
    split
    · rename_i hi
      subst hi
      exact slotSound_after h hc hchange j
    · rename_i hi
      -- The slots of the other loops are as before.
      simp only [after, Fleet.occupied_eq, Fleet.post_set hc, if_neg hi, Bool.and_not_self,
        Bool.toNat_false, Nat.add_zero]
      apply (h.slot i' j).elsewhere
      intro q hq hloop
      exact absurd (hloop.symm.trans (mem_issues hq).1) hi

end

/-! ## 4. Runs -/

/-- What an event can be: another loop is started, or there is a call at one of the loops. -/
theorem step_cases {ev : FleetEvent α σ} {answer : Answer (α × Nat)}
    (h : r.step? s ev = some (answer, r')) :
    (∃ o now world, answer = .done ∧ r' = { r with
      fleet := r.fleet ++ [Interleaving.quiet (RunLoop.create (r.fleet.length + 1) o now)
        (world, [])] }) ∨
      ∃ i call c c', ev = .at i call ∧ r.fleet[i]? = some c ∧
        c.call? s.noting (call.number r.issues.length c.world.2) = some (answer, c') ∧
        r' = r.after i answer (r.fleet.set i c') := by
  cases ev with
  | spawn o now world =>
    cases h
    exact .inl ⟨o, now, world, rfl, rfl⟩
  | «at» i call =>
    right
    obtain ⟨⟨answer', fleet⟩, hstep, hafter⟩ := Option.map_eq_some_iff.1 h
    obtain ⟨rfl, rfl⟩ := Prod.mk.inj hafter
    obtain ⟨c, hc, hcall⟩ := Option.bind_eq_some_iff.1 hstep
    obtain ⟨⟨answer'', c'⟩, hcall', hset⟩ := Option.map_eq_some_iff.1 hcall
    obtain ⟨rfl, rfl⟩ := Prod.mk.inj hset
    rw [log, hc] at hcall'
    exact ⟨i, call, c, c', rfl, hc, hcall', rfl⟩

theorem sound_step {ev : FleetEvent α σ} {answer : Answer (α × Nat)} (h : r.Sound)
    (hstep : r.step? s ev = some (answer, r')) : r'.Sound := by
  rcases step_cases hstep with ⟨o, now, world, -, rfl⟩ | ⟨i, call, c, c', -, hc, hcall, rfl⟩
  · exact sound_spawn h o now (world, [])
  · have hholds := h.holds i c hc
    have hkeeps := Interleaving.keeps_call hholds hcall
    exact sound_after h hc (Interleaving.change_call hholds hcall) hkeeps.1 hkeeps.2

/-- What every event keeps is kept by every run. -/
theorem run_induction {P : Registry α σ → Prop}
    (hkeep : ∀ {r r' ev answer}, P r → r.step? s ev = some (answer, r') → P r')
    {events : List (FleetEvent α σ)} (hr : P r) (hrun : r.run? s events = some r') : P r' := by
  induction events generalizing r with
  | nil =>
    cases hrun
    exact hr
  | cons ev rest ih =>
    obtain ⟨⟨answer, r''⟩, hstep, hrest⟩ := Option.bind_eq_some_iff.1 hrun
    exact ih (hkeep hr hstep) hrest

theorem sound_run {events : List (FleetEvent α σ)} (hrun : empty.run? s events = some r) : r.Sound :=
  run_induction sound_step sound_empty hrun

end Registry

end Cadence
