import Cadence.Proofs.Ring.Fifo
import Cadence.Queue.Contention
import Mathlib.Data.List.Nodup

/-!
# Nothing is left behind while its readers sleep

A push signals only after it has released the lock, so there are moments at which values are held and
waiters sleep.  Then somebody is always on the way: as long as anyone sleeps, there are no more values
than waiters that have been woken and pushes that have still to signal (`covered_run`).  What goes into
a queue comes out of it in the same order, and each value goes to one waiter or is dropped
(`flow_run`, `once_run`).
-/

namespace Cadence

variable {α : Type}

namespace SyncQueue

/-! ## 1. The values of a queue -/

def values (q : SyncQueue α) : List α := q.ring.toList

theorem length_eq (q : SyncQueue α) : q.length = q.values.length := q.ring.length_toList.symm

theorem values_push (q : SyncQueue α) (x : α) :
    (q.push x).2.values = q.values ++ if (q.push x).1 then [x] else [] :=
  q.ring.toList_push x

theorem values_take (q : SyncQueue α) : q.values = q.take.1.toList ++ q.take.2.values :=
  q.ring.pull_append.symm

theorem values_take_of_none {q : SyncQueue α} (hnothing : q.take.1 = none) : q.values = [] := by
  have hshown := (Ring.toList_pull q.ring).1
  rw [show q.ring.pull.1 = none from hnothing] at hshown
  exact List.head?_eq_none_iff.1 hshown.symm

@[simp]
theorem values_clear (q : SyncQueue α) : q.clear.values = [] := Ring.toList_clear q.ring

end SyncQueue

namespace Contention

/-! ## 2. Steps -/

inductive Move (c : Contention α) : ContentionStep α → Contention α → Prop
  | push (x : α) :
    Move c (.push x)
      { c with
        queue := (c.queue.push x).2
        unsignalled := c.unsignalled + (c.queue.push x).1.toNat }
  | idle (pending : c.unsignalled ≠ 0) (awake : ∀ w ∈ c.waiters, w.isAsleep = false) :
    Move c (.signal none) { c with unsignalled := c.unsignalled - 1 }
  | signal {i : Nat} {limited : Bool} (pending : c.unsignalled ≠ 0)
    (sleeper : c.waiters[i]? = some ⟨limited, .asleep⟩) :
    Move c (.signal (some i)) ({ c with unsignalled := c.unsignalled - 1 }.setStage i .woken)
  | arrive (limited : Bool) :
    Move c (.arrive limited) { c with waiters := c.waiters ++ [⟨limited, .arriving⟩] }
  | take {ev : ContentionStep α} {i : Nat} {w : Waiter α} {x : α} {q : SyncQueue α}
    (own : ev = .look i ∨ ev = .lapse i) (waiter : c.waiters[i]? = some w)
    (unserved : w.result? = none) (taken : c.queue.take = (some x, q)) :
    Move c ev ({ c with queue := q }.setStage i (.served x))
  | miss {ev : ContentionStep α} {i : Nat} {w : Waiter α} {stage : WaitStage α}
    (own : ev = .look i ∨ ev = .lapse i) (waiter : c.waiters[i]? = some w)
    (unserved : w.result? = none) (nothing : c.queue.take.1 = none)
    (next : stage = .asleep ∨ stage = .gaveUp ∧ (w.limited = true ∨ w.stage = .expired)) :
    Move c ev (c.setStage i stage)
  | rouse {i : Nat} {limited : Bool} (sleeper : c.waiters[i]? = some ⟨limited, .asleep⟩) :
    Move c (.rouse i) (c.setStage i .woken)
  | expire {i : Nat} (sleeper : c.waiters[i]? = some ⟨true, .asleep⟩) :
    Move c (.expire i) (c.setStage i .expired)
  | clear : Move c .clear { c with queue := c.queue.clear }

variable {c c' : Contention α} {ev : ContentionStep α}

theorem move_of_serve {i : Nat} {w : Waiter α} {otherwise : WaitStage α}
    (hown : ev = .look i ∨ ev = .lapse i) (hwaiter : c.waiters[i]? = some w)
    (hunserved : w.result? = none)
    (hnext : otherwise = .asleep ∨ otherwise = .gaveUp ∧ (w.limited = true ∨ w.stage = .expired)) :
    Move c ev (c.serve i otherwise) := by
  cases htake : c.queue.take with
  | mk shown q =>
    rw [serve, htake]
    cases shown with
    | some x => exact .take hown hwaiter hunserved htake
    | none => exact .miss hown hwaiter hunserved (congrArg Prod.fst htake) hnext

/-- Every step is one of the list. -/
theorem move_of_step (h : c.step? ev = some c') : Move c ev c' := by
  cases ev with
  | push x =>
    cases h
    exact .push x
  | signal sleeper =>
    cases sleeper with
    | none =>
      rw [step?] at h
      split at h
      · cases h
      · rename_i hpending
        split at h
        · cases h
        · rename_i hawake
          rw [List.any_eq_true, not_exists] at hawake
          cases h
          exact .idle hpending fun w hw => Bool.eq_false_iff.2 fun hsleeps => hawake w ⟨hw, hsleeps⟩
    | some i =>
      rw [step?] at h
      split at h
      · cases h
      · rename_i hpending
        split at h
        · rename_i hsleeper
          cases h
          exact .signal hpending hsleeper
        · cases h
  | arrive limited =>
    cases h
    exact .arrive limited
  | look i =>
    -- A look is taken by a waiter that arrives, that has been woken, or whose limit has passed.
    rw [step?] at h
    split at h
    · rename_i hwaiter
      cases h
      exact move_of_serve (.inl rfl) hwaiter rfl (.inl rfl)
    · rename_i hwaiter
      cases h
      exact move_of_serve (.inl rfl) hwaiter rfl (.inl rfl)
    · rename_i hwaiter
      cases h
      exact move_of_serve (.inl rfl) hwaiter rfl (.inr ⟨rfl, .inr rfl⟩)
    · cases h
  | lapse i =>
    rw [step?] at h
    split at h
    · rename_i hwaiter
      cases h
      exact move_of_serve (.inr rfl) hwaiter rfl (.inr ⟨rfl, .inl rfl⟩)
    · rename_i hwaiter
      cases h
      exact move_of_serve (.inr rfl) hwaiter rfl (.inr ⟨rfl, .inl rfl⟩)
    · cases h
  | rouse i =>
    rw [step?] at h
    split at h
    · rename_i hsleeper
      cases h
      exact .rouse hsleeper
    · cases h
  | expire i =>
    rw [step?] at h
    split at h
    · rename_i hsleeper
      cases h
      exact .expire hsleeper
    · cases h
  | clear =>
    cases h
    exact .clear

/-- What every step keeps is kept by every run. -/
theorem run_induction {P : Contention α → Prop}
    (hkeep : ∀ {c c' ev}, P c → c.step? ev = some c' → P c') {steps : List (ContentionStep α)}
    (hc : P c) (hrun : c.run? steps = some c') : P c' := by
  induction steps generalizing c with
  | nil =>
    cases hrun
    exact hc
  | cons ev rest ih =>
    obtain ⟨c'', hstep, hrest⟩ := Option.bind_eq_some_iff.1 hrun
    exact ih (hkeep hc hstep) hrest

/-! ## 3. Waiters -/

theorem waiters_setStage {i : Nat} {w : Waiter α} (h : c.waiters[i]? = some w)
    (stage : WaitStage α) : (c.setStage i stage).waiters = c.waiters.set i ⟨w.limited, stage⟩ := by
  obtain ⟨hi, rfl⟩ := List.getElem?_eq_some_iff.1 h
  ext j v
  show (c.waiters.modify i _)[j]? = some v ↔ _
  rw [List.getElem?_modify, List.getElem?_set]
  by_cases hij : i = j
  · subst hij
    simp [hi]
  · simp [hij]

def woken (c : Contention α) : Nat := c.waiters.countP Waiter.isWoken

theorem woken_setStage {i : Nat} {w : Waiter α} (h : c.waiters[i]? = some w)
    (stage : WaitStage α) : (c.setStage i stage).woken + w.isWoken.toNat =
      c.woken + (Waiter.isWoken ⟨w.limited, stage⟩).toNat := by
  obtain ⟨hi, hw⟩ := List.getElem?_eq_some_iff.1 h
  have hcount : (c.setStage i stage).woken =
      c.woken - w.isWoken.toNat + (Waiter.isWoken ⟨w.limited, stage⟩).toNat := by
    rw [woken, waiters_setStage h, List.countP_set hi, hw, woken]
    cases w.isWoken <;> cases Waiter.isWoken (⟨w.limited, stage⟩ : Waiter α) <;> rfl
  have hself : w.isWoken.toNat ≤ c.woken := by
    cases hwoken : w.isWoken with
    | false => exact Nat.zero_le _
    | true => exact List.countP_pos_iff.2 ⟨w, List.mem_of_getElem? h, hwoken⟩
  omega

def AnyAsleep (c : Contention α) : Prop := ∃ w ∈ c.waiters, w.isAsleep = true

/-- Whoever else sleeps then slept before. -/
theorem anyAsleep_of_setStage {i : Nat} {w : Waiter α} {stage : WaitStage α}
    (h : c.waiters[i]? = some w) (hstage : Waiter.isAsleep (⟨w.limited, stage⟩ : Waiter α) = false)
    (hasleep : (c.setStage i stage).AnyAsleep) : c.AnyAsleep := by
  obtain ⟨v, hv, hsleeps⟩ := hasleep
  rw [waiters_setStage h] at hv
  rcases List.mem_or_eq_of_mem_set hv with hhold | rfl
  · exact ⟨v, hhold, hsleeps⟩
  · rw [hstage] at hsleeps
    cases hsleeps

/-! ## 4. Somebody is on the way -/

/-- As long as anyone sleeps, there are enough woken waiters and signals to come for the values that
are held. -/
def Covered (c : Contention α) : Prop :=
  c.AnyAsleep → c.queue.values.length ≤ c.woken + c.unsignalled

/-- Whoever goes to sleep has found the queue empty, and every value that comes later comes with a
signal. -/
theorem covered_step (h : c.Covered) (hstep : c.step? ev = some c') : c'.Covered := by
  intro hasleep
  cases move_of_step hstep with
  | push x =>
    -- An accepted value comes with a signal to come.
    have hbefore := h hasleep
    have hlength := congrArg List.length (c.queue.values_push x)
    rw [List.length_append] at hlength
    show (c.queue.push x).2.values.length ≤ c.woken + (c.unsignalled + (c.queue.push x).1.toNat)
    cases haccepted : (c.queue.push x).1 with
    | false =>
      simp only [haccepted, Bool.false_eq_true, if_false, List.length_nil] at hlength
      omega
    | true =>
      simp only [haccepted, if_true, List.length_singleton] at hlength
      rw [Bool.toNat_true]
      omega
  | idle hpending hawake =>
    obtain ⟨w, hw, hsleeps⟩ := hasleep
    have := hawake w hw
    simp [hsleeps] at this
  | @signal i limited hpending hsleeper =>
    -- The signal becomes a woken waiter.
    have hbefore := h ⟨_, List.mem_of_getElem? hsleeper, rfl⟩
    have hwoken : ({ c with unsignalled := c.unsignalled - 1 }.setStage i .woken).woken + 0 =
        c.woken + 1 := woken_setStage (c := { c with unsignalled := c.unsignalled - 1 }) hsleeper _
    show c.queue.values.length ≤ _ + (c.unsignalled - 1)
    omega
  | arrive limited =>
    -- A new waiter does not sleep yet.
    obtain ⟨w, hw, hsleeps⟩ := hasleep
    have hwoken : woken { c with waiters := c.waiters ++ [⟨limited, .arriving⟩] } = c.woken := by
      show (c.waiters ++ [_]).countP _ = c.waiters.countP _
      rw [List.countP_append]
      rfl
    rcases List.mem_append.1 hw with hhold | hnew
    · have hbefore := h ⟨w, hhold, hsleeps⟩
      show c.queue.values.length ≤ _ + c.unsignalled
      omega
    · rw [List.mem_singleton.1 hnew] at hsleeps
      cases hsleeps
  | @take ev i w x q hown hwaiter hunserved htaken =>
    -- A woken waiter that goes away takes one value with it.
    have hasleep' : ({ c with queue := q }).AnyAsleep :=
      anyAsleep_of_setStage (c := { c with queue := q }) hwaiter rfl hasleep
    have hbefore := h hasleep'
    have hwoken : ({ c with queue := q }.setStage i (.served x)).woken + w.isWoken.toNat =
        c.woken + 0 := woken_setStage (c := { c with queue := q }) hwaiter _
    have hone := Bool.toNat_le w.isWoken
    have hlength := congrArg List.length c.queue.values_take
    rw [htaken, List.length_append] at hlength
    have hrest : c.queue.values.length = 1 + q.values.length := hlength
    show q.values.length ≤ _ + c.unsignalled
    omega
  | miss hown hwaiter hunserved hnothing hnext =>
    -- Whoever finds nothing leaves nothing behind.
    have hempty := SyncQueue.values_take_of_none hnothing
    show c.queue.values.length ≤ _
    rw [hempty]
    exact Nat.zero_le _
  | @rouse i limited hsleeper =>
    have hbefore := h ⟨_, List.mem_of_getElem? hsleeper, rfl⟩
    have hwoken : (c.setStage i .woken).woken + 0 = c.woken + 1 := woken_setStage hsleeper _
    show c.queue.values.length ≤ _ + c.unsignalled
    omega
  | @expire i hsleeper =>
    have hbefore := h ⟨_, List.mem_of_getElem? hsleeper, rfl⟩
    have hwoken : (c.setStage i .expired).woken + 0 = c.woken + 1 := woken_setStage hsleeper _
    show c.queue.values.length ≤ _ + c.unsignalled
    omega
  | clear =>
    show c.queue.clear.values.length ≤ _
    rw [SyncQueue.values_clear]
    exact Nat.zero_le _

theorem covered_run {steps : List (ContentionStep α)} (h : c.Covered)
    (hrun : c.run? steps = some c') : c'.Covered :=
  run_induction (fun h hstep => covered_step h hstep) h hrun

/-! ## 5. What goes in and what comes out -/

def along {β : Type} (f : Contention α → ContentionStep α → List β) (c : Contention α) :
    List (ContentionStep α) → List β
  | [] => []
  | ev :: rest =>
    match c.step? ev with
    | some c' => f c ev ++ along f c' rest
    | none => []

theorem along_cons {β : Type} (f : Contention α → ContentionStep α → List β)
    (hstep : c.step? ev = some c') (rest : List (ContentionStep α)) :
    along f c (ev :: rest) = f c ev ++ along f c' rest := by
  rw [along, hstep]

def accepts (c : Contention α) : ContentionStep α → List α
  | .push x => if (c.queue.push x).1 then [x] else []
  | _ => []

/-- The values that leave the queue, each with the waiter that gets it; no one gets what is cleared. -/
def releases (c : Contention α) : ContentionStep α → List (α × Option Nat)
  | .look i | .lapse i => c.queue.take.1.toList.map fun x => (x, some i)
  | .clear => c.queue.values.map fun x => (x, none)
  | _ => []

theorem releases_of_own {i : Nat} (hown : ev = .look i ∨ ev = .lapse i) :
    c.releases ev = c.queue.take.1.toList.map fun x => (x, some i) := by
  rcases hown with rfl | rfl <;> rfl

theorem accepts_of_own {i : Nat} (hown : ev = .look i ∨ ev = .lapse i) : c.accepts ev = [] := by
  rcases hown with rfl | rfl <;> rfl

/-- Values come out in the order in which they went in. -/
theorem flow_step (hstep : c.step? ev = some c') :
    c.queue.values ++ c.accepts ev = (c.releases ev).map Prod.fst ++ c'.queue.values := by
  cases move_of_step hstep with
  | push x => exact (c.queue.values_push x).symm
  | take hown hwaiter hunserved htaken =>
    have hvalues := c.queue.values_take
    rw [htaken] at hvalues
    rw [releases_of_own hown, accepts_of_own hown, htaken, List.append_nil, hvalues]
    rfl
  | miss hown hwaiter hunserved hnothing hnext =>
    rw [releases_of_own hown, accepts_of_own hown, hnothing, List.append_nil]
    rfl
  | clear =>
    show c.queue.values ++ [] = (c.queue.values.map _).map _ ++ c.queue.clear.values
    rw [SyncQueue.values_clear, List.map_map]
    exact congrArg (· ++ []) (List.map_id _).symm
  | idle | signal | arrive | rouse | expire => exact List.append_nil _

/-- What a run accepts has left the queue in that order or is still there. -/
theorem flow_run {steps : List (ContentionStep α)} (hrun : c.run? steps = some c') :
    c.queue.values ++ along accepts c steps =
      (along releases c steps).map Prod.fst ++ c'.queue.values := by
  induction steps generalizing c with
  | nil =>
    cases hrun
    exact List.append_nil _
  | cons ev rest ih =>
    obtain ⟨c'', hstep, hrest⟩ := Option.bind_eq_some_iff.1 hrun
    have hfirst := flow_step hstep
    have hlater := ih hrest
    calc c.queue.values ++ along accepts c (ev :: rest)
        = (c.queue.values ++ c.accepts ev) ++ along accepts c'' rest := by
          rw [along_cons _ hstep, List.append_assoc]
      _ = (c.releases ev).map Prod.fst ++ (c''.queue.values ++ along accepts c'' rest) := by
          rw [hfirst, List.append_assoc]
      _ = (along releases c (ev :: rest)).map Prod.fst ++ c'.queue.values := by
          rw [hlater, along_cons _ hstep, List.map_append, List.append_assoc]

/-! ## 6. Who gets what -/

def result? (c : Contention α) (i : Nat) : Option α := c.waiters[i]?.bind Waiter.result?

theorem result?_setStage {i : Nat} {w : Waiter α} (h : c.waiters[i]? = some w)
    (stage : WaitStage α) (j : Nat) : (c.setStage i stage).result? j =
      if i = j then Waiter.result? ⟨w.limited, stage⟩ else c.result? j := by
  rw [result?, waiters_setStage h, List.getElem?_set]
  by_cases hij : i = j
  · subst hij
    simp [(List.getElem?_eq_some_iff.1 h).1]
  · simp [hij, result?]

/-- Nothing is returned in a step in which no value is released to a waiter. -/
theorem result?_of_stage {i : Nat} {w : Waiter α} {stage : WaitStage α}
    (h : c.waiters[i]? = some w) (hunserved : w.result? = none)
    (hstage : Waiter.result? (⟨w.limited, stage⟩ : Waiter α) = none) (j : Nat) :
    (c.setStage i stage).result? j = c.result? j := by
  rw [result?_setStage h, hstage]
  by_cases hij : i = j
  · subst hij
    rw [if_pos rfl, result?, h]
    exact hunserved.symm
  · rw [if_neg hij]

/-- A waiter has returned with a value if that has been released to it. -/
theorem result_step (hstep : c.step? ev = some c') (i : Nat) (x : α) :
    c'.result? i = some x ↔ c.result? i = some x ∨ (x, some i) ∈ c.releases ev := by
  cases move_of_step hstep with
  | push | idle => simp [releases, result?]
  | clear => simp [releases, result?]
  | signal hpending hsleeper =>
    rw [result?_of_stage (c := { c with unsignalled := c.unsignalled - 1 }) hsleeper rfl rfl]
    simp [releases, result?]
  | arrive limited =>
    have hsame : result? { c with waiters := c.waiters ++ [⟨limited, .arriving⟩] } i =
        c.result? i := by
      show (c.waiters ++ [_])[i]?.bind _ = _
      rw [List.getElem?_append, result?]
      split
      · rfl
      · rename_i hlast
        rw [List.getElem?_eq_none (Nat.not_lt.1 hlast), List.getElem?_singleton]
        split <;> rfl
    simp [hsame, releases]
  | @take ev j w y q hown hwaiter hunserved htaken =>
    -- Only this waiter gets something, and it had nothing before.
    rw [releases_of_own hown, htaken, result?_setStage (c := { c with queue := q }) hwaiter]
    by_cases hij : j = i
    · subst hij
      have hbefore : c.result? j = none := by
        rw [result?, hwaiter]
        exact hunserved
      simp [hbefore, Waiter.result?, eq_comm]
    · simp [hij, result?, Ne.symm hij]
  | @miss ev j w stage hown hwaiter hunserved hnothing hnext =>
    have hstage : Waiter.result? (⟨w.limited, stage⟩ : Waiter α) = none := by
      rcases hnext with rfl | ⟨rfl, -⟩ <;> rfl
    rw [releases_of_own hown, hnothing, result?_of_stage hwaiter hunserved hstage]
    simp
  | rouse hsleeper | expire hsleeper =>
    rw [result?_of_stage hsleeper rfl rfl]
    simp [releases]

theorem result_run {steps : List (ContentionStep α)} (hrun : c.run? steps = some c') (i : Nat)
    (x : α) : c'.result? i = some x ↔
      c.result? i = some x ∨ (x, some i) ∈ along releases c steps := by
  induction steps generalizing c with
  | nil =>
    cases hrun
    simp [along]
  | cons ev rest ih =>
    obtain ⟨c'', hstep, hrest⟩ := Option.bind_eq_some_iff.1 hrun
    rw [ih hrest, result_step hstep, along_cons _ hstep, List.mem_append, or_assoc]

def served (rs : List (α × Option Nat)) : List Nat := rs.filterMap Prod.snd

theorem mem_served_iff {rs : List (α × Option Nat)} {i : Nat} :
    i ∈ served rs ↔ ∃ x, (x, some i) ∈ rs := by
  simp [served]

/-- A value is released to a waiter that has not returned yet. -/
theorem served_step (hstep : c.step? ev = some c') :
    (served (c.releases ev)).Nodup ∧ ∀ i ∈ served (c.releases ev), c.result? i = none := by
  cases move_of_step hstep with
  | @take ev i w x q hown hwaiter hunserved htaken =>
    have hone : served (c.releases ev) = [i] := by
      rw [releases_of_own hown, htaken]
      rfl
    rw [hone]
    refine ⟨List.nodup_singleton i, fun j hj => ?_⟩
    rw [List.mem_singleton.1 hj, result?, hwaiter]
    exact hunserved
  | miss hown hwaiter hunserved hnothing hnext =>
    rw [releases_of_own hown, hnothing]
    exact ⟨List.nodup_nil, nofun⟩
  | clear =>
    have hnone : served (c.releases .clear) = [] := by
      rw [served, releases, List.filterMap_map]
      exact List.filterMap_eq_nil_iff.2 fun _ _ => rfl
    rw [hnone]
    exact ⟨List.nodup_nil, nofun⟩
  | push | idle | signal | arrive | rouse | expire => exact ⟨List.nodup_nil, nofun⟩

/-- No waiter gets more than one value. -/
theorem once_run {steps : List (ContentionStep α)} (hrun : c.run? steps = some c') :
    (served (along releases c steps)).Nodup ∧
      ∀ i ∈ served (along releases c steps), c.result? i = none := by
  induction steps generalizing c with
  | nil => exact ⟨List.nodup_nil, nofun⟩
  | cons ev rest ih =>
    obtain ⟨c'', hstep, hrest⟩ := Option.bind_eq_some_iff.1 hrun
    obtain ⟨hfirst, hnew⟩ := served_step hstep
    obtain ⟨hlater, hnewer⟩ := ih hrest
    have hsplit : served (along releases c (ev :: rest)) =
        served (c.releases ev) ++ served (along releases c'' rest) := by
      rw [along_cons _ hstep, served, List.filterMap_append]
      rfl
    rw [hsplit]
    refine ⟨List.nodup_append.2 ⟨hfirst, hlater, ?_⟩, fun i hi => ?_⟩
    · -- Whoever is served has returned, and is not served again.
      rintro i hi j hj rfl
      obtain ⟨x, hx⟩ := mem_served_iff.1 hi
      have hreturned := (result_step hstep i x).2 (.inr hx)
      rw [hnewer i hj] at hreturned
      cases hreturned
    · rcases List.mem_append.1 hi with hi | hi
      · exact hnew i hi
      · have hafter := hnewer i hi
        cases hbefore : c.result? i with
        | none => rfl
        | some x =>
          rw [(result_step hstep i x).2 (.inl hbefore)] at hafter
          cases hafter

/-- What was released to a waiter has one place in the order. -/
theorem place_unique {rs : List (α × Option Nat)} (h : (served rs).Nodup) {i k k' : Nat}
    (hk : rs[k]?.bind Prod.snd = some i) (hk' : rs[k']?.bind Prod.snd = some i) : k = k' := by
  induction rs generalizing k k' with
  | nil => cases hk
  | cons r rest ih =>
    have hrest : (served rest).Nodup := by
      rw [served, List.filterMap_cons] at h
      split at h
      · exact h
      · exact (List.nodup_cons.1 h).2
    -- Whoever is served first is not served again.
    have hhead : r.2 = some i → ∀ j : Nat, rest[j]?.bind Prod.snd ≠ some i := by
      intro hr j hj
      obtain ⟨⟨x, target⟩, hx, htarget⟩ := Option.bind_eq_some_iff.1 hj
      rw [served, List.filterMap_cons_some hr] at h
      refine (List.nodup_cons.1 h).1 (mem_served_iff.2 ⟨x, ?_⟩)
      exact htarget ▸ List.mem_of_getElem? hx
    cases k with
    | zero =>
      cases k' with
      | zero => rfl
      | succ k' => exact absurd hk' (hhead hk k')
    | succ k =>
      cases k' with
      | zero => exact absurd hk (hhead hk' k)
      | succ k' => exact congrArg Nat.succ (ih hrest hk hk')

/-! ## 7. Waits without a limit -/

def Patient (c : Contention α) : Prop :=
  ∀ w ∈ c.waiters, w.limited = false → w.stage ≠ .expired ∧ w.stage ≠ .gaveUp

theorem Patient.setStage (h : c.Patient) {i : Nat} {w : Waiter α} (hw : c.waiters[i]? = some w)
    {stage : WaitStage α} (hstage : w.limited = false → stage ≠ .expired ∧ stage ≠ .gaveUp) :
    (c.setStage i stage).Patient := by
  intro v hv hlimited
  rw [waiters_setStage hw] at hv
  rcases List.mem_or_eq_of_mem_set hv with hhold | rfl
  · exact h v hhold hlimited
  · exact hstage hlimited

/-- A waiter without a limit goes back to sleep whenever it finds nothing. -/
theorem patient_step (h : c.Patient) (hstep : c.step? ev = some c') : c'.Patient := by
  cases move_of_step hstep with
  | push | idle | clear => exact h
  | signal hpending hsleeper =>
    exact Patient.setStage (c := { c with unsignalled := c.unsignalled - 1 }) h hsleeper
      fun _ => ⟨nofun, nofun⟩
  | arrive limited =>
    intro w hw hlimited
    rcases List.mem_append.1 hw with hhold | hnew
    · exact h w hhold hlimited
    · rw [List.mem_singleton.1 hnew]
      exact ⟨nofun, nofun⟩
  | @take ev i w x q hown hwaiter hunserved htaken =>
    exact Patient.setStage (c := { c with queue := q }) h hwaiter fun _ => ⟨nofun, nofun⟩
  | @miss ev i w stage hown hwaiter hunserved hnothing hnext =>
    refine h.setStage hwaiter fun hlimited => ?_
    rcases hnext with rfl | ⟨-, hlimit | hexpired⟩
    · exact ⟨nofun, nofun⟩
    · rw [hlimited] at hlimit
      cases hlimit
    · exact absurd hexpired (h w (List.mem_of_getElem? hwaiter) hlimited).1
  | rouse hsleeper => exact h.setStage hsleeper fun _ => ⟨nofun, nofun⟩
  | expire hsleeper => exact h.setStage hsleeper nofun

/-- What has left is what was accepted, place by place. -/
theorem getElem?_flow {rs : List (α × Option Nat)} {k : Nat} {r : α × Option Nat}
    (hk : rs[k]? = some r) (held : List α) : (rs.map Prod.fst ++ held)[k]? = some r.1 := by
  have hlt : k < (rs.map Prod.fst).length := by
    rw [List.length_map]
    exact (List.getElem?_eq_some_iff.1 hk).1
  rw [List.getElem?_append_left hlt, List.getElem?_map, hk, Option.map_some]

/-! ## 8. The whole -/

/-- What is promised of a queue that has come from `start` to `c`. -/
structure Delivers (start : Contention α) (steps : List (ContentionStep α)) (c : Contention α) :
    Prop where
  /-- As long as anyone sleeps, there are enough woken waiters and signals to come. -/
  covered : (∃ w ∈ c.waiters, w.isAsleep = true) →
    c.queue.length ≤ c.waiters.countP Waiter.isWoken + c.unsignalled
  /-- Nobody sleeps beside a value without someone on the way. -/
  underWay : c.queue.isEmpty = false → (∃ w ∈ c.waiters, w.isAsleep = true) →
    (∃ w ∈ c.waiters, w.isWoken = true) ∨ 0 < c.unsignalled
  /-- What was accepted has left in that order or is still there. -/
  inOrder : along accepts start steps =
    (along releases start steps).map Prod.fst ++ c.queue.ring.toList
  /-- A waiter returns with a value exactly if that was accepted and has left for this waiter, and
  nothing else has. -/
  returned : ∀ (i : Nat) (x : α), (c.waiters[i]?.bind Waiter.result? = some x ↔
    ∃ k : Nat, (along accepts start steps)[k]? = some x ∧
      ∀ k' : Nat, ((along releases start steps)[k']?.bind Prod.snd = some i ↔ k' = k))
  /-- A wait without a limit does not return without a value. -/
  patient : ∀ w ∈ c.waiters, w.limited = false → w.stage ≠ .gaveUp

/-- However pushes, waits and clears of any number of threads interleave, a new queue leaves no value
behind while waiters sleep, and delivers what it has accepted in order and once. -/
theorem delivers [Inhabited α] {n : Nat} {steps : List (ContentionStep α)} {c : Contention α}
    (hrun : (quiet (SyncQueue.withSlots n)).run? steps = some c) :
    Delivers (quiet (SyncQueue.withSlots n)) steps c := by
  have hcovered : c.Covered := covered_run (fun ⟨w, hw, _⟩ => absurd hw List.not_mem_nil) hrun
  have hflow := flow_run hrun
  have hempty : (quiet (SyncQueue.withSlots n : SyncQueue α)).queue.values = [] :=
    Ring.toList_withSlots n
  rw [hempty, List.nil_append] at hflow
  constructor
  case covered =>
    rw [SyncQueue.length_eq]
    exact hcovered
  case underWay =>
    intro hsome hasleep
    have hbound := hcovered hasleep
    have hpos : 0 < c.queue.values.length := by
      rw [List.length_pos_iff]
      intro hnil
      have hnone : c.queue.isEmpty = true := (Ring.isEmpty_iff c.queue.ring).2 hnil
      rw [hnone] at hsome
      cases hsome
    -- Without a signal to come the woken waiters alone cover the values.
    rcases Nat.eq_zero_or_pos c.unsignalled with hnone | hpending
    · rw [hnone, Nat.add_zero] at hbound
      exact .inl (List.countP_pos_iff.1 (Nat.lt_of_lt_of_le hpos hbound))
    · exact .inr hpending
  case inOrder => exact hflow
  case returned =>
    intro i x
    have hresult : c.result? i = some x ↔
        (x, some i) ∈ along releases (quiet (SyncQueue.withSlots n)) steps := by
      rw [result_run hrun]
      simp [quiet, result?]
    -- The place of a value in the order tells who gets it.
    have honce := (once_run hrun).1
    show c.result? i = some x ↔ _
    rw [hresult, hflow]
    constructor
    · intro hmem
      obtain ⟨k, hk⟩ := List.mem_iff_getElem?.1 hmem
      refine ⟨k, getElem?_flow hk _, fun k' => ⟨fun hk' => ?_, ?_⟩⟩
      · exact place_unique honce hk' (hk ▸ rfl)
      · rintro rfl
        exact hk ▸ rfl
    · rintro ⟨k, hvalue, hplace⟩
      obtain ⟨⟨y, target⟩, hk, htarget⟩ := Option.bind_eq_some_iff.1 ((hplace k).2 rfl)
      rw [getElem?_flow hk, Option.some.injEq] at hvalue
      dsimp only at hvalue htarget
      subst hvalue htarget
      exact List.mem_of_getElem? hk
  case patient =>
    have hpatient : c.Patient := run_induction (fun h hstep => patient_step h hstep)
      (fun w hw => absurd hw List.not_mem_nil) hrun
    exact fun w hw hlimited => (hpatient w hw hlimited).2

/-- Two waiters sleep and two values are pushed.  The first signal wakes one of them, but a newcomer
takes the lock before it. -/
def overtaken : List (ContentionStep Nat) :=
  [.arrive false, .look 0, .arrive true, .look 1, .push 7, .push 8, .signal (some 0), .arrive true,
    .look 2]

/-- The newcomer gets the first value.  One waiter still sleeps, one is on its way to the value that
is left, and there is a signal to come. -/
theorem delivers_to_newcomer :
    ∃ c, (quiet (SyncQueue.withSlots 4)).run? overtaken = some c ∧ c.queue.length = 1 ∧
      (∃ w ∈ c.waiters, w.isAsleep = true) ∧
      c.queue.length ≤ c.waiters.countP Waiter.isWoken + c.unsignalled ∧
      ∃ k : Nat, (along accepts (quiet (SyncQueue.withSlots 4)) overtaken)[k]? = some 7 ∧
        (along releases (quiet (SyncQueue.withSlots 4)) overtaken)[k]?.bind Prod.snd = some 2 := by
  have hruns : ∃ c, (quiet (SyncQueue.withSlots 4)).run? overtaken = some c ∧ c.queue.length = 1 ∧
      (∃ w ∈ c.waiters, w.isAsleep = true) ∧ c.waiters[2]?.bind Waiter.result? = some 7 :=
    ⟨_, rfl, rfl, ⟨_, List.mem_cons_of_mem _ List.mem_cons_self, rfl⟩, rfl⟩
  obtain ⟨c, hrun, hlength, hasleep, hresult⟩ := hruns
  have hdelivers := delivers hrun
  obtain ⟨k, hk, hplace⟩ := (hdelivers.returned 2 7).1 hresult
  exact ⟨c, hrun, hlength, hasleep, hdelivers.covered hasleep, k, hk, (hplace k).2 rfl⟩

end Contention

end Cadence
