import Cadence.Proofs.RunLoop.Frame
import Cadence.RunLoop.Fleet
import Mathlib.Data.List.Forall2

/-!
# What is written to the log

Loops write to their logs and never read them, so two fleets that are alike but for what has been
written give the same answers for ever (`alike_run`).
-/

namespace Cadence

variable {α σ : Type}

def AnsweredAlike {A X : Type} (R : X → X → Prop) (x y : Option (A × X)) : Prop :=
  Option.Rel (fun p q => q.1 = p.1 ∧ R p.2 q.2) x y

section

variable {A B X Y : Type} {R : X → X → Prop} {S : Y → Y → Prop} {x y : Option (A × X)}

/-- What is made of answers and of states that are alike is alike. -/
theorem AnsweredAlike.bind (h : AnsweredAlike R x y) {f g : A × X → Option (B × Y)}
    (hfg : ∀ a p q, R p q → AnsweredAlike S (f (a, p)) (g (a, q))) :
    AnsweredAlike S (x.bind f) (y.bind g) := by
  cases h with
  | none => exact .none
  | @some p q hpq =>
    obtain ⟨a, p⟩ := p
    obtain ⟨b, q⟩ := q
    obtain ⟨rfl, hR⟩ := hpq
    exact hfg b p q hR

theorem AnsweredAlike.map (h : AnsweredAlike R x y) {f g : A × X → B × Y}
    (hfg : ∀ a p q, R p q → (g (a, q)).1 = (f (a, p)).1 ∧ S (f (a, p)).2 (g (a, q)).2) :
    AnsweredAlike S (x.map f) (y.map g) := by
  rw [Option.map_eq_bind, Option.map_eq_bind]
  exact h.bind fun a p q hR => .some (hfg a p q hR)

end

namespace RunLoop

/-- Two loops are the same but for what has been written to their logs. -/
def Alike (l l' : RunLoop α) : Prop := ∃ log, l' = { l with log := log }

theorem Alike.refl (l : RunLoop α) : Alike l l := ⟨l.log, rfl⟩

theorem dismiss_relog (l : RunLoop α) (log : List Notice) (h : Handle) :
    dismiss { l with log := log } h =
      (l.dismiss h).map fun removed => (removed.1, { removed.2 with log := log }) := by
  unfold dismiss
  dsimp only
  split
  · cases l.roster.remove h.ticket <;> rfl
  · rfl

theorem alike_note (l : RunLoop α) (n : Notice) : Alike l (l.note n) := ⟨_, rfl⟩

section

variable {l l' : RunLoop α} (h : Alike l l')

include h

/-! ## 1. The functions of a loop -/

theorem Alike.place : l'.place = l.place := by
  obtain ⟨log, rfl⟩ := h
  rfl

theorem Alike.control : l'.control = l.control := by
  obtain ⟨log, rfl⟩ := h
  rfl

theorem Alike.unclaimed : l'.unclaimed = l.unclaimed := by
  obtain ⟨log, rfl⟩ := h
  rfl

/-- What leaves the log alone does the same to both. -/
theorem Alike.map {f : RunLoop α → RunLoop α}
    (hf : ∀ l log, f { l with log := log } = { f l with log := log }) : Alike (f l) (f l') := by
  obtain ⟨log, rfl⟩ := h
  exact ⟨log, hf l log⟩

theorem Alike.rouse : Alike l.rouse l'.rouse := by
  obtain ⟨log, rfl⟩ := h
  unfold RunLoop.rouse
  dsimp only
  split <;> exact ⟨_, rfl⟩

theorem Alike.moveTo (target : LoopState) (refusal : Failure → Notice) :
    Alike (l.moveTo target refusal) (l'.moveTo target refusal) := by
  obtain ⟨log, rfl⟩ := h
  unfold RunLoop.moveTo
  dsimp only
  split <;> exact ⟨_, rfl⟩

theorem Alike.askToStop : Alike l.askToStop l'.askToStop := by
  have hstop := h.map (f := fun l => { l with control := { l.control with stop := true } })
    fun _ _ => rfl
  exact (hstop.moveTo _ _).rouse

theorem Alike.requestStop : Alike l.requestStop l'.requestStop := by
  rw [RunLoop.requestStop, RunLoop.requestStop, h.unclaimed]
  split
  · have hclaim := h.map (f := RunLoop.claim) fun _ _ => rfl
    exact hclaim.askToStop
  · exact h

theorem Alike.comeUp : Alike l.comeUp l'.comeUp := by
  obtain ⟨log, rfl⟩ := h
  unfold RunLoop.comeUp
  dsimp only
  split <;> exact ⟨_, rfl⟩

theorem Alike.sleepOrProceed (now : Timestamp) :
    Alike (l.sleepOrProceed now) (l'.sleepOrProceed now) := by
  obtain ⟨log, rfl⟩ := h
  unfold RunLoop.sleepOrProceed RunLoop.deadline
  dsimp only
  split <;> exact ⟨_, rfl⟩

theorem Alike.proceed : Alike l.proceed l'.proceed := by
  rw [RunLoop.proceed, RunLoop.proceed, h.control]
  split
  · have hmoved := h.moveTo .stopped .exitRefused
    exact hmoved.map (f := fun l => { l with place := .emptying }) fun _ _ => rfl
  · obtain ⟨log, rfl⟩ := h
    exact ⟨log, rfl⟩

theorem Alike.complete : Alike l.complete l'.complete := by
  obtain ⟨log, rfl⟩ := h
  unfold RunLoop.complete RunLoop.state
  dsimp only
  split <;> exact ⟨_, rfl⟩

theorem Alike.conclude :
    l'.conclude.1 = l.conclude.1 ∧ Alike l.conclude.2 l'.conclude.2 := by
  obtain ⟨log, rfl⟩ := h
  unfold RunLoop.conclude
  dsimp only
  split <;> exact ⟨rfl, _, rfl⟩

/-- A tick does not look at the log. -/
theorem Alike.tick (s : Surroundings α σ) (world : σ) :
    (l'.tick s world).2.2 = (l.tick s world).2.2 ∧
      Alike (l.tick s world).2.1 (l'.tick s world).2.1 := by
  obtain ⟨log, rfl⟩ := h
  unfold RunLoop.tick
  dsimp only
  generalize l.roster.tick s.invoke ((s.now world).since l.lastWake) world = t
  -- A callback may have asked both to stop.
  let ticked := { l with roster := t.roster, lastWake := s.now world }
  let ticked' := { ticked with log := log }
  have hasked : Alike (if t.stopAsked then ticked.requestStop else ticked)
      (if t.stopAsked then ticked'.requestStop else ticked') := by
    have halike : Alike ticked ticked' := ⟨log, rfl⟩
    split
    · exact halike.requestStop
    · exact halike
  split
  · exact ⟨rfl, hasked.map (f := fun l => { l with place := .broken }) fun _ _ => rfl⟩
  · exact ⟨rfl, hasked.map (f := fun asked => { asked with
      metrics := l.metrics.map _, interval := _, place := .returning }) fun _ _ => rfl⟩

theorem Alike.submit (hertz : Float) (e : Entry α) :
    (l'.submit hertz e).1 = (l.submit hertz e).1 ∧
      Alike (l.submit hertz e).2 (l'.submit hertz e).2 := by
  obtain ⟨log, rfl⟩ := h
  unfold RunLoop.submit
  split
  · have henrolled : Alike (l.enroll e).2.flagRescan (enroll { l with log := log } e).2.flagRescan :=
      ⟨log, rfl⟩
    exact ⟨rfl, henrolled.rouse⟩
  · exact ⟨rfl, _, rfl⟩

theorem Alike.unregister (h' : Handle) :
    (l'.unregister h').1 = (l.unregister h').1 ∧
      Alike (l.unregister h').2 (l'.unregister h').2 := by
  obtain ⟨log, rfl⟩ := h
  unfold RunLoop.unregister
  rw [dismiss_relog]
  cases l.dismiss h' with
  | none => exact ⟨rfl, _, rfl⟩
  | some removed =>
    have hflagged : Alike removed.2.flagRescan (flagRescan { removed.2 with log := log }) :=
      ⟨log, rfl⟩
    exact ⟨rfl, hflagged.rouse⟩

end

theorem alike_submit {l : RunLoop α} {hertz : Float} {e : Entry α}
    (h : (Answer.registered (l.submit hertz e).1 : Answer α).isRefusal = true) :
    Alike l (l.submit hertz e).2 := by
  rcases l.submit_cases hertz e with ⟨-, hsubmit⟩ | ⟨-, hsubmit⟩ <;> rw [hsubmit] at h ⊢
  · cases h
  · exact alike_note l _

theorem alike_unregister {l : RunLoop α} {h' : Handle}
    (h : (Answer.unregistered (l.unregister h').1).isRefusal = true) :
    l.dismiss h' = none ∧ Alike l (l.unregister h').2 := by
  rcases l.unregister_cases h' with ⟨e, r, -, -, hcall⟩ | ⟨hdismiss, hcall⟩ <;> rw [hcall] at h ⊢
  · cases h
  · exact ⟨hdismiss, alike_note l _⟩

end RunLoop

namespace Interleaving

def Alike (c c' : Interleaving α σ) : Prop := ∃ l, c.loop.Alike l ∧ c' = { c with loop := l }

variable {c c' : Interleaving α σ}

theorem Alike.refl (c : Interleaving α σ) : Alike c c := ⟨c.loop, .refl _, rfl⟩

/-! ## 2. Steps and calls -/

section

variable (h : c.Alike c')

include h

/-- No step of the thread looks at the log. -/
theorem alike_advance (s : RunLoop.Surroundings α σ) :
    Option.Rel Alike (c.advance? s) (c'.advance? s) := by
  obtain ⟨l, hloop, rfl⟩ := h
  have hgoes : ∀ {x y : RunLoop α}, x.Alike y →
      Option.Rel Alike (some { c with loop := x }) (some { c with loop := y }) :=
    fun hxy => .some ⟨_, hxy, rfl⟩
  have hplace := hloop.place
  simp only [advance?, hplace]
  cases c.loop.place with
  | starting => exact hgoes hloop.comeUp
  | returning => exact hgoes (hloop.map (f := RunLoop.relock) fun _ _ => rfl)
  | deciding => exact hgoes (hloop.sleepOrProceed _)
  | asleep => exact .none
  | roused => exact hgoes (hloop.map (f := RunLoop.awaken) fun _ _ => rfl)
  | proceeding => exact hgoes hloop.proceed
  | ticking =>
    obtain ⟨hworld, hticked⟩ := hloop.tick s c.world
    refine .some ⟨_, hticked, ?_⟩
    simp only [hworld]
  | emptying => exact hgoes (hloop.map (f := RunLoop.leave) fun _ _ => rfl)
  | gone => exact .none
  | broken => exact .none

theorem alike_resume (i : Nat) : Option.Rel Alike (c.resume? i) (c'.resume? i) := by
  obtain ⟨l, hloop, rfl⟩ := h
  have hplace := hloop.place
  simp only [resume?, hplace]
  split
  · split
    · exact .none
    · exact .some ⟨_, hloop.askToStop, rfl⟩
  · split
    · exact .some ⟨_, hloop.complete, rfl⟩
    · exact .none
  · obtain ⟨hresult, hconcluded⟩ := hloop.conclude
    refine .some ⟨_, hconcluded, ?_⟩
    simp only [hresult]
  · exact .none

/-- No step of any thread looks at the log. -/
theorem alike_step (s : RunLoop.Surroundings α σ) (ev : LoopEvent α σ) :
    Option.Rel Alike (c.step? s ev) (c'.step? s ev) := by
  -- Each step branches on what the two loops have in common.
  cases ev with
  | advance => exact alike_advance h s
  | resume i => exact alike_resume h i
  | wake =>
    obtain ⟨l, hloop, rfl⟩ := h
    have hplace := hloop.place
    simp only [step?, hplace]
    split
    · exact .some ⟨_, hloop.rouse, rfl⟩
    · exact .none
  | elapse world =>
    obtain ⟨l, hloop, rfl⟩ := h
    exact .some ⟨_, hloop, rfl⟩
  | enroll e =>
    obtain ⟨l, hloop, rfl⟩ := h
    exact .some ⟨_, hloop.map (f := fun l => (l.enroll e).2) fun _ _ => rfl, rfl⟩
  | dismiss h' =>
    obtain ⟨l, ⟨log, rfl⟩, rfl⟩ := h
    simp only [step?, RunLoop.dismiss_relog]
    cases c.loop.dismiss h' with
    | none => exact .some ⟨_, ⟨_, rfl⟩, rfl⟩
    | some removed => exact .some ⟨_, ⟨_, rfl⟩, rfl⟩
  | flag =>
    obtain ⟨l, hloop, rfl⟩ := h
    have hplace := hloop.place
    simp only [step?, hplace]
    split
    · exact .none
    · exact .some ⟨_, hloop.map (f := RunLoop.flagRescan) fun _ _ => rfl, rfl⟩
  | rouse =>
    obtain ⟨l, hloop, rfl⟩ := h
    simp only [step?]
    split
    · exact .none
    · exact .some ⟨_, hloop.rouse, rfl⟩
  | stop =>
    obtain ⟨l, hloop, rfl⟩ := h
    have hunclaimed := hloop.unclaimed
    simp only [step?, hunclaimed]
    split
    · exact .some ⟨_, hloop.map (f := RunLoop.claim) fun _ _ => rfl, rfl⟩
    · exact .some ⟨_, hloop, rfl⟩

theorem alike_answerTo (ev : LoopEvent α σ) : c'.answerTo ev = c.answerTo ev := by
  obtain ⟨l, hloop, rfl⟩ := h
  cases ev with
  | enroll e =>
    obtain ⟨log, rfl⟩ := hloop
    rfl
  | dismiss h' => exact congrArg Answer.unregistered (hloop.unregister h').1
  | _ => rfl

/-- A call is answered alike whatever has been logged. -/
theorem alike_call (s : RunLoop.Surroundings α σ) (call : LoopCall α σ) :
    AnsweredAlike Alike (c.call? s call) (c'.call? s call) := by
  have hwhole : ∀ {a b : Answer α} {x y : RunLoop α}, b = a → x.Alike y →
      AnsweredAlike Alike (some (a, { c with loop := x })) (some (b, { c with loop := y })) :=
    fun hab hxy => .some ⟨hab, _, hxy, rfl⟩
  cases call with
  | registerAfter hertz delay callback =>
    obtain ⟨l, hloop, rfl⟩ := h
    obtain ⟨hsame, halike⟩ := hloop.submit hertz (RunLoop.entry hertz delay.toMicros callback)
    exact hwhole (congrArg Answer.registered hsame) halike
  | register hertz random callback =>
    obtain ⟨l, hloop, rfl⟩ := h
    obtain ⟨hsame, halike⟩ := hloop.submit hertz
      (RunLoop.entry hertz (random % Frequency.period hertz) callback)
    exact hwhole (congrArg Answer.registered hsame) halike
  | unregister h' =>
    obtain ⟨l, hloop, rfl⟩ := h
    obtain ⟨hsame, halike⟩ := hloop.unregister h'
    exact hwhole (congrArg Answer.unregistered hsame) halike
  | step ev =>
    have hstep := alike_step h s ev
    simp only [call?, alike_answerTo h]
    generalize c.step? s ev = x at hstep
    generalize c'.step? s ev = y at hstep
    cases hstep with
    | none => exact .none
    | some halike => exact .some ⟨rfl, halike⟩

end

/-- A call that is refused does nothing but to note that. -/
theorem alike_of_refusal {s : RunLoop.Surroundings α σ} {call : LoopCall α σ} {answer : Answer α}
    (h : c.call? s call = some (answer, c')) (hrefusal : answer.isRefusal = true) : c.Alike c' := by
  cases call with
  | registerAfter hertz delay callback =>
    cases h
    exact ⟨_, RunLoop.alike_submit hrefusal, rfl⟩
  | register hertz random callback =>
    cases h
    exact ⟨_, RunLoop.alike_submit hrefusal, rfl⟩
  | unregister h' =>
    cases h
    exact ⟨_, (RunLoop.alike_unregister hrefusal).2, rfl⟩
  | step ev =>
    obtain ⟨c'', hstep, hanswer⟩ := Option.map_eq_some_iff.1 h
    cases hanswer
    cases ev with
    | dismiss h' =>
      have hdismiss := (RunLoop.alike_unregister hrefusal).1
      rw [step?, hdismiss] at hstep
      cases hstep
      exact ⟨_, RunLoop.alike_note c.loop .unknownHandle, rfl⟩
    | _ => cases hrefusal

end Interleaving

/-! ## 3. Fleets -/

section

variable {β : Type} {R : β → β → Prop} {xs ys : List β} (h : List.Forall₂ R xs ys)

include h

theorem forall₂_getElem? (i : Nat) : Option.Rel R xs[i]? ys[i]? := by
  induction h generalizing i with
  | nil => exact .none
  | cons hfirst _ ih =>
    cases i with
    | zero => exact .some hfirst
    | succ i => exact ih i

theorem forall₂_set {x y : β} (hxy : R x y) (i : Nat) : List.Forall₂ R (xs.set i x) (ys.set i y) := by
  induction h generalizing i with
  | nil => exact .nil
  | cons hfirst hrest ih =>
    cases i with
    | zero => exact .cons hxy hrest
    | succ i => exact .cons hfirst (ih i)

end

namespace Fleet

def Alike (f f' : Fleet α σ) : Prop := List.Forall₂ Interleaving.Alike f f'

theorem Alike.refl (f : Fleet α σ) : f.Alike f :=
  List.forall₂_same.2 fun c _ => .refl c

theorem alike_step {f f' : Fleet α σ} (h : f.Alike f') (s : RunLoop.Surroundings α σ)
    (ev : FleetEvent α σ) : AnsweredAlike Alike (f.step? s ev) (f'.step? s ev) := by
  cases ev with
  | spawn o now world =>
    have hlength : f.length = f'.length := List.Forall₂.length_eq h
    refine .some ⟨rfl, List.rel_append h (.cons ?_ .nil)⟩
    rw [hlength]
    exact .refl _
  | «at» i call =>
    have hloop := forall₂_getElem? h i
    simp only [step?]
    generalize f[i]? = x at hloop
    generalize f'[i]? = y at hloop
    cases hloop with
    | none => exact .none
    | some halike =>
      apply (Interleaving.alike_call halike s call).map
      exact fun answer c c' hc => ⟨rfl, forall₂_set h hc i⟩

/-- Fleets that are alike go on giving the same answers. -/
theorem alike_run {f f' : Fleet α σ} (h : f.Alike f') (s : RunLoop.Surroundings α σ)
    (events : List (FleetEvent α σ)) : AnsweredAlike Alike (f.run? s events) (f'.run? s events) := by
  induction events generalizing f f' with
  | nil => exact .some ⟨rfl, h⟩
  | cons ev rest ih =>
    apply (alike_step h s ev).bind
    intro answer g g' hg
    exact (ih hg).map fun answers last last' hlast => ⟨rfl, hlast⟩

end Fleet

end Cadence
