import Cadence.Proofs.Roster.Posts
import Cadence.Proofs.RunLoop.Moves
import Cadence.RunLoop.Fleet

/-!
# Calls and slots

Callbacks carry the number of their registration here, and worlds note the numbers of the callbacks that
run; neither changes what a loop does.  `Change` lists what a call can do to the slots of its loop
(`change_call`): it fills one of them, vacates one, vacates all, or leaves them alone.
-/

namespace Cadence

variable {α σ : Type}

/-! ## 1. Numbered callbacks -/

def RunLoop.Surroundings.noting (s : RunLoop.Surroundings α σ) :
    RunLoop.Surroundings (α × Nat) (σ × List Nat) where
  invoke seconds a w :=
    let did := s.invoke seconds a.1 w.1
    ⟨(did.callback, a.2), (did.world, w.2 ++ [a.2]), did.asksStop, did.breaksDown⟩
  now w := s.now w.1

def LoopEvent.number (n : Nat) (log : List Nat) :
    LoopEvent α σ → LoopEvent (α × Nat) (σ × List Nat)
  | .advance => .advance
  | .wake => .wake
  | .elapse world => .elapse (world, log)
  | .enroll e => .enroll ⟨(e.callback, n), e.period, e.countdown, e.period_pos⟩
  | .dismiss h => .dismiss h
  | .flag => .flag
  | .rouse => .rouse
  | .stop => .stop
  | .resume call => .resume call

def LoopCall.number (n : Nat) (log : List Nat) : LoopCall α σ → LoopCall (α × Nat) (σ × List Nat)
  | .registerAfter hertz delay callback => .registerAfter hertz delay (callback, n)
  | .register hertz random callback => .register hertz random (callback, n)
  | .unregister h => .unregister h
  | .step ev => .step (ev.number n log)

theorem noting_noting (s : RunLoop.Surroundings α σ) (seconds : Float) :
    Roster.Noting (s.noting.invoke seconds) :=
  fun _ _ => ⟨rfl, rfl⟩

/-! ## 2. What a call does to the posts of its loop -/

/-- What a call does to the posts of the loop with that id, if a registration gets the number `n`. -/
inductive Change (α : Type) (id n : Nat) (post : Nat → Option (UInt32 × Option Nat)) :
    Answer (α × Nat) → (Nat → Option (UInt32 × Option Nat)) → Prop
  | kept : Change α id n post .done post
  | refused {answer : Answer (α × Nat)} (refusal : answer.isRefusal = true) :
    Change α id n post answer post
  | registered {j : Nat} {g : UInt32} (vacant : Roster.Vacant (post j) g) :
    Change α id n post (.registered (.ok ⟨id, j, g⟩)) (Function.update post j (some (g, some n)))
  | removed {j : Nat} {g : UInt32} {e : Entry (α × Nat)}
    (held : post j = some (g, some e.callback.2)) :
    Change α id n post (.unregistered (.ok e)) (Function.update post j (some (g + 1, none)))
  | emptied : Change α id n post .done fun j => (post j).map Roster.vacated

theorem change_of_roster {id n : Nat} {r r' : Roster (α × Nat)} (h : r' = r) :
    Change α id n r.post .done r'.post := by
  rw [h]
  exact .kept

theorem change_clear (id n : Nat) (r : Roster (α × Nat)) : Change α id n r.post .done r.clear.post := by
  have hpost : r.clear.post = fun j => (r.post j).map Roster.vacated := funext r.post_clear
  rw [hpost]
  exact .emptied

/-- A tick moves no entry to another slot. -/
theorem RunLoop.unmoved_tick (s : RunLoop.Surroundings α σ) (l : RunLoop (α × Nat))
    (world : σ × List Nat) :
    (l.tick s.noting world).2.1.roster.post = l.roster.post ∧
      ∀ n, (∀ j g, l.roster.post j ≠ some (g, some n)) →
        (l.tick s.noting world).2.2.2.count n = world.2.count n := by
  obtain ⟨hroster, -, -, hworld⟩ := RunLoop.tick_eq s.noting l world
  rw [hroster, hworld]
  have hmoved := Roster.unmoved_tick (noting_noting s) l.roster
    ((s.noting.now world).since l.lastWake) world
  exact ⟨hmoved.post, hmoved.idle⟩

namespace Interleaving

variable {s : RunLoop.Surroundings α σ} {n : Nat} {log : List Nat}
  {c c' : Interleaving (α × Nat) (σ × List Nat)}

theorem change_enroll {l : RunLoop (α × Nat)} (hholds : ∃ ms, l.roster.Holds ms)
    (e : Entry (α × Nat)) :
    Change α l.id e.callback.2 l.roster.post (.registered (.ok (l.enroll e).1))
      (l.enroll e).2.roster.post := by
  obtain ⟨ms, hms⟩ := hholds
  obtain ⟨hvacant, hpost⟩ := hms.post_insert e
  show Change _ _ _ _ _ (l.roster.insert e).2.post
  rw [hpost]
  exact .registered hvacant

theorem change_submit {l : RunLoop (α × Nat)} (hholds : ∃ ms, l.roster.Holds ms) (hertz : Float)
    (e : Entry (α × Nat)) :
    Change α l.id e.callback.2 l.roster.post (.registered (l.submit hertz e).1)
      (l.submit hertz e).2.roster.post := by
  rcases l.submit_cases hertz e with ⟨-, hsubmit⟩ | ⟨-, hsubmit⟩
  · rw [hsubmit, RunLoop.roster_rouse]
    exact change_enroll hholds e
  · rw [hsubmit]
    exact .refused rfl

theorem change_unregister (l : RunLoop (α × Nat)) (h : Handle) :
    Change α l.id n l.roster.post (.unregistered (l.unregister h).1) (l.unregister h).2.roster.post := by
  rcases l.unregister_cases h with ⟨e, r, -, hremove, hcall⟩ | ⟨-, hcall⟩
  · obtain ⟨hheld, hpost⟩ := Roster.post_remove hremove
    rw [hcall, RunLoop.roster_rouse]
    show Change _ _ _ _ _ r.post
    rw [hpost]
    exact .removed hheld
  · rw [hcall]
    exact .refused rfl

/-- What the thread does to the entries on its own is to drop all of them. -/
theorem change_advance (h : c.advance? s.noting = some c') :
    Change α c.loop.id n c.loop.roster.post .done c'.loop.roster.post := by
  cases move_of_advance h with
  | comeUp hplace => exact change_of_roster (RunLoop.keeps_comeUp hplace).roster
  | relock hplace => exact change_of_roster (RunLoop.keeps_relock hplace).roster
  | decide hplace => exact change_of_roster (RunLoop.keeps_sleepOrProceed hplace _).roster
  | awaken hplace => exact change_of_roster (RunLoop.keeps_awaken hplace).roster
  | proceed hplace => exact change_of_roster (RunLoop.keeps_proceed hplace).roster
  | tick hplace =>
    have hmoved := RunLoop.unmoved_tick s c.loop c.world
    exact hmoved.1 ▸ .kept
  | leave hplace => exact change_clear _ _ _

/-- Apart from registrations and removals, what others do is to drop all entries in the end. -/
theorem change_step {ev : LoopEvent α σ} (hholds : ∃ ms, c.loop.roster.Holds ms)
    (h : c.step? s.noting (ev.number n log) = some c') :
    Change α c.loop.id n c.loop.roster.post (c.answerTo (ev.number n log)) c'.loop.roster.post := by
  cases ev with
  | advance => exact change_advance h
  | wake =>
    cases move_of_step h with
    | wake hplace => exact change_of_roster (RunLoop.keeps_rouse _).roster
  | elapse world =>
    cases h
    exact .kept
  | enroll e =>
    cases h
    exact change_enroll hholds ⟨(e.callback, n), e.period, e.countdown, e.period_pos⟩
  | dismiss h' =>
    -- The entries are the same as when the call is taken as a whole.
    have hroster : c'.loop.roster = (c.loop.unregister h').2.roster := by
      rw [LoopEvent.number, step?] at h
      rw [RunLoop.unregister]
      cases hdismiss : c.loop.dismiss h' with
      | none =>
        rw [hdismiss] at h
        cases h
        rfl
      | some removed =>
        rw [hdismiss] at h
        cases h
        exact (RunLoop.roster_rouse removed.2.flagRescan).symm
    rw [hroster]
    exact change_unregister c.loop h'
  | flag =>
    cases move_of_step h with
    | flag hsome hfree => exact .kept
  | rouse =>
    cases move_of_step h with
    | rouse hsome => exact change_of_roster (RunLoop.keeps_rouse _).roster
  | stop =>
    cases move_of_step h with
    | claim hfirst => exact .kept
    | late hclaimed => exact .kept
  | resume call =>
    cases move_of_step h with
    | ask hcall hfree => exact change_of_roster (RunLoop.keeps_askToStop _).roster
    | complete hcall hended => exact change_of_roster (RunLoop.keeps_complete _).roster
    | conclude hcall =>
      have hroster := (RunLoop.keeps_conclude c.loop).roster
      show Change _ _ _ _ _ c.loop.conclude.2.roster.post
      rw [hroster]
      exact change_clear _ _ _

/-- What one call does to the slots of a loop. -/
theorem change_call {call : LoopCall α σ} {answer : Answer (α × Nat)}
    (hholds : ∃ ms, c.loop.roster.Holds ms)
    (h : c.call? s.noting (call.number n log) = some (answer, c')) :
    Change α c.loop.id n c.loop.roster.post answer c'.loop.roster.post := by
  cases call with
  | registerAfter hertz delay callback =>
    cases h
    exact change_submit hholds hertz (RunLoop.entry hertz delay.toMicros (callback, n))
  | register hertz random callback =>
    cases h
    exact change_submit hholds hertz
      (RunLoop.entry hertz (random % Frequency.period hertz) (callback, n))
  | unregister h' =>
    cases h
    exact change_unregister c.loop h'
  | step ev =>
    obtain ⟨c'', hstep, hanswer⟩ := Option.map_eq_some_iff.1 h
    cases hanswer
    exact change_step hholds hstep

theorem keeps_submit {l : RunLoop α} (hholds : ∃ ms, l.roster.Holds ms) (hertz : Float)
    (e : Entry α) :
    (l.submit hertz e).2.id = l.id ∧ ∃ ms, (l.submit hertz e).2.roster.Holds ms := by
  rcases l.submit_cases hertz e with ⟨-, hsubmit⟩ | ⟨-, hsubmit⟩
  · obtain ⟨ms, hms⟩ := hholds
    rw [hsubmit, (RunLoop.identity_rouse _).1, RunLoop.roster_rouse]
    exact ⟨rfl, _, (Roster.holds_insert hms e).2⟩
  · rw [hsubmit]
    exact ⟨rfl, hholds⟩

theorem keeps_unregister {l : RunLoop α} (hholds : ∃ ms, l.roster.Holds ms) (h : Handle) :
    (l.unregister h).2.id = l.id ∧ ∃ ms, (l.unregister h).2.roster.Holds ms := by
  rcases l.unregister_cases h with ⟨e, r, -, hremove, hcall⟩ | ⟨-, hcall⟩
  · obtain ⟨ms, hms⟩ := hholds
    obtain ⟨xs, ys, -, hrest, -⟩ := Roster.holds_of_remove hms hremove
    rw [hcall, (RunLoop.identity_rouse _).1, RunLoop.roster_rouse]
    exact ⟨rfl, _, hrest⟩
  · rw [hcall]
    exact ⟨rfl, hholds⟩

/-- The loop stays the one it is, and its entries are in order. -/
theorem keeps_call {call : LoopCall α σ} {answer : Answer α} {s : RunLoop.Surroundings α σ}
    {c c' : Interleaving α σ} (hholds : ∃ ms, c.loop.roster.Holds ms)
    (h : c.call? s call = some (answer, c')) :
    c'.loop.id = c.loop.id ∧ ∃ ms, c'.loop.roster.Holds ms := by
  cases call with
  | registerAfter hertz delay callback =>
    cases h
    exact keeps_submit hholds _ _
  | register hertz random callback =>
    cases h
    exact keeps_submit hholds _ _
  | unregister h' =>
    cases h
    exact keeps_unregister hholds _
  | step ev =>
    obtain ⟨c'', hstep, hanswer⟩ := Option.map_eq_some_iff.1 h
    cases hanswer
    exact ⟨(identity_step hstep).1, holds_step hstep hholds⟩

/-- What is in no slot does not run. -/
theorem idle_step {ev : LoopEvent α σ} (h : c.step? s.noting (ev.number n c.world.2) = some c')
    {k : Nat} (hk : ∀ j g, c.loop.roster.post j ≠ some (g, some k)) :
    c'.world.2.count k = c.world.2.count k := by
  cases ev with
  | advance =>
    cases move_of_step h with
    | tick hplace => exact (RunLoop.unmoved_tick s c.loop c.world).2 k hk
    | _ => rfl
  | elapse world =>
    cases h
    rfl
  | _ => cases move_of_step h <;> rfl

theorem idle_call {call : LoopCall α σ} {answer : Answer (α × Nat)}
    (h : c.call? s.noting (call.number n c.world.2) = some (answer, c')) {k : Nat}
    (hk : ∀ j g, c.loop.roster.post j ≠ some (g, some k)) :
    c'.world.2.count k = c.world.2.count k := by
  cases call with
  | step ev =>
    obtain ⟨c'', hstep, hanswer⟩ := Option.map_eq_some_iff.1 h
    cases hanswer
    exact idle_step hstep hk
  | _ =>
    cases h
    rfl

end Interleaving

/-- What a call does to one slot: it leaves it alone, vacates it or fills it. -/
theorem Change.slot {id n : Nat} {post post' : Nat → Option (UInt32 × Option Nat)}
    {answer : Answer (α × Nat)} (h : Change α id n post answer post') (j : Nat) :
    (post' j = post j ∧ ∀ h', answer = .registered (.ok h') → h'.ticket.index ≠ j) ∨
      (∃ g k, post j = some (g, some k) ∧ post' j = some (g + 1, none) ∧
        ∀ h', answer ≠ .registered (.ok h')) ∨
      ∃ g, Roster.Vacant (post j) g ∧ post' j = some (g, some n) ∧
        answer = .registered (.ok ⟨id, j, g⟩) := by
  cases h with
  | kept => exact .inl ⟨rfl, by simp⟩
  | refused hrefusal =>
    refine .inl ⟨rfl, fun h' hanswer => ?_⟩
    rw [hanswer] at hrefusal
    cases hrefusal
  | @registered i g hvacant =>
    by_cases hij : j = i
    · subst hij
      exact .inr (.inr ⟨g, hvacant, Function.update_self .., rfl⟩)
    · refine .inl ⟨Function.update_of_ne hij _ _, fun h' hanswer => ?_⟩
      cases hanswer
      exact Ne.symm hij
  | @removed i g e hheld =>
    by_cases hij : j = i
    · subst hij
      exact .inr (.inl ⟨g, _, hheld, Function.update_self .., by simp⟩)
    · exact .inl ⟨Function.update_of_ne hij _ _, by simp⟩
  | emptied =>
    -- When all is dropped a slot is vacated if something was there.
    cases hpost : post j with
    | none => simp [hpost]
    | some p =>
      obtain ⟨g, o⟩ := p
      cases o with
      | none => simp [hpost, Roster.vacated]
      | some k => simp [hpost, Roster.vacated]

end Cadence
