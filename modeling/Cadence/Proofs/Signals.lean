import Cadence.Signals
import Mathlib.Data.List.Induction
import Mathlib.Data.List.Infix
import Mathlib.Data.List.TakeWhile

/-!
# Which signals are counted

A watch ends with the first look at the flag that comes after a signal or a request.  Shutdown stays asked
for once it has been, but only that last look can count a signal.  So even where the flag is looked at
after each signal and before the next one, the count is right only as long as no signal comes when the
watch has ended (`count_of_signals`), and the second one always does (`second_signal_not_counted`).
-/

namespace Cadence.SignalWatch

open List

/-! ## 1. Events -/

def Ended (events : List SignalEvent) : Prop :=
  [.deliver, .poll] <+ events ∨ [.request, .poll] <+ events

instance : DecidablePred Ended := fun _ => inferInstanceAs (Decidable (_ ∨ _))

/-- The look with which the watch has ended came after a signal. -/
def Noticed (events : List SignalEvent) : Prop :=
  ∃ before, before ++ [.poll] <+: events ∧ .deliver ∈ before ∧ ¬ Ended before

def NoneLate (events : List SignalEvent) : Prop :=
  ∀ before, before ++ [.deliver] <+: events → ¬ Ended before

/-- The flag is looked at between any two signals, and after the last one. -/
def Attended : List SignalEvent → Prop
  | [] => True
  | e :: rest => (e = .deliver → .poll ∈ rest.takeWhile (· ≠ .deliver)) ∧ Attended rest

instance decidableAttended : DecidablePred Attended
  | [] => inferInstanceAs (Decidable True)
  | _ :: rest =>
    have := decidableAttended rest
    inferInstanceAs (Decidable (_ ∧ _))

theorem pair_sublist_append_iff {c x : SignalEvent} {later : List SignalEvent} (habsent : x ∉ later)
    (events : List SignalEvent) : [c, x] <+ events ++ later ↔ [c, x] <+ events := by
  constructor
  · intro hpair
    obtain ⟨front, back, hsplit, hinEvents, hinLater⟩ := sublist_append_iff.1 hpair
    rcases eq_nil_or_concat' back with rfl | ⟨init, last, rfl⟩
    · rwa [hsplit, append_nil]
    · -- The pair ends with `x`, which would be one of the later events then.
      have hends : [c] ++ [x] = front ++ init ++ [last] := hsplit.trans (append_assoc ..).symm
      have hsame : x = last := head_eq_of_cons_eq (append_inj' hends rfl).2
      have hinside : last ∈ later := hinLater.subset (mem_append_right _ mem_cons_self)
      rw [hsame] at habsent
      exact absurd hinside habsent
  · intro hpair
    exact hpair.trans (sublist_append_left _ _)

theorem pair_sublist_concat_iff (c x : SignalEvent) (events : List SignalEvent) :
    [c, x] <+ events ++ [x] ↔ c ∈ events := by
  show [c] ++ [x] <+ events ++ [x] ↔ c ∈ events
  rw [append_sublist_append_right, singleton_sublist]

theorem ended_append_iff {later : List SignalEvent} (hunseen : .poll ∉ later)
    (events : List SignalEvent) : Ended (events ++ later) ↔ Ended events :=
  or_congr (pair_sublist_append_iff hunseen events) (pair_sublist_append_iff hunseen events)

theorem ended_poll_iff (events : List SignalEvent) :
    Ended (events ++ [.poll]) ↔ .deliver ∈ events ∨ .request ∈ events :=
  or_congr (pair_sublist_concat_iff _ _ events) (pair_sublist_concat_iff _ _ events)

theorem Ended.mono {before events : List SignalEvent} (hended : Ended before)
    (hbegins : before <+: events) : Ended events :=
  hended.imp (·.trans hbegins.sublist) (·.trans hbegins.sublist)

theorem Ended.requested {events : List SignalEvent} (hended : Ended events) :
    .request ∈ events ∨ [.deliver, .poll] <+ events :=
  hended.symm.imp_left (·.subset mem_cons_self)

theorem Noticed.ended {events : List SignalEvent} (hnoticed : Noticed events) : Ended events := by
  obtain ⟨before, hlooked, hsignal, -⟩ := hnoticed
  have hlast : Ended (before ++ [.poll]) := (ended_poll_iff before).2 (.inl hsignal)
  exact hlast.mono hlooked

theorem noticed_concat_iff (events : List SignalEvent) (e : SignalEvent) :
    Noticed (events ++ [e]) ↔
      Noticed events ∨ e = .poll ∧ .deliver ∈ events ∧ ¬ Ended events := by
  constructor
  · rintro ⟨before, hlooked, hsignal, hunfinished⟩
    rcases prefix_concat_iff.1 hlooked with hlast | hearlier
    · obtain ⟨rfl, hsame⟩ := append_inj' hlast rfl
      exact .inr ⟨(head_eq_of_cons_eq hsame).symm, hsignal, hunfinished⟩
    · exact .inl ⟨before, hearlier, hsignal, hunfinished⟩
  · rintro (⟨before, hlooked, hfound⟩ | ⟨rfl, hfound⟩)
    · exact ⟨before, hlooked.trans (prefix_append _ _), hfound⟩
    · exact ⟨events, prefix_rfl, hfound⟩

/-! ## 2. The watch -/

/-- What a watch shows of the events that it has gone through. -/
structure Shows (w : SignalWatch) (events : List SignalEvent) : Prop where
  polling : w.polling = true ↔ ¬ Ended events
  requested : w.shutdownRequested = true ↔ .request ∈ events ∨ [.deliver, .poll] <+ events
  raised : ¬ Ended events → (w.raised = true ↔ .deliver ∈ events)
  counted : w.count = 0 ∧ ¬ Noticed events ∨ w.count = 1 ∧ Noticed events

theorem shows_new : Shows new [] where
  polling := by decide
  requested := by decide
  raised := by decide
  counted := .inl ⟨rfl, fun hnoticed => absurd hnoticed.ended (by decide)⟩

/-- Nobody looks any more, or the flag is found up, or it is found down. -/
theorem poll_cases (w : SignalWatch) :
    w.polling = false ∧ w.poll = w ∨
      w.polling = true ∧ w.raised = true ∧ w.poll = ⟨false, true, w.count + 1, false⟩ ∨
        w.polling = true ∧ w.raised = false ∧ w.poll = { w with polling := !w.shutdownRequested } := by
  obtain ⟨raised, requested, count, polling⟩ := w
  cases polling with
  | false => exact .inl ⟨rfl, rfl⟩
  | true =>
    cases raised with
    | true => exact .inr (.inl ⟨rfl, rfl, rfl⟩)
    | false => exact .inr (.inr ⟨rfl, rfl, rfl⟩)

section

variable {w : SignalWatch} {events : List SignalEvent} (h : Shows w events)

include h

theorem Shows.deliver : Shows w.deliver (events ++ [.deliver]) where
  polling := by
    rw [ended_append_iff (by decide)]
    exact h.polling
  requested := by
    have hsame : .request ∈ events ++ [.deliver] ↔ .request ∈ events := by simp
    rw [hsame, pair_sublist_append_iff (by decide)]
    exact h.requested
  raised _ := iff_of_true rfl (mem_append_right _ mem_cons_self)
  counted := by
    have hsame : Noticed (events ++ [.deliver]) ↔ Noticed events := by simp [noticed_concat_iff]
    rw [hsame]
    exact h.counted

theorem Shows.request : Shows w.request (events ++ [.request]) where
  polling := by
    rw [ended_append_iff (by decide)]
    exact h.polling
  requested := iff_of_true rfl (.inl (mem_append_right _ mem_cons_self))
  raised hunfinished := by
    have hsame : .deliver ∈ events ++ [.request] ↔ .deliver ∈ events := by simp
    rw [ended_append_iff (by decide)] at hunfinished
    rw [hsame]
    exact h.raised hunfinished
  counted := by
    have hsame : Noticed (events ++ [.request]) ↔ Noticed events := by simp [noticed_concat_iff]
    rw [hsame]
    exact h.counted

theorem Shows.uncounted (hunfinished : ¬ Ended events) : w.count = 0 := by
  rcases h.counted with ⟨hzero, -⟩ | ⟨-, hnoticed⟩
  · exact hzero
  · exact absurd hnoticed.ended hunfinished

/-- A look counts a signal that has come since the last one, and ends the watch if there was one or
shutdown has been requested. -/
theorem Shows.poll : Shows w.poll (events ++ [.poll]) := by
  rcases w.poll_cases with ⟨hgone, hlooked⟩ | ⟨hthere, hup, hlooked⟩ | ⟨hthere, hdown, hlooked⟩
  · -- The watch had ended before, and everything stays as it is.
    have hended : Ended events := by
      by_contra hunfinished
      rw [h.polling.2 hunfinished] at hgone
      exact absurd hgone nofun
    have hstill : Ended (events ++ [.poll]) := hended.mono (prefix_append _ _)
    have hsame : Noticed (events ++ [.poll]) ↔ Noticed events := by simp [noticed_concat_iff, hended]
    rw [hlooked]
    refine ⟨iff_of_false (by simp [hgone]) (not_not_intro hstill), ?_, absurd hstill, ?_⟩
    · exact iff_of_true (h.requested.2 hended.requested) hstill.requested
    · rw [hsame]
      exact h.counted
  · -- It ends now, with a signal.
    have hunfinished : ¬ Ended events := h.polling.1 hthere
    have hsignal : .deliver ∈ events := (h.raised hunfinished).1 hup
    have hended : Ended (events ++ [.poll]) := (ended_poll_iff events).2 (.inl hsignal)
    rw [hlooked, h.uncounted hunfinished]
    refine ⟨iff_of_false nofun (not_not_intro hended), iff_of_true rfl hended.requested,
      absurd hended, ?_⟩
    exact .inr ⟨rfl, (noticed_concat_iff events _).2 (.inr ⟨rfl, hsignal, hunfinished⟩)⟩
  · -- There has been no signal, so it ends now exactly if there has been a request.
    have hunfinished : ¬ Ended events := h.polling.1 hthere
    have hsilent : .deliver ∉ events := by
      rw [← h.raised hunfinished, hdown]
      exact nofun
    have hasked : w.shutdownRequested = true ↔ .request ∈ events :=
      h.requested.trans (or_iff_left fun hpair => hsilent (hpair.subset mem_cons_self))
    rw [hlooked]
    constructor
    · show (!w.shutdownRequested) = true ↔ _
      rw [ended_poll_iff, or_iff_right hsilent, ← hasked, Bool.not_eq_true', Bool.not_eq_true]
    · have hsame : .request ∈ events ++ [.poll] ↔ .request ∈ events := by simp
      rw [hsame, pair_sublist_concat_iff, or_iff_left hsilent]
      exact hasked
    · intro _
      exact iff_of_false (by simp [hdown]) (by simpa using hsilent)
    · have hsame : Noticed (events ++ [.poll]) ↔ Noticed events := by
        simp [noticed_concat_iff, hsilent]
      rw [hsame]
      exact h.counted

end

theorem shows_handleAll (events : List SignalEvent) : Shows (new.handleAll events) events := by
  induction events using reverseRecOn with
  | nil => exact shows_new
  | append_singleton events e ih =>
    rw [handleAll, foldl_concat]
    cases e with
    | deliver => exact Shows.deliver ih
    | poll => exact Shows.poll ih
    | request => exact Shows.request ih

/-! ## 3. The count -/

/-- A signal is looked at before the next one comes. -/
theorem Attended.looked {before after : List SignalEvent}
    (hattended : Attended (before ++ .deliver :: after)) :
    ∃ quiet later, after = quiet ++ .poll :: later ∧ .poll ∉ quiet ∧ .deliver ∉ quiet := by
  induction before with
  | cons e rest ih => exact ih hattended.2
  | nil =>
    obtain ⟨quiet, more, hsplit, hfirst⟩ := eq_append_cons_of_mem (hattended.1 rfl)
    refine ⟨quiet, more ++ after.dropWhile (· ≠ .deliver), ?_, hfirst, ?_⟩
    · have hwhole := after.takeWhile_append_dropWhile (p := (· ≠ .deliver))
      rw [hsplit] at hwhole
      simpa using hwhole.symm
    · intro hsignal
      have hinside : .deliver ∈ after.takeWhile (· ≠ .deliver) := by
        rw [hsplit]
        exact mem_append_left _ hsignal
      simpa using mem_takeWhile_imp hinside

/-- The first look after the first signal is the one with which the watch ends. -/
theorem Attended.noticed {events : List SignalEvent} (hattended : Attended events)
    (hinTime : NoneLate events) (hsome : .deliver ∈ events) :
    Noticed events ∧ events.count .deliver = 1 := by
  obtain ⟨before, after, rfl, hfirst⟩ := eq_append_cons_of_mem hsome
  obtain ⟨quiet, later, rfl, hunseen, hsilent⟩ := hattended.looked
  constructor
  · refine ⟨before ++ .deliver :: quiet, by simp, by simp, ?_⟩
    rw [ended_append_iff (by simp [hunseen])]
    exact hinTime before (by simp)
  · have hlast : .deliver ∉ later := by
      intro hsignal
      obtain ⟨between, rest, rfl⟩ := append_of_mem hsignal
      have hended : Ended (before ++ .deliver :: quiet ++ [.poll]) :=
        (ended_poll_iff _).2 (.inl (by simp))
      apply hinTime (before ++ .deliver :: quiet ++ .poll :: between) (by simp)
      exact hended.mono (by simp)
    simp [count_append, count_eq_zero_of_not_mem hfirst, count_eq_zero_of_not_mem hsilent,
      count_eq_zero_of_not_mem hlast]

/-- Between the look that has found a signal and a late signal, neither can come first. -/
theorem Noticed.noneLate {events : List SignalEvent} (hnoticed : Noticed events)
    (hsingle : events.count .deliver = 1) : NoneLate events := by
  intro before hlate hended
  obtain ⟨sooner, hlooked, hsignal, hunfinished⟩ := hnoticed
  have hbegins : before <+: events := (prefix_append _ _).trans hlate
  have hbegins' : sooner <+: events := (prefix_append _ _).trans hlooked
  rcases prefix_or_prefix_of_prefix hbegins hbegins' with hearlier | hlater
  · exact hunfinished (hended.mono hearlier)
  · have htwice : 2 ≤ (before ++ [SignalEvent.deliver]).count .deliver := by
      have honce : 0 < before.count .deliver := count_pos_iff.2 (hlater.subset hsignal)
      rw [count_append, count_singleton_self]
      omega
    have hmost := hlate.sublist.count_le .deliver
    omega

section

variable {w : SignalWatch} {events : List SignalEvent} (h : Shows w events)

include h

theorem Shows.toNat_count_le : w.count.toNat ≤ 1 := by
  rcases h.counted with ⟨hzero, -⟩ | ⟨hone, -⟩
  · rw [hzero]
    decide
  · rw [hone]
    decide

theorem Shows.toNat_count_eq_one_iff : w.count.toNat = 1 ↔ Noticed events := by
  rcases h.counted with ⟨hzero, hunnoticed⟩ | ⟨hone, hnoticed⟩
  · rw [hzero]
    exact iff_of_false (by decide) hunnoticed
  · rw [hone]
    exact iff_of_true (by decide) hnoticed

/-- Where every signal is looked at, they are all counted unless some come late. -/
theorem Shows.count_eq_iff (hattended : Attended events) :
    w.count.toNat = events.count .deliver ↔ NoneLate events := by
  have hfew := h.toNat_count_le
  by_cases hsome : .deliver ∈ events
  · have hsignals : 0 < events.count .deliver := count_pos_iff.2 hsome
    constructor
    · intro hright
      have hone : w.count.toNat = 1 := by omega
      exact (h.toNat_count_eq_one_iff.1 hone).noneLate (hright.symm.trans hone)
    · intro hinTime
      obtain ⟨hnoticed, hsingle⟩ := hattended.noticed hinTime hsome
      rw [hsingle, h.toNat_count_eq_one_iff]
      exact hnoticed
  · have hsilent : events.count .deliver = 0 := count_eq_zero_of_not_mem hsome
    have hunnoticed : ¬ Noticed events := by
      rintro ⟨before, hlooked, hsignal, -⟩
      exact hsome (hlooked.subset (mem_append_left _ hsignal))
    have hzero : w.count.toNat ≠ 1 := h.toNat_count_eq_one_iff.not.2 hunnoticed
    refine iff_of_true (by omega) ?_
    intro before hlate
    exact absurd (hlate.subset (mem_append_right _ mem_cons_self)) hsome

end

/-- Shutdown stays asked for, once it has been.  At most one signal is ever counted, and where the flag is
looked at between any two signals and after the last one, the count is that of the signals exactly if
none of them comes when the watch has ended. -/
theorem count_of_signals (events : List SignalEvent) :
    let w := new.handleAll events
    (∀ before, before <+: events → (new.handleAll before).shutdownRequested = true →
        w.shutdownRequested = true) ∧
      (w.shutdownRequested = true ↔ .request ∈ events ∨ [.deliver, .poll] <+ events) ∧
      (w.polling = true ↔ ¬ Ended events) ∧
      w.count.toNat ≤ 1 ∧ (w.count.toNat = 1 ↔ Noticed events) ∧
      (Attended events → (w.count.toNat = events.count .deliver ↔ NoneLate events)) := by
  intro w
  have h : Shows w events := shows_handleAll events
  refine ⟨?_, h.requested, h.polling, h.toNat_count_le, h.toNat_count_eq_one_iff, h.count_eq_iff⟩
  intro before hbegins hasked
  have hreason := (shows_handleAll before).requested.1 hasked
  rw [h.requested]
  exact hreason.imp (hbegins.subset ·) (·.trans hbegins.sublist)

/-- A signal that comes after a request, but before the flag is looked at again, is counted. -/
theorem count_of_signals_after_request :
    let events : List SignalEvent := [.poll, .request, .deliver, .request, .poll, .poll]
    (new.handleAll [.poll, .request]).shutdownRequested = true ∧
      (new.handleAll events).shutdownRequested = true ∧ Attended events ∧
      (new.handleAll events).count.toNat = events.count .deliver ∧ NoneLate events := by
  intro events
  obtain ⟨hstays, -, -, -, -, hright⟩ := count_of_signals events
  have hasked : (new.handleAll [.poll, .request]).shutdownRequested = true := by decide
  have hattended : Attended events := by decide
  have hcounted : (new.handleAll events).count.toNat = events.count .deliver := by decide
  exact ⟨hasked, hstays _ (by decide) hasked, hattended, hcounted, (hright hattended).1 hcounted⟩

/-- The watch ends with the first of two signals, and the second is not counted, though the flag is looked
at after both. -/
theorem second_signal_not_counted : ¬ ∀ events, Attended events →
    (new.handleAll events).count.toNat = events.count .deliver := by
  intro hclaim
  have htwo := hclaim [.deliver, .poll, .deliver, .poll] (by decide)
  exact absurd htwo (by decide)

end Cadence.SignalWatch
