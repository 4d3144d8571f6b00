import Cadence.Clock
import Cadence.Proofs.Metrics.Records

/-!
# What metrics say about wakes

A `Wake` is what an observer with the clock of the loop notes of one wake.  `Tells` says of each number
in the metrics which number of the observer's it is: totals over all wakes, and in the ring of samples
the durations of the latest ones (`Tells.kept_perm`).  That is to account for what is recorded of these
wakes (`tells_iff`), so recording one more keeps it so (`Tells.record`).
-/

namespace Cadence

structure Wake where
  /-- The reading of the clock at the wake before, or when the loop was created. -/
  before : Timestamp
  /-- How long the loop meant to sleep after that. -/
  asked : Nat
  reading : Timestamp
  /-- The reading when the callbacks had run. -/
  finished : Timestamp
  /-- How many callbacks were invoked. -/
  invocations : Nat
  deriving DecidableEq

namespace Wake

def delta (w : Wake) : Nat := w.reading.since w.before

def duration (w : Wake) : Nat := w.finished.since w.reading

def isLate (w : Wake) : Bool := w.asked + lateThreshold < w.delta

def record (w : Wake) : TickMetrics.Record :=
  ⟨w.duration, w.invocations, w.reading.since (w.before.after w.asked)⟩

end Wake

/-- How far a reading lies behind a deadline, also where the deadline is the last timestamp there is. -/
theorem Timestamp.since_after (now t : Timestamp) (micros : Nat) :
    now.since (t.after micros) = now.since t - micros := by
  have hlast : now.toNat ≤ maxWord := by
    have hlt := now.toNat_lt
    simp only [maxWord]
    omega
  simp only [since, toNat_after]
  omega

theorem Wake.isLate_record (w : Wake) : w.record.isLate = w.isLate := by
  show decide (lateThreshold < w.reading.since (w.before.after w.asked)) = _
  rw [Timestamp.since_after, isLate, delta]
  exact decide_eq_decide.2 (by omega)

namespace TickMetrics

/-- Metrics with room for `size` samples tell the truth about the wakes so far, the first one first. -/
structure Tells (size : Nat) (m : TickMetrics) (ws : List Wake) : Prop where
  wakes : m.wakes = ws.length
  invocations : m.invocations = (ws.map Wake.invocations).sum % (maxWord + 1)
  lateWakes : m.lateWakes = ws.countP Wake.isLate
  sum : m.sum = (ws.map Wake.duration).sum % (maxWord + 1)
  least : m.extremes.map Prod.fst = (ws.map Wake.duration).min?
  greatest : m.extremes.map Prod.snd = (ws.map Wake.duration).max?
  size_eq : m.samples.size = size
  sampleCount : m.sampleCount = min ws.length size
  writePosition : m.writePosition = ws.length % size
  sample : ∀ i, i < ws.length → ws.length ≤ i + size →
    m.samples[i % size]? = (ws.map Wake.duration)[i]?

/-- To tell the truth about wakes is to account for what is recorded of them. -/
theorem tells_iff {size : Nat} {m : TickMetrics} {ws : List Wake} :
    Tells size m ws ↔ Accounts size m (ws.map Wake.record) := by
  have hlength : (ws.map Wake.record).length = ws.length := List.length_map _
  have hdurations : (ws.map Wake.record).map Record.duration = ws.map Wake.duration := List.map_map
  have hfired : (ws.map Wake.record).map Record.fired = ws.map Wake.invocations := List.map_map
  have hlate : (ws.map Wake.record).countP Record.isLate = ws.countP Wake.isLate := by
    rw [List.countP_map]
    exact List.countP_congr fun w _ => Iff.of_eq (congrArg (· = true) w.isLate_record)
  constructor
  · intro h
    exact ⟨hlength ▸ h.wakes, hfired ▸ h.invocations, hlate ▸ h.lateWakes, hdurations ▸ h.sum,
      hdurations ▸ h.least, hdurations ▸ h.greatest, h.size_eq, hlength ▸ h.sampleCount,
      hlength ▸ h.writePosition, hlength ▸ hdurations ▸ h.sample⟩
  · intro h
    exact ⟨hlength ▸ h.wakes, hfired ▸ h.invocations, hlate ▸ h.lateWakes, hdurations ▸ h.sum,
      hdurations ▸ h.least, hdurations ▸ h.greatest, h.size_eq, hlength ▸ h.sampleCount,
      hlength ▸ h.writePosition, hlength ▸ hdurations ▸ h.sample⟩

/-- A wake that is recorded is one of those that the metrics tell of. -/
theorem Tells.record {size : Nat} {m : TickMetrics} {ws : List Wake} (h : Tells size m ws) (w : Wake) :
    Tells size (m.record w.duration w.invocations (w.reading.since (w.before.after w.asked)))
      (ws ++ [w]) := by
  have hrecord := (tells_iff.1 h).record w.record
  rw [tells_iff, List.map_append]
  exact hrecord

/-- The samples kept are the durations of the latest wakes, as many as there is room for. -/
theorem Tells.kept_perm {size : Nat} {m : TickMetrics} {ws : List Wake} (h : Tells size m ws) :
    m.kept.Perm ((ws.map Wake.duration).drop (ws.length - size)) := by
  have hkept := (tells_iff.1 h).kept_perm
  rw [List.map_map, List.length_map] at hkept
  exact hkept

end TickMetrics

end Cadence
