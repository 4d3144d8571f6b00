import Cadence.Metrics
import Mathlib.Data.List.Rotate
import Mathlib.Data.Nat.ModEq

/-!
# Records

A `Record` is what metrics are told of one wake.  `Accounts` says of each number in the metrics which
number over all records it is: totals, and in the ring of samples the durations of the latest ones
(`Accounts.kept_perm`).  Each record keeps it so (`Accounts.record`), and so does any row of them
(`accounts_recordAll`).
-/

namespace Cadence

/-- Places of a ring are used again only after all others. -/
theorem mod_ne_mod {i k n : Nat} (hlt : i < k) (hnear : k < i + n) : i % n ≠ k % n := by
  intro hmod
  have hdvd : n ∣ k - i := (Nat.modEq_iff_dvd' (Nat.le_of_lt hlt)).1 hmod
  have hle := Nat.le_of_dvd (by omega) hdvd
  omega

theorem min?_concat (xs : List Nat) (x : Nat) :
    (xs ++ [x]).min? = some (xs.min?.elim x fun least => min least x) := by
  cases xs with
  | nil => rfl
  | cons y ys => rw [List.cons_append, List.min?_cons', List.min?_cons', List.foldl_concat]; rfl

theorem max?_concat (xs : List Nat) (x : Nat) :
    (xs ++ [x]).max? = some (xs.max?.elim x fun greatest => max greatest x) := by
  cases xs with
  | nil => rfl
  | cons y ys => rw [List.cons_append, List.max?_cons', List.max?_cons', List.foldl_concat]; rfl

namespace TickMetrics

structure Record where
  /-- How long the tick took. -/
  duration : Nat
  /-- How many callbacks it invoked. -/
  fired : Nat
  /-- How late the wake came. -/
  lateness : Nat
  deriving DecidableEq

def Record.isLate (r : Record) : Bool := lateThreshold < r.lateness

def recordAll (m : TickMetrics) (rs : List Record) : TickMetrics :=
  rs.foldl (fun m r => m.record r.duration r.fired r.lateness) m

/-- Metrics with room for `size` samples account for the records so far, the first one first. -/
structure Accounts (size : Nat) (m : TickMetrics) (rs : List Record) : Prop where
  wakes : m.wakes = rs.length
  invocations : m.invocations = (rs.map Record.fired).sum % (maxWord + 1)
  lateWakes : m.lateWakes = rs.countP Record.isLate
  sum : m.sum = (rs.map Record.duration).sum % (maxWord + 1)
  least : m.extremes.map Prod.fst = (rs.map Record.duration).min?
  greatest : m.extremes.map Prod.snd = (rs.map Record.duration).max?
  size_eq : m.samples.size = size
  sampleCount : m.sampleCount = min rs.length size
  writePosition : m.writePosition = rs.length % size
  sample : ∀ i, i < rs.length → rs.length ≤ i + size →
    m.samples[i % size]? = (rs.map Record.duration)[i]?

theorem accounts_withSamples (size : Nat) : Accounts (max size 1) (withSamples size) [] where
  wakes := rfl
  invocations := rfl
  lateWakes := rfl
  sum := rfl
  least := rfl
  greatest := rfl
  size_eq := Array.size_replicate
  sampleCount := (Nat.zero_min _).symm
  writePosition := (Nat.zero_mod _).symm
  sample := nofun

section

variable {size : Nat} {m : TickMetrics} {rs : List Record} (h : Accounts size m rs)

include h

theorem Accounts.size_pos : 0 < size := by
  have hlt := m.writePosition_lt
  rw [h.size_eq] at hlt
  omega

/-! ## 1. One more record -/

theorem Accounts.extremes_record (r : Record) :
    (m.record r.duration r.fired r.lateness).extremes.map Prod.fst =
        ((rs ++ [r]).map Record.duration).min? ∧
      (m.record r.duration r.fired r.lateness).extremes.map Prod.snd =
        ((rs ++ [r]).map Record.duration).max? := by
  rw [List.map_append, List.map_singleton, min?_concat, max?_concat, ← h.least, ← h.greatest]
  unfold record
  cases m.extremes with
  | none => exact ⟨rfl, rfl⟩
  | some both => exact ⟨rfl, rfl⟩

/-- A record takes the place of the one that came `size` records before it, and leaves the later
ones where they are. -/
theorem Accounts.sample_record (r : Record) {i : Nat} (hi : i < rs.length + 1)
    (hnear : rs.length + 1 ≤ i + size) :
    (m.record r.duration r.fired r.lateness).samples[i % size]? =
      ((rs ++ [r]).map Record.duration)[i]? := by
  have hplace := h.writePosition
  have hlt := m.writePosition_lt
  show (m.samples.set m.writePosition r.duration hlt)[i % size]? = _
  rw [List.map_append, List.map_singleton]
  by_cases hnew : i = rs.length
  · rw [hnew, ← hplace, Array.getElem?_set_self,
      List.getElem?_append_right (Nat.le_of_eq (List.length_map _)), List.length_map, Nat.sub_self]
    rfl
  · -- What is kept of the earlier ones lies in other places.
    have hother : m.writePosition ≠ i % size := by
      rw [hplace]
      exact (mod_ne_mod (by omega) (by omega)).symm
    rw [Array.getElem?_set_ne _ hother, h.sample i (by omega) (by omega),
      List.getElem?_append_left (by rw [List.length_map]; omega)]

/-- One more record is accounted for. -/
theorem Accounts.record (r : Record) :
    Accounts size (m.record r.duration r.fired r.lateness) (rs ++ [r]) := by
  have hextremes := h.extremes_record r
  constructor
  case wakes =>
    show m.wakes + 1 = _
    rw [h.wakes, List.length_append, List.length_singleton]
  case invocations =>
    show (m.invocations + r.fired) % _ = _
    rw [h.invocations, Nat.mod_add_mod, List.map_append, List.sum_append, List.map_singleton,
      List.sum_singleton]
  case lateWakes =>
    show (if lateThreshold < r.lateness then m.lateWakes + 1 else m.lateWakes) = _
    rw [h.lateWakes, List.countP_append, List.countP_singleton, Record.isLate]
    by_cases hlate : lateThreshold < r.lateness
    · rw [if_pos hlate, if_pos (decide_eq_true hlate)]
    · rw [if_neg hlate, if_neg (by rwa [decide_eq_true_eq])]
      rfl
  case sum =>
    show (m.sum + r.duration) % _ = _
    rw [h.sum, Nat.mod_add_mod, List.map_append, List.sum_append, List.map_singleton,
      List.sum_singleton]
  case least => exact hextremes.1
  case greatest => exact hextremes.2
  case size_eq => exact (Array.size_set m.writePosition_lt).trans h.size_eq
  case sampleCount =>
    show min (m.sampleCount + 1) m.samples.size = _
    rw [h.sampleCount, h.size_eq, List.length_append, List.length_singleton]
    omega
  case writePosition =>
    show (m.writePosition + 1) % m.samples.size = _
    rw [h.writePosition, h.size_eq, Nat.mod_add_mod, List.length_append, List.length_singleton]
  case sample =>
    intro i hi hnear
    rw [List.length_append, List.length_singleton] at hi hnear
    exact h.sample_record r hi hnear

/-! ## 2. The samples kept -/

/-- As long as the ring has not gone round, the samples lie in their order. -/
theorem Accounts.take_samples (hroom : rs.length ≤ size) :
    m.samples.toList.take rs.length = rs.map Record.duration := by
  have hsize := h.size_eq
  apply List.ext_getElem?
  intro i
  by_cases hi : i < rs.length
  · have hsample := h.sample i hi (by omega)
    rw [Nat.mod_eq_of_lt (by omega)] at hsample
    rw [List.getElem?_take_of_lt hi, Array.getElem?_toList, hsample]
  · rw [List.getElem?_eq_none (by rw [List.length_take]; omega),
      List.getElem?_eq_none (by rw [List.length_map]; omega)]

/-- Once the ring has gone round, the earliest of the samples kept lies where the next one will be
written. -/
theorem Accounts.samples_rotated (hfull : size ≤ rs.length) :
    m.samples.toList = ((rs.map Record.duration).drop (rs.length - size)).rotate
      (size - rs.length % size) := by
  have hpos := h.size_pos
  have hsamples : m.samples.toList.length = size := by rw [Array.length_toList, h.size_eq]
  have hlatest : ((rs.map Record.duration).drop (rs.length - size)).length = size := by
    rw [List.length_drop, List.length_map]
    omega
  apply List.ext_getElem?
  intro i
  by_cases hi : i < size
  · have hrest := Nat.mod_lt (i + (size - rs.length % size)) hpos
    have hround := Nat.mod_lt rs.length hpos
    have hdiv := Nat.div_add_mod rs.length size
    -- Going round, place `i` comes so many places behind the earliest sample.
    have hsum : rs.length - size + (i + (size - rs.length % size)) =
        i + size * (rs.length / size) := by omega
    have hback : (rs.length - size + (i + (size - rs.length % size)) % size) % size = i := by
      rw [Nat.add_mod_mod, hsum, Nat.add_mul_mod_self_left, Nat.mod_eq_of_lt hi]
    have hsample := h.sample (rs.length - size + (i + (size - rs.length % size)) % size)
      (by omega) (by omega)
    rw [hback] at hsample
    rw [List.getElem?_rotate (by omega), hlatest, List.getElem?_drop, ← hsample,
      Array.getElem?_toList]
  · rw [List.getElem?_eq_none (by omega),
      List.getElem?_eq_none (by rw [List.length_rotate]; omega)]

/-- The samples kept are the durations of the latest records, as many as there is room for. -/
theorem Accounts.kept_perm :
    m.kept.Perm ((rs.map Record.duration).drop (rs.length - size)) := by
  rw [kept, h.sampleCount]
  by_cases hroom : rs.length ≤ size
  · rw [Nat.min_eq_left hroom, h.take_samples hroom, Nat.sub_eq_zero_of_le hroom, List.drop_zero]
  · have hsamples : m.samples.toList.length = size := by rw [Array.length_toList, h.size_eq]
    have hrotated := h.samples_rotated (by omega)
    rw [Nat.min_eq_right (by omega), List.take_of_length_le (Nat.le_of_eq hsamples), hrotated]
    exact List.rotate_perm _ _

/-! ## 3. All records -/

theorem Accounts.recordAll (more : List Record) : Accounts size (m.recordAll more) (rs ++ more) := by
  induction more generalizing m rs with
  | nil =>
    rw [List.append_nil]
    exact h
  | cons r rest ih =>
    have hrest := ih (h.record r)
    rw [List.append_assoc, List.singleton_append] at hrest
    exact hrest

end

/-- Metrics account for all that has been recorded since they were made. -/
theorem accounts_recordAll (size : Nat) (rs : List Record) :
    Accounts (max size 1) ((withSamples size).recordAll rs) rs :=
  (accounts_withSamples size).recordAll rs

end TickMetrics

end Cadence
