import Cadence.Duration.Write
import Cadence.Proofs.Duration.Amounts
import Cadence.Proofs.Text.Digits

/-!
# Durations as texts

Whatever duration is written, the text is read back as that duration (`ofText_text`): the amounts that
the text names are those of the breakdown, and these come to no more than the duration has at any time.
-/

namespace Cadence.Duration

open Text (digits_isDigit le_ofDigitChars toList_toString)

/-! ## 1. Numbers with units -/

structure Spells (unit : String) (u : TimeUnit) : Prop where
  reads : TimeUnit.ofText? unit = some u
  starts : unit.toList ≠ []
  letters : ∀ c ∈ unit.toList, isUnitLetter c = true
  /-- No letter is taken for a part of a number. -/
  apart : ∀ c ∈ unit.toList, c.isDigit = false ∧ Text.isBlank c = false

def unitTexts : List (Nat × String) → List Char
  | [] => []
  | [p] => Nat.toDigits 10 p.1 ++ p.2.toList
  | p :: q :: rest => Nat.toDigits 10 p.1 ++ p.2.toList ++ ' ' :: unitTexts (q :: rest)

theorem appendDigit_of_le {n : Nat} {c : Char} (hfits : 10 * n + (c.toNat - 48) ≤ maxWord) :
    appendDigit n c = .ok (10 * n + (c.toNat - 48)) := by
  have hproduct : checkedMul n 10 = .ok (10 * n) := by
    rw [checkedMul, if_pos (by omega), Nat.mul_comm]
  rw [appendDigit, hproduct]
  exact checkedAdd_of_le hfits

/-- Digits are read up to the letter that begins the unit. -/
theorem numberTail_digits {ds : List Char} {n : Nat} (hdigits : ∀ c ∈ ds, c.isDigit = true)
    (hfits : Nat.ofDigitChars 10 ds n ≤ maxWord) {l : Char} (hletter : isUnitLetter l = true)
    (hapart : l.isDigit = false ∧ Text.isBlank l = false) (rest : List Char) (offset : Nat) :
    ∃ stop, numberTail n offset (ds ++ l :: rest) =
      .ok (Nat.ofDigitChars 10 ds n, none, ⟨stop, l :: rest⟩) := by
  induction ds generalizing n offset with
  | nil => exact ⟨offset, by simp [numberTail, hapart.1, hapart.2, hletter, Nat.ofDigitChars_nil]⟩
  | cons c ds ih =>
    have hdigit : c.isDigit = true := hdigits c List.mem_cons_self
    have hlater : ∀ c ∈ ds, c.isDigit = true := fun c hmem => hdigits c (List.mem_cons_of_mem _ hmem)
    rw [Nat.ofDigitChars_cons] at hfits ⊢
    have happended : appendDigit n c = .ok (10 * n + (c.toNat - 48)) :=
      appendDigit_of_le (Nat.le_trans (le_ofDigitChars ds _) hfits)
    obtain ⟨stop, hread⟩ := ih hlater hfits (offset + c.utf8Size)
    refine ⟨stop, ?_⟩
    rw [List.cons_append, numberTail, if_pos hdigit, happended]
    exact hread

theorem unitTexts_cons (n : Nat) (unit : String) (rest : List (Nat × String)) :
    unitTexts ((n, unit) :: rest) = Nat.toDigits 10 n ++ unit.toList ++
      (if rest = [] then [] else ' ' :: unitTexts rest) := by
  cases rest with
  | nil => exact (List.append_nil _).symm
  | cons q rest => rfl

/-- The first character is a digit, and with the others it makes up the number. -/
theorem toDigits_eq_cons (n : Nat) : ∃ c ds, Nat.toDigits 10 n = c :: ds ∧ c.isDigit = true ∧
    (∀ d ∈ ds, d.isDigit = true) ∧ Nat.ofDigitChars 10 ds (c.toNat - 48) = n := by
  cases hsplit : Nat.toDigits 10 n with
  | nil => exact absurd hsplit Nat.toDigits_ne_nil
  | cons c ds =>
    have hdigits : ∀ d ∈ c :: ds, d.isDigit = true := by
      rw [← hsplit]
      exact fun d => digits_isDigit
    have hvalue : Nat.ofDigitChars 10 (c :: ds) 0 = n := by
      rw [← hsplit, Nat.ofDigitChars_ten_toDigits]
    rw [Nat.ofDigitChars_cons, Nat.mul_zero, Nat.zero_add] at hvalue
    exact ⟨c, ds, rfl, hdigits c List.mem_cons_self,
      fun d hmem => hdigits d (List.mem_cons_of_mem _ hmem),
      hvalue⟩

/-- What comes after a unit is the end of the text or a blank, and no letter. -/
theorem takeWhile_unit {unit : String} {u : TimeUnit} (hspelled : Spells unit u) {tail : List Char}
    (hends : tail = [] ∨ ∃ rest, tail = ' ' :: rest) :
    (unit.toList ++ tail).takeWhile isUnitLetter = unit.toList ∧
      (unit.toList ++ tail).dropWhile isUnitLetter = tail := by
  rw [List.takeWhile_append_of_pos hspelled.letters, List.dropWhile_append_of_pos hspelled.letters]
  rcases hends with rfl | ⟨rest, rfl⟩
  · exact ⟨List.append_nil _, rfl⟩
  · exact ⟨List.append_nil _, rfl⟩

/-- A number in front of a unit is read back. -/
theorem numberTail_unit {n : Nat} (hsmall : n ≤ maxWord) {unit : String} {u : TimeUnit}
    (hspelled : Spells unit u) : ∃ c ds, Nat.toDigits 10 n = c :: ds ∧ c.isDigit = true ∧
      ∀ tail offset, ∃ stop, numberTail (c.toNat - 48) offset (ds ++ (unit.toList ++ tail)) =
        .ok (n, none, ⟨stop, unit.toList ++ tail⟩) := by
  obtain ⟨c, ds, hsplit, hdigit, hdigits, hvalue⟩ := toDigits_eq_cons n
  obtain ⟨l, ls, hletters⟩ := List.exists_cons_of_ne_nil hspelled.starts
  have hfirst : l ∈ unit.toList := by
    rw [hletters]
    exact List.mem_cons_self
  refine ⟨c, ds, hsplit, hdigit, fun tail offset => ?_⟩
  obtain ⟨stop, hnumber⟩ := numberTail_digits hdigits (by rw [hvalue]; exact hsmall)
    (hspelled.letters l hfirst) (hspelled.apart l hfirst) (ls ++ tail) offset
  rw [hvalue] at hnumber
  rw [hletters]
  exact ⟨stop, hnumber⟩

/-- Numbers with units are read one after the other, each from its first digit on. -/
theorem partAmounts_unitTexts (p : Nat × String) (ps : List (Nat × String))
    (hsmall : ∀ q ∈ p :: ps, q.1 ≤ maxWord) (hspelled : ∀ q ∈ p :: ps, ∃ u, Spells q.2 u) :
    ∃ c cs, unitTexts (p :: ps) = c :: cs ∧ c.isDigit = true ∧
      ∀ fuel offset, ps.length < fuel → partAmounts fuel (c.toNat - 48) ⟨offset, cs⟩ =
        (p :: ps).flatMap fun q => unitAmounts q.1 none q.2 := by
  induction ps generalizing p with
  | nil =>
    obtain ⟨u, hspells⟩ := hspelled p List.mem_cons_self
    obtain ⟨c, ds, hsplit, hdigit, hread⟩ := numberTail_unit (hsmall p List.mem_cons_self) hspells
    obtain ⟨htaken, hdropped⟩ := takeWhile_unit hspells (Or.inl rfl)
    refine ⟨c, ds ++ p.2.toList, by rw [unitTexts, hsplit]; rfl, hdigit, fun fuel offset henough => ?_⟩
    obtain ⟨stop, hnumber⟩ := hread [] offset
    obtain ⟨fuel, rfl⟩ := Nat.exists_eq_succ_of_ne_zero (Nat.ne_of_gt henough)
    rw [List.append_nil] at hnumber htaken hdropped
    rw [partAmounts, hnumber]
    simp only [htaken, hdropped, String.ofList_toList, List.flatMap_singleton]
  | cons q rest ih =>
    obtain ⟨u, hspells⟩ := hspelled p List.mem_cons_self
    obtain ⟨c, ds, hsplit, hdigit, hread⟩ := numberTail_unit (hsmall p List.mem_cons_self) hspells
    obtain ⟨htaken, hdropped⟩ := takeWhile_unit hspells (Or.inr ⟨unitTexts (q :: rest), rfl⟩)
    obtain ⟨c', cs', hnext, hdigit', hlater⟩ :=
      ih q (fun r hmem => hsmall r (List.mem_cons_of_mem _ hmem))
      (fun r hmem => hspelled r (List.mem_cons_of_mem _ hmem))
    rw [hnext] at htaken hdropped
    refine ⟨c, ds ++ (p.2.toList ++ ' ' :: c' :: cs'), ?_, hdigit, fun fuel offset henough => ?_⟩
    · rw [unitTexts, hsplit, hnext, List.append_assoc]
      rfl
    obtain ⟨stop, hnumber⟩ := hread (' ' :: c' :: cs') offset
    obtain ⟨fuel, rfl⟩ := Nat.exists_eq_succ_of_ne_zero (Nat.ne_of_gt (Nat.zero_lt_of_lt henough))
    -- The blank ends the unit, and the next part begins with a digit.
    have hblank : ' '.isDigit = false ∧ Text.isBlank ' ' = true := by decide
    rw [partAmounts, hnumber]
    simp only [htaken, hdropped, hblank.1, hblank.2, firstDigit, hdigit', String.ofList_toList,
      if_true, Bool.false_eq_true, if_false]
    exact congrArg _ (hlater fuel _ (Nat.lt_of_succ_lt_succ henough))

/-! ## 2. Sums of parts -/

def unitWorth (unit : String) : Nat × Nat :=
  ((TimeUnit.ofText? unit).map TimeUnit.amount).getD (0, 0)

def secondsIn (ps : List (Nat × String)) : Nat :=
  (ps.map fun p => p.1 * (unitWorth p.2).1).sum

def nanosIn (ps : List (Nat × String)) : Nat :=
  (ps.map fun p => p.1 * (unitWorth p.2).2).sum

theorem secondsIn_nil : secondsIn [] = 0 := List.sum_nil

theorem nanosIn_nil : nanosIn [] = 0 := List.sum_nil

theorem secondsIn_cons (p : Nat × String) (ps : List (Nat × String)) :
    secondsIn (p :: ps) = p.1 * (unitWorth p.2).1 + secondsIn ps := List.sum_cons

theorem nanosIn_cons (p : Nat × String) (ps : List (Nat × String)) :
    nanosIn (p :: ps) = p.1 * (unitWorth p.2).2 + nanosIn ps := List.sum_cons

theorem unitAmounts_of_fits {p : Nat × String} {u : TimeUnit} (hspelled : Spells p.2 u)
    (hseconds : p.1 * (unitWorth p.2).1 ≤ maxWord) (hnanos : p.1 * (unitWorth p.2).2 ≤ maxWord) :
    unitAmounts p.1 none p.2 = [.ok (p.1 * (unitWorth p.2).1, p.1 * (unitWorth p.2).2)] := by
  have hworth : unitWorth p.2 = u.amount := by rw [unitWorth, hspelled.reads]; rfl
  rw [hworth] at hseconds hnanos ⊢
  rw [unitAmounts, hspelled.reads]
  simp only [wholeAmount, checkedMul, if_pos hseconds, if_pos hnanos]
  rfl

/-- Short of a full second nothing is carried. -/
theorem add_of_fits {d : Duration} {seconds nanos : Nat} (hfits : d.seconds + seconds ≤ maxWord)
    (hsmall : d.nanos + nanos < 1000000000) :
    d.add seconds nanos = .ok ⟨d.seconds + seconds, d.nanos + nanos, hfits, hsmall⟩ := by
  have hwithin : d.nanos + nanos ≤ maxWord := Nat.le_trans (Nat.le_of_lt hsmall) (by decide)
  have hwhole : (d.nanos + nanos) / 1000000000 = 0 := Nat.div_eq_of_lt hsmall
  have hrest : (d.nanos + nanos) % 1000000000 = d.nanos + nanos := Nat.mod_eq_of_lt hsmall
  rw [add, checkedAdd_of_le hwithin]
  simp only [bind, Except.bind, if_neg (Nat.lt_asymm hsmall), pure, Except.pure]
  rw [checkedAdd_of_le hfits]
  simp only [hwhole, hrest, Nat.add_zero, mk?, dif_pos (And.intro hfits hsmall)]

/-- Parts that make up a duration with no carry are added up to it. -/
theorem foldlM_parts (ps : List (Nat × String)) (hspelled : ∀ q ∈ ps, ∃ u, Spells q.2 u)
    (d d' : Duration) (hseconds : d.seconds + secondsIn ps = d'.seconds)
    (hnanos : d.nanos + nanosIn ps = d'.nanos) :
    (ps.flatMap fun q => unitAmounts q.1 none q.2).foldlM accumulate d = .ok d' := by
  have hlarge := d'.seconds_le
  have hsmall := d'.nanos_lt
  induction ps generalizing d with
  | nil =>
    cases d
    cases d'
    cases hseconds
    cases hnanos
    rfl
  | cons p ps ih =>
    obtain ⟨u, hspells⟩ := hspelled p List.mem_cons_self
    rw [secondsIn_cons] at hseconds
    rw [nanosIn_cons] at hnanos
    -- What is added so far is a part of `d'`, so it fits.
    have hfits : d.seconds + p.1 * (unitWorth p.2).1 ≤ maxWord := by omega
    have hbelow : d.nanos + p.1 * (unitWorth p.2).2 < 1000000000 := by omega
    have hwithin : p.1 * (unitWorth p.2).2 ≤ maxWord := by
      simp only [maxWord]
      omega
    rw [List.flatMap_cons, unitAmounts_of_fits hspells (by omega) hwithin, List.singleton_append,
      List.foldlM_cons, accumulate_ok, add_of_fits hfits hbelow]
    refine ih (fun q hmem => hspelled q (List.mem_cons_of_mem _ hmem)) _ ?_ ?_
    · show d.seconds + p.1 * (unitWorth p.2).1 + secondsIn ps = d'.seconds
      omega
    · show d.nanos + p.1 * (unitWorth p.2).2 + nanosIn ps = d'.nanos
      omega

/-- No part is more than all of them together. -/
theorem le_of_mem_parts {ps : List (Nat × String)} {q : Nat × String} (hmem : q ∈ ps) :
    q.1 * (unitWorth q.2).1 ≤ secondsIn ps ∧ q.1 * (unitWorth q.2).2 ≤ nanosIn ps := by
  induction ps with
  | nil => cases hmem
  | cons p ps ih =>
    rw [secondsIn_cons, nanosIn_cons]
    rcases List.mem_cons.1 hmem with rfl | hmem
    · omega
    · have hlater := ih hmem
      omega

theorem one_le_amount (u : TimeUnit) : 1 ≤ u.amount.1 ∨ 1 ≤ u.amount.2 := by
  cases u <;> decide

theorem length_le_unitTexts (ps : List (Nat × String)) : ps.length ≤ (unitTexts ps).length := by
  induction ps with
  | nil => exact Nat.le_refl _
  | cons p ps ih =>
    have hdigits : 0 < (Nat.toDigits 10 p.1).length := List.length_pos_iff.2 Nat.toDigits_ne_nil
    rw [unitTexts_cons]
    split
    · rename_i hnone
      simp only [hnone, List.length_append, List.length_cons, List.length_nil]
      omega
    · simp only [List.length_append, List.length_cons]
      omega

/-- A text of numbers with units is read as the duration that they make up. -/
theorem ofText_of_parts {s : String} {d : Duration} {ps : List (Nat × String)} (hsome : ps ≠ [])
    (hwritten : s.toList = unitTexts ps) (hspelled : ∀ q ∈ ps, ∃ u, Spells q.2 u)
    (hseconds : secondsIn ps = d.seconds) (hnanos : nanosIn ps = d.nanos) : ofText s = .ok d := by
  have hlarge := d.seconds_le
  have hsmall := d.nanos_lt
  have hnumbers : ∀ q ∈ ps, q.1 ≤ maxWord := by
    intro q hmem
    obtain ⟨u, hspells⟩ := hspelled q hmem
    have hworth : unitWorth q.2 = u.amount := by rw [unitWorth, hspells.reads]; rfl
    obtain ⟨hbySeconds, hbyNanos⟩ := le_of_mem_parts hmem
    rw [hworth] at hbySeconds hbyNanos
    simp only [maxWord] at hlarge ⊢
    rcases one_le_amount u with hone | hone
    · have := Nat.le_mul_of_pos_right q.1 hone
      omega
    · have := Nat.le_mul_of_pos_right q.1 hone
      omega
  obtain ⟨p, ps, rfl⟩ := List.exists_cons_of_ne_nil hsome
  have hlong : (p :: ps).length ≤ s.length := by
    rw [← String.length_toList, hwritten]
    exact length_le_unitTexts _
  -- A number and a unit take up two characters at least.
  have hnotLone : s ≠ "0" := by
    rintro rfl
    obtain ⟨u, hspells⟩ := hspelled p List.mem_cons_self
    have hdigits : 0 < (Nat.toDigits 10 p.1).length := List.length_pos_iff.2 Nat.toDigits_ne_nil
    have hletters : 0 < p.2.toList.length := List.length_pos_iff.2 hspells.starts
    have hone := congrArg List.length hwritten
    rw [unitTexts_cons, List.length_append, List.length_append] at hone
    have hlone : "0".toList.length = 1 := by decide
    omega
  obtain ⟨c, cs, hsplit, hdigit, hread⟩ := partAmounts_unitTexts p ps hnumbers hspelled
  rw [ofText_eq, amounts, if_neg hnotLone, hwritten, hsplit, firstDigit, if_pos hdigit]
  simp only [Place.past, hread _ _ (Nat.lt_succ_of_lt hlong)]
  refine foldlM_parts _ hspelled _ _ ?_ ?_
  · rw [hseconds]
    exact Nat.zero_add _
  · rw [hnanos]
    exact Nat.zero_add _

/-! ## 3. What is written -/

instance (unit : String) (u : TimeUnit) : Decidable (Spells unit u) :=
  have : Decidable (∀ c ∈ unit.toList,
      isUnitLetter c = true ∧ c.isDigit = false ∧ Text.isBlank c = false) := List.decidableBAll _ _
  decidable_of_iff
    (TimeUnit.ofText? unit = some u ∧ unit.toList ≠ [] ∧
      ∀ c ∈ unit.toList, isUnitLetter c = true ∧ c.isDigit = false ∧ Text.isBlank c = false)
    ⟨fun ⟨hreads, hstarts, hapart⟩ => ⟨hreads, hstarts, fun c hmem => (hapart c hmem).1,
      fun c hmem => (hapart c hmem).2⟩,
      fun hspelled => ⟨hspelled.reads, hspelled.starts, fun c hmem =>
        ⟨hspelled.letters c hmem, hspelled.apart c hmem⟩⟩⟩

theorem spells_short : Spells "h" .hour ∧ Spells "m" .minute ∧ Spells "s" .second ∧
    Spells "ms" .millisecond ∧ Spells "us" .microsecond ∧ Spells "ns" .nanosecond := by decide

/-- One and many of a unit are both spelled out. -/
theorem spells_plural (n : Nat) : Spells (if n = 1 then "year" else "year" ++ "s") .year ∧
    Spells (if n = 1 then "month" else "month" ++ "s") .month ∧
    Spells (if n = 1 then "day" else "day" ++ "s") .day := by
  split <;> decide

theorem unitWorth_of_spells {unit : String} {u : TimeUnit} (hspelled : Spells unit u) :
    unitWorth unit = u.amount := by
  rw [unitWorth, hspelled.reads]
  rfl

theorem breakdown_spells (d : Duration) : ∀ q ∈ d.breakdown, ∃ u, Spells q.2 u := by
  obtain ⟨h, hm, hs, hms, hus, hns⟩ := spells_short
  simp only [breakdown, List.forall_mem_cons]
  exact ⟨⟨_, (spells_plural _).1⟩, ⟨_, (spells_plural _).2.1⟩, ⟨_, (spells_plural _).2.2⟩,
    ⟨_, h⟩, ⟨_, hm⟩, ⟨_, hs⟩, ⟨_, hms⟩, ⟨_, hus⟩, ⟨_, hns⟩, List.forall_mem_nil _⟩

/-- A duration is the sum of its parts. -/
theorem breakdown_sums (d : Duration) :
    secondsIn d.breakdown = d.seconds ∧ nanosIn d.breakdown = d.nanos := by
  have hsmall := d.nanos_lt
  obtain ⟨h, hm, hs, hms, hus, hns⟩ := spells_short
  have hyears (n : Nat) := unitWorth_of_spells (spells_plural n).1
  have hmonths (n : Nat) := unitWorth_of_spells (spells_plural n).2.1
  have hdays (n : Nat) := unitWorth_of_spells (spells_plural n).2.2
  simp only [breakdown, secondsIn_cons, nanosIn_cons, hyears, hmonths, hdays, unitWorth_of_spells h,
    unitWorth_of_spells hm, unitWorth_of_spells hs, unitWorth_of_spells hms, unitWorth_of_spells hus,
    unitWorth_of_spells hns, secondsIn_nil, nanosIn_nil, TimeUnit.amount]
  simp only [TimeUnit.secondsPerYear, TimeUnit.secondsPerMonth]
  omega

/-- Parts that are left out come to nothing. -/
theorem secondsIn_filter (ps : List (Nat × String)) :
    secondsIn (ps.filter fun p => p.1 ≠ 0) = secondsIn ps := by
  induction ps with
  | nil => rfl
  | cons p ps ih =>
    rw [List.filter_cons]
    split
    · rw [secondsIn_cons, secondsIn_cons, ih]
    · rename_i hnothing
      have hnothing : p.1 = 0 := by simpa using hnothing
      rw [secondsIn_cons, hnothing, ih, Nat.zero_mul, Nat.zero_add]

theorem nanosIn_filter (ps : List (Nat × String)) :
    nanosIn (ps.filter fun p => p.1 ≠ 0) = nanosIn ps := by
  induction ps with
  | nil => rfl
  | cons p ps ih =>
    rw [List.filter_cons]
    split
    · rw [nanosIn_cons, nanosIn_cons, ih]
    · rename_i hnothing
      have hnothing : p.1 = 0 := by simpa using hnothing
      rw [nanosIn_cons, hnothing, ih, Nat.zero_mul, Nat.zero_add]

/-- The parts that are written, of which there is at least one. -/
def writtenParts (d : Duration) : List (Nat × String) :=
  if d.isZero then [(0, "s")] else d.breakdown.filter fun part => part.1 ≠ 0

/-- The parts of a duration joined by blanks are its text. -/
theorem intercalate_parts (ps : List (Nat × String)) :
    (String.intercalate " " (ps.map fun part => toString part.1 ++ part.2)).toList = unitTexts ps := by
  induction ps with
  | nil => rfl
  | cons p ps ih =>
    cases ps with
    | nil =>
      rw [List.map_singleton, String.toList_intercalate, List.map_singleton, List.intercalate_singleton,
        String.toList_append, toList_toString]
      rfl
    | cons q rest =>
      rw [List.map_cons] at ih ⊢
      rw [List.map_cons, String.intercalate_cons_cons, String.toList_append, ih, String.toList_append,
        String.toList_append, toList_toString, unitTexts, List.append_assoc]
      rfl

theorem toList_text (d : Duration) : d.text.toList = unitTexts d.writtenParts := by
  rw [text, writtenParts]
  split
  · decide
  · exact intercalate_parts _

theorem writtenParts_sums (d : Duration) :
    secondsIn d.writtenParts = d.seconds ∧ nanosIn d.writtenParts = d.nanos := by
  rw [writtenParts]
  split
  · rename_i hnothing
    rw [isZero, Bool.and_eq_true, beq_iff_eq, beq_iff_eq] at hnothing
    rw [hnothing.1, hnothing.2]
    decide
  · rw [secondsIn_filter, nanosIn_filter]
    exact breakdown_sums d

theorem writtenParts_ne_nil (d : Duration) : d.writtenParts ≠ [] := by
  intro hnone
  obtain ⟨hseconds, hnanos⟩ := writtenParts_sums d
  rw [hnone, secondsIn_nil] at hseconds
  rw [hnone, nanosIn_nil] at hnanos
  have hnothing : d.isZero = true := by rw [isZero, ← hseconds, ← hnanos]; rfl
  rw [writtenParts, if_pos hnothing] at hnone
  cases hnone

theorem writtenParts_spells (d : Duration) : ∀ q ∈ d.writtenParts, ∃ u, Spells q.2 u := by
  rw [writtenParts]
  split
  · exact List.forall_mem_singleton.2 ⟨_, spells_short.2.2.1⟩
  · exact fun q hmem => breakdown_spells d q (List.mem_filter.1 hmem).1

/-- Whatever duration is written, it is read back. -/
theorem ofText_text (d : Duration) : ofText d.text = .ok d :=
  ofText_of_parts d.writtenParts_ne_nil (toList_text d) d.writtenParts_spells
    (writtenParts_sums d).1 (writtenParts_sums d).2

end Cadence.Duration
