import Cadence.Duration.Read
import Mathlib.Algebra.GroupWithZero.Nat

/-!
# Durations as sums

A text names amounts of seconds and nanoseconds one after the other, up to the first place where it goes
wrong (`amounts`), and to read it is to add them up (`ofText_eq`).  The reader breaks down exactly on a
text that brims: nanoseconds fill up the last second that there is, so that the sum comes to `2 ^ 64`
seconds and not one nanosecond more or less (`ofText_eq_carryOverflow_iff`).
-/

namespace Cadence

/-! ## 1. Folds that can fail -/

/-- A fold fails at one place, where all before it went well. -/
theorem foldlM_eq_error_iff {α β ε : Type} (f : β → α → Except ε β) (xs : List α) (b : β) (e : ε) :
    xs.foldlM f b = .error e ↔
      ∃ before x after c, xs = before ++ x :: after ∧ before.foldlM f b = .ok c ∧ f c x = .error e := by
  constructor
  · intro hfailed
    induction xs generalizing b with
    | nil => cases hfailed
    | cons x rest ih =>
      rw [List.foldlM_cons] at hfailed
      cases hfirst : f b x with
      | error e' =>
        rw [hfirst] at hfailed
        exact ⟨[], x, rest, b, rfl, rfl, hfirst.trans hfailed⟩
      | ok c =>
        rw [hfirst] at hfailed
        obtain ⟨before, y, after, d, hsplit, hwell, hwrong⟩ := ih c hfailed
        refine ⟨x :: before, y, after, d, by rw [hsplit]; rfl, ?_, hwrong⟩
        rw [List.foldlM_cons, hfirst]
        exact hwell
  · rintro ⟨before, x, after, c, rfl, hwell, hwrong⟩
    rw [List.foldlM_append, hwell]
    show (x :: after).foldlM f c = _
    rw [List.foldlM_cons, hwrong]
    rfl

namespace Duration

/-! ## 2. Amounts -/

abbrev Amount := Except ReadError (Nat × Nat)

def wholeAmount (number : Nat) (u : TimeUnit) : Amount := do
  let seconds ← checkedMul number u.amount.1
  let nanos ← checkedMul number u.amount.2
  return (seconds, nanos)

def fractionAmount (f : Fraction) (u : TimeUnit) : Amount :=
  match u.fractionAmount? with
  | none => .error .tooLarge
  | some (seconds, nanos) => do
    let seconds ← exactDiv (← checkedMul f.numerator seconds) f.denominator
    let nanos ← exactDiv (← checkedMul f.numerator nanos) f.denominator
    return (seconds, nanos)

def unitAmounts (number : Nat) (fraction : Option Fraction) (unit : String) : List Amount :=
  match TimeUnit.ofText? unit with
  | none => [.error (.unknownUnit number unit)]
  | some u => wholeAmount number u :: (fraction.map (fractionAmount · u)).toList

def partAmounts : Nat → Nat → Place → List Amount
  | 0, _, _ => []
  | fuel + 1, digit, place =>
    match numberTail digit place.offset place.rest with
    | .error e => [.error e]
    | .ok (number, fraction, place) =>
      let letters := place.rest.takeWhile isUnitLetter
      let stop := place.offset + (String.ofList letters).utf8ByteSize
      match place.rest.dropWhile isUnitLetter with
      | [] => unitAmounts number fraction (String.ofList letters)
      | c :: cs =>
        if c.isDigit then
          unitAmounts number fraction (String.ofList letters) ++
            partAmounts fuel (c.toNat - 48) (.past stop c cs)
        else if Text.isBlank c then
          unitAmounts number fraction (String.ofList letters) ++
            match firstDigit (stop + c.utf8Size) (stop + c.utf8Size) cs with
            | .error e => [.error e]
            | .ok none => []
            | .ok (some (digit, place)) => partAmounts fuel digit place
        else [.error (.invalidCharacter stop)]

/-- The amounts that a text names, up to the first place where it goes wrong. -/
def amounts (s : String) : List Amount :=
  if s = "0" then []
  else
    match firstDigit 0 0 s.toList with
    | .error e => [.error e]
    | .ok none => [.error .empty]
    | .ok (some (digit, place)) => partAmounts (s.length + 1) digit place

def accumulate (d : Duration) (a : Amount) : Except ReadError Duration := do
  let (seconds, nanos) ← a
  d.add seconds nanos

/-- To add units is to add up the amounts that they stand for. -/
theorem addUnits_eq (d : Duration) (number : Nat) (fraction : Option Fraction) (unit : String) :
    d.addUnits number fraction unit = (unitAmounts number fraction unit).foldlM accumulate d := by
  rw [addUnits, unitAmounts]
  cases TimeUnit.ofText? unit with
  | none => rfl
  | some u =>
    cases fraction with
    | none =>
      have hsame (x : Except ReadError Duration) : (x >>= .ok) = x := bind_pure x
      simp [accumulate, wholeAmount, hsame]
    | some f =>
      cases hfractional : u.fractionAmount? with
      | none =>
        simp [accumulate, wholeAmount, fractionAmount, hfractional]
        rfl
      | some unit => simp [accumulate, wholeAmount, fractionAmount, hfractional]

/-- To read the parts of a duration is to add up the amounts that they name. -/
theorem parts_eq (fuel : Nat) (d : Duration) (digit : Nat) (place : Place) :
    parts fuel d digit place = (partAmounts fuel digit place).foldlM accumulate d := by
  induction fuel generalizing d digit place with
  | zero => rfl
  | succ fuel ih =>
    rw [parts, partAmounts]
    cases numberTail digit place.offset place.rest with
    | error e => rfl
    | ok tail =>
      obtain ⟨number, fraction, place⟩ := tail
      simp only [bind, Except.bind]
      -- Both go by what follows the unit: nothing, a digit, a blank, or anything else.
      cases place.rest.dropWhile isUnitLetter with
      | nil => exact addUnits_eq ..
      | cons c cs =>
        show (if c.isDigit then _ else if Text.isBlank c then _ else _) =
          List.foldlM _ _ (if c.isDigit then _ else if Text.isBlank c then _ else _)
        by_cases hdigit : c.isDigit = true
        · rw [if_pos hdigit, if_pos hdigit, List.foldlM_append, ← addUnits_eq]
          exact congrArg _ (funext fun d => ih d _ _)
        · by_cases hblank : Text.isBlank c = true
          · rw [if_neg hdigit, if_neg hdigit, if_pos hblank, if_pos hblank, List.foldlM_append,
              ← addUnits_eq]
            refine congrArg _ (funext fun d => ?_)
            cases firstDigit _ _ cs with
            | error e => rfl
            | ok found =>
              cases found with
              | none => rfl
              | some next => exact ih d next.1 next.2
          · rw [if_neg hdigit, if_neg hdigit, if_neg hblank, if_neg hblank]
            rfl

/-- To read a duration is to add up the amounts that its text names. -/
theorem ofText_eq (s : String) : ofText s = (amounts s).foldlM accumulate zero := by
  rw [ofText, amounts]
  by_cases hlone : s = "0"
  · rw [if_pos hlone, if_pos hlone]
    rfl
  · rw [if_neg hlone, if_neg hlone]
    cases firstDigit 0 0 s.toList with
    | error e => rfl
    | ok found =>
      cases found with
      | none => rfl
      | some next => exact parts_eq ..

/-! ## 3. Sums -/

def inNanos (d : Duration) : Nat := d.seconds * 1000000000 + d.nanos

def total (as : List Amount) : Nat :=
  (as.map fun a =>
    match a with
    | .ok (seconds, nanos) => seconds * 1000000000 + nanos
    | .error _ => 0).sum

theorem checkedAdd_of_le {a b : Nat} (hfits : a + b ≤ maxWord) : checkedAdd a b = .ok (a + b) :=
  if_pos hfits

theorem checkedAdd_of_lt {a b : Nat} (htooLarge : maxWord < a + b) :
    checkedAdd a b = .error .tooLarge :=
  if_neg (Nat.not_le.2 htooLarge)

/-- All that may become of a sum: it is too large, it comes to a full second more than the seconds hold,
or it is exact. -/
theorem add_cases (d : Duration) (seconds nanos : Nat) :
    d.add seconds nanos = .error .tooLarge ∨
      (d.add seconds nanos = .error .carryOverflow ∧
        d.seconds + seconds = maxWord ∧ d.nanos + nanos = 1000000000) ∨
      ∃ d', d.add seconds nanos = .ok d' ∧
        d'.inNanos = d.inNanos + (seconds * 1000000000 + nanos) := by
  have hsmall := d.nanos_lt
  have hlarge := d.seconds_le
  rcases Nat.lt_or_ge maxWord (d.nanos + nanos) with hmore | hfits
  · left
    rw [add, checkedAdd_of_lt hmore]
    rfl
  rw [add, checkedAdd_of_le hfits]
  simp only [bind, Except.bind]
  by_cases hcarries : 1000000000 < d.nanos + nanos
  · simp only [if_pos hcarries]
    rcases Nat.lt_or_ge maxWord (seconds + (d.nanos + nanos) / 1000000000) with hmore | hfits
    · left
      rw [checkedAdd_of_lt hmore]
    rw [checkedAdd_of_le hfits]
    rcases Nat.lt_or_ge maxWord (d.seconds + (seconds + (d.nanos + nanos) / 1000000000))
      with hmore | hfits
    · left
      simp only [checkedAdd_of_lt hmore]
    right
    right
    -- What has been carried is less than a second.
    have hrest : (d.nanos + nanos) % 1000000000 / 1000000000 = 0 := by omega
    have hbelow : (d.nanos + nanos) % 1000000000 % 1000000000 < 1000000000 := by omega
    simp only [checkedAdd_of_le hfits, hrest, Nat.add_zero, mk?, dif_pos (And.intro hfits hbelow)]
    refine ⟨_, rfl, ?_⟩
    simp only [inNanos]
    omega
  · simp only [if_neg hcarries, pure, Except.pure]
    rcases Nat.lt_or_ge maxWord (d.seconds + seconds) with hmore | hfits
    · left
      rw [checkedAdd_of_lt hmore]
    rw [checkedAdd_of_le hfits]
    have hbelow : (d.nanos + nanos) % 1000000000 < 1000000000 := by omega
    by_cases hroom : d.seconds + seconds + (d.nanos + nanos) / 1000000000 ≤ maxWord
    · right
      right
      simp only [mk?, dif_pos (And.intro hroom hbelow)]
      refine ⟨_, rfl, ?_⟩
      simp only [inNanos]
      omega
    · right
      left
      simp only [mk?, hroom, false_and, dite_false, true_and]
      omega

/-- A carry fails when the sum comes to exactly `2 ^ 64` seconds by nanoseconds that fill one second
at most.  A sum beyond that is noticed where it is added up, and reported. -/
theorem add_eq_carryOverflow_iff (d : Duration) (seconds nanos : Nat) :
    d.add seconds nanos = .error .carryOverflow ↔
      0 < nanos ∧ nanos ≤ 1000000000 ∧
        d.inNanos + (seconds * 1000000000 + nanos) = (maxWord + 1) * 1000000000 := by
  have hsmall := d.nanos_lt
  have hlarge := d.seconds_le
  constructor
  · intro hoverflow
    rcases add_cases d seconds nanos with htooLarge | ⟨-, hwhole, hfull⟩ | ⟨d', hadded, -⟩
    · rw [htooLarge] at hoverflow
      cases hoverflow
    · simp only [inNanos]
      omega
    · rw [hadded] at hoverflow
      cases hoverflow
  · rintro ⟨hsome, hatMost, hsum⟩
    simp only [inNanos] at hsum
    -- Nothing is carried while adding, since the nanoseconds come to one full second only.
    have hfull : d.nanos + nanos = 1000000000 := by omega
    have hwhole : d.seconds + seconds = maxWord := by omega
    have hfits : d.nanos + nanos ≤ maxWord := by
      rw [hfull]
      decide
    have hcarries : ¬ 1000000000 < d.nanos + nanos := by omega
    rw [add, checkedAdd_of_le hfits]
    simp only [bind, Except.bind, if_neg hcarries, pure, Except.pure]
    -- Put together, they would be one second more than there can be.
    have htooMany : ¬ (d.seconds + seconds + (d.nanos + nanos) / 1000000000 ≤ maxWord ∧
        (d.nanos + nanos) % 1000000000 < 1000000000) := by omega
    have habsent : mk? (d.seconds + seconds + (d.nanos + nanos) / 1000000000)
        ((d.nanos + nanos) % 1000000000) = none := dif_neg htooMany
    rw [checkedAdd_of_le (Nat.le_of_eq hwhole)]
    simp only [habsent]

theorem accumulate_ok (d : Duration) (seconds nanos : Nat) :
    d.accumulate (.ok (seconds, nanos)) = d.add seconds nanos := rfl

/-- Where adding up goes well, it is exact. -/
theorem inNanos_of_foldlM {as : List Amount} {d d' : Duration}
    (hwell : as.foldlM accumulate d = .ok d') : d'.inNanos = d.inNanos + total as := by
  induction as generalizing d with
  | nil =>
    cases hwell
    have hnothing : total [] = 0 := List.sum_nil
    rw [hnothing, Nat.add_zero]
  | cons a rest ih =>
    rw [List.foldlM_cons] at hwell
    cases a with
    | error e => cases hwell
    | ok amount =>
      obtain ⟨seconds, nanos⟩ := amount
      rw [accumulate_ok] at hwell
      rcases add_cases d seconds nanos with htooLarge | ⟨hoverflow, -⟩ | ⟨next, hadded, hexact⟩
      · rw [htooLarge] at hwell
        cases hwell
      · rw [hoverflow] at hwell
        cases hwell
      · rw [hadded] at hwell
        have hlater := ih hwell
        have hfirst : total (.ok (seconds, nanos) :: rest) =
            seconds * 1000000000 + nanos + total rest := List.sum_cons
        omega

/-! ## 4. Breaking down -/

/-- A text comes to exactly `2 ^ 64` seconds at one of its amounts, by at most a full second of
nanoseconds, and nothing goes wrong before. -/
def Brims (s : String) : Prop :=
  ∃ before seconds nanos after, amounts s = before ++ .ok (seconds, nanos) :: after ∧
    (∃ d, before.foldlM accumulate zero = .ok d) ∧ 0 < nanos ∧ nanos ≤ 1000000000 ∧
    total before + (seconds * 1000000000 + nanos) = (maxWord + 1) * 1000000000

def Reported {α : Type} (x : Except ReadError α) : Prop :=
  x ≠ .error .carryOverflow

theorem reported_ok {α : Type} (a : α) : Reported (.ok a) := by
  intro h
  cases h

theorem reported_error_iff {α : Type} {e : ReadError} :
    Reported (.error e : Except ReadError α) ↔ e ≠ .carryOverflow :=
  ⟨fun h hsame => h (by rw [hsame]), fun h hsame => h (by cases hsame; rfl)⟩

/-- The same problem is reported whatever was to be read. -/
theorem Reported.of_error {α β : Type} {x : Except ReadError α} {e : ReadError} (h : Reported x)
    (hwrong : x = .error e) : Reported (.error e : Except ReadError β) := by
  rw [hwrong, reported_error_iff] at h
  exact reported_error_iff.2 h

theorem Reported.bind {α β : Type} {x : Except ReadError α} {f : α → Except ReadError β}
    (hfirst : Reported x) (hnext : ∀ a, Reported (f a)) : Reported (x >>= f) := by
  cases x with
  | error e => exact fun h => hfirst (by cases h; rfl)
  | ok a => exact hnext a

theorem reported_checkedMul (a b : Nat) : Reported (checkedMul a b) := by
  rw [checkedMul]
  split <;> exact fun h => by cases h

theorem reported_checkedAdd (a b : Nat) : Reported (checkedAdd a b) := by
  rw [checkedAdd]
  split <;> exact fun h => by cases h

theorem reported_exactDiv (a b : Nat) : Reported (exactDiv a b) := by
  rw [exactDiv]
  split <;> exact fun h => by cases h

theorem reported_appendDigit (n : Nat) (c : Char) : Reported (appendDigit n c) :=
  (reported_checkedMul n 10).bind fun _ => reported_checkedAdd _ _

theorem reported_firstDigit (start offset : Nat) (cs : List Char) :
    Reported (firstDigit start offset cs) := by
  induction cs generalizing offset with
  | nil => exact reported_ok _
  | cons c cs ih =>
    rw [firstDigit]
    split
    · exact reported_ok _
    · split
      · exact ih _
      · exact fun h => by cases h

theorem reported_fractionDigits (reached offset : Nat) (f : Fraction) (cs : List Char) :
    Reported (fractionDigits reached offset f cs) := by
  induction cs generalizing reached offset f with
  | nil =>
    rw [fractionDigits]
    split <;> exact fun h => by cases h
  | cons c cs ih =>
    rw [fractionDigits]
    split
    · exact (reported_checkedMul _ _).bind fun _ =>
        (reported_appendDigit _ _).bind fun _ => ih _ _ _
    · split
      · exact ih _ _ _
      · split <;> exact fun h => by cases h

theorem reported_numberTail (n offset : Nat) (cs : List Char) : Reported (numberTail n offset cs) := by
  induction cs generalizing n offset with
  | nil => exact reported_ok _
  | cons c cs ih =>
    rw [numberTail]
    split
    · exact (reported_appendDigit _ _).bind fun _ => ih _ _
    · split
      · exact ih _ _
      · split
        · exact reported_ok _
        · split
          · exact (reported_fractionDigits _ _ _ _).bind fun _ => reported_ok _
          · exact fun h => by cases h

theorem reported_unitAmounts {number : Nat} {fraction : Option Fraction} {unit : String} {a : Amount}
    (hnamed : a ∈ unitAmounts number fraction unit) : Reported a := by
  rw [unitAmounts] at hnamed
  split at hnamed
  · rw [List.mem_singleton.1 hnamed]
    exact fun h => by cases h
  · rename_i u _
    rcases List.mem_cons.1 hnamed with rfl | hnamed
    · exact (reported_checkedMul _ _).bind fun _ => (reported_checkedMul _ _).bind fun _ =>
        reported_ok _
    · obtain ⟨f, -, rfl⟩ := Option.map_eq_some_iff.1 (Option.mem_toList.1 hnamed)
      rw [fractionAmount]
      split
      · exact fun h => by cases h
      · exact (reported_checkedMul _ _).bind fun _ => (reported_exactDiv _ _).bind fun _ =>
          (reported_checkedMul _ _).bind fun _ => (reported_exactDiv _ _).bind fun _ => reported_ok _

/-- Every problem that the text of a duration can name is reported; only the carry is not. -/
theorem reported_partAmounts {fuel digit : Nat} {place : Place} {a : Amount}
    (hnamed : a ∈ partAmounts fuel digit place) : Reported a := by
  induction fuel generalizing digit place with
  | zero => cases hnamed
  | succ fuel ih =>
    rw [partAmounts] at hnamed
    -- The cases are those of the reader, each with the reason why it gives up.
    split at hnamed
    · rename_i hwrong
      rw [List.mem_singleton.1 hnamed]
      exact (reported_numberTail _ _ _).of_error hwrong
    · simp only at hnamed
      split at hnamed
      · exact reported_unitAmounts hnamed
      · split at hnamed
        · rcases List.mem_append.1 hnamed with hnamed | hnamed
          · exact reported_unitAmounts hnamed
          · exact ih hnamed
        · split at hnamed
          · rcases List.mem_append.1 hnamed with hnamed | hnamed
            · exact reported_unitAmounts hnamed
            · split at hnamed
              · rename_i hwrong
                rw [List.mem_singleton.1 hnamed]
                exact (reported_firstDigit _ _ _).of_error hwrong
              · cases hnamed
              · exact ih hnamed
          · rw [List.mem_singleton.1 hnamed]
            exact reported_error_iff.2 fun h => by cases h

theorem reported_amounts {s : String} {a : Amount} (hnamed : a ∈ amounts s) : Reported a := by
  rw [amounts] at hnamed
  split at hnamed
  · cases hnamed
  · split at hnamed
    · rename_i hwrong
      rw [List.mem_singleton.1 hnamed]
      exact (reported_firstDigit _ _ _).of_error hwrong
    · rw [List.mem_singleton.1 hnamed]
      exact reported_error_iff.2 (by decide)
    · exact reported_partAmounts hnamed

/-- The reader breaks down on the texts that brim, and on no others. -/
theorem ofText_eq_carryOverflow_iff (s : String) : ofText s = .error .carryOverflow ↔ Brims s := by
  rw [ofText_eq, foldlM_eq_error_iff]
  constructor
  · rintro ⟨before, a, after, d, hsplit, hwell, hwrong⟩
    have hreported : Reported a := reported_amounts (by rw [hsplit]; exact List.mem_append_cons_self)
    cases a with
    | error e =>
      cases hwrong
      exact absurd rfl hreported
    | ok amount =>
      obtain ⟨seconds, nanos⟩ := amount
      obtain ⟨hsome, hatMost, hsum⟩ := (add_eq_carryOverflow_iff d seconds nanos).1 hwrong
      have hexact := inNanos_of_foldlM hwell
      have hnothing : zero.inNanos = 0 := rfl
      exact ⟨before, seconds, nanos, after, hsplit, ⟨d, hwell⟩, hsome, hatMost, by omega⟩
  · rintro ⟨before, seconds, nanos, after, hsplit, ⟨d, hwell⟩, hsome, hatMost, hsum⟩
    have hexact := inNanos_of_foldlM hwell
    have hnothing : zero.inNanos = 0 := rfl
    exact ⟨before, .ok (seconds, nanos), after, d, hsplit, hwell,
      (add_eq_carryOverflow_iff d seconds nanos).2 ⟨hsome, hatMost, by omega⟩⟩

end Duration

end Cadence
