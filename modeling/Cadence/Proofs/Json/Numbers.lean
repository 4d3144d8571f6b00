import Cadence.Json.Read
import Cadence.Proofs.Text.Digits
import Mathlib

/-!
# JSON numbers as they are written

Digits before the point, after it and in the exponent are read as they stand (`digits_text`), if what
follows does not go on with the number.  Where they fit in 64 bits, they are one significand and one
power of ten (`toNumeral_eq`).
-/

namespace Cadence.Json

open Text (digits_isDigit digit_ne head_toDigits le_ofDigitChars)

/-! ## 1. Rows of digits -/

theorem natOfDigits_eq (ds : List Char) : natOfDigits ds = Nat.ofDigitChars 10 ds 0 := by
  have hvalue (n : ℕ) : ds.foldl (fun n c => n * 10 + digitValue c) n = Nat.ofDigitChars 10 ds n := by
    induction ds generalizing n with
    | nil => rfl
    | cons c ds ih =>
      rw [List.foldl_cons, ih, Nat.ofDigitChars_cons, Nat.mul_comm]
      rfl
  exact hvalue 0

/-- Digits are appended as long as the number fits. -/
theorem appendDigits_eq {ds : List Char} {n : ℕ} (hfits : Nat.ofDigitChars 10 ds n ≤ maxWord) :
    appendDigits n ds = (Nat.ofDigitChars 10 ds n, ds.length) := by
  induction ds generalizing n with
  | nil => rfl
  | cons c ds ih =>
    have hnext : n * 10 + digitValue c = 10 * n + (c.toNat - '0'.toNat) := by
      rw [Nat.mul_comm]
      rfl
    rw [Nat.ofDigitChars_cons, ← hnext] at hfits ⊢
    rw [appendDigits, if_pos (Nat.le_trans (le_ofDigitChars ds _) hfits), ih hfits]
    rfl

def Ends (rest : List Char) : Prop :=
  ∀ c ∈ rest.head?, c.isDigit = false ∧ c ≠ '.' ∧ c ≠ 'e' ∧ c ≠ 'E'

def NoDigit (rest : List Char) : Prop :=
  ∀ c ∈ rest.head?, c.isDigit = false

theorem Ends.noDigit {rest : List Char} (hends : Ends rest) : NoDigit rest :=
  fun c hmem => (hends c hmem).1

structure IsRow (ds : List Char) : Prop where
  nonempty : ds ≠ []
  digits : ∀ c ∈ ds, c.isDigit = true

theorem isRow_toDigits (n : ℕ) : IsRow (Nat.toDigits 10 n) :=
  ⟨Nat.toDigits_ne_nil, fun _ => digits_isDigit⟩

/-- A row of digits is read up to its end. -/
theorem someDigits_append {ds rest : List Char} (hrow : IsRow ds) (hends : NoDigit rest)
    (missing : ReadError) : someDigits missing (ds ++ rest) = .ok (ds, rest) := by
  obtain ⟨hnonempty, hdigits⟩ := hrow
  have htaken : (ds ++ rest).takeWhile Char.isDigit = ds ∧
      (ds ++ rest).dropWhile Char.isDigit = rest := by
    rw [List.takeWhile_append_of_pos hdigits, List.dropWhile_append_of_pos hdigits]
    cases rest with
    | nil => exact ⟨List.append_nil ds, rfl⟩
    | cons c cs =>
      have hstop : c.isDigit = false := hends c rfl
      rw [List.takeWhile_cons, List.dropWhile_cons, hstop]
      exact ⟨List.append_nil ds, rfl⟩
  cases ds with
  | nil => exact absurd rfl hnonempty
  | cons c ds =>
    have hdigit : c.isDigit = true := hdigits c List.mem_cons_self
    rw [List.cons_append] at htaken ⊢
    rw [someDigits, if_pos hdigit, htaken.1, htaken.2]

/-! ## 2. Numbers -/

def fractionText : Option (List Char) → List Char
  | none => []
  | some fs => '.' :: fs

def exponentText : Option ℤ → List Char
  | none => []
  | some e => 'e' :: (if e < 0 then '-' else '+') :: Nat.toDigits 10 e.natAbs

namespace Digits

def text (d : Digits) : List Char :=
  d.whole ++ (fractionText d.fraction ++ exponentText d.exponent)

/-- The digits of a number that may be written: no zero in front of others, and none missing. -/
structure WellFormed (d : Digits) : Prop where
  whole : IsRow d.whole
  noZero : d.whole = ['0'] ∨ ∀ ds, d.whole ≠ '0' :: ds
  fraction : ∀ fs ∈ d.fraction, IsRow fs

def significand (d : Digits) : ℕ :=
  Nat.ofDigitChars 10 (d.whole ++ d.fraction.getD []) 0

def power (d : Digits) : ℤ :=
  d.exponent.getD 0 - (d.fraction.getD []).length

end Digits

theorem wholeDigits_append {ds rest : List Char} (hrow : IsRow ds)
    (hnoZero : ds = ['0'] ∨ ∀ tail, ds ≠ '0' :: tail) (hends : NoDigit rest) (missing : ReadError) :
    wholeDigits missing (ds ++ rest) = .ok (ds, rest) := by
  simp only [wholeDigits, someDigits_append hrow hends, bind, Except.bind]
  split
  · rename_i c cs
    rcases hnoZero with hone | hnoZero
    · cases hone
    · exact absurd rfl (hnoZero (c :: cs))
  · rfl

/-- An exponent part is read back. -/
theorem exponentPart_append {rest : List Char} (hends : Ends rest) (missing : ReadError)
    (e : Option ℤ) :
    exponentPart missing (exponentText e ++ rest) = .ok (e, rest) := by
  cases e with
  | none =>
    cases rest with
    | nil => rfl
    | cons c cs =>
      obtain ⟨-, -, hlower, hupper⟩ := hends c rfl
      show (if c = 'e' ∨ c = 'E' then _ else Except.ok (none, c :: cs)) = _
      rw [if_neg (by simp [hlower, hupper])]
  | some e =>
    have hdigits := someDigits_append (isRow_toDigits e.natAbs) hends.noDigit missing
    have hvalue : natOfDigits (Nat.toDigits 10 e.natAbs) = e.natAbs := by
      rw [natOfDigits_eq, Nat.ofDigitChars_ten_toDigits]
    by_cases hnegative : e < 0
    · have hsame : -(e.natAbs : ℤ) = e := by omega
      simp only [exponentText, if_pos hnegative, List.cons_append]
      show (someDigits missing (Nat.toDigits 10 e.natAbs ++ rest) >>= _) = _
      rw [hdigits]
      show Except.ok (some (-(natOfDigits (Nat.toDigits 10 e.natAbs) : ℤ)), rest) = _
      rw [hvalue, hsame]
    · have hsame : (e.natAbs : ℤ) = e := by omega
      simp only [exponentText, if_neg hnegative, List.cons_append]
      show (someDigits missing (Nat.toDigits 10 e.natAbs ++ rest) >>= _) = _
      rw [hdigits]
      show Except.ok (some (natOfDigits (Nat.toDigits 10 e.natAbs) : ℤ), rest) = _
      rw [hvalue, hsame]

theorem fractionDigits_append {rest : List Char} (hnoDigit : NoDigit rest)
    (hnoPoint : ∀ c ∈ rest.head?, c ≠ '.') (missing : ReadError) (fraction : Option (List Char))
    (hrow : ∀ fs ∈ fraction, IsRow fs) :
    fractionDigits missing (fractionText fraction ++ rest) = .ok (fraction, rest) := by
  cases fraction with
  | none =>
    rw [fractionText, List.nil_append, fractionDigits]
    rintro cs rfl
    exact hnoPoint '.' rfl rfl
  | some fs =>
    show (someDigits missing (fs ++ rest) >>= _) = _
    rw [someDigits_append (hrow fs rfl) hnoDigit]
    rfl

/-- An exponent part goes on with no digit and no point. -/
theorem exponentText_head {rest : List Char} (hends : Ends rest) (e : Option ℤ) :
    ∀ c ∈ (exponentText e ++ rest).head?, c.isDigit = false ∧ c ≠ '.' := by
  cases e with
  | none => exact fun c hmem => ⟨(hends c hmem).1, (hends c hmem).2.1⟩
  | some e =>
    rintro c ⟨⟩
    decide

/-- The digits of a number are read as they stand. -/
theorem digits_text {d : Digits} (hwf : d.WellFormed) {rest : List Char} (hends : Ends rest)
    (missing : ReadError) : digits missing (d.text ++ rest) = .ok (d, rest) := by
  have hhead := exponentText_head hends d.exponent
  have hexponent := exponentPart_append hends missing d.exponent
  rw [Digits.text, List.append_assoc, List.append_assoc]
  generalize exponentText d.exponent ++ rest = tail at hhead hexponent ⊢
  have hfraction :=
    fractionDigits_append (fun c hmem => (hhead c hmem).1) (fun c hmem => (hhead c hmem).2)
    missing d.fraction hwf.fraction
  have hafterWhole : NoDigit (fractionText d.fraction ++ tail) := by
    cases d.fraction with
    | none => exact fun c hmem => (hhead c hmem).1
    | some fs =>
      rintro c ⟨⟩
      rfl
  rw [digits, wholeDigits_append hwf.whole hwf.noZero hafterWhole]
  show (fractionDigits missing (fractionText d.fraction ++ tail) >>= _) = _
  rw [hfraction]
  show (exponentPart missing tail >>= _) = _
  rw [hexponent]
  rfl

/-- Where all digits fit in 64 bits, a number with a point or an exponent is one significand and one
power of ten. -/
theorem toNumeral_eq {d : Digits} (minus : Bool) (hfits : d.significand ≤ maxWord)
    (hnotWhole : d.fraction ≠ none ∨ d.exponent ≠ none)
    (hsmall : ∀ e ∈ d.exponent, e.natAbs ≤ maxExponent) :
    d.toNumeral minus = (floatOfParts minus d.significand d.power).map .float := by
  obtain ⟨whole, fraction, exponent⟩ := d
  simp only [Digits.significand, Nat.ofDigitChars_append, Digits.power] at *
  have hbefore := appendDigits_eq (Nat.le_trans (le_ofDigitChars _ _) hfits)
  have hafter := appendDigits_eq hfits
  simp only [Digits.toNumeral, hbefore, Nat.sub_self]
  -- Four ways to write the number, of which the one without a point and an exponent is excluded.
  cases fraction with
  | none =>
    cases exponent with
    | none => simp at hnotWhole
    | some e =>
      have hevaluated : ¬ maxExponent < e.natAbs := Int.not_lt.2 (hsmall e rfl)
      have hpower : ((0 : ℕ) : ℤ) - (0 : ℕ) + e = e - (0 : ℕ) := by omega
      simp only [if_neg hevaluated, hpower]
      rfl
  | some fs =>
    simp only [Option.getD_some] at hafter
    cases exponent with
    | none =>
      simp only [hafter]
      rfl
    | some e =>
      have hevaluated : ¬ maxExponent < e.natAbs := Int.not_lt.2 (hsmall e rfl)
      have hpower : ((0 : ℕ) : ℤ) - fs.length + e = e - fs.length := by omega
      simp only [hafter, if_neg hevaluated, hpower]
      rfl

/-! ## 3. Decimals -/

/-- A row of digits that starts with another digit than zero. -/
theorem exists_leading {n : ℕ} (hpos : 0 < n) :
    ∃ c ds, Nat.toDigits 10 n = c :: ds ∧ c ≠ '0' ∧ c.isDigit = true ∧ ∀ d ∈ ds, d.isDigit = true := by
  cases hsplit : Nat.toDigits 10 n with
  | nil => exact absurd hsplit Nat.toDigits_ne_nil
  | cons c ds =>
    have hdigits : ∀ d ∈ c :: ds, d.isDigit = true := by
      rw [← hsplit]
      exact fun d => digits_isDigit
    exact ⟨c, ds, rfl, head_toDigits hpos hsplit, hdigits c List.mem_cons_self,
      fun d hmem => hdigits d (List.mem_cons_of_mem _ hmem)⟩

/-- A text is read as a significand and a power of ten: it is that of well-formed digits, which have a
point or an exponent and come to that number. -/
structure ReadAs (text : List Char) (significand : ℕ) (power : ℤ) (d : Digits) : Prop where
  text : text = d.text
  wellFormed : d.WellFormed
  notWhole : d.fraction ≠ none ∨ d.exponent ≠ none
  evaluated : ∀ e ∈ d.exponent, e.natAbs ≤ maxExponent
  significand : d.significand = significand
  power : d.power = power

theorem text_pointed (whole fraction : List Char) :
    (⟨whole, some fraction, none⟩ : Digits).text = whole ++ '.' :: fraction := by
  rw [Digits.text, fractionText, exponentText, List.append_nil]

theorem isRow_append {ds es : List Char} (hrow : IsRow ds) (hdigits : ∀ c ∈ es, c.isDigit = true) :
    IsRow (ds ++ es) := by
  refine ⟨List.append_ne_nil_of_left_ne_nil hrow.nonempty es, fun c hmem => ?_⟩
  rcases List.mem_append.1 hmem with hfront | hback
  · exact hrow.digits c hfront
  · exact hdigits c hback

theorem replicate_isDigit (k : ℕ) : ∀ c ∈ List.replicate k '0', c.isDigit = true := by
  intro c hmem
  rw [List.eq_of_mem_replicate hmem]
  rfl

/-- A whole number without an exponent part is written with a zero after the point. -/
theorem readAs_whole {n : ℕ} (hpos : 0 < n) (k : ℕ) :
    ReadAs (Number.positionalText true (Nat.toDigits 10 n) k) (n * 10 ^ (k + 1)) (-1)
      ⟨Nat.toDigits 10 n ++ List.replicate k '0', some ['0'], none⟩ where
  text := by
    rw [Number.positionalText, if_pos (by omega), Int.toNat_natCast, text_pointed]
    rfl
  wellFormed := by
    obtain ⟨c, ds, hsplit, hnotZero, -⟩ := exists_leading hpos
    refine ⟨isRow_append (isRow_toDigits n) (replicate_isDigit k), .inr fun tail hsame => ?_, ?_⟩
    · rw [hsplit] at hsame
      exact hnotZero (List.cons.inj hsame).1
    · rintro fs ⟨⟩
      exact isRow_toDigits 0
  notWhole := .inl nofun
  evaluated := nofun
  significand := by
    rw [Digits.significand, Nat.ofDigitChars_append, Nat.ofDigitChars_append,
      Nat.ofDigitChars_ten_toDigits, Nat.ofDigitChars_replicate_zero]
    show Nat.ofDigitChars 10 ['0'] (10 ^ k * n) = n * 10 ^ (k + 1)
    rw [Nat.ofDigitChars_cons, Nat.ofDigitChars_nil, Nat.pow_succ]
    show 10 * (10 ^ k * n) + 0 = _
    rw [Nat.add_zero, Nat.mul_comm (10 ^ k), Nat.mul_comm 10, Nat.mul_assoc]
  power := rfl

/-- A decimal with at least as many places as digits is written behind zeros. -/
theorem readAs_small {n : ℕ} {k : ℕ} (hplaces : 0 < k) (hshort : (Nat.toDigits 10 n).length ≤ k) :
    ReadAs (Number.positionalText true (Nat.toDigits 10 n) (-k)) n (-k)
      ⟨['0'], some (List.replicate (k - (Nat.toDigits 10 n).length) '0' ++ Nat.toDigits 10 n), none⟩ where
  text := by
    have hcount : (-(-(k : ℤ))).toNat = k := by omega
    rw [Number.positionalText, if_neg (by omega)]
    simp only [hcount, if_neg (Nat.not_lt.2 hshort), text_pointed]
    rfl
  wellFormed := by
    refine ⟨isRow_toDigits 0, .inl rfl, ?_⟩
    rintro fs ⟨⟩
    refine ⟨List.append_ne_nil_of_right_ne_nil _ Nat.toDigits_ne_nil, fun c hmem => ?_⟩
    rcases List.mem_append.1 hmem with hfront | hback
    · exact replicate_isDigit _ c hfront
    · exact digits_isDigit hback
  notWhole := .inl nofun
  evaluated := nofun
  significand := by
    rw [Digits.significand, Nat.ofDigitChars_append, Option.getD_some, Nat.ofDigitChars_append]
    show Nat.ofDigitChars 10 _ (Nat.ofDigitChars 10 _ 0) = n
    rw [Nat.ofDigitChars_replicate_zero]
    exact Nat.ofDigitChars_ten_toDigits
  power := by
    simp only [Digits.power, Option.getD_some, Option.getD_none, List.length_append,
      List.length_replicate]
    omega

/-- A decimal with more digits than places is cut by the point. -/
theorem readAs_cut {n : ℕ} (hpos : 0 < n) {k : ℕ} (hplaces : 0 < k)
    (hlong : k < (Nat.toDigits 10 n).length) :
    ReadAs (Number.positionalText true (Nat.toDigits 10 n) (-k)) n (-k)
      ⟨(Nat.toDigits 10 n).take ((Nat.toDigits 10 n).length - k),
        some ((Nat.toDigits 10 n).drop ((Nat.toDigits 10 n).length - k)), none⟩ where
  text := by
    have hcount : (-(-(k : ℤ))).toNat = k := by omega
    rw [Number.positionalText, if_neg (by omega)]
    simp only [hcount, if_pos hlong, text_pointed]
  wellFormed := by
    obtain ⟨c, ds, hsplit, hnotZero, -⟩ := exists_leading hpos
    refine ⟨⟨?_, fun d hmem => digits_isDigit (List.mem_of_mem_take hmem)⟩,
      .inr fun tail hsame => ?_, ?_⟩
    · rw [← List.length_pos_iff, List.length_take]
      omega
    · obtain ⟨j, hleft⟩ : ∃ j, (Nat.toDigits 10 n).length - k = j + 1 :=
        ⟨(Nat.toDigits 10 n).length - k - 1, by omega⟩
      have hfirst : (Nat.toDigits 10 n).take (j + 1) = '0' :: tail := by
        rw [← hleft]
        exact hsame
      rw [hsplit, List.take_succ_cons] at hfirst
      exact hnotZero (List.cons.inj hfirst).1
    · rintro fs ⟨⟩
      refine ⟨?_, fun d hmem => digits_isDigit (List.mem_of_mem_drop hmem)⟩
      rw [← List.length_pos_iff, List.length_drop]
      omega
  notWhole := .inl nofun
  evaluated := nofun
  significand := by
    rw [Digits.significand, Option.getD_some, List.take_append_drop]
    exact Nat.ofDigitChars_ten_toDigits
  power := by
    simp only [Digits.power, Option.getD_some, Option.getD_none, List.length_drop]
    omega

/-- A decimal in scientific notation. -/
theorem readAs_scientific {n : ℕ} (hpos : 0 < n) {e : ℤ}
    (hsmall : (e + (Nat.toDigits 10 n).length - 1).natAbs ≤ maxExponent) :
    ∃ d, ReadAs (Number.scientificText (Nat.toDigits 10 n) e) n e d := by
  obtain ⟨c, ds, hsplit, hnotZero, hdigit, hdigits⟩ := exists_leading hpos
  have hrow : IsRow [c] := ⟨by simp, by simpa using hdigit⟩
  have hvalue : Nat.ofDigitChars 10 (c :: ds) 0 = n := by
    rw [← hsplit]
    exact Nat.ofDigitChars_ten_toDigits
  rw [hsplit] at hsmall ⊢
  have hnoZero : [c] = ['0'] ∨ ∀ tail, [c] ≠ '0' :: tail :=
    .inr fun tail hsame => hnotZero (List.cons.inj hsame).1
  -- With a single digit there is no point.
  cases ds with
  | nil =>
    refine ⟨⟨[c], none, some (e + ([c].length : ℤ) - 1)⟩, rfl, ⟨hrow, hnoZero, nofun⟩, .inr nofun, ?_,
      hvalue, ?_⟩
    · rintro i ⟨⟩
      exact hsmall
    · have hone : ([c].length : ℤ) = 1 := rfl
      show e + ([c].length : ℤ) - 1 - (0 : ℕ) = e
      omega
  | cons d ds =>
    refine ⟨⟨[c], some (d :: ds), some (e + ((c :: d :: ds).length : ℤ) - 1)⟩, rfl,
      ⟨hrow, hnoZero, ?_⟩, .inl nofun, ?_, hvalue, ?_⟩
    · rintro fs ⟨⟩
      exact ⟨List.cons_ne_nil d ds, hdigits⟩
    · rintro i ⟨⟩
      exact hsmall
    · show e + ((c :: d :: ds).length : ℤ) - 1 - (d :: ds).length = e
      rw [List.length_cons]
      omega

def isPositional (s : Number.Style) (d : Number.Decimal) : Bool :=
  match s.positional with
  | none => true
  | some (lo, hi) =>
    decide (lo ≤ d.exponent + (Nat.toDigits 10 d.digits).length - 1 ∧
      d.exponent + (Nat.toDigits 10 d.digits).length - 1 ≤ hi)

/-- The significand and the power of ten that a decimal is read as: a whole number that is written
without an exponent part has one more digit. -/
def partsRead (s : Number.Style) (d : Number.Decimal) : ℕ × ℤ :=
  if 0 ≤ d.exponent ∧ isPositional s d = true then
    (d.digits * 10 ^ (d.exponent.toNat + 1), -1)
  else (d.digits, d.exponent)

/-- The text of a decimal is read as its significand and its power of ten. -/
theorem readAs_decimal {s : Number.Style} (hpointZero : s.pointZero = true) {d : Number.Decimal}
    (hpos : 0 < d.digits)
    (hsmall : (d.exponent + (Nat.toDigits 10 d.digits).length - 1).natAbs ≤ maxExponent) :
    ∃ D, ReadAs (s.renderDecimal d) (partsRead s d).1 (partsRead s d).2 D := by
  have hrender : s.renderDecimal d =
      if isPositional s d then Number.positionalText true (Nat.toDigits 10 d.digits) d.exponent
      else Number.scientificText (Nat.toDigits 10 d.digits) d.exponent := by
    unfold Number.Style.renderDecimal
    rw [hpointZero]
    rfl
  -- The places of a positional text are behind all digits, between them, or in front of them.
  rw [hrender, partsRead]
  by_cases hpositional : isPositional s d = true
  · rw [if_pos hpositional]
    by_cases hwhole : 0 ≤ d.exponent
    · obtain ⟨k, hsame⟩ := Int.eq_ofNat_of_zero_le hwhole
      rw [if_pos ⟨hwhole, hpositional⟩, hsame]
      exact ⟨_, readAs_whole hpos k⟩
    · obtain ⟨k, hsame⟩ : ∃ k : ℕ, d.exponent = -(k : ℤ) := ⟨d.exponent.natAbs, by omega⟩
      rw [if_neg fun h => hwhole h.1, hsame]
      rcases Nat.lt_or_ge k (Nat.toDigits 10 d.digits).length with hlong | hshort
      · exact ⟨_, readAs_cut hpos (by omega) hlong⟩
      · exact ⟨_, readAs_small (by omega) hshort⟩
  · rw [if_neg hpositional, if_neg fun h => hpositional h.2]
    exact readAs_scientific hpos hsmall

/-! ## 4. Values -/

theorem item_minus (cs : List Char) : item ('-' :: cs) = numeral true cs := rfl

/-- A text that begins with a digit is read as a number. -/
theorem item_digit {c : Char} (hdigit : c.isDigit = true) (cs : List Char) :
    item (c :: cs) = numeral false (c :: cs) := by
  have hne {d : Char} (hother : d.isDigit = false) : c ≠ d := digit_ne hdigit hother
  have hnoBlank : isBlank c = false := by
    simp only [isBlank, Bool.or_eq_false_iff, beq_eq_false_iff_ne]
    exact ⟨⟨⟨hne rfl, hne rfl⟩, hne rfl⟩, hne rfl⟩
  have hkept : skipBlanks (c :: cs) = c :: cs := List.dropWhile_cons_of_neg (by rw [hnoBlank]; decide)
  have hvalue : scalar (c :: cs) = numeral false (c :: cs) := by
    rw [scalar, if_pos hdigit]
    all_goals exact fun hsame => hne rfl hsame
  rw [item, hkept]
  split
  · rename_i hsame
    exact absurd (List.cons.inj hsame).1 (hne rfl)
  · rename_i hsame
    exact absurd (List.cons.inj hsame).1 (hne rfl)
  · exact hvalue

/-- A number is read with its sign. -/
theorem item_text {d : Digits} (hwf : d.WellFormed) (minus : Bool) (rest : List Char) :
    item ((if minus then '-' :: d.text else d.text) ++ rest) = numeral minus (d.text ++ rest) := by
  cases minus with
  | true => exact item_minus _
  | false =>
    obtain ⟨hnonempty, hdigits⟩ := hwf.whole
    cases hsplit : d.whole with
    | nil => exact absurd hsplit hnonempty
    | cons c cs =>
      have hdigit : c.isDigit = true := hdigits c (by rw [hsplit]; exact List.mem_cons_self)
      rw [Digits.text, hsplit]
      exact item_digit hdigit _

theorem numeral_text {d : Digits} (hwf : d.WellFormed) {minus : Bool} {rest : List Char}
    (hends : Ends rest) :
    numeral minus (d.text ++ rest) =
      match d.toNumeral minus with
      | none => .error .malformed
      | some (.unsigned n) => .ok (.integer n, rest)
      | some (.negative i) => .ok (.integer i, rest)
      | some (.float x) => .ok (.float x, rest) := by
  rw [numeral, digits_text hwf hends]
  rfl

/-- A text with a point or an exponent is read as a double. -/
theorem item_float {text : List Char} {n : ℕ} {e : ℤ} {d : Digits} (hreadAs : ReadAs text n e d)
    (hfits : n ≤ maxWord) {minus : Bool} {x : Float} (hvalue : floatOfParts minus n e = some x)
    {rest : List Char} (hends : Ends rest) :
    item ((if minus then '-' :: text else text) ++ rest) = .ok (.float x, rest) := by
  have hsignificand := hreadAs.significand
  have hfound := toNumeral_eq minus (by omega) hreadAs.notWhole hreadAs.evaluated
  rw [hsignificand, hreadAs.power, hvalue] at hfound
  rw [hreadAs.text, item_text hreadAs.wellFormed, numeral_text hreadAs.wellFormed hends, hfound]
  rfl

/-- A natural number as digits without a point or an exponent. -/
theorem wellFormed_nat (n : ℕ) : (⟨Nat.toDigits 10 n, none, none⟩ : Digits).WellFormed := by
  refine ⟨isRow_toDigits n, ?_, nofun⟩
  rcases Nat.eq_zero_or_pos n with rfl | hpos
  · exact .inl rfl
  · obtain ⟨c, ds, hsplit, hnotZero, -⟩ := exists_leading hpos
    right
    intro tail hsame
    rw [hsplit] at hsame
    exact hnotZero (List.cons.inj hsame).1

theorem toNumeral_nat {n : ℕ} (hfits : n ≤ maxWord) (minus : Bool) :
    (⟨Nat.toDigits 10 n, none, none⟩ : Digits).toNumeral minus =
      if !minus then some (.unsigned n)
      else if n = 0 ∨ maxSigned + 1 < n then some (.float (-(Number.ofNat64 n)))
      else some (.negative (-(n : ℤ))) := by
  have happended := @appendDigits_eq (Nat.toDigits 10 n) 0
  rw [Nat.ofDigitChars_ten_toDigits] at happended
  simp only [Digits.toNumeral, happended hfits, Nat.sub_self]

/-- A natural number is read as it stands. -/
theorem item_nat {n : ℕ} (hfits : n ≤ maxWord) {rest : List Char} (hends : Ends rest) :
    item (Nat.toDigits 10 n ++ rest) = .ok (.integer n, rest) := by
  have hread := item_text (wellFormed_nat n) false rest
  rw [numeral_text (wellFormed_nat n) hends, toNumeral_nat hfits] at hread
  simpa [Digits.text, fractionText, exponentText] using hread

/-- A negative number is read as it stands. -/
theorem item_neg {n : ℕ} (hpos : 0 < n) (hfits : n ≤ maxSigned + 1) {rest : List Char}
    (hends : Ends rest) : item ('-' :: Nat.toDigits 10 n ++ rest) = .ok (.integer (-n), rest) := by
  have hword : maxSigned + 1 ≤ maxWord := by decide
  have hread := item_text (wellFormed_nat n) true rest
  have hinRange : ¬ (n = 0 ∨ maxSigned + 1 < n) := by omega
  rw [numeral_text (wellFormed_nat n) hends, toNumeral_nat (by omega)] at hread
  simpa [Digits.text, fractionText, exponentText, hinRange] using hread

end Cadence.Json
