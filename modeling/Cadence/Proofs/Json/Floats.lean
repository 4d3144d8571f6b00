import Cadence.Proofs.Json.Numbers
import Cadence.Proofs.Number.Patterns

/-!
# Floats as they are written

A finite float is written with its sign and the digits of a shortest decimal.  It is read as the double
that these digits come to, with that sign (`item_render`).
-/

namespace Cadence.Json

open Number Number.Format

/-! ## 1. The numbers that a decimal is read as -/

/-- What a decimal is read as is that decimal; where its digits change, it is a whole number with few
of them. -/
theorem partsRead_cases (s : Style) (d : Decimal) :
    partsRead s d = (d.digits, d.exponent) ∨
      0 ≤ d.exponent ∧ isPositional s d = true ∧
        partsRead s d = (d.digits * 10 ^ (d.exponent.toNat + 1), -1) := by
  rw [partsRead]
  split
  · rename_i hwhole
    exact .inr ⟨hwhole.1, hwhole.2, rfl⟩
  · exact .inl rfl

theorem partsRead_value (s : Style) (d : Decimal) :
    ((partsRead s d).1 * 10 ^ (partsRead s d).2 : ℚ) = d.digits * 10 ^ d.exponent := by
  rcases partsRead_cases s d with hsame | ⟨hwhole, -, hmore⟩
  · rw [hsame]
  · obtain ⟨k, hexponent⟩ := Int.eq_ofNat_of_zero_le hwhole
    rw [hmore, hexponent, Int.toNat_natCast]
    push_cast
    rw [pow_succ, zpow_neg_one, zpow_natCast]
    ring

theorem partsRead_pos {s : Style} {d : Decimal} (hpos : 0 < d.digits) : 0 < (partsRead s d).1 := by
  rcases partsRead_cases s d with hsame | ⟨-, -, hmore⟩
  · rw [hsame]
    exact hpos
  · rw [hmore]
    exact Nat.mul_pos hpos (Nat.pow_pos (by decide))

/-- A whole number that is written without an exponent part is below the bound of the style. -/
theorem whole_lt {s : Style} {d : Decimal} {lo : ℤ} (hi : ℕ)
    (hstyle : s.positional = some (lo, (hi : ℤ)))
    (hwhole : 0 ≤ d.exponent) (hpositional : isPositional s d = true) :
    d.digits * 10 ^ (d.exponent.toNat + 1) < 10 ^ (hi + 2) := by
  rw [isPositional, hstyle] at hpositional
  have hbelow := (of_decide_eq_true hpositional).2
  have hlength := (Nat.length_toDigits_le_iff (b := 10) (by decide) Nat.length_toDigits_pos).1
    (le_refl (Nat.toDigits 10 d.digits).length)
  calc d.digits * 10 ^ (d.exponent.toNat + 1)
      < 10 ^ (Nat.toDigits 10 d.digits).length * 10 ^ (d.exponent.toNat + 1) :=
        Nat.mul_lt_mul_of_pos_right hlength (Nat.pow_pos (by decide))
    _ = 10 ^ ((Nat.toDigits 10 d.digits).length + (d.exponent.toNat + 1)) := (Nat.pow_add _ _ _).symm
    _ ≤ 10 ^ (hi + 2) := Nat.pow_le_pow_right (by decide) (by omega)

/-- A number that fits in 64 bits has so few digits that its leading exponent can be evaluated. -/
theorem leading_le {d : Decimal} (hfits : d.digits ≤ maxWord) (hrange : d.exponent.natAbs ≤ 330) :
    (d.exponent + (Nat.toDigits 10 d.digits).length - 1).natAbs ≤ maxExponent := by
  have hshort : (Nat.toDigits 10 d.digits).length ≤ 20 := by
    rw [Nat.length_toDigits_le_iff (by decide) (by decide)]
    exact hfits.trans_lt (by decide)
  have hlimit : maxExponent = 2147483647 := rfl
  omega

/-! ## 2. Values -/

theorem render_parts {f : Format} (s : Style) (negative : Bool) {b : ℕ} (hpos : 0 < b) :
    (s.render (f.parts negative b)).toList =
      if negative then '-' :: s.renderDecimal ((f.around b).shortest s.tie)
      else s.renderDecimal ((f.around b).shortest s.tie) := by
  have hnonzero : f.mantissa b ≠ 0 := (mantissa_pos hpos).ne'
  rw [parts, Style.render, String.toList_ofList]
  simp only [if_neg hnonzero]
  rfl

/-- A finite float that is not zero is read as the number that its shortest digits come to. -/
theorem item_render {f : Format} {s : Style} (hpointZero : s.pointZero = true) (negative : Bool) {b : ℕ}
    (hpos : 0 < b) {d : Decimal} (hshortest : d = (f.around b).shortest s.tie)
    (hdigits : 0 < d.digits) (hfits : d.digits ≤ maxWord) (hrange : d.exponent.natAbs ≤ 330)
    (hfitsRead : (partsRead s d).1 ≤ maxWord) {c : ℕ} (hfinite : c < binary64.infinityBits)
    (hscaled : scale (ofNat64 (partsRead s d).1) (partsRead s d).2 4 = some (double c))
    {rest : List Char} (hends : Ends rest) :
    item ((s.render (f.parts negative b)).toList ++ rest) =
      .ok (.float (double (binary64.signed negative c)), rest) := by
  obtain ⟨D, hreadAs⟩ := readAs_decimal hpointZero hdigits (leading_le hfits hrange)
  have hvalue : floatOfParts negative (partsRead s d).1 (partsRead s d).2 =
      some (double (binary64.signed negative c)) := by
    rw [floatOfParts, hscaled, Option.map_some, neg_signed hfinite]
  rw [render_parts s negative hpos, ← hshortest]
  exact item_float hreadAs hfitsRead hvalue hends

theorem readAs_zero : ReadAs ['0', '.', '0'] 0 (-1) ⟨['0'], some ['0'], none⟩ where
  text := rfl
  wellFormed := ⟨isRow_toDigits 0, .inl rfl, fun fs hmem => by cases hmem; exact isRow_toDigits 0⟩
  notWhole := .inl nofun
  evaluated := nofun
  significand := rfl
  power := rfl

/-- A zero is read with its sign. -/
theorem item_render_zero {f : Format} {s : Style} (hpointZero : s.pointZero = true) (negative : Bool)
    {rest : List Char} (hends : Ends rest) :
    item ((s.render (f.parts negative 0)).toList ++ rest) =
      .ok (.float (double (binary64.signed negative 0)), rest) := by
  have htext : (s.render (f.parts negative 0)).toList =
      if negative then '-' :: ['0', '.', '0'] else ['0', '.', '0'] := by
    have hzero : f.mantissa 0 = 0 := by
      rw [mantissa, Nat.zero_div, if_pos rfl]
    rw [parts, Style.render, String.toList_ofList]
    simp only [if_pos hzero, hpointZero]
    rfl
  have hscaled : scale (ofNat64 0) (-1) 4 = some (double 0) := by decide
  have hvalue : floatOfParts negative 0 (-1) = some (double (binary64.signed negative 0)) := by
    rw [floatOfParts, hscaled, Option.map_some, neg_signed (by decide)]
  rw [htext]
  exact item_float readAs_zero (Nat.zero_le _) hvalue hends

end Cadence.Json
