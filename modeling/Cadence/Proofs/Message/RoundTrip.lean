import Cadence.Proofs.Json.Doubles
import Cadence.Proofs.Json.Singles
import Cadence.Proofs.Message.Objects

/-!
# Messages read back from JSON

What is written for a message is read back with the same label and the same kind of payload
(`ofJson_toJson`).  Integers and singles come back bit by bit, and so do doubles with few digits; other
doubles keep their sign and may move by two places.
-/

namespace Cadence

open Number Number.Format

/-! ## 1. Payloads that are close -/

/-- Two finite doubles with one sign whose patterns are at most two places apart. -/
structure Close (x y : Float) : Prop where
  finite : x.isFinite = true ∧ y.isFinite = true
  sign : x.toBits.toNat / 2 ^ 63 = y.toBits.toNat / 2 ^ 63
  below : x.toBits.toNat ≤ y.toBits.toNat + 2
  above : y.toBits.toNat ≤ x.toBits.toNat + 2

def IsShort (x : Float) : Prop := Json.ReadExactly (x.toBits.toNat % 2 ^ 63)

instance (x : Float) : Decidable (IsShort x) := inferInstanceAs (Decidable (Json.ReadExactly _))

namespace Payload

/-- Whether JSON has a form for the number of a payload: it is an integer or finite. -/
def IsFinite : Payload → Prop
  | i64 _ => True
  | u64 _ => True
  | f64 x => x.isFinite = true
  | f32 x => x.isFinite = true

instance (p : Payload) : Decidable p.IsFinite :=
  match p with
  | i64 _ => inferInstanceAs (Decidable True)
  | u64 _ => inferInstanceAs (Decidable True)
  | f64 x => inferInstanceAs (Decidable (x.isFinite = true))
  | f32 x => inferInstanceAs (Decidable (x.isFinite = true))

/-- How a payload may be read back. -/
inductive ReadBack : Payload → Payload → Prop
  | i64 (v : Int64) : ReadBack (.i64 v) (.i64 v)
  | u64 (v : UInt64) : ReadBack (.u64 v) (.u64 v)
  | f32 (x : Float32) : ReadBack (.f32 x) (.f32 x)
  | f64 {x y : Float} (close : Close x y) (exact : IsShort x → y = x) : ReadBack (.f64 x) (.f64 y)

theorem ReadBack.kind_eq {p q : Payload} (hback : p.ReadBack q) : q.kind = p.kind := by
  cases hback <;> rfl

end Payload

namespace Json

/-! ## 2. Integers -/

/-- The text of an integer of 64 bits is read as that integer. -/
theorem item_int {i : ℤ} (hlow : -(maxSigned + 1 : ℕ) ≤ i) (hhigh : i ≤ maxSigned) {rest : List Char}
    (hends : Ends rest) : item ((toString i).toList ++ rest) = .ok (.integer i, rest) := by
  have hword : maxSigned ≤ maxWord := by decide
  cases i with
  | ofNat n =>
    have htext : (toString (Int.ofNat n)).toList = Nat.toDigits 10 n := Text.toList_toString n
    have hfits : n ≤ maxSigned := Int.ofNat_le.1 hhigh
    rw [htext]
    exact item_nat (hfits.trans hword) hends
  | negSucc n =>
    have htext : (toString (Int.negSucc n)).toList = '-' :: Nat.toDigits 10 (n + 1) := by
      show ("-" ++ toString (n + 1)).toList = _
      rw [String.toList_append, Text.toList_toString]
      rfl
    rw [Int.negSucc_eq] at hlow
    rw [htext]
    exact item_neg (Nat.succ_pos n) (by omega) hends

end Json

/-! ## 3. Payloads -/

namespace Payload

open Json (Ends ends_brace item)

theorem exists_read_i64 (v : Int64) :
    (∀ rest, item ((valueDocument (.i64 v)).compactChars ++ '\x7d' :: rest) =
      .ok (.integer v.toInt, '\x7d' :: rest)) ∧ ofFound .i64 (.integer v.toInt) = .ok (.i64 v) := by
  have hlow := v.le_toInt
  have hhigh := v.toInt_lt
  have hlimit : maxSigned = 2 ^ 63 - 1 := by decide
  refine ⟨fun rest => Json.item_int (by omega) (by omega) (ends_brace rest), ?_⟩
  rw [ofFound, if_pos (by omega), Int64.ofInt_toInt]

theorem exists_read_u64 (v : UInt64) :
    (∀ rest, item ((valueDocument (.u64 v)).compactChars ++ '\x7d' :: rest) =
      .ok (.integer v.toNat, '\x7d' :: rest)) ∧ ofFound .u64 (.integer v.toNat) = .ok (.u64 v) := by
  have hlt := v.toNat_lt
  have hlimit : maxWord = 2 ^ 64 - 1 := by decide
  refine ⟨fun rest => ?_, ?_⟩
  · show item ((toString v.toNat).toList ++ '\x7d' :: rest) = _
    rw [Text.toList_toString]
    exact Json.item_nat (by omega) (ends_brace rest)
  · rw [ofFound, if_pos (Int.natCast_nonneg _), Int.toNat_natCast, UInt64.ofNat_toNat]

/-- The number of a finite float is written with its digits. -/
theorem compactChars_f64 {b : ℕ} (hfinite : b < binary64.infinityBits) (negative : Bool) :
    (valueDocument (.f64 (double (binary64.signed negative b)))).compactChars =
      (json64 (double (binary64.signed negative b))).toList := by
  rw [valueDocument, Json.Document.float64, decode64_double hfinite]
  rfl

theorem compactChars_f32 {b : ℕ} (hfinite : b < binary32.infinityBits) (negative : Bool) :
    (valueDocument (.f32 (single (binary32.signed negative b)))).compactChars =
      (json32 (single (binary32.signed negative b))).toList := by
  rw [valueDocument, Json.Document.float32, decode32_single hfinite]
  rfl

theorem close_signed {b c : ℕ} (hb : b < binary64.infinityBits) (hc : c < binary64.infinityBits)
    (negative : Bool) (habove : c ≤ b + 2) (hbelow : b ≤ c + 2) :
    Close (double (binary64.signed negative b)) (double (binary64.signed negative c)) := by
  have hweight : binary64.signWeight = 2 ^ 63 := rfl
  have hb' : b < 2 ^ 63 := hb.trans_le (infinityBits_le binary64)
  have hc' : c < 2 ^ 63 := hc.trans_le (infinityBits_le binary64)
  refine ⟨⟨isFinite_signed hb negative, isFinite_signed hc negative⟩, ?_, ?_, ?_⟩ <;>
    rw [toBits_signed hb, toBits_signed hc, signed, signed, hweight]
  · split <;> omega
  · omega
  · omega

/-- The text of a payload is read as a payload that may stand for it. -/
theorem exists_readBack {p : Payload} (hfinite : p.IsFinite) :
    ∃ found q, (∀ rest, item (p.valueDocument.compactChars ++ '\x7d' :: rest) =
      .ok (found, '\x7d' :: rest)) ∧ ofFound p.kind found = .ok q ∧ p.ReadBack q := by
  -- Integers are read back, a double up to two places, and a single by way of a double.
  cases p with
  | i64 v =>
    obtain ⟨hreads, hmade⟩ := exists_read_i64 v
    exact ⟨_, _, hreads, hmade, .i64 v⟩
  | u64 v =>
    obtain ⟨hreads, hmade⟩ := exists_read_u64 v
    exact ⟨_, _, hreads, hmade, .u64 v⟩
  | f64 x =>
    obtain ⟨negative, b, hinRange, rfl⟩ := exists_double hfinite
    obtain ⟨c, hinRange', hreads, habove, hbelow, hexact⟩ := Json.exists_item_double negative hinRange
    refine ⟨.float (double (binary64.signed negative c)), _, fun rest => ?_, rfl,
      .f64 (close_signed hinRange hinRange' negative habove hbelow) ?_⟩
    · rw [compactChars_f64 hinRange]
      exact hreads _ (ends_brace rest)
    · intro hshort
      obtain ⟨hmagnitude, -⟩ := signed_mod hinRange negative
      rw [IsShort, toBits_signed hinRange] at hshort
      rw [hexact (hmagnitude ▸ hshort)]
  | f32 x =>
    obtain ⟨negative, b, hinRange, rfl⟩ := exists_single hfinite
    obtain ⟨x, hreads, hrounded⟩ := Json.exists_item_single negative hinRange
    refine ⟨.float x, _, fun rest => ?_, rfl, ?_⟩
    · rw [compactChars_f32 hinRange]
      exact hreads _ (ends_brace rest)
    · rw [hrounded]
      exact .f32 _

end Payload

/-! ## 4. Messages -/

namespace Message

/-- What is written for a message is read back with its label and its kind of payload: the same integer
or single, and for a double one with its sign at most two places away, or the same one where its digits
are few. -/
theorem ofJson_toJson (m : Message) (hfinite : m.payload.IsFinite) :
    ∃ p, ofJson m.toJson = .ok ⟨m.label, p⟩ ∧ p.kind = m.payload.kind ∧ m.payload.ReadBack p := by
  obtain ⟨found, p, hreads, hmade, hback⟩ := Payload.exists_readBack hfinite
  exact ⟨p, ofJson_of_value m hreads hmade, hback.kind_eq, hback⟩

/-- The double `c` that the number of `b` is scaled to is the one that comes back. -/
theorem ofJson_toJson_of_scale {b c : ℕ} (hpos : 0 < b) (hb : b < binary64.infinityBits)
    (hc : c < binary64.infinityBits)
    (hscale : Json.scale (ofNat64 (Json.parts64 b).1) (Json.parts64 b).2 4 = some (double c))
    (label : UInt32) :
    ofJson (f64 label (double b)).toJson = .ok (f64 label (double c)) := by
  have hreads (rest : List Char) :
      Json.item ((Payload.f64 (double b)).valueDocument.compactChars ++ '\x7d' :: rest) =
        .ok (.float (double c), '\x7d' :: rest) := by
    have hread := Json.item_double hpos hb hc hscale false _ (Json.ends_brace rest)
    rw [← Payload.compactChars_f64 hb false, signed_false, signed_false] at hread
    exact hread
  exact ofJson_of_value (f64 label (double b)) hreads rfl

/-- Two places are reached: 2.0670599012117374e-109 is read as the double after the next one. -/
theorem ofJson_toJson_two_places :
    (Payload.f64 (double 0x295f11bdad078f04)).IsFinite ∧
      ofJson (f64 1 (double 0x295f11bdad078f04)).toJson = .ok (f64 1 (double 0x295f11bdad078f06)) ∧
      (Payload.f64 (double 0x295f11bdad078f04)).ReadBack (.f64 (double 0x295f11bdad078f06)) := by
  have hfinite : (Payload.f64 (double 0x295f11bdad078f04)).IsFinite := by decide +kernel
  have hread := ofJson_toJson_of_scale (b := 0x295f11bdad078f04) (c := 0x295f11bdad078f06)
    (by decide) (by decide +kernel) (by decide +kernel) (by decide +kernel) 1
  obtain ⟨p, hp, -, hback⟩ := ofJson_toJson (f64 1 (double 0x295f11bdad078f04)) hfinite
  have hsame : Payload.f64 (double 0x295f11bdad078f06) = p :=
    congrArg Message.payload (Except.ok.inj (hread.symm.trans hp))
  rw [← hsame] at hback
  exact ⟨hfinite, hread, hback⟩

/-- A double that is written as 7205759403792799.0 does not come back: the next smaller one does. -/
theorem ofJson_toJson_inexact :
    (double 0x433999999999999f).isFinite = true ∧
      ofJson (f64 1 (double 0x433999999999999f)).toJson = .ok (f64 1 (double 0x433999999999999e)) ∧
      (double 0x433999999999999e).toBits ≠ (double 0x433999999999999f).toBits :=
  ⟨by decide +kernel, ofJson_toJson_of_scale (by decide) (by decide +kernel) (by decide +kernel)
    (by decide +kernel) 1, by decide +kernel⟩

end Message

end Cadence
