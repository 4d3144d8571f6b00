import Cadence.Message.Json
import Cadence.Proofs.Json.Numbers

/-!
# Messages as objects

The text of a message is an object of two members, the second of which is an object of two members.
It is read back as far as the value of the payload is (`ofJson_of_value`): the label and the
kind come out as they went in, whatever number stands for the value.
-/

namespace Cadence

open Json (Reader ReadError stringText Ends)

namespace Json

/-! ## 1. Names and punctuation -/

def IsPlain (s : String) : Prop :=
  ∀ c ∈ s.toList, c ≠ '\x22' ∧ c ≠ '\\' ∧ 0x20 ≤ c.toNat

instance (s : String) : Decidable (IsPlain s) :=
  List.decidableBAll _ _

theorem escapeChar_plain {c : Char} (hplain : c ≠ '\x22' ∧ c ≠ '\\' ∧ 0x20 ≤ c.toNat) :
    escapeChar c = [c] := by
  obtain ⟨hquote, hbackslash, hprinted⟩ := hplain
  have hne {d : Char} (hcontrol : d.toNat < 0x20) : c ≠ d := by
    rintro rfl
    omega
  rw [escapeChar, if_neg hquote, if_neg hbackslash, if_neg (hne (by decide)), if_neg (hne (by decide)),
    if_neg (hne (by decide)), if_neg (hne (by decide)), if_neg (hne (by decide)), if_neg (by omega),
    if_neg (by omega)]

theorem stringText_plain {s : String} (hplain : IsPlain s) :
    stringText s = '\x22' :: (s.toList ++ ['\x22']) := by
  have hkept : s.toList.flatMap escapeChar = s.toList := by
    have hsame : ∀ c ∈ s.toList, escapeChar c = [c] := fun c hmem => escapeChar_plain (hplain c hmem)
    rw [List.flatMap, List.map_congr_left hsame]
    exact List.flatMap_singleton' s.toList
  rw [stringText, hkept]
  rfl

theorem stringText_append {s : String} (hplain : IsPlain s) (rest : List Char) :
    stringText s ++ rest = '\x22' :: (s.toList ++ '\x22' :: rest) := by
  rw [stringText_plain hplain, List.cons_append, List.append_assoc]
  rfl

/-- Characters that stand for themselves are read up to the closing quote. -/
theorem stringTail_plain {cs : List Char} (hplain : ∀ c ∈ cs, c ≠ '\x22' ∧ c ≠ '\\' ∧ 0x20 ≤ c.toNat)
    {fuel : ℕ} (henough : cs.length < fuel) (rest : List Char) :
    stringTail fuel (cs ++ '\x22' :: rest) = .ok (cs, rest) := by
  induction cs generalizing fuel with
  | nil =>
    obtain ⟨fuel, rfl⟩ := Nat.exists_eq_succ_of_ne_zero (Nat.ne_of_gt henough)
    rfl
  | cons c cs ih =>
    obtain ⟨fuel, rfl⟩ := Nat.exists_eq_succ_of_ne_zero (Nat.ne_of_gt (Nat.zero_lt_of_lt henough))
    obtain ⟨hquote, hbackslash, hprinted⟩ := hplain c List.mem_cons_self
    have htail :=
      ih (fun d hmem => hplain d (List.mem_cons_of_mem _ hmem)) (Nat.lt_of_succ_lt_succ henough)
    rw [List.cons_append, stringTail.eq_def]
    simp only [if_neg hquote, if_neg hbackslash, if_neg (Nat.not_lt.2 hprinted), htail]
    rfl

theorem stringBody_plain {s : String} (hplain : IsPlain s) (rest : List Char) :
    stringBody (s.toList ++ '\x22' :: rest) = .ok (s, rest) := by
  have henough : s.toList.length < (s.toList ++ '\x22' :: rest).length + 1 := by
    rw [List.length_append, List.length_cons]
    omega
  rw [stringBody, stringTail_plain hplain henough]
  show Except.ok (String.ofList s.toList, rest) = _
  rw [String.ofList_toList]

/-- The first key of an object. -/
theorem nextKey_first {s : String} (hplain : IsPlain s) (rest : List Char) :
    nextKey stringBody true (stringText s ++ rest) = .ok (some s, rest) := by
  rw [stringText_append hplain]
  show (stringBody (s.toList ++ '\x22' :: rest) >>= _) = _
  rw [stringBody_plain hplain]
  rfl

/-- A later key of an object, after its comma. -/
theorem nextKey_later {s : String} (hplain : IsPlain s) (rest : List Char) :
    nextKey stringBody false (',' :: (stringText s ++ rest)) = .ok (some s, rest) := by
  rw [stringText_append hplain]
  show (stringBody (s.toList ++ '\x22' :: rest) >>= _) = _
  rw [stringBody_plain hplain]
  rfl

theorem colon_cons (rest : List Char) : colon (':' :: rest) = .ok ((), rest) := rfl

theorem item_string {s : String} (hplain : IsPlain s) (rest : List Char) :
    item (stringText s ++ rest) = .ok (.string s, rest) := by
  rw [stringText_append hplain]
  show (stringBody (s.toList ++ '\x22' :: rest) >>= _) = _
  rw [stringBody_plain hplain]
  rfl

theorem ends_brace (rest : List Char) : Ends ('\x7d' :: rest) := by
  rintro c ⟨⟩
  decide

theorem ends_comma (rest : List Char) : Ends (',' :: rest) := by
  rintro c ⟨⟩
  decide

end Json

/-! ## 2. Payloads -/

namespace Payload

def objectText (kind : PayloadKind) (value rest : List Char) : List Char :=
  '\x7b' :: (stringText "kind" ++ ':' :: (stringText kind.name ++
    ',' :: (stringText "value" ++ ':' :: (value ++ '\x7d' :: rest))))

theorem kind_plain (kind : PayloadKind) :
    Json.IsPlain kind.name ∧ PayloadKind.ofName? kind.name = some kind := by
  cases kind <;> decide

theorem readKind_written (kind : PayloadKind) (room : ℕ) (rest : List Char) :
    readKind room (':' :: (stringText kind.name ++ rest)) = .ok (kind, rest) := by
  obtain ⟨hplain, hknown⟩ := kind_plain kind
  have hfound := Json.item_string hplain rest
  rw [Json.stringText_plain hplain, List.cons_append] at hfound ⊢
  show Json.identifier PayloadKind.ofName? _ ('\x22' :: _) = _
  rw [Json.identifier, hfound]
  simp only [bind, Except.bind, hknown]

theorem nextMember_kind (fuel : ℕ) (rest : List Char) :
    nextMember (fuel + 1) true (stringText "kind" ++ rest) = .ok (some .kind, rest) := by
  rw [nextMember, Json.nextKey_first (by decide)]
  rfl

theorem nextMember_value (fuel : ℕ) (rest : List Char) :
    nextMember (fuel + 1) false (',' :: (stringText "value" ++ rest)) = .ok (some .value, rest) := by
  rw [nextMember, Json.nextKey_later (by decide)]
  rfl

theorem finishMembers_end (p : Payload) (rest : List Char) :
    finishMembers p ('\x7d' :: rest) = .ok (p, rest) := rfl

/-- A payload is read from the text of its kind and of its value. -/
theorem read_written {kind : PayloadKind} {room : ℕ} (hdeep : 1 < room) {value : List Char}
    {found : Found} {p : Payload} {rest : List Char}
    (hreads : ∀ rest, Json.item (value ++ '\x7d' :: rest) = .ok (found, '\x7d' :: rest))
    (hmade : ofFound kind found = .ok p) :
    read room (objectText kind value rest) = .ok (p, rest) := by
  show (if room ≤ 1 then _ else readObject (room - 1) _) = _
  rw [if_neg (Nat.not_le.2 hdeep), readObject, nextMember_kind]
  simp only [bind, Except.bind, readKind_written, nextMember_value, Json.colon_cons, readValue, hreads,
    hmade]
  exact finishMembers_end p rest

end Payload

/-! ## 3. Messages -/

namespace Message

def objectText (m : Message) (value : List Char) : List Char :=
  '\x7b' :: (stringText "label" ++ ':' :: (Nat.toDigits 10 m.label.toNat ++
    ',' :: (stringText "payload" ++ ':' :: Payload.objectText m.payload.kind value ['\x7d'])))

theorem toList_toJson (m : Message) :
    m.toJson.toList = m.objectText m.payload.valueDocument.compactChars := by
  rw [toJson, Json.Document.compact, String.toList_ofList, objectText, Payload.objectText]
  simp only [toDocument, Payload.toDocument, Json.Document.compactChars, Json.Document.compactMembers,
    Json.Document.nat, Text.toList_toString, List.cons_append, List.append_assoc, List.nil_append,
    List.append_nil]

theorem readLabel_integer {cs rest : List Char} {i : ℤ}
    (hread : Json.item cs = .ok (.integer i, rest)) (hinRange : 0 ≤ i ∧ i < UInt32.size) :
    readLabel cs = .ok (UInt32.ofNat i.toNat, rest) := by
  unfold readLabel
  rw [hread]
  exact if_pos hinRange

theorem readLabel_written (label : UInt32) {rest : List Char} (hends : Ends rest) :
    readLabel (Nat.toDigits 10 label.toNat ++ rest) = .ok (label, rest) := by
  have hlt : label.toNat < UInt32.size := label.toNat_lt
  have hword : UInt32.size ≤ maxWord := by decide
  have hdigits := Json.item_nat (n := label.toNat) (by omega) hends
  rw [readLabel_integer hdigits (by omega), Int.toNat_natCast, UInt32.ofNat_toNat]

theorem readObject_end (room fuel : ℕ) (label : UInt32) (p : Payload) (rest : List Char) :
    readObject room (fuel + 1) false (some label) (some p) ('\x7d' :: rest) =
      .ok (⟨label, p⟩, rest) := rfl

theorem readObject_payload (room fuel : ℕ) {label : UInt32} {p : Payload} {text rest : List Char}
    (hread : Payload.read room text = .ok (p, rest)) :
    readObject room (fuel + 1) false (some label) none
        (',' :: (stringText "payload" ++ ':' :: text)) =
      readObject room fuel false (some label) (some p) rest := by
  rw [readObject, Json.nextKey_later (by decide)]
  simp only [bind, Except.bind, Json.colon_cons, hread]
  rfl

theorem readObject_label (room fuel : ℕ) {label : UInt32} {text rest : List Char}
    (hread : readLabel text = .ok (label, rest)) :
    readObject room (fuel + 1) true none none (stringText "label" ++ ':' :: text) =
      readObject room fuel false (some label) none rest := by
  rw [readObject, Json.nextKey_first (by decide)]
  simp only [bind, Except.bind, Json.colon_cons, hread]
  rfl

/-- A message is read back as far as the value of its payload is. -/
theorem ofJson_of_value (m : Message) {found : Found} {p : Payload}
    (hreads : ∀ rest, Json.item (m.payload.valueDocument.compactChars ++ '\x7d' :: rest) =
      .ok (found, '\x7d' :: rest))
    (hmade : Payload.ofFound m.payload.kind found = .ok p) :
    ofJson m.toJson = .ok ⟨m.label, p⟩ := by
  have hpayload : Payload.read 127 (Payload.objectText m.payload.kind
      m.payload.valueDocument.compactChars ['\x7d']) = .ok (p, ['\x7d']) :=
    Payload.read_written (by decide) hreads hmade
  have hobject (fuel : ℕ) : readObject 127 (fuel + 3) true none none
      (stringText "label" ++ ':' :: (Nat.toDigits 10 m.label.toNat ++ ',' :: (stringText "payload" ++
        ':' :: Payload.objectText m.payload.kind m.payload.valueDocument.compactChars ['\x7d']))) =
      .ok (⟨m.label, p⟩, []) := by
    rw [readObject_label _ _ (readLabel_written m.label (Json.ends_comma _)),
      readObject_payload _ _ hpayload, readObject_end]
  have hwhole : read Json.nestingLimit (m.objectText m.payload.valueDocument.compactChars) =
      .ok (⟨m.label, p⟩, []) := by
    -- The fuel is the length of the text, which is enough for two members and the end.
    have hlong : 6 ≤ (stringText "label").length := by decide
    obtain ⟨fuel, henough⟩ : ∃ fuel, (m.objectText m.payload.valueDocument.compactChars).length =
        fuel + 3 := by
      refine ⟨(m.objectText m.payload.valueDocument.compactChars).length - 3, ?_⟩
      rw [objectText, List.length_cons, List.length_append]
      omega
    show readObject 127 (m.objectText m.payload.valueDocument.compactChars).length true none none _ = _
    rw [henough]
    exact hobject fuel
  rw [ofJson, Json.finish, toList_toJson, hwhole]
  rfl

end Message

end Cadence
