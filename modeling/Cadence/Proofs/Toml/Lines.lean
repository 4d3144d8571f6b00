import Cadence.Proofs.Text.Digits
import Cadence.Proofs.Toml.Strings
import Cadence.Toml.Read

/-!
# Lines as they are written

A document of headers, of pairs with a plain key and of empty lines is read line by line
(`lines_flatMap`).  Strings, whole numbers and truth values are read back as values at the end of a
line.
-/

namespace Cadence.Toml

open Text (digit_ne head_toDigits)

/-! ## 1. Whole numbers -/

/-- No underscore stands between digits. -/
theorem digitRow_cons {c : Char} (hdigit : c.isDigit = true) {cs : List Char}
    (hnext : ∀ rest, cs ≠ '_' :: rest) :
    digitRow Char.isDigit (c :: cs) =
      match digitRow Char.isDigit cs with
      | some (ds, rest) => some (c :: ds, rest)
      | none => if (cs.head?.map Char.isDigit).getD false then none else some ([c], cs) := by
  have hnoOther : ¬ (!c.isDigit) = true := by
    rw [hdigit]
    decide
  exact (digitRow.eq_3 _ _ _ hnext).trans (if_neg hnoOther)

/-- A row of digits is read up to the end of the line. -/
theorem digitRow_digits {ds : List Char} (hnonempty : ds ≠ []) (hdigits : ∀ c ∈ ds, c.isDigit = true)
    (rest : List Char) : digitRow Char.isDigit (ds ++ '\n' :: rest) = some (ds, '\n' :: rest) := by
  have hnothing : digitRow Char.isDigit ('\n' :: rest) = none := by
    rw [digitRow.eq_def]
    rfl
  induction ds with
  | nil => exact absurd rfl hnonempty
  | cons c ds ih =>
    have hdigit : c.isDigit = true := hdigits c List.mem_cons_self
    cases ds with
    | nil =>
      rw [List.singleton_append, digitRow_cons hdigit (by simp), hnothing]
      rfl
    | cons d ds =>
      have hlater : ∀ e ∈ d :: ds, e.isDigit = true :=
        fun e hmem => hdigits e (List.mem_cons_of_mem _ hmem)
      have hnext : d ≠ '_' := digit_ne (hlater d List.mem_cons_self) (by decide)
      rw [List.cons_append, digitRow_cons hdigit (by simp [hnext]), ih (by simp) hlater]

/-- The digits of a number as they are written stand for it. -/
theorem numberOfDigits_toDigits (n : Nat) : numberOfDigits 10 (Nat.toDigits 10 n) = n := by
  have hvalue (ds : List Char) (hdigits : ∀ c ∈ ds, c.isDigit = true) (k : Nat) :
      ds.foldl (fun n c => n * 10 + (hexValue? c).getD 0) k = Nat.ofDigitChars 10 ds k := by
    induction ds generalizing k with
    | nil => rfl
    | cons c ds ih =>
      have hisDigit : c.isDigit = true := hdigits c List.mem_cons_self
      have hdigit : hexValue? c = some (c.toNat - 48) := by
        rw [Char.isDigit, Bool.and_eq_true, decide_eq_true_eq, decide_eq_true_eq] at hisDigit
        exact if_pos hisDigit
      rw [List.foldl_cons, Nat.ofDigitChars_cons, hdigit,
        ih fun d hmem => hdigits d (List.mem_cons_of_mem _ hmem), Nat.mul_comm]
      rfl
  rw [numberOfDigits, hvalue _ fun c hmem => Nat.isDigit_of_mem_toDigits (by decide) (by decide) hmem,
    Nat.ofDigitChars_ten_toDigits]

def AtDigits (cs : List Char) : Prop :=
  ∃ ds rest, cs = ds ++ '\n' :: rest ∧ ∀ c ∈ ds, c.isDigit = true

theorem atDigits_of_field {width least greatest : Nat} {cs : List Char} {n : Nat} {rest : List Char}
    (hahead : AtDigits cs) (hread : field width least greatest cs = some (n, rest)) : AtDigits rest := by
  obtain ⟨ds, after, rfl, hdigits⟩ := hahead
  simp only [field] at hread
  split at hread
  · rename_i hvalid
    cases hread
    refine ⟨ds.drop width, after, ?_, fun c hmem => hdigits c (List.mem_of_mem_drop hmem)⟩
    rcases Nat.lt_or_ge ds.length width with hshort | hlong
    · -- The end of the line would be one of the digits.
      obtain ⟨k, hleft⟩ : ∃ k, width - ds.length = k + 1 := ⟨width - ds.length - 1, by omega⟩
      have hall := hvalid.2.1
      rw [List.take_append, hleft, List.all_append, Bool.and_eq_true] at hall
      cases hall.2
    · exact List.drop_append_of_le_length hlong
  · cases hread

theorem symbol_of_digits {c : Char} (hother : c.isDigit = false ∧ c ≠ '\n') {cs : List Char}
    (hahead : AtDigits cs) : symbol c cs = none := by
  obtain ⟨ds, after, rfl, hdigits⟩ := hahead
  cases ds with
  | nil => exact if_neg (Ne.symm hother.2)
  | cons d ds => exact if_neg (digit_ne (hdigits d List.mem_cons_self) hother.1)

/-- Digits alone are no date and no time, as both need a separator. -/
theorem datetime_of_digits {cs : List Char} (hahead : AtDigits cs) : datetime cs = none := by
  have hnoDate : date cs = none := by
    rw [date]
    cases hread : field 4 0 9999 cs with
    | none => rfl
    | some year =>
      have hnext := symbol_of_digits (c := '-') (by decide) (atDigits_of_field hahead hread)
      simp only [Option.bind_eq_bind, Option.bind_some, hnext, Option.bind_none]
  have hnoTime : time cs = none := by
    rw [time]
    cases hread : field 2 0 23 cs with
    | none => rfl
    | some hour =>
      have hnext := symbol_of_digits (c := ':') (by decide) (atDigits_of_field hahead hread)
      simp only [Option.bind_eq_bind, Option.bind_some, hnext, Option.bind_none]
  rw [datetime, hnoDate]
  exact hnoTime

theorem sign_of_digit {c : Char} (hdigit : c.isDigit = true) (cs : List Char) :
    sign (c :: cs) = (false, c :: cs) := by
  unfold sign
  split
  · rename_i hsame
    exact absurd (List.cons.inj hsame).1 (digit_ne hdigit (by decide))
  · rename_i hsame
    exact absurd (List.cons.inj hsame).1 (digit_ne hdigit (by decide))
  · rfl

/-- The digits of a number, up to the end of the line. -/
theorem decimalRow_toDigits (n : Nat) (rest : List Char) :
    decimalRow (Nat.toDigits 10 n ++ '\n' :: rest) = some (Nat.toDigits 10 n, '\n' :: rest) := by
  rcases Nat.eq_zero_or_pos n with rfl | hpos
  · rfl
  · have hrow := digitRow_digits (Nat.toDigits_ne_nil (b := 10) (n := n))
      (fun c hmem => Nat.isDigit_of_mem_toDigits (by decide) (by decide) hmem) rest
    cases hsplit : Nat.toDigits 10 n with
    | nil => exact absurd hsplit Nat.toDigits_ne_nil
    | cons c ds =>
      have hfirst := head_toDigits hpos hsplit
      rw [hsplit] at hrow
      rw [List.cons_append] at hrow ⊢
      rw [decimalRow]
      · exact hrow
      · intro cs hsame
        exact hfirst (List.cons.inj hsame).1

theorem atDigits_toDigits (n : Nat) (rest : List Char) :
    AtDigits (Nat.toDigits 10 n ++ '\n' :: rest) :=
  ⟨_, rest, rfl, fun _ hmem => Nat.isDigit_of_mem_toDigits (by decide) (by decide) hmem⟩

/-- Digits alone are no float, which needs a point or an exponent. -/
theorem float_of_digits {n : Nat} {c : Char} {cs rest : List Char} (hdigit : c.isDigit = true)
    (hrow : decimalRow (c :: cs) = some (Nat.toDigits 10 n, '\n' :: rest)) : float (c :: cs) = none := by
  have hnoDecimal : decimalFloat (c :: cs) = none := by
    rw [decimalFloat, sign_of_digit hdigit]
    simp only [Option.bind_eq_bind, hrow, Option.bind_some]
    rfl
  have hnoName : namedFloat (c :: cs) = none := by
    rw [namedFloat, sign_of_digit hdigit]
    simp only
    split
    · rename_i hsame
      exact absurd (List.cons.inj hsame).1 (digit_ne hdigit (by decide))
    · rename_i hsame
      exact absurd (List.cons.inj hsame).1 (digit_ne hdigit (by decide))
    · rfl
  rw [float, hnoDecimal]
  exact hnoName

/-- The digits of a number that fits are read as that number. -/
theorem integer_toDigits {n : Nat} (hsmall : n ≤ maxSigned) {c : Char} {cs rest : List Char}
    (hdigit : c.isDigit = true) (hafter : AtDigits cs)
    (hrow : decimalRow (c :: cs) = some (Nat.toDigits 10 n, '\n' :: rest)) :
    integer (c :: cs) = some ((n : Int), '\n' :: rest) := by
  -- No letter of a base follows the first digit.
  have hnoBase {d : Char} (hother : d.isDigit = false ∧ d ≠ '\n') (more : List Char) :
      cs ≠ d :: more := by
    rintro rfl
    have hnone := symbol_of_digits hother hafter
    rw [symbol, if_pos rfl] at hnone
    cases hnone
  unfold integer
  split
  · rename_i hsame
    exact absurd (List.cons.inj hsame).2 (hnoBase (by decide) _)
  · rename_i hsame
    exact absurd (List.cons.inj hsame).2 (hnoBase (by decide) _)
  · rename_i hsame
    exact absurd (List.cons.inj hsame).2 (hnoBase (by decide) _)
  · rw [sign_of_digit hdigit]
    simp only [hrow, Option.bind_eq_bind, Option.bind_some, numberOfDigits_toDigits, signedInRange,
      Bool.false_eq_true, if_false, if_pos hsmall]

theorem dateOrNumber_toDigits {n : Nat} (hsmall : n ≤ maxSigned) (rest : List Char) :
    dateOrNumber (Nat.toDigits 10 n ++ '\n' :: rest) = some (.integer n, '\n' :: rest) := by
  have hnoDate := datetime_of_digits (atDigits_toDigits n rest)
  have hrow := decimalRow_toDigits n rest
  have hdigits : ∀ c ∈ Nat.toDigits 10 n, c.isDigit = true :=
    fun c hmem => Nat.isDigit_of_mem_toDigits (by decide) (by decide) hmem
  cases hsplit : Nat.toDigits 10 n with
  | nil => exact absurd hsplit Nat.toDigits_ne_nil
  | cons c ds =>
    rw [hsplit] at hnoDate hdigits
    have hdigit := hdigits c List.mem_cons_self
    have hafter : AtDigits (ds ++ '\n' :: rest) :=
      ⟨ds, rest, rfl, fun d hmem => hdigits d (List.mem_cons_of_mem _ hmem)⟩
    have hfront : Nat.toDigits 10 n ++ '\n' :: rest = c :: (ds ++ '\n' :: rest) := by
      rw [hsplit]
      rfl
    rw [hfront] at hrow
    rw [dateOrNumber, hnoDate, List.cons_append, float_of_digits hdigit hrow,
      integer_toDigits hsmall hdigit hafter hrow]
    rfl

/-! ## 2. Values -/

structure ValueText (text : List Char) (node : Node) : Prop where
  /-- It starts like a value that is neither an array nor a table. -/
  starts : ∃ c cs, text = c :: cs ∧ c ≠ '[' ∧ c ≠ '\x7b' ∧ isBlank c = false
  reads : ∀ rest, scalar (text ++ '\n' :: rest) = some (node, '\n' :: rest)

theorem valueText_integer {n : Nat} (hsmall : n ≤ maxSigned) :
    ValueText (toString n).toList (.integer n) := by
  have hdigits : ∀ c ∈ Nat.toDigits 10 n, c.isDigit = true :=
    fun c hmem => Nat.isDigit_of_mem_toDigits (by decide) (by decide) hmem
  rw [Nat.toString_eq_ofList_toDigits, String.toList_ofList]
  cases hsplit : Nat.toDigits 10 n with
  | nil => exact absurd hsplit Nat.toDigits_ne_nil
  | cons c ds =>
    have hdigit : c.isDigit = true := hdigits c (by rw [hsplit]; exact List.mem_cons_self)
    have hne {d : Char} (hother : d.isDigit = false) : c ≠ d := digit_ne hdigit hother
    refine ⟨⟨c, ds, rfl, hne (by decide), hne (by decide), ?_⟩, fun rest => ?_⟩
    · rw [isBlank, Bool.or_eq_false_iff, beq_eq_false_iff_ne, beq_eq_false_iff_ne]
      exact ⟨hne (by decide), hne (by decide)⟩
    · have hread := dateOrNumber_toDigits hsmall rest
      rw [hsplit] at hread
      rw [List.cons_append] at hread ⊢
      rw [scalar, if_neg, if_neg, if_neg, if_pos (.inr (.inr hdigit)), hread]
      · exact not_or.2 ⟨hne (by decide), hne (by decide)⟩
      · exact not_or.2 ⟨hne (by decide), hne (by decide)⟩
      · exact not_or.2 ⟨hne (by decide), hne (by decide)⟩

theorem valueText_boolean (b : Bool) :
    ValueText (if b then "true" else "false").toList (.boolean b) := by
  cases b with
  | true => exact ⟨⟨'t', _, rfl, by decide⟩, fun rest => rfl⟩
  | false => exact ⟨⟨'f', _, rfl, by decide⟩, fun rest => rfl⟩

theorem valueText_string (s : String) : ValueText (stringText s).toList (.string s) := by
  obtain ⟨c, cs, hsplit, hquote⟩ :
      ∃ c cs, (stringText s).toList = c :: cs ∧ (c = '\x22' ∨ c = '\x27') := by
    rw [stringText, String.toList_ofList]
    split
    · exact ⟨_, _, rfl, .inl rfl⟩
    · exact ⟨_, _, rfl, .inr rfl⟩
    · exact ⟨_, _, rfl, .inl rfl⟩
    · exact ⟨_, _, rfl, .inr rfl⟩
  refine ⟨⟨c, cs, hsplit, ?_⟩, fun rest => ?_⟩
  · rcases hquote with rfl | rfl <;> decide
  · have hread := string_stringText s rest
    rw [hsplit, List.cons_append] at hread ⊢
    rw [scalar, if_pos hquote, hread]
    rfl

theorem value_of_text {text : List Char} {node : Node} (hreadable : ValueText text node) (room : Nat)
    (rest : List Char) : value (room + 1) (text ++ '\n' :: rest) = some (node, '\n' :: rest) := by
  obtain ⟨c, cs, hsplit, hbracket, hbrace, -⟩ := hreadable.starts
  have hread := hreadable.reads rest
  rw [hsplit, List.cons_append] at hread ⊢
  unfold value
  split
  · rename_i hsame
    exact absurd (List.cons.inj hsame).1 hbracket
  · rename_i hsame
    exact absurd (List.cons.inj hsame).1 hbrace
  · exact hread

/-! ## 3. Lines -/

def IsBare (name : String) : Prop :=
  name.toList ≠ [] ∧ ∀ c ∈ name.toList, isBareChar c = true

instance (name : String) : Decidable (IsBare name) :=
  @instDecidableAnd _ _ inferInstance (List.decidableBAll _ _)

theorem bare_ne {c d : Char} (hbare : isBareChar c = true) (hother : isBareChar d = false) : c ≠ d := by
  rintro rfl
  rw [hbare] at hother
  cases hother

theorem isBlank_of_bare {c : Char} (hbare : isBareChar c = true) : isBlank c = false := by
  rw [isBlank, Bool.or_eq_false_iff, beq_eq_false_iff_ne, beq_eq_false_iff_ne]
  exact ⟨bare_ne hbare (by decide), bare_ne hbare (by decide)⟩

theorem skipBlanks_of_ne {c : Char} (h : isBlank c = false) (cs : List Char) :
    skipBlanks (c :: cs) = c :: cs :=
  List.dropWhile_cons_of_neg (by rw [h]; decide)

/-- A key without quotes, and whatever is neither part of it nor a dot. -/
theorem key_bare {name : String} (hbare : IsBare name) {d c : Char} {after rest : List Char}
    (hends : isBareChar d = false) (hnext : skipBlanks (d :: after) = c :: rest) (hdot : c ≠ '.') :
    key (name.toList ++ d :: after) = some (([], name), c :: rest) := by
  obtain ⟨hsome, hall⟩ := hbare
  obtain ⟨first, cs, hsplit⟩ := List.exists_cons_of_ne_nil hsome
  have hisBare : isBareChar first = true := hall first (by rw [hsplit]; exact List.mem_cons_self)
  -- The characters of the key are taken up to the first that does not belong to it.
  have htaken : (name.toList ++ d :: after).takeWhile isBareChar = name.toList := by
    rw [List.takeWhile_append_of_pos hall, List.takeWhile_cons_of_neg (by rw [hends]; decide),
      List.append_nil]
  have hdropped : (name.toList ++ d :: after).dropWhile isBareChar = d :: after := by
    rw [List.dropWhile_append_of_pos hall, List.dropWhile_cons_of_neg (by rw [hends]; decide)]
  have hpart : keyPart (skipBlanks (name.toList ++ d :: after)) = .some (name, d :: after) := by
    rw [hsplit, List.cons_append] at htaken hdropped
    rw [hsplit, List.cons_append, skipBlanks_of_ne (isBlank_of_bare hisBare)]
    unfold keyPart
    split
    · rename_i hsame
      exact absurd (List.cons.inj hsame).1 (bare_ne hisBare (by decide))
    · rename_i hsame
      exact absurd (List.cons.inj hsame).1 (bare_ne hisBare (by decide))
    · simp only [htaken, hdropped, List.isEmpty_cons, Bool.false_eq_true, if_false]
      rw [← hsplit, String.ofList_toList]
  rw [key, nestingLimit, keyParts, hpart]
  simp only [Option.bind_eq_bind, Option.bind_some, hnext]
  split
  · rename_i hsame
    exact absurd (List.cons.inj hsame).1 hdot
  · rfl

/-- A text is read as a line of a document, or as a line that says nothing, whatever follows. -/
structure LineText (text : List Char) (said : Option Line) : Prop where
  nonempty : text ≠ []
  reads : ∀ fuel rest, lines (fuel + 1) (text ++ rest) = (lines fuel rest).map (said.toList ++ ·)

theorem lineText_empty : LineText ['\n'] none := by
  refine ⟨by decide, fun fuel rest => ?_⟩
  show lines fuel rest = _
  cases lines fuel rest <;> rfl

theorem lines_cons {l : Line} {c : Char} {cs rest : List Char}
    (hstarts : isBlank c = false ∧ c ≠ '#' ∧ c ≠ '\n' ∧ c ≠ '\r')
    (hread : line (c :: cs) = some (l, rest)) (fuel : Nat) :
    lines (fuel + 1) (c :: cs) = (lines fuel rest).map (l :: ·) := by
  obtain ⟨hblank, hcomment, hinLine⟩ := hstarts
  rw [lines, skipBlanks_of_ne hblank]
  split
  · rename_i hsame
    cases hsame
  · rename_i hsame
    exact absurd (List.cons.inj hsame).1 hcomment
  · rename_i hsame
    cases hsame
    simp only [newLine_of_ne hinLine, hread, Option.bind_eq_bind, Option.bind_some]
    cases lines fuel rest <;> rfl

/-- A header in brackets is read as the header of a table. -/
theorem lineText_header {name : String} (hbare : IsBare name) :
    LineText ("[" ++ name ++ "]\n").toList (some (.header [] name)) := by
  refine ⟨by simp, fun fuel rest => ?_⟩
  have htext : ("[" ++ name ++ "]\n").toList ++ rest =
      '[' :: (name.toList ++ ']' :: '\n' :: rest) := by
    rw [String.toList_append, String.toList_append, List.append_assoc, List.append_assoc]
    rfl
  have hread : key (name.toList ++ ']' :: '\n' :: rest) = some (([], name), ']' :: '\n' :: rest) :=
    key_bare hbare (by decide) rfl (by decide)
  have hatLine : line ('[' :: (name.toList ++ ']' :: '\n' :: rest)) =
      some (.header [] name, rest) := by
    obtain ⟨first, cs, hsplit⟩ := List.exists_cons_of_ne_nil hbare.1
    have hisBare : isBareChar first = true := hbare.2 first (by rw [hsplit]; exact List.mem_cons_self)
    -- The name begins with no bracket, so this is not the header of an array of tables.
    have hheaderRead : header (name.toList ++ ']' :: '\n' :: rest) =
        some (.header [] name, '\n' :: rest) := by
      rw [hsplit, List.cons_append] at hread ⊢
      unfold header
      split
      · rename_i hsame
        exact absurd (List.cons.inj hsame).1 (bare_ne hisBare (by decide))
      · rw [hread]
        rfl
    rw [line, hheaderRead]
    rfl
  rw [htext, lines_cons (by decide) hatLine]
  rfl

/-- A key, an equals sign and a value are read as a pair. -/
theorem lineText_pair {name : String} (hbare : IsBare name) {text : String} {node : Node}
    (hreadable : ValueText text.toList node) :
    LineText (name ++ " = " ++ text ++ "\n").toList (some (.pair [] name node)) := by
  refine ⟨by simp, fun fuel rest => ?_⟩
  obtain ⟨first, cs, hsplit⟩ := List.exists_cons_of_ne_nil hbare.1
  have hisBare : isBareChar first = true := hbare.2 first (by rw [hsplit]; exact List.mem_cons_self)
  obtain ⟨c, more, hfront, -, -, hblank⟩ := hreadable.starts
  have hwhole : (name ++ " = " ++ text ++ "\n").toList ++ rest =
      name.toList ++ ' ' :: '=' :: ' ' :: (text.toList ++ '\n' :: rest) := by
    simp only [String.toList_append, List.append_assoc]
    rfl
  have hkeyRead : key (name.toList ++ ' ' :: '=' :: ' ' :: (text.toList ++ '\n' :: rest)) =
      some (([], name), '=' :: ' ' :: (text.toList ++ '\n' :: rest)) :=
    key_bare hbare (by decide) rfl (by decide)
  have hskipped : skipBlanks (' ' :: (text.toList ++ '\n' :: rest)) = text.toList ++ '\n' :: rest := by
    rw [hfront, skipBlanks, List.dropWhile_cons_of_pos (by decide)]
    exact skipBlanks_of_ne hblank _
  have hpairRead : pair (value nestingLimit)
      (name.toList ++ ' ' :: '=' :: ' ' :: (text.toList ++ '\n' :: rest)) =
      some (([], name, node), '\n' :: rest) := by
    rw [pair, hkeyRead]
    simp only [Option.bind_eq_bind, Option.bind_some, symbol, if_true, hskipped]
    rw [nestingLimit, value_of_text hreadable 79 rest]
    rfl
  rw [hwhole]
  rw [hsplit, List.cons_append] at hpairRead ⊢
  -- The key begins with no bracket, so this is not a header.
  have hatLine : line (first :: (cs ++ ' ' :: '=' :: ' ' :: (text.toList ++ '\n' :: rest))) =
      some (.pair [] name node, rest) := by
    unfold line
    split
    · rename_i hsame
      exact absurd (List.cons.inj hsame).1 (bare_ne hisBare (by decide))
    · rw [hpairRead]
      rfl
  rw [lines_cons ⟨isBlank_of_bare hisBare, bare_ne hisBare (by decide), bare_ne hisBare (by decide),
    bare_ne hisBare (by decide)⟩ hatLine]
  rfl

/-- A document is read line by line. -/
theorem lines_flatMap (ts : List (List Char × Option Line)) (hread : ∀ t ∈ ts, LineText t.1 t.2)
    {fuel : Nat} (henough : ts.length < fuel) :
    lines fuel (ts.flatMap (·.1)) = some (ts.filterMap (·.2)) := by
  induction ts generalizing fuel with
  | nil =>
    obtain ⟨fuel, rfl⟩ := Nat.exists_eq_succ_of_ne_zero (Nat.ne_of_gt henough)
    rfl
  | cons t ts ih =>
    obtain ⟨fuel, rfl⟩ := Nat.exists_eq_succ_of_ne_zero (Nat.ne_of_gt (Nat.zero_lt_of_lt henough))
    have hlater :=
      ih (fun t hmem => hread t (List.mem_cons_of_mem _ hmem)) (Nat.lt_of_succ_lt_succ henough)
    rw [List.flatMap_cons, (hread t List.mem_cons_self).reads, hlater, List.filterMap_cons]
    cases t.2 <;> rfl

theorem length_le_flatMap (ts : List (List Char × Option Line)) (hread : ∀ t ∈ ts, LineText t.1 t.2) :
    ts.length ≤ (ts.flatMap (·.1)).length := by
  induction ts with
  | nil => exact Nat.zero_le _
  | cons t ts ih =>
    have hsome : 0 < t.1.length := List.length_pos_iff.2 (hread t List.mem_cons_self).nonempty
    have hlater := ih fun t hmem => hread t (List.mem_cons_of_mem _ hmem)
    rw [List.flatMap_cons, List.length_append, List.length_cons]
    omega

/-- What the lines of a document say is written into its tree. -/
theorem document_of_lines {text : String} (ts : List (List Char × Option Line))
    (hread : ∀ t ∈ ts, LineText t.1 t.2) (hwritten : text.toList = ts.flatMap (·.1))
    (hmark : skipMark text.toList = text.toList) :
    document text = (Draft.empty.addAll (ts.filterMap (·.2))).map (·.root) := by
  have henough : ts.length < text.toList.length + 1 := by
    have hfew := length_le_flatMap ts hread
    rw [hwritten]
    omega
  have hsaid : lines (text.toList.length + 1) text.toList = some (ts.filterMap (·.2)) := by
    rw [← lines_flatMap ts hread henough, hwritten]
  simp only [document, hmark, hsaid, Option.bind_eq_bind, Option.bind_some]
  cases Draft.empty.addAll (ts.filterMap (·.2)) <;> rfl

end Cadence.Toml
