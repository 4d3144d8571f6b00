import Cadence.Toml.Write

/-!
# Strings as they are written

Whatever text is written at the end of a line, it is read back (`string_stringText`).  With double
quotes, each character is read from what it is written as; without escapes, the form is one in which
every character stands for itself.  In the long forms no row of quotes within the text is long enough
to be its end, and one that the closing quotes follow is cut at the right place.
-/

namespace Cadence.Toml

/-! ## 1. Characters between double quotes -/

def basicChar (isLong : Bool) (c : Char) : List Char :=
  if c = '\x08' then ['\\', 'b']
  else if c = '\t' then ['\\', 't']
  else if c = '\n' then if isLong then [c] else ['\\', 'n']
  else if c = '\x0c' then ['\\', 'f']
  else if c = '\r' then ['\\', 'r']
  else if c = '\\' then ['\\', '\\']
  else if c.toNat ≤ 0x1f || c.toNat = 0x7f then numberEscape c
  else [c]

theorem basicChars_cons_of_ne {isLong : Bool} {allowed run : Nat} {c : Char} (h : c ≠ '\x22')
    (cs : List Char) :
    basicChars isLong allowed run (c :: cs) = basicChar isLong c ++ basicChars isLong allowed 0 cs := by
  rw [basicChars, if_neg h]
  rfl

/-- What stands after a backslash: a first character that is no blank and no line end, and others with
which it is read as `c`. -/
structure Escapes (c first : Char) (others : List Char) : Prop where
  isNoBlank : isBlank first = false
  isNoLineEnd : first ≠ '\n' ∧ first ≠ '\r'
  reads : ∀ rest, escape (first :: others ++ rest) = some (c, rest)

theorem numberedChar_append {ds : List Char} {n : Nat} (hlong : ds.length = n) (rest : List Char) :
    numberedChar n (ds ++ rest) = (numberedChar n ds).map fun r => (r.1, rest) := by
  subst hlong
  rw [numberedChar, numberedChar, List.take_left, List.drop_left, List.take_length]
  cases ds.mapM hexValue? with
  | none => rfl
  | some values =>
    simp only [Option.bind_eq_bind, Option.bind_some]
    split
    · rfl
    · split <;> rfl

-- The control characters are few.
theorem numberEscape_reads {c : Char} (hcontrol : c.toNat ≤ 0x1f ∨ c.toNat = 0x7f) :
    ∃ ds, numberEscape c = '\\' :: 'u' :: ds ∧ Escapes c 'u' ds := by
  have heach : ∀ n < 128, n ≤ 0x1f ∨ n = 0x7f →
      ((numberEscape (Char.ofNat n)).drop 2).length = 4 ∧
        numberedChar 4 ((numberEscape (Char.ofNat n)).drop 2) = some (Char.ofNat n, []) := by
    decide
  have hnamed := heach c.toNat (by omega) hcontrol
  rw [Char.ofNat_toNat] at hnamed
  refine ⟨(numberEscape c).drop 2, rfl, by decide, by decide, fun rest => ?_⟩
  have hread := numberedChar_append hnamed.1 rest
  rw [hnamed.2] at hread
  exact hread

/-- A character stands for itself, ends a line of a long text, or is escaped. -/
theorem basicChar_cases {c : Char} (isLong : Bool) (hquote : c ≠ '\x22') :
    (basicChar isLong c = [c] ∧ isBasicChar c = true ∧ c ≠ '\\') ∨
      (isLong = true ∧ c = '\n' ∧ basicChar isLong c = [c]) ∨
      ∃ first others, basicChar isLong c = '\\' :: first :: others ∧ Escapes c first others := by
  have hplain (first c : Char) (h : isBlank first = false ∧ first ≠ '\n' ∧ first ≠ '\r')
      (hreads : ∀ rest, escape (first :: rest) = some (c, rest)) : Escapes c first [] :=
    ⟨h.1, h.2, hreads⟩
  -- The cases are those of the writer, from the short escapes to the numbered ones.
  unfold basicChar
  split
  · subst c
    exact .inr (.inr ⟨'b', [], rfl, hplain _ _ (by decide) fun rest => rfl⟩)
  split
  · subst c
    exact .inr (.inr ⟨'t', [], rfl, hplain _ _ (by decide) fun rest => rfl⟩)
  split
  · subst c
    cases isLong with
    | true => exact .inr (.inl ⟨rfl, rfl, rfl⟩)
    | false => exact .inr (.inr ⟨'n', [], rfl, hplain _ _ (by decide) fun rest => rfl⟩)
  split
  · subst c
    exact .inr (.inr ⟨'f', [], rfl, hplain _ _ (by decide) fun rest => rfl⟩)
  split
  · subst c
    exact .inr (.inr ⟨'r', [], rfl, hplain _ _ (by decide) fun rest => rfl⟩)
  split
  · subst c
    exact .inr (.inr ⟨'\\', [], rfl, hplain _ _ (by decide) fun rest => rfl⟩)
  rename_i hbackslash
  split
  · rename_i hcontrol
    obtain ⟨ds, hwritten, hreads⟩ := numberEscape_reads (by simpa using hcontrol)
    exact .inr (.inr ⟨'u', ds, hwritten, hreads⟩)
  · rename_i hcontrol
    have hvisible : ¬ c.toNat ≤ 0x1f ∧ c.toNat ≠ 0x7f := by simpa using hcontrol
    refine .inl ⟨rfl, ?_, hbackslash⟩
    have hcomment : isCommentChar c = true := by
      simp only [isCommentChar, Bool.or_eq_true, Bool.and_eq_true, decide_eq_true_eq]
      omega
    simp [isBasicChar, hcomment, hquote, hbackslash]

theorem escapes_quote : Escapes '\x22' '\x22' [] := ⟨by decide, by decide, fun _ => rfl⟩

/-! ## 2. The short forms -/

theorem basicTail_plain {c : Char} (hquote : c ≠ '\x22') (hbackslash : c ≠ '\\')
    (hplain : isBasicChar c = true) {fuel : Nat} {text cs rest : List Char}
    (hlater : basicTail fuel text = some (cs, rest)) :
    basicTail (fuel + 1) (c :: text) = some (c :: cs, rest) := by
  rw [basicTail, if_neg hquote, if_neg hbackslash, if_pos hplain, hlater]
  rfl

theorem basicTail_escaped {c first : Char} {others : List Char} (hescapes : Escapes c first others)
    {fuel : Nat} {text cs rest : List Char} (hlater : basicTail fuel text = some (cs, rest)) :
    basicTail (fuel + 1) ('\\' :: first :: others ++ text) = some (c :: cs, rest) := by
  rw [List.cons_append, basicTail, if_neg (by decide), if_pos rfl, hescapes.reads]
  simp only [Option.bind_eq_bind, Option.bind_some, hlater]

/-- The characters of a basic string are read back. -/
theorem basicTail_basicChars (cs rest : List Char) {fuel run : Nat} (henough : cs.length < fuel) :
    basicTail fuel (basicChars false 0 run cs ++ '\x22' :: rest) = some (cs, rest) := by
  induction cs generalizing fuel run with
  | nil =>
    obtain ⟨fuel, rfl⟩ := Nat.exists_eq_succ_of_ne_zero (Nat.ne_of_gt henough)
    rfl
  | cons c cs ih =>
    obtain ⟨fuel, rfl⟩ := Nat.exists_eq_succ_of_ne_zero (Nat.ne_of_gt (Nat.zero_lt_of_lt henough))
    have hlater (run : Nat) := @ih fuel run (Nat.lt_of_succ_lt_succ henough)
    by_cases hquote : c = '\x22'
    · subst hquote
      rw [basicChars, if_pos rfl, if_neg (by omega)]
      exact basicTail_escaped escapes_quote (hlater 0)
    · rw [basicChars_cons_of_ne hquote, List.append_assoc]
      rcases basicChar_cases false hquote with ⟨hwritten, hplain, hbackslash⟩ | ⟨hlong, -, -⟩ |
        ⟨first, others, hwritten, hescapes⟩
      · rw [hwritten]
        exact basicTail_plain hquote hbackslash hplain (hlater 0)
      · cases hlong
      · rw [hwritten]
        exact basicTail_escaped hescapes (hlater 0)

/-- A character that stands for itself between single quotes. -/
theorem literalTail_self (cs rest : List Char) (hplain : ∀ c ∈ cs, isLiteralChar c = true) :
    literalTail (cs ++ '\x27' :: rest) = some (cs, rest) := by
  induction cs with
  | nil => rfl
  | cons c cs ih =>
    have hisPlain : isLiteralChar c = true := hplain c List.mem_cons_self
    have hquote : c ≠ '\x27' := by
      rintro rfl
      cases hisPlain
    rw [List.cons_append, literalTail, if_neg hquote, if_pos hisPlain,
      ih fun d hmem => hplain d (List.mem_cons_of_mem _ hmem)]
    rfl

/-! ## 3. Rows of quotes -/

theorem quoteRun_cons (quote : Char) (cs : List Char) :
    quoteRun quote (quote :: cs) = quote :: quoteRun quote cs := by
  simp [quoteRun]

theorem quoteRun_cons_of_ne {quote c : Char} (h : c ≠ quote) (cs : List Char) :
    quoteRun quote (c :: cs) = [] := by
  simp [quoteRun, h]

def closing (quote : Char) (rest : List Char) : List Char :=
  quote :: quote :: quote :: '\n' :: rest

theorem quoteRun_closing (quote : Char) (h : quote ≠ '\n') (j : Nat) (rest : List Char) :
    quoteRun quote (List.replicate j quote ++ closing quote rest) = List.replicate (j + 3) quote := by
  induction j with
  | zero =>
    rw [List.replicate_zero, List.nil_append, closing, quoteRun_cons, quoteRun_cons, quoteRun_cons,
      quoteRun_cons_of_ne (Ne.symm h)]
    rfl
  | succ j ih => rw [List.replicate_succ, List.cons_append, quoteRun_cons, ih]; rfl

/-- All that is left of a text before its closing quotes is a row of at most `room` quotes, or the row
at its front is no longer than that. -/
def FrontFits (quote : Char) (room : Nat) (text : List Char) : Prop :=
  (∃ j ≤ room, text = List.replicate j quote) ∨
    ∀ rest, (quoteRun quote (text ++ rest)).length ≤ room

theorem frontFits_nil (quote : Char) (room : Nat) : FrontFits quote room [] :=
  .inl ⟨0, Nat.zero_le _, rfl⟩

theorem frontFits_cons {quote : Char} {room : Nat} {text : List Char}
    (hfits : FrontFits quote room text) : FrontFits quote (room + 1) (quote :: text) := by
  rcases hfits with ⟨j, hfew, rfl⟩ | hfits
  · exact .inl ⟨j + 1, Nat.succ_le_succ hfew, rfl⟩
  · refine .inr fun rest => ?_
    rw [List.cons_append, quoteRun_cons]
    exact Nat.succ_le_succ (hfits rest)

theorem frontFits_cons_of_ne {quote c : Char} (h : c ≠ quote) (room : Nat) (text : List Char) :
    FrontFits quote room (c :: text) := by
  refine .inr fun rest => ?_
  rw [List.cons_append, quoteRun_cons_of_ne h]
  exact Nat.zero_le _

/-- The third quote in a row is escaped. -/
theorem frontFits_basicChars (cs : List Char) {run : Nat} (hfew : run ≤ 2) :
    FrontFits '\x22' (2 - run) (basicChars true 2 run cs) := by
  induction cs generalizing run with
  | nil => exact frontFits_nil _ _
  | cons c cs ih =>
    by_cases hquote : c = '\x22'
    · subst hquote
      rw [basicChars, if_pos rfl]
      split
      · rename_i hallowed
        have hroom : 2 - run = 2 - (run + 1) + 1 := by omega
        rw [hroom]
        exact frontFits_cons (ih hallowed)
      · exact frontFits_cons_of_ne (by decide) _ _
    · rw [basicChars_cons_of_ne hquote]
      rcases basicChar_cases true hquote with
        ⟨hwritten, -⟩ | ⟨-, -, hwritten⟩ | ⟨first, others, hwritten, -⟩
      · rw [hwritten]
        exact frontFits_cons_of_ne hquote _ _
      · rw [hwritten]
        exact frontFits_cons_of_ne hquote _ _
      · rw [hwritten]
        exact frontFits_cons_of_ne (by decide) _ _

/-- What is written as quotes alone consists of quotes. -/
theorem eq_replicate_of_basicChars {cs : List Char} {run j : Nat}
    (hrow : basicChars true 2 run cs = List.replicate j '\x22') : cs = List.replicate j '\x22' := by
  -- What is written for anything else starts with another character.
  have hother {c : Char} {text : List Char} {j : Nat} (h : c ≠ '\x22')
      (hsame : c :: text = List.replicate j '\x22') : False :=
    h (List.eq_of_mem_replicate (by rw [← hsame]; exact List.mem_cons_self))
  induction cs generalizing run j with
  | nil => exact hrow
  | cons c cs ih =>
    by_cases hquote : c = '\x22'
    · subst hquote
      rw [basicChars, if_pos rfl] at hrow
      split at hrow
      · cases j with
        | zero => cases hrow
        | succ j =>
          rw [List.replicate_succ] at hrow ⊢
          rw [ih (List.cons.inj hrow).2]
      · exact (hother (by decide) hrow).elim
    · rw [basicChars_cons_of_ne hquote] at hrow
      rcases basicChar_cases true hquote with
        ⟨hwritten, -⟩ | ⟨-, -, hwritten⟩ | ⟨first, others, hwritten, -⟩
      · rw [hwritten] at hrow
        exact (hother hquote hrow).elim
      · rw [hwritten] at hrow
        exact (hother hquote hrow).elim
      · rw [hwritten] at hrow
        exact (hother (by decide) hrow).elim

theorem meaning_of_closing {j : Nat} (hfew : j ≤ 2) : RunMeaning.of (j + 3) = .ends j := by
  rw [RunMeaning.of, if_neg (by omega), if_pos (by omega)]
  rfl

theorem closing_eq_cons (quote : Char) (j : Nat) (rest : List Char) :
    ∃ text, List.replicate j quote ++ closing quote rest = quote :: text := by
  cases j with
  | zero => exact ⟨_, rfl⟩
  | succ j => exact ⟨_, rfl⟩

theorem drop_closing (quote : Char) (j : Nat) (rest : List Char) :
    (List.replicate j quote ++ closing quote rest).drop (j + 3) = '\n' :: rest := by
  have hlength : (List.replicate j quote).length = j := List.length_replicate
  rw [List.drop_append, List.drop_eq_nil_of_le (by omega), hlength, Nat.add_sub_cancel_left]
  rfl

/-! ## 4. The long form in double quotes -/

theorem longBasicTail_closing {j : Nat} (hfew : j ≤ 2) (fuel : Nat) (rest : List Char) :
    longBasicTail (fuel + 1) (List.replicate j '\x22' ++ closing '\x22' rest) =
      some (List.replicate j '\x22', '\n' :: rest) := by
  have hrow := quoteRun_closing '\x22' (by decide) j rest
  have hafter := drop_closing '\x22' j rest
  obtain ⟨text, hstarts⟩ := closing_eq_cons '\x22' j rest
  rw [hstarts] at hrow hafter ⊢
  rw [longBasicTail, if_pos rfl]
  simp only [hrow, List.length_replicate, meaning_of_closing hfew, hafter]

theorem longBasicTail_quote {text cs rest : List Char} {fuel : Nat}
    (hfew : (quoteRun '\x22' ('\x22' :: text)).length ≤ 2)
    (hlater : longBasicTail fuel text = some (cs, rest)) :
    longBasicTail (fuel + 1) ('\x22' :: text) = some ('\x22' :: cs, rest) := by
  have hinside : RunMeaning.of (quoteRun '\x22' ('\x22' :: text)).length = .inside := if_pos (by omega)
  rw [longBasicTail, if_pos rfl]
  simp only [hinside, hlater]
  rfl

theorem longBasicTail_plain {c : Char} (hquote : c ≠ '\x22') (hbackslash : c ≠ '\\')
    (hplain : isBasicChar c = true) {fuel : Nat} {text cs rest : List Char}
    (hlater : longBasicTail fuel text = some (cs, rest)) :
    longBasicTail (fuel + 1) (c :: text) = some (c :: cs, rest) := by
  rw [longBasicTail, if_neg hquote, if_neg hbackslash, if_pos hplain, hlater]
  rfl

theorem longBasicTail_newLine {fuel : Nat} {text cs rest : List Char}
    (hlater : longBasicTail fuel text = some (cs, rest)) :
    longBasicTail (fuel + 1) ('\n' :: text) = some ('\n' :: cs, rest) := by
  rw [longBasicTail, if_neg (by decide), if_neg (by decide), if_neg (by decide), newLine]
  simp only [Option.bind_eq_bind, Option.bind_some, hlater]

theorem newLine_of_ne {c : Char} (h : c ≠ '\n' ∧ c ≠ '\r') (cs : List Char) :
    newLine (c :: cs) = none := by
  unfold newLine
  split
  · rename_i hsame
    exact absurd (List.cons.inj hsame).1 h.1
  · rename_i hsame
    exact absurd (List.cons.inj hsame).1 h.2
  · rfl

theorem longBasicTail_escaped {c first : Char} {others : List Char} (hescapes : Escapes c first others)
    {fuel : Nat} {text cs rest : List Char} (hlater : longBasicTail fuel text = some (cs, rest)) :
    longBasicTail (fuel + 1) ('\\' :: first :: others ++ text) = some (c :: cs, rest) := by
  have hinLine : newLine (skipBlanks (first :: (others ++ text))) = none := by
    rw [skipBlanks, List.dropWhile_cons_of_neg (by rw [hescapes.isNoBlank]; decide)]
    exact newLine_of_ne hescapes.isNoLineEnd _
  have hread := hescapes.reads text
  rw [List.cons_append] at hread
  rw [List.cons_append, List.cons_append, longBasicTail, if_neg (by decide), if_pos rfl, hinLine]
  simp only [hread, Option.bind_eq_bind, Option.bind_some, hlater]

/-- The characters of a long basic string are read back, as no three quotes in a row are written
before its end. -/
theorem longBasicTail_basicChars (cs rest : List Char) {fuel run : Nat} (henough : cs.length < fuel)
    (hfew : run ≤ 2) :
    longBasicTail fuel (basicChars true 2 run cs ++ closing '\x22' rest) = some (cs, '\n' :: rest) := by
  induction cs generalizing fuel run with
  | nil =>
    obtain ⟨fuel, rfl⟩ := Nat.exists_eq_succ_of_ne_zero (Nat.ne_of_gt henough)
    exact longBasicTail_closing (Nat.zero_le 2) fuel rest
  | cons c cs ih =>
    obtain ⟨fuel, rfl⟩ := Nat.exists_eq_succ_of_ne_zero (Nat.ne_of_gt (Nat.zero_lt_of_lt henough))
    have hlater {run : Nat} := @ih fuel run (Nat.lt_of_succ_lt_succ henough)
    by_cases hquote : c = '\x22'
    · subst hquote
      by_cases hallowed : run + 1 ≤ 2
      · -- A row of quotes that reaches up to the end is read with the closing ones.
        have hwritten : basicChars true 2 run ('\x22' :: cs) =
            '\x22' :: basicChars true 2 (run + 1) cs := by
          rw [basicChars, if_pos rfl, if_pos hallowed]
        rcases frontFits_basicChars ('\x22' :: cs) hfew with ⟨j, hrow, htext⟩ | hshort
        · have hsame := eq_replicate_of_basicChars htext
          rw [htext, hsame]
          exact longBasicTail_closing (Nat.le_trans hrow (Nat.sub_le 2 run)) fuel rest
        · have hfront := hshort (closing '\x22' rest)
          rw [hwritten, List.cons_append] at hfront ⊢
          exact longBasicTail_quote (Nat.le_trans hfront (Nat.sub_le 2 run)) (hlater hallowed)
      · -- The third quote in a row is escaped, and the row starts anew.
        rw [basicChars, if_pos rfl, if_neg hallowed]
        exact longBasicTail_escaped escapes_quote (hlater (Nat.zero_le 2))
    · rw [basicChars_cons_of_ne hquote, List.append_assoc]
      rcases basicChar_cases true hquote with ⟨hwritten, hplain, hbackslash⟩ | ⟨-, rfl, hwritten⟩ |
        ⟨first, others, hwritten, hescapes⟩
      · rw [hwritten]
        exact longBasicTail_plain hquote hbackslash hplain (hlater (Nat.zero_le 2))
      · rw [hwritten]
        exact longBasicTail_newLine (hlater (Nat.zero_le 2))
      · rw [hwritten]
        exact longBasicTail_escaped hescapes (hlater (Nat.zero_le 2))

/-! ## 5. The long form in single quotes -/

/-- One more character of a text: the longest row so far and the row that it goes on with. -/
def rowStep (quote : Char) (rows : Nat × Nat) (c : Char) : Nat × Nat :=
  let run := if c = quote then rows.2 + 1 else 0
  (max rows.1 run, run)

theorem longestRun_eq (quote : Char) (cs : List Char) :
    longestRun quote cs = (cs.foldl (rowStep quote) (0, 0)).1 := rfl

theorem rowStep_le (quote : Char) (rows : Nat × Nat) (c : Char) :
    rows.1 ≤ (rowStep quote rows c).1 ∧ (rowStep quote rows c).2 ≤ (rowStep quote rows c).1 :=
  ⟨Nat.le_max_left _ _, Nat.le_max_right _ _⟩

theorem le_foldl_rowStep (quote : Char) (cs : List Char) (rows : Nat × Nat) :
    rows.1 ≤ (cs.foldl (rowStep quote) rows).1 := by
  induction cs generalizing rows with
  | nil => exact Nat.le_refl _
  | cons c cs ih => exact Nat.le_trans (rowStep_le quote rows c).1 (ih _)

/-- If no row of quotes in a text is too long, neither is the one at its front. -/
theorem frontFits_of_rows {quote : Char} (cs : List Char) {best run limit : Nat} (hwithin : run ≤ limit)
    (hrows : (cs.foldl (rowStep quote) (best, run)).1 ≤ limit) : FrontFits quote (limit - run) cs := by
  induction cs generalizing best run with
  | nil => exact frontFits_nil _ _
  | cons c cs ih =>
    by_cases hsame : c = quote
    · subst hsame
      have hstep : rowStep c (best, run) c = (max best (run + 1), run + 1) := by simp [rowStep]
      have hlongest := rowStep_le c (best, run) c
      have hfinal := le_foldl_rowStep c cs (rowStep c (best, run) c)
      rw [List.foldl_cons] at hrows
      rw [hstep] at hlongest hfinal hrows
      have hreached : run + 1 ≤ limit := Nat.le_trans hlongest.2 (Nat.le_trans hfinal hrows)
      have hroom : limit - run = limit - (run + 1) + 1 := by omega
      rw [hroom]
      exact frontFits_cons (ih hreached hrows)
    · exact frontFits_cons_of_ne hsame _ _

theorem longLiteralTail_closing {j : Nat} (hfew : j ≤ 2) (fuel : Nat) (rest : List Char) :
    longLiteralTail (fuel + 1) (List.replicate j '\x27' ++ closing '\x27' rest) =
      some (List.replicate j '\x27', '\n' :: rest) := by
  have hrow := quoteRun_closing '\x27' (by decide) j rest
  have hafter := drop_closing '\x27' j rest
  obtain ⟨text, hstarts⟩ := closing_eq_cons '\x27' j rest
  rw [hstarts] at hrow hafter ⊢
  rw [longLiteralTail, if_pos rfl]
  simp only [hrow, List.length_replicate, meaning_of_closing hfew, hafter]

/-- A text of short rows of single quotes in which every character stands for itself. -/
theorem longLiteralTail_self (cs rest : List Char) {fuel best run : Nat} (henough : cs.length < fuel)
    (hplain : ∀ c ∈ cs, c ≠ '\x27' → c ≠ '\n' → isLiteralChar c = true) (hwithin : run ≤ 2)
    (hrows : (cs.foldl (rowStep '\x27') (best, run)).1 ≤ 2) :
    longLiteralTail fuel (cs ++ closing '\x27' rest) = some (cs, '\n' :: rest) := by
  induction cs generalizing fuel best run with
  | nil =>
    obtain ⟨fuel, rfl⟩ := Nat.exists_eq_succ_of_ne_zero (Nat.ne_of_gt henough)
    exact longLiteralTail_closing (Nat.zero_le 2) fuel rest
  | cons c cs ih =>
    obtain ⟨fuel, rfl⟩ := Nat.exists_eq_succ_of_ne_zero (Nat.ne_of_gt (Nat.zero_lt_of_lt henough))
    have hfront := frontFits_of_rows (c :: cs) hwithin hrows
    rw [List.foldl_cons] at hrows
    have hreached : (rowStep '\x27' (best, run) c).2 ≤ 2 :=
      Nat.le_trans (rowStep_le _ _ c).2 (Nat.le_trans (le_foldl_rowStep _ cs _) hrows)
    have hlater := ih (Nat.lt_of_succ_lt_succ henough)
      (fun d hmem => hplain d (List.mem_cons_of_mem _ hmem)) hreached hrows
    by_cases hquote : c = '\x27'
    · subst hquote
      -- The row of quotes at the front is the end of the text, or too short to end it.
      rcases hfront with ⟨j, hrow, htext⟩ | hshort
      · rw [htext]
        exact longLiteralTail_closing (Nat.le_trans hrow (Nat.sub_le 2 run)) fuel rest
      · have hfew := Nat.le_trans (hshort (closing '\x27' rest)) (Nat.sub_le 2 run)
        rw [List.cons_append] at hfew ⊢
        have hinside : RunMeaning.of
            (quoteRun '\x27' ('\x27' :: (cs ++ closing '\x27' rest))).length = .inside :=
          if_pos (by omega)
        rw [longLiteralTail, if_pos rfl]
        simp only [hinside, hlater]
        rfl
    · by_cases hlineEnd : c = '\n'
      · subst hlineEnd
        rw [List.cons_append, longLiteralTail, if_neg hquote, if_neg (by decide), newLine]
        simp only [Option.bind_eq_bind, Option.bind_some, hlater]
      · rw [List.cons_append, longLiteralTail, if_neg hquote,
          if_pos (hplain c List.mem_cons_self hquote hlineEnd), hlater]
        rfl

/-! ## 6. Strings -/

theorem isLiteralChar_of_plain {c : Char} (hcontrol : isControl c = false) (hquote : c ≠ '\x27')
    (hlineEnd : c ≠ '\n') : isLiteralChar c = true := by
  have hcomment : isCommentChar c = true := by
    by_cases htab : c = '\t'
    · rw [htab]
      rfl
    · have hvisible : 0x1f < c.toNat ∧ c.toNat ≠ 0x7f := by
        simpa [isControl, htab, hlineEnd] using hcontrol
      have hleast : 0x20 ≤ c.toNat := hvisible.1
      simp [isCommentChar, hleast, hvisible.2]
  simp [isLiteralChar, hcomment, hquote]

theorem skipNewLine_of_ne {c : Char} (h : c ≠ '\n' ∧ c ≠ '\r') (cs : List Char) :
    skipNewLine (c :: cs) = c :: cs := by
  rw [skipNewLine, newLine_of_ne h]

theorem basicChar_ne_nil {isLong : Bool} {c : Char} (hquote : c ≠ '\x22') : basicChar isLong c ≠ [] := by
  rcases basicChar_cases isLong hquote with
    ⟨hwritten, -⟩ | ⟨-, -, hwritten⟩ | ⟨first, others, hwritten, -⟩ <;>
    simp [hwritten]

theorem length_le_basicChars (isLong : Bool) (allowed run : Nat) (cs : List Char) :
    cs.length ≤ (basicChars isLong allowed run cs).length := by
  induction cs generalizing run with
  | nil => exact Nat.zero_le _
  | cons c cs ih =>
    by_cases hquote : c = '\x22'
    · have hplain := ih (run + 1)
      have hescaped := ih 0
      rw [basicChars, if_pos hquote]
      split <;> simp only [List.length_cons] <;> omega
    · have hsome : 0 < (basicChar isLong c).length := List.length_pos_iff.2 (basicChar_ne_nil hquote)
      have hlater := ih 0
      rw [basicChars_cons_of_ne hquote, List.length_append, List.length_cons]
      omega

theorem not_mem_of_longestRun {quote : Char} {cs : List Char} (hnone : longestRun quote cs = 0) :
    quote ∉ cs := by
  have hcounted (cs : List Char) (rows : Nat × Nat) (hmem : quote ∈ cs) :
      0 < (cs.foldl (rowStep quote) rows).1 := by
    induction cs generalizing rows with
    | nil => cases hmem
    | cons c cs ih =>
      rw [List.foldl_cons]
      rcases List.mem_cons.1 hmem with rfl | hmem
      · have hrow : (rowStep quote rows quote).2 = rows.2 + 1 := by simp [rowStep]
        have hlongest := (rowStep_le quote rows quote).2
        have hfinal := le_foldl_rowStep quote cs (rowStep quote rows quote)
        omega
      · exact ih _ hmem
  intro hmem
  have hsome := hcounted cs (0, 0) hmem
  rw [longestRun_eq] at hnone
  omega

/-- What a form without escapes asks of a text. -/
theorem form_literal {cs : List Char} (hform : StringForm.of cs = .literal) :
    (∀ c ∈ cs, isControl c = false) ∧ longestRun '\x27' cs = 0 ∧ '\n' ∉ cs := by
  unfold StringForm.of at hform
  simp only at hform
  split at hform
  · cases hform
  split at hform
  · rename_i hplain
    simpa [and_assoc] using hplain
  split at hform
  · cases hform
  split at hform
  · cases hform
  split at hform <;> cases hform

theorem form_longLiteral {cs : List Char} (hform : StringForm.of cs = .longLiteral) :
    (∀ c ∈ cs, isControl c = false) ∧ longestRun '\x27' cs ≤ 2 := by
  unfold StringForm.of at hform
  simp only at hform
  split at hform
  · cases hform
  split at hform
  · cases hform
  split at hform
  · cases hform
  split at hform
  · rename_i hplain
    simpa using hplain
  split at hform <;> cases hform

theorem skipNewLine_openingLine {cs body : List Char}
    (hstarts : '\n' ∉ cs → ∃ c text, body = c :: text ∧ c ≠ '\n' ∧ c ≠ '\r') :
    skipNewLine (openingLine cs ++ body) = body := by
  rw [openingLine]
  split
  · rfl
  · rename_i habsent
    obtain ⟨c, text, rfl, hothers⟩ := hstarts (by simpa using habsent)
    exact skipNewLine_of_ne hothers text

/-- A text in double quotes is read back. -/
theorem string_basic (cs rest : List Char) :
    string ('\x22' :: (basicChars false 0 0 cs ++ '\x22' :: '\n' :: rest)) =
      some (String.ofList cs, '\n' :: rest) := by
  -- No text makes three quotes in a row here, not even the empty one, as a line end follows.
  have hshort : string ('\x22' :: (basicChars false 0 0 cs ++ '\x22' :: '\n' :: rest)) =
      shortString ('\x22' :: (basicChars false 0 0 cs ++ '\x22' :: '\n' :: rest)) := by
    cases cs with
    | nil => rfl
    | cons c cs =>
      obtain ⟨front, text, hwritten, hquote⟩ : ∃ front text,
          basicChars false 0 0 (c :: cs) = front :: text ∧ front ≠ '\x22' := by
        by_cases hquote : c = '\x22'
        · subst hquote
          exact ⟨'\\', _, rfl, by decide⟩
        · rw [basicChars_cons_of_ne hquote]
          rcases basicChar_cases false hquote with ⟨hwritten, -⟩ | ⟨hlong, -⟩ |
            ⟨first, others, hwritten, -⟩
          · exact ⟨c, _, by rw [hwritten]; rfl, hquote⟩
          · cases hlong
          · exact ⟨'\\', _, by rw [hwritten]; rfl, by decide⟩
      rw [hwritten, List.cons_append]
      unfold string
      split
      · rename_i hsame
        exact absurd (List.cons.inj (List.cons.inj hsame).2).1 hquote
      · rename_i hsame
        cases (List.cons.inj hsame).1
      · rfl
  have henough : cs.length < (basicChars false 0 0 cs ++ '\x22' :: '\n' :: rest).length + 1 := by
    have hwritten := length_le_basicChars false 0 0 cs
    rw [List.length_append]
    omega
  rw [hshort, shortString, asString]
  simp only [basicTail_basicChars cs ('\n' :: rest) henough, Option.bind_eq_bind, Option.bind_some]

/-- A text in single quotes is read back, as it is written like that only without control characters
and single quotes. -/
theorem string_literal {cs : List Char} (hform : StringForm.of cs = .literal) (rest : List Char) :
    string ('\x27' :: (cs ++ '\x27' :: '\n' :: rest)) = some (String.ofList cs, '\n' :: rest) := by
  obtain ⟨hcontrols, hnone, hlines⟩ := form_literal hform
  have hquotes := not_mem_of_longestRun hnone
  have hplain : ∀ c ∈ cs, isLiteralChar c = true := fun c hmem =>
    isLiteralChar_of_plain (hcontrols c hmem) (fun hsame => hquotes (hsame ▸ hmem))
      (fun hsame => hlines (hsame ▸ hmem))
  have hshort : string ('\x27' :: (cs ++ '\x27' :: '\n' :: rest)) =
      shortString ('\x27' :: (cs ++ '\x27' :: '\n' :: rest)) := by
    cases cs with
    | nil => rfl
    | cons c cs =>
      rw [List.cons_append]
      unfold string
      split
      · rename_i hsame
        cases (List.cons.inj hsame).1
      · rename_i hsame
        have hfront := (List.cons.inj (List.cons.inj hsame).2).1
        exact absurd (hfront ▸ List.mem_cons_self) hquotes
      · rfl
  rw [hshort, shortString, asString]
  simp only [literalTail_self cs ('\n' :: rest) hplain, Option.bind_eq_bind, Option.bind_some]

/-- A text in triple double quotes is read back. -/
theorem string_longBasic (cs rest : List Char) :
    string ('\x22' :: '\x22' :: '\x22' :: (openingLine cs ++
      (basicChars true 2 0 cs ++ closing '\x22' rest))) = some (String.ofList cs, '\n' :: rest) := by
  -- In a text without a line end nothing at the front is passed over.
  have hstarts : '\n' ∉ cs → ∃ c text,
      basicChars true 2 0 cs ++ closing '\x22' rest = c :: text ∧ c ≠ '\n' ∧ c ≠ '\r' := by
    intro hlines
    cases cs with
    | nil => exact ⟨'\x22', _, rfl, by decide⟩
    | cons c cs =>
      by_cases hquote : c = '\x22'
      · subst hquote
        exact ⟨'\x22', _, rfl, by decide⟩
      · rw [basicChars_cons_of_ne hquote]
        rcases basicChar_cases true hquote with ⟨hwritten, hplain, -⟩ | ⟨-, rfl, -⟩ |
          ⟨first, others, hwritten, -⟩
        · refine ⟨c, _, by rw [hwritten]; rfl, ?_, ?_⟩
          · rintro rfl
            cases hplain
          · rintro rfl
            cases hplain
        · exact absurd List.mem_cons_self hlines
        · exact ⟨'\\', _, by rw [hwritten]; rfl, by decide⟩
  have henough : cs.length < (openingLine cs ++
      (basicChars true 2 0 cs ++ closing '\x22' rest)).length + 1 := by
    have hwritten := length_le_basicChars true 2 0 cs
    rw [List.length_append, List.length_append]
    omega
  rw [string, asString, skipNewLine_openingLine hstarts]
  simp only [longBasicTail_basicChars cs rest henough (Nat.zero_le 2), Option.bind_eq_bind,
    Option.bind_some]

/-- A text in triple single quotes is read back. -/
theorem string_longLiteral {cs : List Char} (hform : StringForm.of cs = .longLiteral)
    (rest : List Char) :
    string ('\x27' :: '\x27' :: '\x27' :: (openingLine cs ++ (cs ++ closing '\x27' rest))) =
      some (String.ofList cs, '\n' :: rest) := by
  obtain ⟨hcontrols, hrows⟩ := form_longLiteral hform
  have hstarts : '\n' ∉ cs →
      ∃ c text, cs ++ closing '\x27' rest = c :: text ∧ c ≠ '\n' ∧ c ≠ '\r' := by
    intro hlines
    cases cs with
    | nil => exact ⟨'\x27', _, rfl, by decide⟩
    | cons c cs =>
      refine ⟨c, _, rfl, fun hsame => hlines (hsame ▸ List.mem_cons_self), ?_⟩
      rintro rfl
      cases hcontrols _ List.mem_cons_self
  have hplain : ∀ c ∈ cs, c ≠ '\x27' → c ≠ '\n' → isLiteralChar c = true := fun c hmem =>
    isLiteralChar_of_plain (hcontrols c hmem)
  have henough : cs.length < (openingLine cs ++ (cs ++ closing '\x27' rest)).length + 1 := by
    rw [List.length_append, List.length_append]
    omega
  rw [longestRun_eq] at hrows
  rw [string, asString, skipNewLine_openingLine hstarts]
  simp only [longLiteralTail_self cs rest henough hplain (Nat.zero_le 2) hrows, Option.bind_eq_bind,
    Option.bind_some]

/-- Whatever text is written at the end of a line, it is read back. -/
theorem string_stringText (s : String) (rest : List Char) :
    string ((stringText s).toList ++ '\n' :: rest) = some (s, '\n' :: rest) := by
  have hsame : String.ofList s.toList = s := String.ofList_toList
  rw [stringText, String.toList_ofList]
  split
  · have hread := string_basic s.toList rest
    rw [hsame] at hread
    simpa using hread
  · rename_i hform
    have hread := string_literal hform rest
    rw [hsame] at hread
    simpa using hread
  · have hread := string_longBasic s.toList rest
    rw [hsame] at hread
    simpa [closing, List.replicate] using hread
  · rename_i hform
    have hread := string_longLiteral hform rest
    rw [hsame] at hread
    simpa [closing, List.replicate] using hread

end Cadence.Toml
