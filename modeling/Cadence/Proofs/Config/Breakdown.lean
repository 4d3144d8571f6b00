import Cadence.Config.Read
import Cadence.Proofs.Duration.Amounts

/-!
# Configurations that the reader breaks down on

Almost every text is read as a configuration or reported as none.  The exception is a document whose
longest sleep is a text that brims, with nothing wrong before it (`ofToml_breaksDown_iff`).
-/

namespace Cadence.Config

open Toml Duration

/-! ## 1. Breaking down -/

def BreaksDown {α : Type} (x : Except ReadError α) : Prop :=
  ∃ e, x = .error e ∧ e.isBreakdown = true

theorem not_breaksDown_ok {α : Type} (a : α) : ¬ BreaksDown (.ok a) := by
  rintro ⟨e, hwrong, -⟩
  cases hwrong

theorem breaksDown_error_iff {α : Type} (e : ReadError) :
    BreaksDown (.error e : Except ReadError α) ↔ e.isBreakdown = true :=
  ⟨fun ⟨_, hsame, hbreaks⟩ => by cases hsame; exact hbreaks, fun hbreaks => ⟨e, rfl, hbreaks⟩⟩

theorem breaksDown_map_iff {α β : Type} (f : α → β) (x : Except ReadError α) :
    BreaksDown (x.map f) ↔ BreaksDown x := by
  cases x with
  | error e => exact (breaksDown_error_iff e).trans (breaksDown_error_iff e).symm
  | ok a => exact iff_of_false (not_breaksDown_ok _) (not_breaksDown_ok _)

/-- Readers that follow each other break down in the first or, if that gives a result, in the
second. -/
theorem breaksDown_bind_iff {α β : Type} (x : Except ReadError α) (f : α → Except ReadError β) :
    BreaksDown (x >>= f) ↔ BreaksDown x ∨ ∃ a, x = .ok a ∧ BreaksDown (f a) := by
  cases x with
  | error e =>
    constructor
    · exact fun hbreaks => .inl ((breaksDown_error_iff e).2 ((breaksDown_error_iff e).1 hbreaks))
    · rintro (hbreaks | ⟨a, hsame, -⟩)
      · exact (breaksDown_error_iff e).2 ((breaksDown_error_iff e).1 hbreaks)
      · cases hsame
  | ok a =>
    constructor
    · exact fun hbreaks => .inr ⟨a, rfl, hbreaks⟩
    · rintro (hbreaks | ⟨b, hsame, hbreaks⟩)
      · exact (not_breaksDown_ok a hbreaks).elim
      · cases hsame
        exact hbreaks

theorem breaksDown_foldlM_iff {α β : Type} (f : β → α → Except ReadError β) (xs : List α) (b : β) :
    BreaksDown (xs.foldlM f b) ↔
      ∃ before x after c, xs = before ++ x :: after ∧ before.foldlM f b = .ok c ∧
        BreaksDown (f c x) := by
  constructor
  · rintro ⟨e, hwrong, hbreaks⟩
    obtain ⟨before, x, after, c, hsplit, hwell, hhere⟩ := (foldlM_eq_error_iff f xs b e).1 hwrong
    exact ⟨before, x, after, c, hsplit, hwell, e, hhere, hbreaks⟩
  · rintro ⟨before, x, after, c, hsplit, hwell, e, hhere, hbreaks⟩
    exact ⟨e, (foldlM_eq_error_iff f xs b e).2 ⟨before, x, after, c, hsplit, hwell, hhere⟩, hbreaks⟩

/-! ## 2. Values -/

theorem not_breaksDown_text (node : Node) : ¬ BreaksDown (text node) := by
  cases node <;> simp [text, not_breaksDown_ok, breaksDown_error_iff, wrongType, ReadError.isBreakdown]

theorem not_breaksDown_flag (node : Node) : ¬ BreaksDown (flag node) := by
  cases node <;> simp [flag, not_breaksDown_ok, breaksDown_error_iff, wrongType, ReadError.isBreakdown]

theorem not_breaksDown_count (node : Node) : ¬ BreaksDown (count node) := by
  cases node with
  | integer i =>
    rw [count]
    split <;> simp [not_breaksDown_ok, breaksDown_error_iff, ReadError.isBreakdown]
  | _ => simp [count, breaksDown_error_iff, wrongType, ReadError.isBreakdown]

theorem not_breaksDown_policyNamed (name : String) : ¬ BreaksDown (policyNamed name) := by
  rw [policyNamed]
  split <;> simp [not_breaksDown_ok, breaksDown_error_iff, ReadError.isBreakdown]

theorem not_breaksDown_policyArgument (node : Node) : ¬ BreaksDown (policyArgument node) := by
  unfold policyArgument
  split <;> (try split) <;> simp [not_breaksDown_ok, breaksDown_error_iff, ReadError.isBreakdown]

/-- To read a policy never breaks down. -/
theorem not_breaksDown_policy (node : Node) : ¬ BreaksDown (policy node) := by
  unfold policy
  split
  · exact not_breaksDown_policyNamed _
  · rename_i name node
    rw [breaksDown_bind_iff]
    rintro (hbreaks | ⟨p, -, hbreaks⟩)
    · exact not_breaksDown_policyNamed _ hbreaks
    · rw [breaksDown_bind_iff] at hbreaks
      rcases hbreaks with hbreaks | ⟨-, -, hbreaks⟩
      · exact not_breaksDown_policyArgument _ hbreaks
      · exact not_breaksDown_ok _ hbreaks
  · simp [breaksDown_error_iff, ReadError.isBreakdown]
  · simp [breaksDown_error_iff, ReadError.isBreakdown]

/-- A length breaks down if it is a text that brims. -/
theorem breaksDown_length_iff (node : Node) :
    BreaksDown (length node) ↔ ∃ s, node = .string s ∧ Brims s := by
  rw [length, breaksDown_bind_iff]
  constructor
  · rintro (hbreaks | ⟨s, hgiven, hbreaks⟩)
    · exact (not_breaksDown_text node hbreaks).elim
    · cases node <;> simp only [text, reduceCtorEq] at hgiven
      cases hgiven
      refine ⟨s, rfl, (ofText_eq_carryOverflow_iff s).1 ?_⟩
      cases hread : ofText s with
      | ok d =>
        rw [hread] at hbreaks
        exact (not_breaksDown_ok _ hbreaks).elim
      | error e =>
        rw [hread] at hbreaks
        have hoverflow := (breaksDown_error_iff _).1 hbreaks
        cases e <;> first | rfl | cases hoverflow
  · rintro ⟨s, rfl, hbrims⟩
    refine .inr ⟨s, rfl, ?_⟩
    rw [(ofText_eq_carryOverflow_iff s).2 hbrims]
    exact ⟨_, rfl, rfl⟩

/-! ## 3. Sections -/

/-- A table breaks down at one of its entries, where all before it went well. -/
theorem breaksDown_putEntries_iff {α : Type} (fields : List (Field α)) (es : Entries) (x : α) :
    BreaksDown (putEntries fields es x) ↔
      ∃ before key node after c f, es = before ++ (key, node) :: after ∧
        putEntries fields before x = .ok c ∧ fields.find? (·.key == key) = some f ∧
        BreaksDown (f.put node c) := by
  rw [putEntries, breaksDown_foldlM_iff]
  constructor
  · rintro ⟨before, ⟨key, node⟩, after, c, hsplit, hwell, hbreaks⟩
    cases hknown : fields.find? (·.key == key) with
    | none =>
      simp only [hknown] at hbreaks
      exact (not_breaksDown_ok _ hbreaks).elim
    | some f =>
      simp only [hknown] at hbreaks
      exact ⟨before, key, node, after, c, f, hsplit, hwell, hknown, hbreaks⟩
  · rintro ⟨before, key, node, after, c, f, hsplit, hwell, hknown, hbreaks⟩
    refine ⟨before, (key, node), after, c, hsplit, hwell, ?_⟩
    simp only [hknown]
    exact hbreaks

/-- A section none of whose fields breaks down does not either. -/
theorem not_breaksDown_putSection {α : Type} (expected : String) {fields : List (Field α)}
    (hsound : ∀ f ∈ fields, ∀ node x, ¬ BreaksDown (f.put node x)) (node : Node) (x : α) :
    ¬ BreaksDown (putSection expected fields node x) := by
  have helements (nodes : List Node) : ¬ BreaksDown (putElements fields nodes x) := by
    rw [putElements, breaksDown_foldlM_iff]
    rintro ⟨before, ⟨f, node⟩, after, c, hsplit, -, hbreaks⟩
    have hmem : (f, node) ∈ fields.zip nodes := by
      rw [hsplit]
      exact List.mem_append_cons_self
    exact hsound f (List.of_mem_zip hmem).1 node c hbreaks
  cases node with
  | table origin es =>
    rw [putSection, breaksDown_putEntries_iff]
    rintro ⟨before, key, node, after, c, f, -, -, hknown, hbreaks⟩
    exact hsound f (List.mem_of_find?_eq_some hknown) node c hbreaks
  | array nodes => exact helements nodes
  | tables items => exact helements _
  | datetime => exact not_breaksDown_ok x
  | _ => simp [putSection, wrongType, breaksDown_error_iff, ReadError.isBreakdown]

theorem not_breaksDown_field {α β : Type} {key : String} {read : Node → Except ReadError β}
    {store : β → α → α} (hsound : ∀ node, ¬ BreaksDown (read node)) (node : Node) (x : α) :
    ¬ BreaksDown ((field key read store).put node x) :=
  mt (breaksDown_map_iff _ _).1 (hsound node)

theorem messaging_sound : ∀ f ∈ messagingFields, ∀ node x, ¬ BreaksDown (f.put node x) := by
  simp only [messagingFields, List.forall_mem_cons]
  exact ⟨not_breaksDown_field not_breaksDown_count, not_breaksDown_field not_breaksDown_count,
    List.forall_mem_nil _⟩

theorem metrics_sound : ∀ f ∈ metricsFields, ∀ node x, ¬ BreaksDown (f.put node x) := by
  simp only [metricsFields, List.forall_mem_cons]
  exact ⟨not_breaksDown_field not_breaksDown_flag, not_breaksDown_field not_breaksDown_count,
    List.forall_mem_nil _⟩

/-- In the settings of a run loop the longest sleep is a text that brims, and nothing before it is
wrong. -/
inductive LoopBrims : Node → Prop
  | table {origin : Origin} {before after : Entries} {s : String} {l : LoopSettings}
      (well : putEntries loopFields before .default = .ok l) (brims : Brims s) :
      LoopBrims (.table origin (before ++ ("max_wait", .string s) :: after))
  | array {name s : String} {rest : List Node} (brims : Brims s) :
      LoopBrims (.array (.string name :: .string s :: rest))

/-- Of the fields of a run loop only the longest sleep can break down. -/
theorem find?_loopFields (key : String) (node : Node) (l : LoopSettings) :
    (∃ f, loopFields.find? (·.key == key) = some f ∧ BreaksDown (f.put node l)) ↔
      key = "max_wait" ∧ ∃ s, node = .string s ∧ Brims s := by
  constructor
  · rintro ⟨f, hknown, hbreaks⟩
    have hkeyed : f.key = key := by simpa using List.find?_some hknown
    have hmem := List.mem_of_find?_eq_some hknown
    simp only [loopFields, List.mem_cons, List.not_mem_nil, or_false] at hmem
    rcases hmem with rfl | rfl | rfl
    · exact (not_breaksDown_field not_breaksDown_text node l hbreaks).elim
    · exact ⟨hkeyed.symm, (breaksDown_length_iff node).1 ((breaksDown_map_iff _ _).1 hbreaks)⟩
    · exact (not_breaksDown_field not_breaksDown_policy node l hbreaks).elim
  · rintro ⟨rfl, hbrims⟩
    exact ⟨_, rfl, (breaksDown_map_iff _ _).2 ((breaksDown_length_iff node).2 hbrims)⟩

theorem text_eq_ok_iff (node : Node) (s : String) : text node = .ok s ↔ node = .string s := by
  cases node <;> simp [text]

/-- The longest sleep comes second in an array, so only a name can stand before it. -/
theorem breaksDown_elements_iff (nodes : List Node) (l : LoopSettings) :
    BreaksDown (putElements loopFields nodes l) ↔
      ∃ name s rest, nodes = .string name :: .string s :: rest ∧ Brims s := by
  rw [putElements, breaksDown_foldlM_iff]
  constructor
  · rintro ⟨before, ⟨f, node⟩, after, c, hsplit, hwell, hbreaks⟩
    cases nodes with
    | nil => exact absurd hsplit (by simp)
    | cons a nodes =>
      -- The name is no length, and it has to be a text for the length to be read at all.
      rw [loopFields, List.zip_cons_cons, List.cons_eq_append_iff] at hsplit
      rcases hsplit with ⟨rfl, hsame⟩ | ⟨before, rfl, hsplit⟩
      · cases hsame
        exact (not_breaksDown_field not_breaksDown_text node _ hbreaks).elim
      rw [List.foldlM_cons] at hwell
      cases nodes with
      | nil => exact absurd hsplit (by simp)
      | cons b nodes =>
        rw [List.zip_cons_cons, List.cons_eq_append_iff] at hsplit
        rcases hsplit with ⟨rfl, hsame⟩ | ⟨before, rfl, hsplit⟩
        · cases hsame
          obtain ⟨s, rfl, hbrims⟩ := (breaksDown_length_iff node).1 ((breaksDown_map_iff _ _).1 hbreaks)
          cases hnamed : text a with
          | error e =>
            simp only [field, hnamed] at hwell
            cases hwell
          | ok name =>
            rw [(text_eq_ok_iff a name).1 hnamed]
            exact ⟨name, s, nodes, rfl, hbrims⟩
        · have hmem : (f, node) ∈
              [field "catch_up" policy fun v s => { s with policy := v }].zip nodes := by
            rw [hsplit]
            exact List.mem_append_cons_self
          rw [List.mem_singleton.1 (List.of_mem_zip hmem).1] at hbreaks
          exact (not_breaksDown_field not_breaksDown_policy node c hbreaks).elim
  · rintro ⟨name, s, rest, rfl, hbrims⟩
    refine ⟨[_], _, _, _, rfl, rfl, ?_⟩
    exact (breaksDown_map_iff _ _).2 ((breaksDown_length_iff _).2 ⟨s, rfl, hbrims⟩)

/-- The section of the run loop breaks down as a table or as an array. -/
theorem breaksDown_loop_iff (node : Node) :
    BreaksDown (putSection "struct RunLoopConfig" loopFields node .default) ↔ LoopBrims node := by
  cases node with
  | table origin es =>
    rw [putSection, breaksDown_putEntries_iff]
    constructor
    · rintro ⟨before, key, node, after, l, f, rfl, hwell, hknown, hbreaks⟩
      obtain ⟨rfl, s, rfl, hbrims⟩ := (find?_loopFields key node l).1 ⟨f, hknown, hbreaks⟩
      exact .table hwell hbrims
    · intro hbrims
      cases hbrims with
      | table hwell hbrims =>
        obtain ⟨f, hknown, hbreaks⟩ := (find?_loopFields "max_wait" _ _).2 ⟨rfl, _, rfl, hbrims⟩
        exact ⟨_, _, _, _, _, f, rfl, hwell, hknown, hbreaks⟩
  | array nodes =>
    rw [putSection, breaksDown_elements_iff]
    constructor
    · rintro ⟨name, s, rest, rfl, hbrims⟩
      exact .array hbrims
    · intro hbrims
      cases hbrims with
      | array hbrims => exact ⟨_, _, _, rfl, hbrims⟩
  | tables items =>
    -- An array of tables is read like an array, but none of its elements is a name.
    rw [putSection, breaksDown_elements_iff]
    constructor
    · rintro ⟨name, s, rest, hsame, -⟩
      cases items <;> cases hsame
    · intro hbrims
      cases hbrims
  | _ =>
    refine iff_of_false ?_ (fun hbrims => nomatch hbrims)
    simp [putSection, not_breaksDown_ok, wrongType, breaksDown_error_iff, ReadError.isBreakdown]

/-! ## 4. Documents -/

def DocumentBrims (es : Entries) : Prop :=
  ∃ before node after c, es = before ++ ("run_loop", node) :: after ∧
    putEntries sections before .default = .ok c ∧ LoopBrims node

/-- Of the sections only that of the run loop can break down. -/
theorem find?_sections (key : String) (node : Node) (c : Config) :
    (∃ f, sections.find? (·.key == key) = some f ∧ BreaksDown (f.put node c)) ↔
      key = "run_loop" ∧ LoopBrims node := by
  constructor
  · rintro ⟨f, hknown, hbreaks⟩
    have hkeyed : f.key = key := by simpa using List.find?_some hknown
    have hmem := List.mem_of_find?_eq_some hknown
    simp only [sections, List.mem_cons, List.not_mem_nil, or_false] at hmem
    rcases hmem with rfl | rfl | rfl
    · exact ⟨hkeyed.symm, (breaksDown_loop_iff node).1 ((breaksDown_map_iff _ _).1 hbreaks)⟩
    · have hmessaging := (breaksDown_map_iff _ _).1 hbreaks
      exact (not_breaksDown_putSection _ messaging_sound node _ hmessaging).elim
    · have hmetrics := (breaksDown_map_iff _ _).1 hbreaks
      exact (not_breaksDown_putSection _ metrics_sound node _ hmetrics).elim
  · rintro ⟨rfl, hbrims⟩
    exact ⟨_, rfl, (breaksDown_map_iff _ _).2 ((breaksDown_loop_iff node).2 hbrims)⟩

/-- The reader breaks down on the documents in which the longest sleep of the run loop brims before
anything else is wrong, and on no other text. -/
theorem ofToml_breaksDown_iff (text : String) :
    (∃ e, ofToml text = .error e ∧ e.isBreakdown = true) ↔
      ∃ es, Toml.document text = some es ∧ DocumentBrims es := by
  show BreaksDown (ofToml text) ↔ _
  rw [ofToml]
  cases document text with
  | none => simp [breaksDown_error_iff, ReadError.isBreakdown]
  | some es =>
    simp only [Option.some.injEq, exists_eq_left']
    rw [breaksDown_putEntries_iff]
    constructor
    · rintro ⟨before, key, node, after, c, f, rfl, hwell, hknown, hbreaks⟩
      obtain ⟨rfl, hbrims⟩ := (find?_sections key node c).1 ⟨f, hknown, hbreaks⟩
      exact ⟨before, node, after, c, rfl, hwell, hbrims⟩
    · rintro ⟨before, node, after, c, rfl, hwell, hbrims⟩
      obtain ⟨f, hknown, hbreaks⟩ := (find?_sections "run_loop" node c).2 ⟨rfl, hbrims⟩
      exact ⟨before, _, node, after, c, f, rfl, hwell, hknown, hbreaks⟩

/-- Nanoseconds that fill up the last second that there is. -/
theorem maxWait_not_reported : ¬ ∀ text e, ofToml text = .error e → e.isBreakdown = false := by
  intro hreported
  have hbrims : ofToml "[run_loop]\nmax_wait = \"18446744073709551615s 1000ms\"\n" =
      .error (.duration .carryOverflow) := by
    rfl
  cases hreported _ _ hbrims

end Cadence.Config
