import Cadence.Proofs.Config.Breakdown
import Cadence.Proofs.Config.RoundTrip
import Cadence.Proofs.Toml.Keys
import Mathlib.Data.Finset.Basic

/-!
# Configurations that say little

A document may give any of the seven settings and leave the others out, in any order, among any other
keys and sections.  What is read from it is the default configuration with the settings that it gives
(`ofToml_overlays_default`).
-/

namespace Cadence.Config

open Toml

/-! ## 1. Settings -/

inductive Setting
  | name
  | maxWait
  | policy
  | queueSlots
  | busSlots
  | enabled
  | samples
  deriving DecidableEq

namespace Setting

def home : Setting → String
  | name | maxWait | policy => "run_loop"
  | queueSlots | busSlots => "messaging"
  | enabled | samples => "metrics"

def key : Setting → String
  | name => "name"
  | maxWait => "max_wait"
  | policy => "catch_up"
  | queueSlots => "queue_capacity"
  | busSlots => "bus_capacity"
  | enabled => "enabled"
  | samples => "histogram_size"

/-- A value says of a setting what it is in `c`.  A policy is given by its name, or by a table that gives
something empty to that name. -/
def Matches (c : Config) (node : Node) : Setting → Prop
  | name => node = .string c.runLoop.name
  | maxWait => ∃ text, node = .string text ∧ Duration.ofText text = .ok c.runLoop.maxWait
  | policy => node = .string c.runLoop.policy.name ∨
      ∃ origin argument, node = .table origin [(c.runLoop.policy.name, argument)] ∧
        policyArgument argument = .ok ()
  | queueSlots => node = .integer c.messaging.queueSlots
  | busSlots => node = .integer c.messaging.busSlots
  | enabled => node = .boolean c.metrics.enabled
  | samples => node = .integer c.metrics.samples

end Setting

def overlay (given : Finset Setting) (c : Config) : Config where
  runLoop :=
    { name := if .name ∈ given then c.runLoop.name else LoopSettings.default.name
      maxWait := if .maxWait ∈ given then c.runLoop.maxWait else LoopSettings.default.maxWait
      policy := if .policy ∈ given then c.runLoop.policy else LoopSettings.default.policy }
  messaging :=
    { queueSlots :=
        if .queueSlots ∈ given then c.messaging.queueSlots else MessagingSettings.default.queueSlots
      busSlots :=
        if .busSlots ∈ given then c.messaging.busSlots else MessagingSettings.default.busSlots }
  metrics :=
    { enabled := if .enabled ∈ given then c.metrics.enabled else MetricsSettings.default.enabled
      samples := if .samples ∈ given then c.metrics.samples else MetricsSettings.default.samples }

/-! ## 2. Documents -/

def homeKeys (home : String) : List String :=
  ([.name, .maxWait, .policy, .queueSlots, .busSlots, .enabled, .samples] : List Setting).filterMap
    fun s => if s.home = home then some s.key else none

/-- What a section says, if it is one: a table of its keys, or an array of their values. -/
def said (keys : List String) : Node → Option Entries
  | .table _ es => some es
  | .datetime => some []
  | .array nodes => some (keys.zip nodes)
  | .tables items => some (keys.zip (items.map fun es => .table .header es))
  | _ => none

def Gives (es : Entries) (s : Setting) (node : Node) : Prop :=
  ∃ section' sub, (s.home, section') ∈ es ∧ said (homeKeys s.home) section' = some sub ∧
    (s.key, node) ∈ sub

/-- A document gives exactly these settings, the values that they have in `c`.  It may have any other
keys, there and in the sections. -/
structure Describes (es : Entries) (given : Finset Setting) (c : Config) : Prop where
  /-- What has the name of a section is a section. -/
  sections : ∀ s : Setting, ∀ node, (s.home, node) ∈ es → said (homeKeys s.home) node ≠ none
  exactly : ∀ s, s ∈ given ↔ ∃ node, Gives es s node
  values : ∀ s node, Gives es s node → s.Matches c node

/-! ## 3. Values -/

theorem text_of_matches {c : Config} {node : Node} (h : Setting.name.Matches c node) :
    text node = .ok c.runLoop.name :=
  (text_eq_ok_iff node _).2 h

theorem length_of_matches {c : Config} {node : Node} (h : Setting.maxWait.Matches c node) :
    length node = .ok c.runLoop.maxWait := by
  obtain ⟨text, rfl, hread⟩ := h
  show (Duration.ofText text).mapError _ = _
  rw [hread]
  rfl

theorem policy_of_matches {c : Config} {node : Node} (h : Setting.policy.Matches c node) :
    policy node = .ok c.runLoop.policy := by
  rcases h with rfl | ⟨origin, argument, rfl, hempty⟩
  · exact policyNamed_name _
  · rw [policy, policyNamed_name]
    show (policyArgument argument >>= _) = _
    rw [hempty]
    rfl

theorem count_integer (n : Nat) : count (.integer n) = .ok n := by
  rw [count, if_pos (Int.natCast_nonneg n), Int.toNat_natCast]

theorem put_field {α β : Type} {key : String} {read : Node → Except ReadError β} {store : β → α → α}
    {node : Node} {v : β} (h : read node = .ok v) (x : α) :
    (field key read store).put node x = .ok (store v x) := by
  show (read node).map _ = _
  rw [h]
  rfl

/-! ## 4. Records -/

section

variable {α : Type} {fields : List (Field α)}

def putEntry (fields : List (Field α)) (e : String × Node) (x : α) : Except ReadError α :=
  match fields.find? fun f => f.key == e.1 with
  | some f => f.put e.2 x
  | none => .ok x

theorem putEntries_cons (e : String × Node) (es : Entries) (x : α) :
    putEntries fields (e :: es) x = putEntry fields e x >>= putEntries fields es :=
  rfl

def Distinct (fields : List (Field α)) : Prop :=
  ∀ f ∈ fields, fields.find? (fun g => g.key == f.key) = some f

/-- An array is like a table with the keys in their order. -/
theorem putElements_eq (hfields : Distinct fields) (nodes : List Node) (x : α) :
    putElements fields nodes x = putEntries fields ((fields.map Field.key).zip nodes) x := by
  have hmem : ∀ p ∈ fields.zip nodes, p.1 ∈ fields := fun p hp => (List.of_mem_zip hp).1
  rw [putElements, List.zip_map_left]
  generalize fields.zip nodes = pairs at hmem
  induction pairs generalizing x with
  | nil => rfl
  | cons p rest ih =>
    rw [List.forall_mem_cons] at hmem
    have hentry : putEntry fields (p.1.key, p.2) x = p.1.put p.2 x := by
      rw [putEntry, hfields p.1 hmem.1]
    show (p.1.put p.2 x >>= fun x' => _) = putEntry fields (p.1.key, p.2) x >>= _
    rw [hentry]
    congr 1
    funext x'
    exact ih x' hmem.2

/-- A section is read entry by entry, whether it is a table or an array. -/
theorem putSection_said {expected : String} (hfields : Distinct fields) {node : Node} {sub : Entries}
    (h : said (fields.map Field.key) node = some sub) (x : α) :
    putSection expected fields node x = putEntries fields sub x := by
  cases node with
  | table origin es =>
    cases h
    rfl
  | datetime =>
    cases h
    rfl
  | array nodes =>
    cases h
    exact putElements_eq hfields nodes x
  | tables items =>
    cases h
    exact putElements_eq hfields _ x
  | _ => cases h

/-- If every entry leads from the record for some keys to the record for one key more, a table leads to
the record for all its keys, in whatever order they come. -/
theorem putEntries_keys {record : List String → α} {es : Entries}
    (hput : ∀ e ∈ es, ∀ keys, putEntry fields e (record keys) = .ok (record (e.1 :: keys)))
    (keys : List String) :
    putEntries fields es (record keys) = .ok (record (es.keys.reverse ++ keys)) := by
  induction es generalizing keys with
  | nil => rfl
  | cons e rest ih =>
    rw [List.forall_mem_cons] at hput
    rw [putEntries_cons, hput.1 keys]
    show putEntries fields rest (record (e.1 :: keys)) = _
    rw [ih hput.2, Entries.keys_cons, List.reverse_cons, List.append_assoc]
    rfl

end

/-! ## 5. Sections -/

theorem Setting.key_injective {s s' : Setting} (h : s.key = s'.key) : s = s' := by
  cases s <;> cases s' <;> first | rfl | simp [key] at h

theorem Setting.key_mem_homeKeys (s : Setting) : s.key ∈ homeKeys s.home := by
  cases s <;> decide

structure Holds {α : Type} (home : String) (fields : List (Field α)) (part : Config → α) : Prop where
  keys : fields.map Field.key = homeKeys home
  distinct : Distinct fields
  /-- A field takes over the value of its setting. -/
  put : ∀ f ∈ fields, ∃ s : Setting, s.home = home ∧ s.key = f.key ∧
    ∀ (c : Config) (node : Node), s.Matches c node → ∀ given,
      f.put node (part (c.overlay given)) = .ok (part (c.overlay (insert s given)))
  /-- The part depends on its own settings only. -/
  congr : ∀ (c : Config) (given given' : Finset Setting),
    (∀ s : Setting, s.home = home → (s ∈ given ↔ s ∈ given')) →
      part (c.overlay given) = part (c.overlay given')

theorem holds_loop : Holds "run_loop" loopFields Config.runLoop where
  keys := rfl
  distinct := by
    simp only [Distinct, loopFields, List.forall_mem_cons]
    exact ⟨rfl, rfl, rfl, List.forall_mem_nil _⟩
  put := by
    simp only [loopFields, List.forall_mem_cons]
    refine ⟨⟨.name, rfl, rfl, fun c node h given => ?_⟩,
      ⟨.maxWait, rfl, rfl, fun c node h given => ?_⟩,
      ⟨.policy, rfl, rfl, fun c node h given => ?_⟩, List.forall_mem_nil _⟩
    · rw [put_field (text_of_matches h)]
      simp [overlay]
    · rw [put_field (length_of_matches h)]
      simp [overlay]
    · rw [put_field (policy_of_matches h)]
      simp [overlay]
  congr := by
    intro c given given' h
    simp only [overlay, h .name rfl, h .maxWait rfl, h .policy rfl]

theorem holds_messaging : Holds "messaging" messagingFields Config.messaging where
  keys := rfl
  distinct := by
    simp only [Distinct, messagingFields, List.forall_mem_cons]
    exact ⟨rfl, rfl, List.forall_mem_nil _⟩
  put := by
    simp only [messagingFields, List.forall_mem_cons]
    refine ⟨⟨.queueSlots, rfl, rfl, ?_⟩, ⟨.busSlots, rfl, rfl, ?_⟩, List.forall_mem_nil _⟩
    · rintro c _ rfl given
      rw [put_field (count_integer _)]
      simp [overlay]
    · rintro c _ rfl given
      rw [put_field (count_integer _)]
      simp [overlay]
  congr := by
    intro c given given' h
    simp only [overlay, h .queueSlots rfl, h .busSlots rfl]

theorem holds_metrics : Holds "metrics" metricsFields Config.metrics where
  keys := rfl
  distinct := by
    simp only [Distinct, metricsFields, List.forall_mem_cons]
    exact ⟨rfl, rfl, List.forall_mem_nil _⟩
  put := by
    simp only [metricsFields, List.forall_mem_cons]
    refine ⟨⟨.enabled, rfl, rfl, ?_⟩, ⟨.samples, rfl, rfl, ?_⟩, List.forall_mem_nil _⟩
    · rintro c _ rfl given
      rw [put_field (show flag (.boolean c.metrics.enabled) = .ok c.metrics.enabled from rfl)]
      simp [overlay]
    · rintro c _ rfl given
      rw [put_field (count_integer _)]
      simp [overlay]
  congr := by
    intro c given given' h
    simp only [overlay, h .enabled rfl, h .samples rfl]

theorem overlay_empty (c : Config) : c.overlay ∅ = .default := by
  simp [overlay, default]

section

variable {α : Type} {home : String} {fields : List (Field α)} {part : Config → α} {c : Config}
  {given : Finset Setting}

/-- A key of a section adds its setting to the ones that have been taken over; a key of no setting adds
nothing. -/
theorem putEntry_of_holds (hholds : Holds home fields part) {e : String × Node}
    (hmatches : ∀ s : Setting, s.home = home → s.key = e.1 → s ∈ given ∧ s.Matches c e.2)
    (keys : List String) :
    putEntry fields e (part (c.overlay (given.filter (·.key ∈ keys)))) =
      .ok (part (c.overlay (given.filter (·.key ∈ e.1 :: keys)))) := by
  rw [putEntry]
  split
  · rename_i f hfind
    have hkey : f.key = e.1 := by simpa using List.find?_some hfind
    obtain ⟨s, hhome, hskey, hput⟩ := hholds.put f (List.mem_of_find?_eq_some hfind)
    obtain ⟨hgiven, hs⟩ := hmatches s hhome (hskey.trans hkey)
    rw [hput c e.2 hs]
    congr 1
    apply hholds.congr
    intro s' _
    -- The settings of a section have different keys, so only this one is added.
    rw [Finset.mem_insert, Finset.mem_filter, Finset.mem_filter, List.mem_cons]
    constructor
    · rintro (rfl | ⟨hs', hmem⟩)
      · exact ⟨hgiven, .inl (hskey.trans hkey)⟩
      · exact ⟨hs', .inr hmem⟩
    · rintro ⟨hs', heq | hmem⟩
      · exact .inl (Setting.key_injective (heq.trans (hskey.trans hkey).symm))
      · exact .inr ⟨hs', hmem⟩
  · rename_i hfind
    congr 1
    apply hholds.congr
    intro s hhome
    -- A key that no field has is not that of a setting either.
    have hne : s.key ≠ e.1 := by
      rintro heq
      have hkeys := s.key_mem_homeKeys
      rw [hhome, ← hholds.keys, List.mem_map] at hkeys
      obtain ⟨f, hf, hfkey⟩ := hkeys
      have hother := List.find?_eq_none.1 hfind f hf
      simp [hfkey, heq] at hother
    simp [hne]

/-- A section that gives the settings `given` of its own as they are in `c` leads from the defaults to
the part of the configuration with those settings. -/
theorem putSection_of_holds (hholds : Holds home fields part) {expected : String} {node : Node}
    {sub : Entries} (hsaid : said (homeKeys home) node = some sub)
    (hgiven : ∀ s : Setting, s.home = home → (s ∈ given ↔ s.key ∈ sub.keys))
    (hmatches : ∀ s : Setting, s.home = home → ∀ value, (s.key, value) ∈ sub → s.Matches c value) :
    putSection expected fields node (part .default) = .ok (part (c.overlay given)) := by
  rw [← hholds.keys] at hsaid
  have hput : ∀ e ∈ sub, ∀ keys, putEntry fields e
      (part (c.overlay (given.filter (·.key ∈ keys)))) =
        .ok (part (c.overlay (given.filter (·.key ∈ e.1 :: keys)))) := by
    intro e he keys
    refine putEntry_of_holds hholds (fun s hhome hkey => ⟨?_, ?_⟩) keys
    · rw [hgiven s hhome, hkey]
      exact List.mem_map_of_mem he
    · refine hmatches s hhome e.2 ?_
      rw [hkey]
      exact he
  have hnone : given.filter (·.key ∈ ([] : List String)) = ∅ := by simp
  -- So the entries lead from no setting to those with the keys of the section.
  have hall := putEntries_keys hput []
  rw [hnone, overlay_empty] at hall
  rw [putSection_said hholds.distinct hsaid, hall]
  congr 1
  apply hholds.congr
  intro s hhome
  simp [hgiven s hhome]

end

/-! ## 6. Documents -/

section

variable {es : Entries} {given : Finset Setting} {c : Config}

/-- The parts of an overlay may come from different ones, if each has the settings of its section
right. -/
theorem mk_eq_overlay {loop messaging metrics : Finset Setting}
    (hloop : ∀ s : Setting, s.home = "run_loop" → (s ∈ loop ↔ s ∈ given))
    (hmessaging : ∀ s : Setting, s.home = "messaging" → (s ∈ messaging ↔ s ∈ given))
    (hmetrics : ∀ s : Setting, s.home = "metrics" → (s ∈ metrics ↔ s ∈ given)) :
    ⟨(c.overlay loop).runLoop, (c.overlay messaging).messaging, (c.overlay metrics).metrics⟩ =
      c.overlay given := by
  rw [holds_loop.congr c _ _ hloop, holds_messaging.congr c _ _ hmessaging,
    holds_metrics.congr c _ _ hmetrics]

/-- A section that says what some settings are is read as the part of the overlay with these
settings. -/
theorem putSection_of_describes (h : Describes es given c) (hnodup : es.keys.Nodup) {α : Type}
    {home : String} {fields : List (Field α)} {part : Config → α} (hholds : Holds home fields part)
    (hhome : ∃ s : Setting, s.home = home) {expected : String} {node : Node}
    (hmem : (home, node) ∈ es) :
    putSection expected fields node (part .default) = .ok (part (c.overlay given)) := by
  obtain ⟨s, rfl⟩ := hhome
  obtain ⟨sub, hsaid⟩ := Option.ne_none_iff_exists'.1 (h.sections s node hmem)
  have honly : ∀ s' : Setting, s'.home = s.home → ∀ value,
      Gives es s' value ↔ (s'.key, value) ∈ sub := by
    intro s' hhome value
    rw [Gives, hhome]
    constructor
    · rintro ⟨node', sub', hmem', hsaid', hvalue⟩
      cases List.inj_on_of_nodup_map hnodup hmem hmem' rfl
      cases hsaid.symm.trans hsaid'
      exact hvalue
    · exact fun hvalue => ⟨node, sub, hmem, hsaid, hvalue⟩
  apply putSection_of_holds hholds hsaid
  · intro s' hhome
    simp only [h.exactly s', honly s' hhome, Entries.keys, List.mem_map, Prod.exists, exists_and_right,
      exists_eq_right]
  · intro s' hhome value hvalue
    exact h.values s' value ((honly s' hhome value).2 hvalue)

/-- With each section that is read the overlay takes up the settings of that section. -/
theorem putEntry_of_describes (h : Describes es given c) (hnodup : es.keys.Nodup) {e : String × Node}
    (he : e ∈ es) (keys : List String) :
    putEntry sections e (c.overlay (given.filter (·.home ∈ keys))) =
      .ok (c.overlay (given.filter (·.home ∈ e.1 :: keys))) := by
  obtain ⟨key, node⟩ := e
  rw [putEntry]
  split
  · rename_i f hfind
    have hkey : f.key = key := by simpa using List.find?_some hfind
    have hmem := List.mem_of_find?_eq_some hfind
    simp only [sections, List.mem_cons, List.not_mem_nil, or_false] at hmem
    subst hkey
    -- A section changes its own part, whatever the other ones hold.
    rcases hmem with rfl | rfl | rfl
    · show (putSection "struct RunLoopConfig" loopFields node (runLoop .default)).map _ = _
      rw [putSection_of_describes h hnodup holds_loop ⟨.name, rfl⟩ he]
      refine congrArg Except.ok (mk_eq_overlay ?_ ?_ ?_) <;> intro s hhome <;> simp [hhome]
    · show (putSection "struct MessagingConfig" messagingFields node (messaging .default)).map _ = _
      rw [putSection_of_describes h hnodup holds_messaging ⟨.queueSlots, rfl⟩ he]
      refine congrArg Except.ok (mk_eq_overlay ?_ ?_ ?_) <;> intro s hhome <;> simp [hhome]
    · show (putSection "struct MetricsConfig" metricsFields node (metrics .default)).map _ = _
      rw [putSection_of_describes h hnodup holds_metrics ⟨.enabled, rfl⟩ he]
      refine congrArg Except.ok (mk_eq_overlay ?_ ?_ ?_) <;> intro s hhome <;> simp [hhome]
  · rename_i hfind
    have hne : ∀ s : Setting, s.home ≠ key := by
      rintro s rfl
      cases s <;> simp [sections, Setting.home] at hfind
    simp [hne]

/-- Reading a document gives the default configuration with exactly the settings that the document
gives. -/
theorem ofToml_overlays_default {text : String} (hread : document text = some es)
    (h : Describes es given c) : ofToml text = .ok (c.overlay given) := by
  have hall := putEntries_keys (fun e he => putEntry_of_describes h (nodup_document hread) he) []
  have hnone : given.filter (·.home ∈ ([] : List String)) = ∅ := by simp
  have hwhole : given.filter (·.home ∈ es.keys.reverse ++ []) = given := by
    rw [Finset.filter_eq_self]
    intro s hs
    obtain ⟨node, section', sub, hmem, -, -⟩ := (h.exactly s).1 hs
    rw [List.append_nil, List.mem_reverse]
    exact List.mem_map_of_mem hmem
  rw [hnone, overlay_empty, hwhole] at hall
  rw [ofToml, hread]
  exact hall

set_option maxRecDepth 2000 in
/-- The root has a key of no section, the section of the run loop has a table of no key, and nothing
is said about messages. -/
theorem ofToml_overlays_default_of_four_settings :
    ofToml ("log = true\nmetrics.enabled = false\n[run_loop]\n" ++
        "catch_up = \x7b skip_missed = [] \x7d\nlog.name = 'x'\nmax_wait = '250ms'\n" ++
        "name = \"avionics\"\n") =
      .ok ⟨⟨"avionics", ⟨0, 250000000, by decide, by decide⟩, .skipMissed⟩, ⟨128, 128⟩,
        ⟨false, 1024⟩⟩ := by
  have hread : document ("log = true\nmetrics.enabled = false\n[run_loop]\n" ++
      "catch_up = \x7b skip_missed = [] \x7d\nlog.name = 'x'\nmax_wait = '250ms'\n" ++
      "name = \"avionics\"\n") =
      some [("log", .boolean true), ("metrics", .table .dotted [("enabled", .boolean false)]),
        ("run_loop", .table .header [("catch_up", .table .inline [("skip_missed", .array [])]),
          ("log", .table .dotted [("name", .string "x")]), ("max_wait", .string "250ms"),
          ("name", .string "avionics")])] := by
    rfl
  have hwait : Duration.ofText "250ms" = .ok ⟨0, 250000000, by decide, by decide⟩ := by rfl
  refine (ofToml_overlays_default hread ⟨?_, ?_, ?_⟩ :
    _ = .ok (overlay {.name, .maxWait, .policy, .enabled}
      ⟨⟨"avionics", ⟨0, 250000000, by decide, by decide⟩, .skipMissed⟩, ⟨0, 0⟩,
        ⟨false, 0⟩⟩)).trans rfl
  · intro s node h
    cases s <;> simp [Setting.home] at h <;> simp [h, said]
  · intro s
    cases s <;> simp [Gives, Setting.home, Setting.key, said]
  · intro s
    cases s <;>
      simp [Gives, Setting.home, Setting.key, said, Setting.Matches, Policy.name, policyArgument, hwait]

end

end Cadence.Config
