import Cadence.Config.Read
import Cadence.Config.Write
import Cadence.Proofs.Duration.RoundTrip
import Cadence.Proofs.Toml.Lines

/-!
# Configurations as documents

A configuration can be written unless one of its numbers is too large for a signed 64-bit number, and
what is written is read back as the same configuration (`toToml_then_ofToml`).
-/

namespace Cadence.Config

open Toml

/-! ## 1. The document -/

def nodes (c : Config) : Entries :=
  [("run_loop", .table .header [("name", .string c.runLoop.name),
      ("max_wait", .string c.runLoop.maxWait.text), ("catch_up", .string c.runLoop.policy.name)]),
    ("messaging", .table .header [("queue_capacity", .integer c.messaging.queueSlots),
      ("bus_capacity", .integer c.messaging.busSlots)]),
    ("metrics", .table .header [("enabled", .boolean c.metrics.enabled),
      ("histogram_size", .integer c.metrics.samples)])]

def headerOf (name : String) : List Char × Option Line :=
  (("[" ++ name ++ "]\n").toList, some (.header [] name))

def pairOf (name value : String) (node : Node) : List Char × Option Line :=
  ((pairLine name value).toList, some (.pair [] name node))

def documentLines (c : Config) : List (List Char × Option Line) :=
  [headerOf "run_loop", pairOf "name" (stringText c.runLoop.name) (.string c.runLoop.name),
    pairOf "max_wait" (stringText c.runLoop.maxWait.text) (.string c.runLoop.maxWait.text),
    pairOf "catch_up" (stringText c.runLoop.policy.name) (.string c.runLoop.policy.name),
    (['\n'], none), headerOf "messaging",
    pairOf "queue_capacity" (toString c.messaging.queueSlots) (.integer c.messaging.queueSlots),
    pairOf "bus_capacity" (toString c.messaging.busSlots) (.integer c.messaging.busSlots),
    (['\n'], none), headerOf "metrics",
    pairOf "enabled" (if c.metrics.enabled then "true" else "false") (.boolean c.metrics.enabled),
    pairOf "histogram_size" (toString c.metrics.samples) (.integer c.metrics.samples)]

theorem isWritable_iff (c : Config) : c.isWritable = true ↔
    c.messaging.queueSlots ≤ maxSigned ∧ c.messaging.busSlots ≤ maxSigned ∧
      c.metrics.samples ≤ maxSigned := by
  simp [isWritable, and_assoc]

theorem headerOf_read {name : String} (hbare : IsBare name) :
    LineText (headerOf name).1 (headerOf name).2 :=
  lineText_header hbare

theorem pairOf_read {name value : String} (hbare : IsBare name) {node : Node}
    (hreads : ValueText value.toList node) :
    LineText (pairOf name value node).1 (pairOf name value node).2 :=
  lineText_pair hbare hreads

theorem documentLines_read {c : Config} (hwritable : c.isWritable = true) :
    ∀ t ∈ c.documentLines, LineText t.1 t.2 := by
  obtain ⟨hqueue, hbus, hsamples⟩ := (isWritable_iff c).1 hwritable
  simp only [documentLines, List.forall_mem_cons]
  exact ⟨headerOf_read (by decide), pairOf_read (by decide) (valueText_string _),
    pairOf_read (by decide) (valueText_string _), pairOf_read (by decide) (valueText_string _),
    lineText_empty, headerOf_read (by decide), pairOf_read (by decide) (valueText_integer hqueue),
    pairOf_read (by decide) (valueText_integer hbus), lineText_empty, headerOf_read (by decide),
    pairOf_read (by decide) (valueText_boolean _), pairOf_read (by decide) (valueText_integer hsamples),
    List.forall_mem_nil _⟩

/-- The document that is written is read as the values that were written. -/
theorem document_of_toToml {c : Config} {text : String} (hwritten : c.toToml = some text) :
    document text = some c.nodes := by
  rw [toToml] at hwritten
  split at hwritten
  · rename_i hwritable
    cases hwritten
    rw [document_of_lines c.documentLines (documentLines_read hwritable)]
    · rfl
    · simp only [documentLines, headerOf, pairOf, pairLine, List.flatMap_cons, List.flatMap_nil,
        String.toList_append, List.append_assoc, List.append_nil]
      rfl
    · simp only [String.toList_append, List.append_assoc]
      rfl
  · cases hwritten

/-! ## 2. Reading it -/

theorem policyNamed_name (p : Policy) : policyNamed p.name = .ok p := by
  cases p <;> rfl

theorem length_text (d : Duration) : length (.string d.text) = .ok d := by
  show (Duration.ofText d.text).mapError _ = _
  rw [Duration.ofText_text]
  rfl

theorem putEntries_nodes (c : Config) : putEntries sections c.nodes .default = .ok c := by
  obtain ⟨⟨name, maxWait, policy⟩, ⟨queueSlots, busSlots⟩, ⟨enabled, samples⟩⟩ := c
  have hloop : putEntries loopFields [("name", .string name), ("max_wait", .string maxWait.text),
      ("catch_up", .string policy.name)] .default = .ok ⟨name, maxWait, policy⟩ := by
    show ((length (.string maxWait.text)).map _ >>= _) = _
    rw [length_text]
    show ((policyNamed policy.name).map _ >>= _) = _
    rw [policyNamed_name]
    rfl
  show ((putEntries loopFields _ _).map _ >>= _) = _
  rw [hloop]
  rfl

/-- A configuration can be written unless one of its three numbers is too large, and then it is read
back unchanged. -/
theorem toToml_then_ofToml (c : Config) :
    c.toToml.map ofToml =
      if maxSigned < c.messaging.queueSlots ∨ maxSigned < c.messaging.busSlots ∨
          maxSigned < c.metrics.samples then none
      else some (.ok c) := by
  by_cases hwritable : c.isWritable = true
  · obtain ⟨hqueue, hbus, hsamples⟩ := (isWritable_iff c).1 hwritable
    obtain ⟨text, hwritten⟩ : ∃ text, c.toToml = some text := by
      rw [toToml, if_pos hwritable]
      exact ⟨_, rfl⟩
    rw [if_neg (by omega), hwritten, Option.map_some, ofToml, document_of_toToml hwritten]
    exact congrArg some (putEntries_nodes c)
  · have htooLarge := mt (isWritable_iff c).2 hwritable
    rw [if_pos (by omega), toToml, if_neg hwritable]
    rfl

end Cadence.Config
