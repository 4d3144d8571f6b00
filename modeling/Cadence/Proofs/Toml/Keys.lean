import Cadence.Toml.Read
import Mathlib.Data.List.Nodup

/-!
# Keys of a document

Whatever the lines of a document say, its root table has every key once (`nodup_document`): a line that
would write a key again is refused, or changes what the key holds.
-/

namespace Cadence.Toml

namespace Entries

def keys (es : Entries) : List String := es.map Prod.fst

theorem keys_cons (e : String × Node) (es : Entries) : keys (e :: es) = e.1 :: keys es :=
  rfl

/-- A change of a table that does not give it any key twice. -/
def Sound (act : Entries → Option Entries) : Prop :=
  ∀ es es', act es = some es' → es.keys.Nodup → es'.keys.Nodup

/-! ## 1. Changes of one table -/

theorem lookup_eq_none_iff {es : Entries} {key : String} :
    es.lookup key = none ↔ key ∉ es.keys := by
  rw [List.lookup_eq_none_iff, keys, List.mem_map]
  constructor
  · rintro habsent ⟨e, he, rfl⟩
    have hne := habsent e he
    simp at hne
  · intro habsent e he
    rw [bne_iff_ne]
    rintro rfl
    exact habsent ⟨e, he, rfl⟩

theorem keys_replace (es : Entries) (key : String) (node : Node) :
    (es.replace key node).keys = es.keys := by
  rw [keys, keys, replace, List.map_map]
  apply List.map_congr_left
  intro e _
  show (if e.1 = key then (key, node) else e).1 = e.1
  split
  · exact Eq.symm ‹_›
  · rfl

theorem nodup_append {es : Entries} {key : String} (node : Node) (h : es.keys.Nodup)
    (hnew : key ∉ es.keys) : Entries.keys (es ++ [(key, node)]) |>.Nodup := by
  rw [keys, List.map_append, List.nodup_append_comm]
  exact List.nodup_cons.2 ⟨hnew, h⟩

theorem nodup_remove {es : Entries} (key : String) (h : es.keys.Nodup) :
    (es.remove key).keys.Nodup ∧ key ∉ (es.remove key).keys := by
  constructor
  · exact h.sublist (List.Sublist.map _ List.filter_sublist)
  · intro hkey
    obtain ⟨e, he, rfl⟩ := List.mem_map.1 hkey
    have hother := (List.mem_filter.1 he).2
    simp at hother

theorem sound_insertNew (key : String) (node : Node) : Sound (insertNew key node) := by
  intro es es' hact h
  unfold insertNew at hact
  split at hact
  · cases hact
  · rename_i habsent
    cases hact
    exact nodup_append node h (lookup_eq_none_iff.1 habsent)

theorem sound_openTable (key : String) : Sound (openTable key) := by
  intro es es' hact h
  unfold openTable at hact
  split at hact
  · rename_i habsent
    cases hact
    exact nodup_append _ h (lookup_eq_none_iff.1 habsent)
  · cases hact
    obtain ⟨hrest, hgone⟩ := nodup_remove key h
    exact nodup_append _ hrest hgone
  · cases hact

theorem sound_openTables (key : String) : Sound (openTables key) := by
  intro es es' hact h
  unfold openTables at hact
  split at hact
  · rename_i habsent
    cases hact
    exact nodup_append _ h (lookup_eq_none_iff.1 habsent)
  · cases hact
    rw [keys_replace]
    exact h
  · cases hact

/-! ## 2. Changes at the end of a path -/

/-- On the way there at most one table is added, under a key that was not there. -/
theorem sound_within (isDotted : Bool) (path : List String) {act : Entries → Option Entries}
    (hact : Sound act) : Sound (within isDotted path act) := by
  intro es es' hwithin h
  cases path with
  | nil => exact hact es es' hwithin h
  | cons key path =>
    rw [within] at hwithin
    split at hwithin
    · rename_i habsent
      -- The table is new, so its key was not there.
      obtain ⟨sub, -, rfl⟩ := Option.map_eq_some_iff.1 hwithin
      exact nodup_append _ h (lookup_eq_none_iff.1 habsent)
    · split at hwithin
      · cases hwithin
      · split at hwithin
        · cases hwithin
        · obtain ⟨sub, -, rfl⟩ := Option.map_eq_some_iff.1 hwithin
          rw [keys_replace]
          exact h
    · split at hwithin
      · cases hwithin
      · split at hwithin
        · cases hwithin
        · obtain ⟨sub, -, rfl⟩ := Option.map_eq_some_iff.1 hwithin
          rw [keys_replace]
          exact h
    · cases hwithin

end Entries

/-! ## 3. Documents -/

/-- No line gives a key of the root twice. -/
theorem Draft.nodup_add {d d' : Draft} {l : Line} (hadd : d.add l = some d') (h : d.root.keys.Nodup) :
    d'.root.keys.Nodup := by
  cases l with
  | header path key =>
    obtain ⟨root, hroot, rfl⟩ := Option.map_eq_some_iff.1 hadd
    exact Entries.sound_within false path (Entries.sound_openTable key) _ _ hroot h
  | arrayHeader path key =>
    obtain ⟨root, hroot, rfl⟩ := Option.map_eq_some_iff.1 hadd
    exact Entries.sound_within false path (Entries.sound_openTables key) _ _ hroot h
  | pair path key node =>
    obtain ⟨root, hroot, rfl⟩ := Option.map_eq_some_iff.1 hadd
    have hpair : Entries.Sound (Entries.insertPair path key node) :=
      Entries.sound_within true path (Entries.sound_insertNew key node)
    exact Entries.sound_within false d.current hpair _ _ hroot h

theorem Draft.nodup_addAll {d d' : Draft} {ls : List Line} (hadd : d.addAll ls = some d')
    (h : d.root.keys.Nodup) : d'.root.keys.Nodup := by
  induction ls generalizing d with
  | nil =>
    cases hadd
    exact h
  | cons l rest ih =>
    rw [addAll, List.foldlM_cons] at hadd
    obtain ⟨d'', hfirst, hrest⟩ := Option.bind_eq_some_iff.1 hadd
    exact ih hrest (nodup_add hfirst h)

/-- No document has a key twice in its root table. -/
theorem nodup_document {text : String} {es : Entries} (h : document text = some es) :
    es.keys.Nodup := by
  obtain ⟨ls, -, hread⟩ := Option.bind_eq_some_iff.1 h
  obtain ⟨d, hadd, heq⟩ := Option.bind_eq_some_iff.1 hread
  cases heq
  exact Draft.nodup_addAll hadd .nil

end Cadence.Toml
