import PersistedDocuments.Failure

/-!
# Manifests

A manifest lists persisted queries under their keys, in the order in which they were added. No key
occurs twice.
-/

namespace PersistedDocuments

open GraphQL

/-- A persisted query: its key, its identifier, and the document to execute for it. -/
structure Entry where
  key : String
  id : QueryId
  document : Document

/-- Whether two entries have the same identifier and document. -/
def Entry.agrees (a b : Entry) : Bool :=
  a.id = b.id && a.document == b.document

structure Manifest where
  entries : List Entry
  distinct : (entries.map Entry.key).Nodup

namespace Manifest

def empty : Manifest := ⟨[], List.nodup_nil⟩

instance : Inhabited Manifest := ⟨empty⟩

def size (manifest : Manifest) : Nat := manifest.entries.length

def isEmpty (manifest : Manifest) : Bool := manifest.entries.isEmpty

def keys (manifest : Manifest) : List String := manifest.entries.map Entry.key

def find? (manifest : Manifest) (key : String) : Option Entry :=
  manifest.entries.find? fun entry => entry.key = key

def contains (manifest : Manifest) (key : String) : Bool := manifest.keys.contains key

/-- The query with the given key. -/
def lookup (manifest : Manifest) (key : String) : Except Failure Entry :=
  match manifest.find? key with
  | some entry => .ok entry
  | none => .error .unknownKey

/-- The entries with another one at the end, whose key is new. -/
def push (manifest : Manifest) (entry : Entry) (fresh : entry.key ∉ manifest.keys) : Manifest where
  entries := manifest.entries ++ [entry]
  distinct := by
    rw [List.map_append, List.nodup_append]
    refine ⟨manifest.distinct, by simp, ?_⟩
    rintro key present _ added rfl
    obtain rfl : key = entry.key := by simpa using added
    exact fresh present

/-- The manifest with the entry at its end, unless the key is already there. -/
def add (manifest : Manifest) (entry : Entry) : Manifest :=
  if known : entry.key ∈ manifest.keys then manifest else manifest.push entry known

/-- The entries with one in the place of the one that has its key. -/
def replace (manifest : Manifest) (entry : Entry) : Manifest where
  entries := manifest.entries.map fun old => if old.key = entry.key then entry else old
  distinct := by
    have same : (manifest.entries.map fun old => if old.key = entry.key then entry else old).map
        Entry.key = manifest.keys := by
      rw [List.map_map]
      apply List.map_congr_left
      intro old _
      simp only [Function.comp_apply]
      split
      · next h => exact h.symm
      · rfl
    rw [same]
    exact manifest.distinct

/-- The manifest with the entry under its key, in the place of an older one or else at the end. -/
def set (manifest : Manifest) (entry : Entry) : Manifest :=
  if known : entry.key ∈ manifest.keys then manifest.replace entry else manifest.push entry known

/-- Whether two manifests hold the same queries, in whatever order. -/
def agrees (a b : Manifest) : Bool :=
  a.size = b.size && a.entries.all fun entry =>
    match b.find? entry.key with
    | some other => entry.agrees other
    | none => false

/-- The texts of all identifiers. -/
def idTexts (manifest : Manifest) : List String := manifest.entries.map fun entry => entry.id.toText

/-- The largest number among the identifiers, or zero. -/
def maxNumber (manifest : Manifest) : Nat :=
  (manifest.entries.filterMap fun entry => entry.id.number?).foldl max 0

end Manifest

end PersistedDocuments
