import MapPlan.Mapping.Diagnostic
import MapPlan.Mapping.Entry

/-! # The registry

Entries are added one by one, and of those with one key the registry keeps the one that precedence
picks. Reverse mappings are derived only when a snapshot is taken, from the entries kept, so the
order of registration does not show in a snapshot. -/

namespace MapPlan

structure Registry where
  entries : KeyedMap Entry.key := .empty
  /-- One report for each entry that was not kept. -/
  duplicates : List Diagnostic := []
deriving DecidableEq

/-- What became of an added entry. -/
inductive Registration where
  | accepted
  /-- It was kept in the place of an earlier one. -/
  | displaced (discarded : String)
  | rejected (kept : String)
deriving DecidableEq, Repr

def Registration.isRegistered : Registration → Bool
  | accepted | displaced _ => true
  | rejected _ => false

namespace Registry

def add (r : Registry) (e : Entry) : Registration × Registry :=
  match r.entries.find? e.key with
  | none => (.accepted, { r with entries := r.entries.insert e })
  | some held =>
    if e.precedence held = .lt then
      (.displaced held.label,
        ⟨r.entries.insert e, .duplicate e.key held.label :: r.duplicates⟩)
    else
      (.rejected held.label, { r with duplicates := .duplicate e.key e.label :: r.duplicates })

def addAll (r : Registry) (entries : List Entry) : Registry :=
  entries.foldl (fun r e => (r.add e).2) r

def get? (r : Registry) (k : Key) : Option Entry :=
  r.entries.find? k

def size (r : Registry) : Nat :=
  r.entries.size

def isEmpty (r : Registry) : Bool :=
  r.entries.isEmpty

end Registry

/-! ## Snapshots -/

/-- The entries of a registry with the reverse mappings they ask for. -/
structure Snapshot where
  entries : KeyedMap Entry.key := .empty
  diagnostics : List Diagnostic := []
deriving DecidableEq

namespace Snapshot

def get? (s : Snapshot) (k : Key) : Option Entry :=
  s.entries.find? k

def contains (s : Snapshot) (source destination : String) : Bool :=
  s.entries.contains ⟨source, destination⟩

def keys (s : Snapshot) : List Key :=
  s.entries.keys

def size (s : Snapshot) : Nat :=
  s.entries.size

def isEmpty (s : Snapshot) : Bool :=
  s.entries.isEmpty

/-- Add the reverse of an entry, unless its key is taken. -/
def derive (s : Snapshot) (forward : Entry) : Snapshot :=
  let inverse := forward.key.inverse
  if s.entries.contains inverse then
    { s with diagnostics := .reverseConflict inverse forward.key :: s.diagnostics }
  else { s with entries := s.entries.insert forward.reverseOf }

end Snapshot

namespace Registry

/-- The kept entries that ask for a reverse. A mapping of a shape to itself has none. -/
def forwards (r : Registry) : List Entry :=
  r.entries.items.filter fun e => e.config.reverse && !e.key.isSelf

def snapshot (r : Registry) : Snapshot :=
  let s := r.forwards.foldl Snapshot.derive ⟨r.entries, r.duplicates⟩
  { s with diagnostics := Diagnostic.sort s.diagnostics }

end Registry
end MapPlan
