import NodeInventory.Failure
import NodeInventory.Listing

/-!
# A store of records

Records by name, each write of which hands out a version that was not handed out before. A record is
created only where there is none and replaced only by somebody who knows its version, so of two
writers who have read the same record one is refused.
-/

namespace NodeInventory

/-- Records by name, and the last version handed out. -/
structure Store where
  records : Dict Record
  version : Nat

namespace Store

/-- The store without records. -/
def empty : Store := ⟨.empty, 0⟩

instance : Inhabited Store := ⟨empty⟩

/-- The text of a version. -/
def versionText (n : Nat) : String := toString n

/-- The record as which a record is stored at a version. -/
def stamped (r : Record) (version : Nat) : Record :=
  { r with metadata := { r.metadata with resourceVersion := some (versionText version) } }

/-- Stores a record under its name with a new version, whatever was there. -/
def put (s : Store) (r : Record) : Store :=
  ⟨s.records.insert r.name (stamped r (s.version + 1)), s.version + 1⟩

/-- Removes a record if it is there. -/
def drop (s : Store) (name : String) : Store := { s with records := s.records.erase name }

/-- Stores a new record. -/
def create (s : Store) (r : Record) : Store × Result Unit :=
  match s.records.get? r.name with
  | some _ => (s, .error (.alreadyExists r.name))
  | none => (s.put r, .ok ())

/-- Replaces a record that has the given version. -/
def update (s : Store) (r : Record) (version : String) : Store × Result Unit :=
  match s.records.get? r.name with
  | none => (s, .error (.notFound r.name))
  | some stored =>
    if stored.metadata.resourceVersion = some version then (s.put r, .ok ())
    else (s, .error (.conflict r.name))

/-- Removes a record. -/
def delete (s : Store) (name : String) : Store × Result Unit :=
  match s.records.get? name with
  | none => (s, .error (.notFound name))
  | some _ => (s.drop name, .ok ())

/-- A record that is stored is found under its name, with the version just handed out. -/
theorem get?_put (s : Store) (r : Record) (name : String) :
    (s.put r).records.get? name =
      if name = r.name then some (stamped r (s.version + 1)) else s.records.get? name :=
  Dict.get?_insert ..

/-- A record that was removed is not found, and the others are. -/
theorem get?_drop (s : Store) (name other : String) :
    (s.drop name).records.get? other = if other = name then none else s.records.get? other :=
  Dict.get?_erase ..

/-- A record that is refused leaves the store as it was. -/
theorem create_of_get?_eq_some {s : Store} {r x : Record} (h : s.records.get? r.name = some x) :
    s.create r = (s, .error (.alreadyExists r.name)) := by
  simp [create, h]

end Store

end NodeInventory
