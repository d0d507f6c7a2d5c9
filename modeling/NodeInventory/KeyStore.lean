import NodeInventory.Dict

/-!
# A store of keys and lists

Keys that are set for a time, and lists of texts. A key is set as long as the time at which it ends
lies ahead. Setting asks for a key that is not set, and extending for one that is, so of several who
try to set a key at one time one succeeds.
-/

namespace NodeInventory

/-- The value of a key, and the time at which it ends, in milliseconds. -/
structure KeyStore.Entry where
  value : String
  expiry : Nat
deriving DecidableEq, Repr

/-- Keys and lists. -/
structure KeyStore where
  keys : Dict KeyStore.Entry
  lists : Dict (List String)

namespace KeyStore

/-- The store without keys and lists. -/
def empty : KeyStore := ⟨.empty, .empty⟩

instance : Inhabited KeyStore := ⟨empty⟩

/-- The value of a key that is set. -/
def value? (s : KeyStore) (now : Nat) (key : String) : Option String :=
  match s.keys.get? key with
  | some e => if now < e.expiry then some e.value else none
  | none => none

/-- Sets a key that is not set, and says whether it did. -/
def set (s : KeyStore) (now : Nat) (key value : String) (ttl : Nat) : KeyStore × Bool :=
  match s.value? now key with
  | some _ => (s, false)
  | none => ({ s with keys := s.keys.insert key ⟨value, now + ttl⟩ }, true)

/-- Extends a key that is set, and says whether it was. -/
def extend (s : KeyStore) (now : Nat) (key : String) (ttl : Nat) : KeyStore × Bool :=
  match s.value? now key with
  | some value => ({ s with keys := s.keys.insert key ⟨value, now + ttl⟩ }, true)
  | none => (s, false)

/-- Removes a key. -/
def delete (s : KeyStore) (key : String) : KeyStore := { s with keys := s.keys.erase key }

/-- The texts of a list. -/
def list (s : KeyStore) (name : String) : List String := (s.lists.get? name).getD []

/-- Puts a text at the end of a list. -/
def push (s : KeyStore) (name value : String) : KeyStore :=
  { s with lists := s.lists.insert name (s.list name ++ [value]) }

/-- Takes the text at the front of a list. -/
def pop? (s : KeyStore) (name : String) : Option (String × KeyStore) :=
  match s.list name with
  | [] => none
  | v :: vs => some (v, { s with lists := s.lists.insert name vs })

/-! ## What is set -/

/-- A key is set by somebody only if nobody had it set, and then it has their value. -/
theorem value?_set_self {s : KeyStore} {now ttl : Nat} {key value : String} (httl : 0 < ttl)
    (h : (s.set now key value ttl).2 = true) :
    s.value? now key = none ∧ (s.set now key value ttl).1.value? now key = some value := by
  unfold set at h ⊢
  split at h
  · simp at h
  · next hnone => exact ⟨hnone, by simp [value?, httl]⟩

/-- A key that was removed is not set. -/
@[simp] theorem value?_delete_self (s : KeyStore) (now : Nat) (key : String) :
    (s.delete key).value? now key = none := by
  simp [value?, delete, Dict.get?_erase]

end KeyStore

end NodeInventory
