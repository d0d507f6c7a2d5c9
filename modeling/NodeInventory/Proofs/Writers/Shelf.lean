import Mathlib.Data.Set.Insert
import NodeInventory.Simulation.World

/-!
# Stores of records with versions

What several writers may rely on when they share a store of records: a record is created only where
there is none, and replaced only by a writer who names the version that is stored; and every write
that is accepted gives its record a version that no record had before.

A *shelf* is such a store as its users see it. Nothing is said about what versions look like, so
that they need not be numbers, nor be handed out in order. `Store`, which counts, is one
(`Store.answers_shelf`).

The one fact on which everything about concurrent writers rests is that a version, once it is gone
from a name, does not come back (`Shelf.Outdated`): not by a write, because a write brings a new
version, and not by a removal, after which a record can only be created.
-/

namespace NodeInventory

open Simulation

/-- A store of records as its users see it. -/
structure Shelf where
  /-- What is stored under a name. -/
  record? : String → Option Record
  /-- The versions that were handed out. -/
  issued : Set String

/-- A record as it is stored at a version. -/
def Record.at (r : Record) (version : String) : Record :=
  { r with metadata := { r.metadata with resourceVersion := some version } }

namespace Record

@[simp] theorem name_at (r : Record) (version : String) : (r.at version).name = r.name := rfl

@[simp] theorem spec_at (r : Record) (version : String) : (r.at version).spec = r.spec := rfl

@[simp] theorem version_at (r : Record) (version : String) :
    (r.at version).metadata.resourceVersion = some version := rfl

end Record

namespace Shelf

variable {s t : Shelf} {name v : String} {x : Record}

/-- The shelf after a record was stored under its name at a version. -/
def write (s : Shelf) (r : Record) (version : String) : Shelf where
  record? name := if name = r.name then some (r.at version) else s.record? name
  issued := insert version s.issued

/-- The shelf after the record of a name was removed. -/
def remove (s : Shelf) (name : String) : Shelf where
  record? other := if other = name then none else s.record? other
  issued := s.issued

@[simp] theorem record?_write (s : Shelf) (r : Record) (version name : String) :
    (s.write r version).record? name =
      if name = r.name then some (r.at version) else s.record? name := rfl

@[simp] theorem issued_write (s : Shelf) (r : Record) (version : String) :
    (s.write r version).issued = insert version s.issued := rfl

@[simp] theorem record?_remove (s : Shelf) (name other : String) :
    (s.remove name).record? other = if other = name then none else s.record? other := rfl

@[simp] theorem issued_remove (s : Shelf) (name : String) : (s.remove name).issued = s.issued := rfl

/-- Every record is stored under its own name, at a version that was handed out if it has one. -/
def Sound (s : Shelf) : Prop :=
  ∀ name x, s.record? name = some x →
    x.name = name ∧ ∀ v, x.metadata.resourceVersion = some v → v ∈ s.issued

/-- The shelf without records. -/
def empty : Shelf := ⟨fun _ ↦ none, ∅⟩

theorem sound_empty : empty.Sound := fun _ _ hx ↦ by cases hx

/-! ## Answers -/

/-- Whether a request reads or writes a single record. -/
def concerns : Request → Bool
  | .fetchRecord _ | .createRecord _ | .updateRecord _ _ | .deleteRecord _ => true
  | _ => false

/-- Whether a failure of a request is one that the shelf may tell. That a record is there already,
was written by somebody else, or is gone, is told only where it is so. -/
def Tells (s : Shelf) (f : Failure) : Request → Prop
  | .createRecord r => f.isAlreadyExists → ∃ x, s.record? r.name = some x
  | .updateRecord r version => f.isConflict →
    ∃ x, s.record? r.name = some x ∧ x.metadata.resourceVersion ≠ some version
  | .deleteRecord name => f.isNotFound → s.record? name = none
  | _ => True

/-- The answers to a request, each with what becomes of the shelf. A request that fails changes
nothing. Requests about other things than single records are answered at will. -/
inductive Answers (s : Shelf) : (r : Request) → r.Answer → Shelf → Prop
  | fetched (name : String) : Answers s (.fetchRecord name) (.ok (s.record? name)) s
  | created {r : Record} {v : String} (habsent : s.record? r.name = none) (hnew : v ∉ s.issued) :
    Answers s (.createRecord r) (.ok ()) (s.write r v)
  | updated {r x : Record} {version v : String} (hstored : s.record? r.name = some x)
      (hversion : x.metadata.resourceVersion = some version) (hnew : v ∉ s.issued) :
    Answers s (.updateRecord r version) (.ok ()) (s.write r v)
  | deleted {name : String} {x : Record} (hstored : s.record? name = some x) :
    Answers s (.deleteRecord name) (.ok ()) (s.remove name)
  | failed {r : Request} {f : Failure} {a : r.Answer} (hr : concerns r)
      (ha : World.refuse f r = some a) (htells : s.Tells f r) : Answers s r a s
  | other {r : Request} (hr : concerns r = false) (a : r.Answer) : Answers s r a s

/-- What one party can do to a shelf: store a record at a new version, or remove one. -/
inductive Change (s : Shelf) : Shelf → Prop
  | none : Change s s
  | write (r : Record) {v : String} (hnew : v ∉ s.issued) : Change s (s.write r v)
  | remove (name : String) : Change s (s.remove name)

theorem Answers.change {r : Request} {a : r.Answer} (h : s.Answers r a t) : s.Change t := by
  cases h with
  | fetched | failed | other => exact .none
  | created _ hnew => exact .write _ hnew
  | updated _ _ hnew => exact .write _ hnew
  | deleted _ => exact .remove _

theorem Answers.of_fetched {answer : Option Record}
    (h : s.Answers (.fetchRecord name) (.ok answer) t) : s.record? name = answer ∧ t = s := by
  cases h with
  | fetched => exact ⟨rfl, rfl⟩
  | failed _ ha => cases ha
  | other hr => cases hr

theorem Answers.of_updated {r : Record} {version : String}
    (h : s.Answers (.updateRecord r version) (.ok ()) t) :
    (∃ x, s.record? r.name = some x ∧ x.metadata.resourceVersion = some version) ∧
      ∃ v ∉ s.issued, t = s.write r v := by
  cases h with
  | updated hstored hversion hnew => exact ⟨⟨_, hstored, hversion⟩, _, hnew, rfl⟩
  | failed _ ha => cases ha
  | other hr => cases hr

theorem Answers.of_created {r : Record} (h : s.Answers (.createRecord r) (.ok ()) t) :
    ∃ v ∉ s.issued, t = s.write r v := by
  cases h with
  | created _ hnew => exact ⟨_, hnew, rfl⟩
  | failed _ ha => cases ha
  | other hr => cases hr

theorem Answers.of_alreadyExists {r : Record} {f : Failure}
    (h : s.Answers (.createRecord r) (.error f) t) (hf : f.isAlreadyExists) :
    (∃ x, s.record? r.name = some x) ∧ t = s := by
  cases h with
  | failed _ ha htells =>
    cases ha
    exact ⟨htells hf, rfl⟩
  | other hr => cases hr

theorem Answers.record?_of_create {r : Record} {a : (Request.createRecord r).Answer}
    (h : s.Answers (.createRecord r) a t) (hx : s.record? name = some x) :
    t.record? name = some x := by
  cases h with
  | created habsent =>
    have hne : name ≠ r.name := by
      rintro rfl
      rw [habsent] at hx
      cases hx
    rw [record?_write, if_neg hne, hx]
  | failed | other => exact hx

/-! ## What no change undoes -/

theorem Change.issued_subset (h : s.Change t) : s.issued ⊆ t.issued := by
  cases h with
  | none => exact Set.Subset.rfl
  | write r _ => exact Set.subset_insert _ _
  | remove name => exact Set.Subset.rfl

theorem Change.sound (h : s.Change t) (hs : s.Sound) : t.Sound := by
  cases h with
  | none => exact hs
  | @write r v _ =>
    intro name x hx
    rw [record?_write] at hx
    split at hx
    · next hname =>
      cases hx
      exact ⟨hname.symm, fun w hw ↦ by cases hw; exact Set.mem_insert _ _⟩
    · next =>
      obtain ⟨hname, hv⟩ := hs name x hx
      exact ⟨hname, fun w hw ↦ Set.mem_insert_of_mem _ (hv w hw)⟩
  | remove gone =>
    intro name x hx
    rw [record?_remove] at hx
    split at hx
    · cases hx
    · exact hs name x hx

/-- The version was handed out, and the name does not have it. -/
def Outdated (s : Shelf) (name version : String) : Prop :=
  version ∈ s.issued ∧ ∀ x, s.record? name = some x → x.metadata.resourceVersion ≠ some version

theorem Change.outdated (h : s.Change t) (hout : s.Outdated name v) : t.Outdated name v := by
  refine ⟨h.issued_subset hout.1, fun x hx ↦ ?_⟩
  cases h with
  | none => exact hout.2 x hx
  | @write r w hnew =>
    rw [record?_write] at hx
    split at hx
    · cases hx
      rw [Record.version_at, ne_eq, Option.some.injEq]
      exact fun hw ↦ hnew (hw ▸ hout.1)
    · exact hout.2 x hx
  | remove gone =>
    rw [record?_remove] at hx
    split at hx
    · cases hx
    · exact hout.2 x hx

theorem Change.record?_eq_or_outdated (h : s.Change t) (hs : s.Sound)
    (hx : s.record? name = some x) (hv : x.metadata.resourceVersion = some v) :
    t.record? name = some x ∨ t.Outdated name v := by
  have hissued : v ∈ s.issued := (hs name x hx).2 v hv
  cases h with
  | none => exact .inl hx
  | @write r w hnew =>
    by_cases hname : name = r.name
    -- what is written has a new version, so the old one is gone
    · refine .inr ⟨Set.mem_insert_of_mem _ hissued, fun y hy ↦ ?_⟩
      rw [record?_write, if_pos hname] at hy
      cases hy
      rw [Record.version_at, ne_eq, Option.some.injEq]
      exact fun hw ↦ hnew (hw ▸ hissued)
    · exact .inl (by rw [record?_write, if_neg hname, hx])
  | remove gone =>
    by_cases hname : name = gone
    · refine .inr ⟨hissued, fun y hy ↦ ?_⟩
      rw [record?_remove, if_pos hname] at hy
      cases hy
    · exact .inl (by rw [record?_remove, if_neg hname, hx])

end Shelf

/-! ## The store that counts -/

namespace Store

theorem versionText_injective : Function.Injective versionText := by
  intro m n h
  have hdigits : Nat.toDigits 10 m = Nat.toDigits 10 n := by
    rw [← Nat.toList_repr, ← Nat.toList_repr]
    exact congrArg String.toList h
  have hread := congrArg (fun ds ↦ Nat.ofDigitChars 10 ds 0) hdigits
  simpa [Nat.ofDigitChars_toDigits] using hread

/-- A store as a shelf: the versions up to the last one were handed out. -/
def shelf (s : Store) : Shelf where
  record? := s.records.get?
  issued := {v | ∃ n ≤ s.version, v = versionText n}

theorem succ_version_notMem_issued (s : Store) : versionText (s.version + 1) ∉ s.shelf.issued := by
  rintro ⟨n, hn, hv⟩
  have := versionText_injective hv
  omega

theorem shelf_put (s : Store) (r : Record) :
    (s.put r).shelf = s.shelf.write r (versionText (s.version + 1)) := by
  simp only [shelf, Shelf.write, Shelf.mk.injEq]
  refine ⟨funext fun name ↦ get?_put s r name, Set.ext fun v ↦ ⟨?_, ?_⟩⟩
  · rintro ⟨n, hn, rfl⟩
    rcases Nat.le_succ_iff.mp hn with hn | rfl
    · exact Set.mem_insert_of_mem _ ⟨n, hn, rfl⟩
    · exact Set.mem_insert _ _
  · rintro (rfl | ⟨n, hn, rfl⟩)
    · exact ⟨s.version + 1, le_refl _, rfl⟩
    · exact ⟨n, Nat.le_succ_of_le hn, rfl⟩

theorem shelf_drop (s : Store) (name : String) : (s.drop name).shelf = s.shelf.remove name := by
  simp only [shelf, Shelf.remove, Shelf.mk.injEq]
  exact ⟨funext fun other ↦ get?_drop s name other, rfl⟩

theorem answers_shelf_create (s : Store) (r : Record) :
    s.shelf.Answers (.createRecord r) (s.create r).2 (s.create r).1.shelf := by
  unfold create
  cases hr : s.records.get? r.name with
  | some x => exact .failed rfl rfl fun _ ↦ ⟨x, hr⟩
  | none =>
    rw [shelf_put]
    exact .created hr s.succ_version_notMem_issued

theorem answers_shelf_update (s : Store) (r : Record) (version : String) :
    s.shelf.Answers (.updateRecord r version) (s.update r version).2
      (s.update r version).1.shelf := by
  unfold update
  cases hr : s.records.get? r.name with
  | none => exact .failed rfl rfl fun h ↦ by cases h
  | some x =>
    dsimp only
    split
    · next hv =>
      rw [shelf_put]
      exact .updated hr hv s.succ_version_notMem_issued
    · next hv => exact .failed rfl rfl fun _ ↦ ⟨x, hr, hv⟩

theorem answers_shelf_delete (s : Store) (name : String) :
    s.shelf.Answers (.deleteRecord name) (s.delete name).2 (s.delete name).1.shelf := by
  unfold delete
  cases hr : s.records.get? name with
  | none => exact .failed rfl rfl fun _ ↦ hr
  | some x =>
    rw [shelf_drop]
    exact .deleted hr

/-- The store that counts answers as a shelf does. -/
theorem answers_shelf (w : World) {r : Request} (hr : Shelf.concerns r) :
    w.store.shelf.Answers r (w.respond {} r).2 (w.respond {} r).1.store.shelf := by
  cases r with
  | fetchRecord name =>
    have hfetch : w.fetch name false = w.store.records.get? name := by simp [World.fetch]
    rw [World.respond, hfetch]
    exact .fetched name
  | createRecord r => exact w.store.answers_shelf_create r
  | updateRecord r version => exact w.store.answers_shelf_update r version
  | deleteRecord name => exact w.store.answers_shelf_delete name
  | _ => cases hr

end Store

end NodeInventory
