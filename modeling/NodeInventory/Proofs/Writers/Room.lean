import Mathlib.Logic.Function.Basic
import NodeInventory.Proofs.Contract
import NodeInventory.Proofs.Run
import NodeInventory.Proofs.Writers.Shelf

/-!
# Writers who share a shelf

Any number of callers, each of whom carries out an action of its own, and strangers of whom nothing
is known, write to one shelf. What happens is a sequence of *moments*: a caller asks one request and
is answered, or a stranger stores or removes a record. Nothing is said about the order in which
callers ask, so a caller may rest between two of its requests while any number of moments pass; a
caller who has not begun is one of whom no moment has told yet.

The moments are the labels of a run, so that one can speak of what a caller was told before it
asked.
-/

namespace NodeInventory.Writers

variable {α : Type}

/-- What can happen to a shelf. -/
inductive Event
  /-- A caller asks, and is answered. -/
  | asked (caller : ℕ) (exchange : Exchange)
  /-- A stranger stores a record, in the place of one of its name or not. -/
  | stored (record : Record) (version : String)
  /-- A stranger removes the record of a name. -/
  | removed (name : String)

/-- Something that happened, with the shelf before and after it. -/
structure Moment where
  before : Shelf
  event : Event
  after : Shelf

/-- A shelf and all its callers, each with what it has still to do. -/
structure Room (α : Type) where
  shelf : Shelf
  calls : ℕ → Action α

/-- One moment in a room. -/
inductive Step : Room α → Moment → Room α → Prop
  | asked {room : Room α} {i : ℕ} {r : Request} {next : r.Answer → Action α} {a : r.Answer}
      {t : Shelf} (hcall : room.calls i = .ask r next) (hanswer : room.shelf.Answers r a t) :
    Step room ⟨room.shelf, .asked i ⟨r, a⟩, t⟩ ⟨t, Function.update room.calls i (next a)⟩
  | stored {room : Room α} (r : Record) {v : String} (hnew : v ∉ room.shelf.issued) :
    Step room ⟨room.shelf, .stored r v, room.shelf.write r v⟩
      ⟨room.shelf.write r v, room.calls⟩
  | removed {room : Room α} (name : String) :
    Step room ⟨room.shelf, .removed name, room.shelf.remove name⟩
      ⟨room.shelf.remove name, room.calls⟩

variable {start room room' : Room α} {m : Moment} {moments : List Moment} {name v : String}
  {x : Record}

/-! ## The shelf -/

theorem Step.before_eq (h : Step room m room') : m.before = room.shelf := by
  cases h <;> rfl

theorem Step.after_eq (h : Step room m room') : m.after = room'.shelf := by
  cases h <;> rfl

theorem Step.change (h : Step room m room') : room.shelf.Change room'.shelf := by
  cases h with
  | asked _ hanswer => exact hanswer.change
  | stored r hnew => exact .write r hnew
  | removed name => exact .remove name

theorem sound_of_run (hrun : Run Step start moments room) (hstart : start.shelf.Sound) :
    room.shelf.Sound :=
  hrun.invariant hstart fun _ _ _ hsound hstep ↦ hstep.change.sound hsound

/-- As long as a version has not gone from its name, its record was there all the time. -/
theorem kept_or_outdated (hrun : Run Step start moments room) (hstart : start.shelf.Sound)
    (hx : start.shelf.record? name = some x) (hv : x.metadata.resourceVersion = some v) :
    (room.shelf.record? name = some x ∧ ∀ m ∈ moments, m.after.record? name = some x) ∨
      room.shelf.Outdated name v := by
  induction hrun with
  | nil => exact .inl ⟨hx, fun m hm ↦ by cases hm⟩
  | @snoc moments m room room' hrun hstep ih =>
    rcases ih with ⟨hstill, hmoments⟩ | hout
    · refine (hstep.change.record?_eq_or_outdated (sound_of_run hrun hstart) hstill hv).imp
        (fun hnow ↦ ⟨hnow, fun m' hm' ↦ ?_⟩) id
      rcases List.mem_append.mp hm' with hm' | hm'
      · exact hmoments m' hm'
      · rw [List.mem_singleton.mp hm', hstep.after_eq, hnow]
    · exact .inr (hstep.change.outdated hout)

end NodeInventory.Writers
