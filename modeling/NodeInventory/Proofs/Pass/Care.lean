import Mathlib.Data.Set.Basic
import NodeInventory.Proofs.Pass.Scene
import NodeInventory.Proofs.Snapshot
import NodeInventory.Proofs.Writers.Shelf

/-!
# Taking care of one record

The items of a batch take care of one record each. What such an item asks for concerns its own
record (`Allowed`), so that of all records no other changes (`Tended`); and since nobody else takes
care of that record, the item is answered as if it were alone (`Told`). That makes the record of its
name all that an item depends on, and items that go on in any order can be dealt with one by one.

A pass in which nothing is to be done is *quiet*: nothing that would be a change is allowed in it.
-/

namespace NodeInventory

open Simulation

/-! ## Worlds in which something was noted -/

namespace Simulation.World

variable (w : World) (agent : ℕ) (r : Request)

@[simp] theorem nodes_note : (w.note agent r).nodes = w.nodes := rfl

@[simp] theorem pods_note : (w.note agent r).pods = w.pods := rfl

@[simp] theorem allPods_note : (w.note agent r).allPods = w.allPods := rfl

@[simp] theorem podsOn_note (node : String) : (w.note agent r).podsOn node = w.podsOn node := rfl

@[simp] theorem coordination_note : (w.note agent r).coordination = w.coordination := rfl

@[simp] theorem store_note : (w.note agent r).store = w.store := rfl

@[simp] theorem record?_note (name : String) : (w.note agent r).record? name = w.record? name := rfl

theorem changes_note (h : r.isChange = false) : (w.note agent r).changes = w.changes := by
  simp [changes, note, h]

end Simulation.World

theorem Store.get?_put_eq_some (s : Store) {r : Record} {name : String} (hname : r.name = name) :
    (s.put r).records.get? name = some (r.at (versionText (s.version + 1))) := by
  rw [get?_put, if_pos hname.symm]
  rfl

namespace Pass

/-- A record that is stored under a name is named so and has a version, as all that a store keeps;
and it tells of the node of that name. -/
def Proper (name : String) (s : Option Record) : Prop :=
  ∀ x, s = some x → x.name = name ∧ x.spec.nodeName = name ∧
    ∃ v, x.metadata.resourceVersion = some v

theorem proper_put {s : Store} {x : Record} {n : String} (h : Proper n (s.records.get? n))
    (hnode : x.spec.nodeName = x.name) : Proper n ((s.put x).records.get? n) := by
  rw [Store.get?_put]
  split
  · next hn =>
    rintro y ⟨⟩
    exact ⟨hn.symm, hnode.trans hn.symm, _, rfl⟩
  · exact h

/-- Nothing becomes of a world but that something is noted in it, and no change. -/
structure Still (w w' : World) : Prop where
  nodes : w'.nodes = w.nodes
  pods : w'.pods = w.pods
  allPods : w'.allPods = w.allPods
  store : w'.store = w.store
  coordination : w'.coordination = w.coordination
  changes : w'.changes = w.changes

/-- What becomes of a world in which somebody takes care of the records of some names. -/
structure Tended (quiet : Prop) (names : Set String) (w w' : World) : Prop where
  nodes : w'.nodes = w.nodes
  pods : w'.pods = w.pods
  allPods : w'.allPods = w.allPods
  others : ∀ n, n ∉ names → w'.record? n = w.record? n
  proper : ∀ n, Proper n (w.record? n) → Proper n (w'.record? n)
  records : quiet → ∀ n, w'.record? n = w.record? n
  changes : quiet → w'.changes = w.changes

namespace Tended

variable {quiet : Prop} {names more : Set String} {w w' w'' : World}

theorem refl (w : World) : Tended quiet names w w :=
  ⟨rfl, rfl, rfl, fun _ _ ↦ rfl, fun _ h ↦ h, fun _ _ ↦ rfl, fun _ ↦ rfl⟩

theorem trans (h : Tended quiet names w w') (h' : Tended quiet names w' w'') :
    Tended quiet names w w'' where
  nodes := h'.nodes.trans h.nodes
  pods := h'.pods.trans h.pods
  allPods := h'.allPods.trans h.allPods
  others n hn := (h'.others n hn).trans (h.others n hn)
  proper n hn := h'.proper n (h.proper n hn)
  records hq n := (h'.records hq n).trans (h.records hq n)
  changes hq := (h'.changes hq).trans (h.changes hq)

theorem mono (hsub : names ⊆ more) (h : Tended quiet names w w') : Tended quiet more w w' :=
  { h with others := fun n hn ↦ h.others n fun hmem ↦ hn (hsub hmem) }

theorem coordination (w : World) (coordination : KeyStore) :
    Tended quiet names w { w with coordination } :=
  ⟨rfl, rfl, rfl, fun _ _ ↦ rfl, fun _ h ↦ h, fun _ _ ↦ rfl, fun _ ↦ rfl⟩

theorem podsOn (h : Tended quiet names w w') (node : String) : w'.podsOn node = w.podsOn node := by
  rw [World.podsOn, World.podsOn, h.allPods, h.pods]

end Tended

namespace Still

variable {quiet : Prop} {names : Set String} {w w' w'' : World}

theorem refl (w : World) : Still w w := ⟨rfl, rfl, rfl, rfl, rfl, rfl⟩

theorem note (w : World) (agent : ℕ) {r : Request} (hr : r.isChange = false) :
    Still w (w.note agent r) :=
  ⟨rfl, rfl, rfl, rfl, rfl, w.changes_note agent r hr⟩

theorem trans (h : Still w w') (h' : Still w' w'') : Still w w'' :=
  ⟨h'.nodes.trans h.nodes, h'.pods.trans h.pods, h'.allPods.trans h.allPods,
    h'.store.trans h.store, h'.coordination.trans h.coordination, h'.changes.trans h.changes⟩

theorem record? (h : Still w w') (n : String) : w'.record? n = w.record? n := by
  rw [World.record?, World.record?, h.store]

theorem tended (h : Still w w') : Tended quiet names w w' where
  nodes := h.nodes
  pods := h.pods
  allPods := h.allPods
  others n _ := h.record? n
  proper n hn := by rwa [h.record? n]
  records _ n := h.record? n
  changes _ := h.changes

end Still

/-! ## What is allowed to those who take care of a record -/

/-- Who takes care of a record may ask for it, for the pods of its node, and for what is no record
at all; and unless the pass is quiet, may change it as its state admits. -/
inductive Allowed (quiet : Prop) (name : String) : Option Record → Request → Prop
  | fetch (s : Option Record) : Allowed quiet name s (.fetchRecord name)
  | pods (s : Option Record) : Allowed quiet name s (.listPods name)
  | create {r : Record} (hquiet : ¬quiet) (hname : r.name = name) (hnode : r.spec.nodeName = name) :
    Allowed quiet name none (.createRecord r)
  | update {x r : Record} {version : String} (hquiet : ¬quiet) (hname : r.name = name)
      (hnode : r.spec.nodeName = name) (hversion : x.metadata.resourceVersion = some version) :
    Allowed quiet name (some x) (.updateRecord r version)
  | delete (x : Record) (hquiet : ¬quiet) : Allowed quiet name (some x) (.deleteRecord name)
  | note (s : Option Record) {r : Request} (hr : r.kind ∈ [.count, .report, .pause]) :
    Allowed quiet name s r
  | tell (s : Option Record) (call : Fleet.Call) (hquiet : ¬quiet) :
    Allowed quiet name s (.callFleet call)

/-- What they are told, and what becomes of the record. -/
inductive Told (pods : List Pod) (name : String) :
    Option Record → (r : Request) → r.Answer → Option Record → Prop
  | fetched (s : Option Record) : Told pods name s (.fetchRecord name) (.ok s) s
  | pods (s : Option Record) : Told pods name s (.listPods name) (.ok pods) s
  | created (r : Record) (version : String) :
    Told pods name none (.createRecord r) (.ok ()) (some (r.at version))
  | updated (x r : Record) (version version' : String) :
    Told pods name (some x) (.updateRecord r version) (.ok ()) (some (r.at version'))
  | deleted (x : Record) : Told pods name (some x) (.deleteRecord name) (.ok ()) none
  | other (s : Option Record) {r : Request} (hr : r.kind ∈ [.callFleet, .count, .report, .pause])
      (a : r.Answer) : Told pods name s r a s

/-- The contract of those who take care of the record of a name. -/
def care (quiet : Prop) (pods : List Pod) (name : String) : Contract (Option Record) where
  allows := Allowed quiet name
  answers := Told pods name

/-! ## Why that is what they are told -/

variable {quiet : Prop} {name : String} {agent : ℕ} {w w' : World} {r : Request} {a : r.Answer}

theorem Gives.eq_note (h : Gives agent w r a w')
    (hr : r.kind ∉ [.createRecord, .updateRecord, .deleteRecord, .setKey, .extendKey, .deleteKey,
      .pushValue]) : w' = w.note agent r := by
  cases h with
  | found | told => rfl
  | answered =>
    cases r with
    | createRecord | updateRecord | deleteRecord | setKey | extendKey | deleteKey | pushValue =>
      simp [Request.kind] at hr
    | _ => rfl

theorem tended_put (hquiet : ¬quiet) {x : Record} (hname : x.name = name)
    (hnode : x.spec.nodeName = name) :
    Tended quiet {name} w { w.note agent r with store := w.store.put x } := by
  refine ⟨rfl, rfl, rfl, fun n hn ↦ ?_, fun n hn ↦ proper_put hn (hnode.trans hname.symm),
    fun hq ↦ absurd hq hquiet, fun hq ↦ absurd hq hquiet⟩
  rw [World.record?, Store.get?_put, if_neg (by rwa [hname])]
  rfl

theorem tended_drop (hquiet : ¬quiet) :
    Tended quiet {name} w { w.note agent r with store := w.store.drop name } := by
  refine ⟨rfl, rfl, rfl, fun n hn ↦ ?_, fun n hn ↦ ?_, fun hq ↦ absurd hq hquiet,
    fun hq ↦ absurd hq hquiet⟩
  · rw [World.record?, Store.get?_drop, if_neg fun h : n = name ↦ hn h]
    rfl
  · rw [World.record?, Store.get?_drop]
    split
    · exact fun y hy ↦ by cases hy
    · exact hn

/-- What is allowed to somebody who takes care of a record is answered as the record has it, and
leaves everything else as it was. -/
theorem Allowed.told {s : Option Record} (h : Allowed quiet name s r) (hs : w.record? name = s)
    (hw : Gives agent w r a w') :
    Told (w.podsOn name) name s r a (w'.record? name) ∧ Tended quiet {name} w w' ∧
      w'.coordination = w.coordination := by
  cases h with
  | fetch =>
    cases hw with
    | answered =>
      have hfetch : (w.note agent (.fetchRecord name)).fetch name false = s := by
        simp [World.fetch, ← hs, World.record?]
      rw [World.respond, hfetch, World.record?_note, hs]
      exact ⟨.fetched s, (Still.note w agent rfl).tended, rfl⟩
  | pods =>
    cases hw with
    | answered =>
      rw [World.respond, World.podsOn_note, World.record?_note, hs]
      exact ⟨.pods s, (Still.note w agent rfl).tended, rfl⟩
  | @create r hquiet hname hnode =>
    cases hw with
    | answered =>
      rw [World.record?] at hs
      have hcreate : w.store.create r = (w.store.put r, .ok ()) := by
        rw [Store.create, hname, hs]
      have hrecord := Store.get?_put_eq_some w.store hname
      rw [World.respond, World.store_note, hcreate]
      refine ⟨?_, tended_put hquiet hname hnode, rfl⟩
      have htold : Told (w.podsOn name) name none (.createRecord r) (.ok ())
          ((w.store.put r).records.get? name) := by
        rw [hrecord]
        exact .created r _
      exact htold
  | @update x r version hquiet hname hnode hversion =>
    cases hw with
    | answered =>
      rw [World.record?] at hs
      have hupdate : w.store.update r version = (w.store.put r, .ok ()) := by
        rw [Store.update, hname, hs]
        exact if_pos hversion
      have hrecord := Store.get?_put_eq_some w.store hname
      rw [World.respond, World.store_note, hupdate]
      refine ⟨?_, tended_put hquiet hname hnode, rfl⟩
      have htold : Told (w.podsOn name) name (some x) (.updateRecord r version) (.ok ())
          ((w.store.put r).records.get? name) := by
        rw [hrecord]
        exact .updated x r version _
      exact htold
  | delete x hquiet =>
    cases hw with
    | answered =>
      rw [World.record?] at hs
      have hdelete : w.store.delete name = (w.store.drop name, .ok ()) := by
        rw [Store.delete, hs]
      have hrecord : (w.store.drop name).records.get? name = none := by
        rw [Store.get?_drop, if_pos rfl]
      rw [World.respond, World.store_note, hdelete]
      refine ⟨?_, tended_drop hquiet, rfl⟩
      have htold : Told (w.podsOn name) name (some x) (.deleteRecord name) (.ok ())
          ((w.store.drop name).records.get? name) := by
        rw [hrecord]
        exact .deleted x
      exact htold
  | note s hr =>
    have hw' : w' = w.note agent r := by
      refine hw.eq_note fun hmem ↦ ?_
      simp only [List.mem_cons, List.not_mem_nil, or_false] at hr hmem
      rcases hr with hr | hr | hr <;> simp [hr] at hmem
    subst hw'
    have hchange : r.isChange = false := by
      cases r with
      | count | report | pause => rfl
      | _ => simp [Request.kind] at hr
    rw [World.record?_note, hs]
    exact ⟨.other s (List.mem_cons_of_mem _ hr) a, (Still.note w agent hchange).tended, rfl⟩
  | tell s call hquiet =>
    have hw' : w' = w.note agent (.callFleet call) := hw.eq_note (by simp [Request.kind])
    subst hw'
    rw [World.record?_note, hs]
    refine ⟨.other s (by simp [Request.kind]) a, ?_, rfl⟩
    exact ⟨rfl, rfl, rfl, fun _ _ ↦ rfl, fun _ h ↦ h, fun _ _ ↦ rfl, fun hq ↦ absurd hq hquiet⟩

end Pass

end NodeInventory
