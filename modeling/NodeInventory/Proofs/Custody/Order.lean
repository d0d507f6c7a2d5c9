import NodeInventory.Proofs.Custody.Chores

/-!
# Records stay in order

The operator is the only one who writes to a store that stamps what it accepts with ever newer
versions. It does any number of chores at once, and any of them may go on at any moment. A request
may fail, and if it does it may have been carried out all the same.

What a chore writes rests on what it has read, which may be long ago. That does no harm, because a
record that was read is still stored, or else its version is gone for good, and then an update that
names it is refused. So there are only four things that happen to the store (`Tended`): nothing; a
record that is in order is created where there is none; the spec of a record is replaced, and the
rest of it is not; a record is removed.
-/

namespace NodeInventory

open Simulation (World)
open Writers

/-! ## A store that stamps -/

/-- The request is carried out, and answered. Or it fails for its asker, and is carried out or not.
-/
inductive Shelf.Serves (s : Shelf) (r : Request) (a : r.Answer) (t : Shelf) : Prop
  | answered (h : s.Answers r a t)
  | lost {b : r.Answer} {f : Failure} (h : s.Answers r b t) (ha : World.refuse f r = some a)

/-- What is handed out is newer than all that was handed out before. -/
def Shelf.Stamps (newer : String → String → Prop) (s t : Shelf) : Prop :=
  ∀ v ∈ t.issued, v ∉ s.issued → ∀ w ∈ s.issued, newer w v

/-- Every record is in order. -/
def Shelf.InOrder (tracked : List String) (s : Shelf) : Prop :=
  ∀ name x, s.record? name = some x → x.InOrder tracked name

variable {s t : Shelf} {r : Request} {a : r.Answer} {name : String} {x : Record}

theorem Shelf.Serves.exists_answer (h : s.Serves r a t) : ∃ b, s.Answers r b t := by
  cases h with
  | answered h => exact ⟨a, h⟩
  | @lost b _ h => exact ⟨b, h⟩

theorem Shelf.Serves.change (h : s.Serves r a t) : s.Change t := by
  obtain ⟨b, hb⟩ := h.exists_answer
  exact hb.change

theorem Shelf.Serves.of_fetched (h : s.Serves (.fetchRecord name) (.ok (some x)) t) :
    s.record? name = some x ∧ t = s := by
  cases h with
  | answered h => exact h.of_fetched
  | lost _ ha => cases ha

namespace Store

/-- The version was handed out earlier than the other. -/
def Earlier (v w : String) : Prop := ∃ m n, m < n ∧ v = versionText m ∧ w = versionText n

theorem stamps_refl (s : Store) : s.shelf.Stamps Earlier s.shelf := fun _ hv hnot ↦ absurd hv hnot

theorem stamps_put (s : Store) (r : Record) : s.shelf.Stamps Earlier (s.put r).shelf := by
  rintro v ⟨n, hn, rfl⟩ hnew w ⟨m, hm, rfl⟩
  refine ⟨m, n, ?_, rfl, rfl⟩
  refine lt_of_le_of_lt hm (Nat.lt_of_not_le fun hle ↦ hnew ⟨n, hle, rfl⟩)

theorem stamps_respond (w : World) {r : Request} (hr : Shelf.concerns r) :
    w.store.shelf.Stamps Earlier (w.respond {} r).1.store.shelf := by
  cases r with
  | fetchRecord name => exact w.store.stamps_refl
  | createRecord r =>
    change w.store.shelf.Stamps Earlier (w.store.create r).1.shelf
    unfold create
    split
    · exact w.store.stamps_refl
    · exact w.store.stamps_put r
  | updateRecord r version =>
    change w.store.shelf.Stamps Earlier (w.store.update r version).1.shelf
    unfold update
    split
    · exact w.store.stamps_refl
    · split
      · exact w.store.stamps_put r
      · exact w.store.stamps_refl
  | deleteRecord name =>
    change w.store.shelf.Stamps Earlier (w.store.delete name).1.shelf
    unfold delete
    split
    · exact w.store.stamps_refl
    · rw [shelf_drop]
      exact w.store.stamps_refl
  | _ => cases hr

end Store

namespace Custody

variable {newer : String → String → Prop} {tracked : List String} {hall hall' : Hall} {m : Moment}
  {moments : List Moment} {i : ℕ}

/-- Somebody who does a chore asks, and is answered or not. -/
inductive Step (newer : String → String → Prop) : Hall → Moment → Hall → Prop
  | asked {hall : Hall} {i : ℕ} {r : Request} {a : r.Answer} {q : Program (Result Unit)} {t : Shelf}
      (hasks : (hall.parties i).Step r a q) (hserves : hall.shelf.Serves r a t)
      (hstamps : hall.shelf.Stamps newer t) :
    Step newer hall ⟨hall.shelf, .asked i ⟨r, a⟩, t⟩ ⟨t, Function.update hall.parties i q⟩

/-- A shelf and chores none of which has begun. -/
def opened {d : Duties} (shelf : Shelf) (chores : ℕ → Chore d) : Hall :=
  ⟨shelf, fun i ↦ (chores i).program⟩

theorem Step.before_eq (h : Step newer hall m hall') : m.before = hall.shelf := by
  cases h
  rfl

theorem Step.after_eq (h : Step newer hall m hall') : m.after = hall'.shelf := by
  cases h
  rfl

theorem Step.stamps (h : Step newer hall m hall') : hall.shelf.Stamps newer hall'.shelf := by
  cases h with
  | asked _ _ hstamps => exact hstamps

/-! ## What chores do to the store -/

/-- What chores do to the records: create one that is in order, replace the spec of one by another
of the same node, or remove one. -/
inductive Tended (tracked : List String) (s : Shelf) : Shelf → Prop
  | same : Tended tracked s s
  | created {spec : Spec} {v : String} (hspec : spec.resources.keys ⊆ tracked)
    (habsent : s.record? spec.nodeName = none) (hnew : v ∉ s.issued) :
    Tended tracked s (s.write (.ofSpec spec) v)
  | updated {x : Record} {spec : Spec} {version v : String} (hspec : spec.resources.keys ⊆ tracked)
    (hx : s.record? spec.nodeName = some x) (hversion : x.metadata.resourceVersion = some version)
    (hnew : v ∉ s.issued) : Tended tracked s (s.write { x with spec } v)
  | removed (name : String) : Tended tracked s (s.remove name)

theorem Tended.inOrder (h : Tended tracked s t) (hs : s.InOrder tracked) : t.InOrder tracked := by
  intro name y hy
  cases h with
  | same => exact hs name y hy
  | created hspec =>
    rw [Shelf.record?_write] at hy
    split at hy
    · next hname =>
      cases hy
      exact ⟨congrArg some hname.symm, hname.symm, hspec⟩
    · exact hs name y hy
  | updated hspec hx =>
    rw [Shelf.record?_write] at hy
    have hnamed := (hs _ _ hx).named
    split at hy
    · next hname =>
      rw [Record.name, hnamed] at hname
      cases hy
      exact ⟨hname ▸ hnamed, hname.symm, hspec⟩
    · exact hs name y hy
  | removed gone =>
    rw [Shelf.record?_remove] at hy
    split at hy
    · cases hy
    · exact hs name y hy

/-- A record that is still there is as it was, or was given another spec and a version that is newer
than all before. -/
theorem Tended.kept_or_renewed (h : Tended tracked s t) (hs : s.InOrder tracked)
    (hstamps : s.Stamps newer t) (hx : s.record? name = some x) (hthere : t.record? name ≠ none) :
    t.record? name = some x ∨ ∃ (spec : Spec) (version v : String),
      x.metadata.resourceVersion = some version ∧ (∀ w ∈ s.issued, newer w v) ∧
        t.record? name = some (({ x with spec } : Record).at v) := by
  cases h with
  | same => exact .inl hx
  | @created spec v _ habsent =>
    have hne : name ≠ spec.nodeName := by
      rintro rfl
      rw [habsent] at hx
      cases hx
    exact .inl (by rw [Shelf.record?_write, Record.name_ofSpec, if_neg hne, hx])
  | @updated y spec version v _ hy hversion hnew =>
    have hnamed : ({ y with spec } : Record).name = spec.nodeName := by
      rw [Record.name, (hs _ _ hy).named]
      rfl
    rw [Shelf.record?_write, hnamed]
    by_cases hname : name = spec.nodeName
    · subst hname
      obtain rfl : x = y := Option.some.inj (hx.symm.trans hy)
      refine .inr ⟨spec, version, v, hversion, hstamps v ?_ hnew, if_pos rfl⟩
      exact Set.mem_insert _ _
    · exact .inl (by rw [if_neg hname, hx])
  | removed gone =>
    rw [Shelf.record?_remove] at hthere ⊢
    rw [if_neg fun hname ↦ hthere (if_pos hname)]
    exact .inl hx

/-! ## Why chores do nothing else -/

/-- How it stands after some moments. Every record that was read is in order, and is still stored or
has lost its version for good. -/
structure Upheld (tracked : List String) (moments : List Moment) (hall : Hall) : Prop where
  sound : hall.shelf.Sound
  inOrder : hall.shelf.InOrder tracked
  heeds : ∀ i, (hall.parties i).Heeds (MayWrite tracked) (testimony i moments)
  read : ∀ i name x, ⟨.fetchRecord name, .ok (some x)⟩ ∈ testimony i moments →
    x.InOrder tracked name ∧ ∀ v, x.metadata.resourceVersion = some v →
      hall.shelf.record? name = some x ∨ hall.shelf.Outdated name v

theorem Upheld.opened {d : Duties} {shelf : Shelf} (chores : ℕ → Chore d) (hsound : shelf.Sound)
    (horder : shelf.InOrder d.tracked) : Upheld d.tracked [] (opened shelf chores) :=
  ⟨hsound, horder, fun i ↦ (chores i).heeds, fun _ _ _ hread ↦ by cases hread⟩

theorem Upheld.tended (h : Upheld tracked moments hall) (hstep : Step newer hall m hall') :
    Tended tracked hall.shelf hall'.shelf := by
  cases hstep with
  | @asked i r a q t hasks hserves =>
    obtain ⟨hmay, -⟩ := (h.heeds i).step (a := a) lasting_mayWrite hasks
    obtain ⟨b, hb⟩ := hserves.exists_answer
    cases hb with
    | fetched | failed | other => exact .same
    | created habsent hnew =>
      obtain ⟨spec, hspec, rfl⟩ := hmay fun name x hread ↦ (h.read i name x hread).1
      exact .created hspec habsent hnew
    | @updated r x version v hx hversion hnew =>
      obtain ⟨y, spec, hread, hy, hspec, rfl⟩ := hmay
      obtain ⟨horder, hsince⟩ := h.read i _ y hread
      have hname : ({ y with spec } : Record).name = spec.nodeName := by
        rw [Record.name, horder.named]
        rfl
      rw [hname] at hx
      -- the version that was read is stored, so what is stored is the record that was read
      obtain hstill | hgone := hsince version hy
      · exact .updated hspec hstill hy hnew
      · exact absurd hversion (hgone.2 x hx)
    | deleted => exact .removed _

theorem Upheld.step (h : Upheld tracked moments hall) (hstep : Step newer hall m hall') :
    Upheld tracked (moments ++ [m]) hall' := by
  have htended := h.tended hstep
  cases hstep with
  | @asked i r a q t hasks hserves =>
    refine ⟨hserves.change.sound h.sound, htended.inOrder h.inOrder, fun j ↦ ?_,
      fun j name x hread ↦ ?_⟩
    · rw [testimony_snoc]
      by_cases hij : i = j
      · subst j
        simpa [Moment.exchange?] using ((h.heeds i).step lasting_mayWrite hasks).2
      · simpa [Moment.exchange?, hij, Function.update_of_ne (Ne.symm hij)] using h.heeds j
    · obtain hread | hread := mem_testimony_snoc.mp hread
      · obtain ⟨horder, hsince⟩ := h.read j name x hread
        refine ⟨horder, fun v hv ↦ ?_⟩
        obtain hstill | hgone := hsince v hv
        · exact hserves.change.record?_eq_or_outdated h.sound hstill hv
        · exact .inr (hserves.change.outdated hgone)
      · cases hread
        obtain ⟨hx, rfl⟩ := hserves.of_fetched
        exact ⟨h.inOrder name x hx, fun _ _ ↦ .inl hx⟩

theorem Upheld.run {past future : List Moment} {later : Hall} (h : Upheld tracked past hall)
    (hrun : Run (Step newer) hall future later) : Upheld tracked (past ++ future) later := by
  induction hrun with
  | nil => exact (List.append_nil past).symm ▸ h
  | snoc _ hstep ih => exact List.append_assoc _ _ _ ▸ ih.step hstep

/-! ## Whole runs -/

/-- The one record became the other. Labels, annotations, finalizers and all other metadata but the
version are as they were, and the version is as it was or newer. -/
structure Becomes (newer : String → String → Prop) (x y : Record) : Prop where
  metadata : y.metadata = { x.metadata with resourceVersion := y.metadata.resourceVersion }
  version : y.metadata.resourceVersion = x.metadata.resourceVersion ∨
    ∃ v w, x.metadata.resourceVersion = some v ∧ y.metadata.resourceVersion = some w ∧ newer v w

theorem Becomes.refl (x : Record) : Becomes newer x x := ⟨rfl, .inl rfl⟩

/-- To be given another spec and a version that is newer than the first. -/
theorem Becomes.renewed {y : Record} (h : Becomes newer x y) (spec : Spec) {version v : String}
    (hversion : y.metadata.resourceVersion = some version)
    (hnewer : ∀ w, x.metadata.resourceVersion = some w → newer w v) :
    Becomes newer x (({ y with spec } : Record).at v) := by
  refine ⟨?_, .inr ?_⟩
  · change { y.metadata with resourceVersion := some v } = _
    rw [h.metadata]
    rfl
  · obtain hsame | ⟨w, -, hw, -⟩ := h.version
    · exact ⟨version, v, hsame ▸ hversion, rfl, hnewer _ (hsame ▸ hversion)⟩
    · exact ⟨w, v, hw, rfl, hnewer w hw⟩

theorem issued_subset_of_run {future : List Moment} {later : Hall}
    (hrun : Run (Step newer) hall future later) : hall.shelf.issued ⊆ later.shelf.issued := by
  induction hrun with
  | nil => exact Set.Subset.rfl
  | snoc _ hstep ih =>
    cases hstep with
    | asked _ hserves => exact ih.trans hserves.change.issued_subset

/-- What becomes of a record that is not removed. -/
theorem Upheld.becomes {past future : List Moment} {later : Hall} (h : Upheld tracked past hall)
    (hrun : Run (Step newer) hall future later) (hx : hall.shelf.record? name = some x)
    (hkept : ∀ m ∈ future, ¬m.Removes name) :
    ∃ y, later.shelf.record? name = some y ∧ Becomes newer x y := by
  induction hrun with
  | nil => exact ⟨x, hx, .refl x⟩
  | @snoc future m mid later hrun hstep ih =>
    obtain ⟨y, hy, hbecomes⟩ := ih fun m' hm' ↦ hkept m' (List.mem_append_left _ hm')
    have hmid := h.run hrun
    have hthere : later.shelf.record? name ≠ none := fun hnone ↦ by
      refine hkept m (by simp) ⟨⟨y, ?_⟩, ?_⟩
      · rw [hstep.before_eq, hy]
      · rw [hstep.after_eq, hnone]
    obtain hsame | ⟨spec, version, v, hversion, hnewer, hlater⟩ :=
      (hmid.tended hstep).kept_or_renewed hmid.inOrder hstep.stamps hy hthere
    · exact ⟨y, hsame, hbecomes⟩
    · refine ⟨_, hlater, hbecomes.renewed spec hversion fun w hw ↦ hnewer w ?_⟩
      exact issued_subset_of_run hrun ((h.sound name x hx).2 w hw)

/-- Whatever chores are done at once and whatever fails, records that were in order at the start are
in order at any time; and of a record that is not removed meanwhile nothing changes but the spec and
the version, which becomes newer and newer. -/
theorem records_stay_in_order {d : Duties} {chores : ℕ → Chore d} {shelf : Shelf}
    (hsound : shelf.Sound) (horder : shelf.InOrder d.tracked)
    (hrun : Run (Step newer) (opened shelf chores) moments hall) :
    hall.shelf.InOrder d.tracked ∧
      ∀ future later, Run (Step newer) hall future later →
        ∀ name x, hall.shelf.record? name = some x → (∀ m ∈ future, ¬m.Removes name) →
          ∃ y, later.shelf.record? name = some y ∧ Becomes newer x y := by
  have hupheld := (Upheld.opened chores hsound horder).run hrun
  exact ⟨hupheld.inOrder, fun future later hfuture name x hx hkept ↦
    hupheld.becomes hfuture hx hkept⟩

/-- A record is brought in line with a snapshot, and the answer to the update is lost. The record
has a new version and keeps its labels. -/
theorem record_stays_in_order_though_answer_is_lost :
    let d : Duties := ⟨"c", ⟨1, 0⟩, ["cpu"], 0, 1, 1, "tasks", default⟩
    let labels : Dict String := Dict.empty.insert "team" "x"
    let stored : Record := ⟨{ name := some "a", labels := some labels },
      { nodeName := "a", resources := Dict.empty.insert "cpu" ⟨"4", "4", "1"⟩ }⟩
    let shot : Shot d.tracked := ⟨{ nodeName := "a", status := "Unknown" },
      { ownName := some "a" }, [], rfl⟩
    let shelf := Shelf.empty.write stored (Store.versionText 1)
    shelf.Sound ∧ shelf.InOrder d.tracked ∧
      ∃ future later, Run (Step Store.Earlier) (opened shelf fun _ ↦ .reconcile shot) future later ∧
        later.shelf.record? "a" =
          some (({ stored with spec := shot.spec } : Record).at (Store.versionText 2)) ∧
        ∃ y, later.shelf.record? "a" = some y ∧
          Becomes Store.Earlier (stored.at (Store.versionText 1)) y := by
  intro d labels stored shot shelf
  have hsound : shelf.Sound := (Shelf.Change.write stored (by simp [Shelf.empty])).sound
    Shelf.sound_empty
  have horder : shelf.InOrder d.tracked := by
    intro name x hx
    rw [Shelf.record?_write] at hx
    split at hx
    · next hname =>
      cases hx
      exact ⟨congrArg some hname.symm, hname.symm, by decide⟩
    · cases hx
  let start := opened shelf fun _ : ℕ ↦ Chore.reconcile shot
  have hread : shelf.Answers (.fetchRecord "a") (.ok (some (stored.at (Store.versionText 1))))
    shelf := .fetched "a"
  have hbegun := (@Run.nil _ _ (Step Store.Earlier) start).snoc
    (.asked (i := 0) (.ask _ _) (.answered hread) fun _ hv hnot ↦ absurd hv hnot)
  let update : Record := { stored.at (Store.versionText 1) with spec := shot.spec }
  let shelf' := shelf.write update (Store.versionText 2)
  have hnew : Store.versionText 2 ∉ shelf.issued := by
    simp [shelf, Shelf.empty, Store.versionText_injective.eq_iff]
  have hupdated : shelf.Answers (.updateRecord update (Store.versionText 1)) (.ok ()) shelf' :=
    .updated rfl rfl hnew
  have hstamps : shelf.Stamps Store.Earlier shelf' := by
    intro v hv hnot w hw
    obtain rfl | hv := hv
    · obtain rfl | hw := hw
      · exact ⟨1, 2, by decide, rfl, rfl⟩
      · cases hw
    · exact absurd hv hnot
  have hlost : shelf.Serves (.updateRecord update (Store.versionText 1))
    (.error (.plain "timeout")) shelf' := .lost hupdated rfl
  have hrun := hbegun.snoc (.asked (i := 0) (.ask _ _) hlost hstamps)
  refine ⟨hsound, horder, _, _, hrun, rfl, ?_⟩
  refine (records_stay_in_order hsound horder .nil).2 _ _ hrun "a" _ rfl fun m hm hremoves ↦ ?_
  simp only [List.nil_append, List.cons_append, List.mem_cons, List.not_mem_nil, or_false] at hm
  obtain rfl | rfl := hm <;> cases hremoves.2

end Custody

end NodeInventory
