import NodeInventory.Proofs.Writers.Hall

/-!
# What heartbeats write

The registry is asked about every node that has a record. A node that it does not know is registered
again as its record has it: the record is read, and then a record is created unless there is one,
which means that it is read again. So the one thing that heartbeats ever write is a record that was
there at the first of the two readings and was gone at the second; it is written back as it was
(`heartbeats_write_only_what_was_removed`). Nobody but somebody else can have removed it, for
heartbeats remove nothing.

As long as no record is removed between the two readings, then, heartbeats change no record.
-/

namespace NodeInventory.Writers

open NodeInventory.Action

variable {start hall : Hall} {m : Moment} {past future : List Moment} {i : ℕ} {clusterId : String}
  {pageSize : ℕ} {parallelism : Int} {seen : List Exchange} {spec : Spec} {r : Request}
  {a : r.Answer}

/-- What may be written when a node is registered again: a record that was read and was then gone.
-/
def MayRevive (seen : List Exchange) (r : Request) : Prop :=
  r.isWrite → ∃ name x, List.Sublist [⟨.fetchRecord name, .ok (some x)⟩,
    ⟨.fetchRecord x.spec.nodeName, .ok none⟩] seen ∧ r = .createRecord (.ofSpec x.spec)

theorem lasting_mayRevive : Lasting MayRevive := by
  intro seen seen' r hsub h hwrite
  obtain ⟨name, x, hseen, rfl⟩ := h hwrite
  exact ⟨name, x, hseen.trans hsub, rfl⟩

theorem mayRevive_of_kind (hr : r.kind ∉ [.createRecord, .updateRecord, .deleteRecord]) :
    MayRevive seen r := by
  intro hwrite
  cases r with
  | createRecord | updateRecord | deleteRecord => simp [Request.kind] at hr
  | _ => cases hwrite

theorem meets_of_reading {α : Type} {kinds : List Request.Kind} {x : Action α} (h : x.Within kinds)
    (hkinds : ∀ k ∈ kinds, k ∉ [Request.Kind.createRecord, .updateRecord, .deleteRecord]) :
    x.Meets (testifying MayRevive) (fun _ _ ↦ True) seen :=
  h.meets (fun _ _ hr ↦ mayRevive_of_kind (hkinds _ hr)) _

theorem meets_revive {name : String} {x : Record}
    (hread : ⟨.fetchRecord name, .ok (some x)⟩ ∈ seen) :
    (Record.create clusterId x.spec).Meets (testifying MayRevive) (fun _ _ ↦ True) seen := by
  have hregister : ∀ {seen} spec outcome,
      (Record.register clusterId x.spec.nodeName spec outcome).Meets (testifying MayRevive)
        (fun _ _ ↦ True) seen := fun spec outcome ↦
    meets_of_reading (Record.within_register _ _ _ _) (by decide)
  refine .bind (meets_ask_seen (mayRevive_of_kind (by simp [Request.kind])) fun
    (answer : Result (Option Record)) ↦ ?_)
  obtain f | _ | y := answer
  · trivial
  · -- the record that was read is gone
    refine meets_ask_seen (fun _ ↦ ⟨name, x, ?_, rfl⟩) fun (answer : Result Unit) ↦ ?_
    · exact (List.singleton_sublist.mpr hread).append (.refl _)
    · obtain f | _ := answer
      · change (ite _ _ _ : Action _).Meets _ _ _
        split
        · exact hregister _ _
        · trivial
      · exact meets_ask_seen (mayRevive_of_kind (by simp [Request.kind])) fun _ ↦ hregister _ _
  · exact hregister _ _

theorem meets_heartbeat (name : String) :
    (Record.heartbeat clusterId name).Meets (testifying MayRevive) (fun _ _ ↦ True) seen := by
  refine .bind ((meets_of_reading (Record.within_askFleet clusterId name) (by decide)).imp
    fun seen answer _ ↦ ?_)
  cases answer with
  | error f => trivial
  | ok code =>
    change (ite _ _ _ : Action _).Meets _ _ _
    split
    · trivial
    · refine .bind (meets_ask_seen (mayRevive_of_kind (by simp [Request.kind])) fun
        (answer : Result (Option Record)) ↦ ?_)
      obtain f | _ | x := answer
      · trivial
      · trivial
      · refine meets_ask_seen (mayRevive_of_kind (by simp [Request.kind])) fun _ ↦ ?_
        have hread : ∀ {e}, (⟨.fetchRecord name, .ok (some x)⟩ : Exchange) ∈
            seen ++ [⟨.fetchRecord name, .ok (some x)⟩] ++ [e] := by simp
        exact .bind ((meets_revive hread).imp fun _ _ _ ↦ trivial)

theorem heeds_beat :
    (Record.beat clusterId pageSize parallelism).Heeds MayRevive [] := by
  refine Record.heeds_listNames_bind
    (fun _ _ ↦ mayRevive_of_kind (by simp [Request.kind])) fun answer seen ↦ ?_
  cases answer with
  | error f => trivial
  | ok names =>
    refine Program.heeds_joined fun x hx ↦ ?_
    obtain ⟨name, -, rfl⟩ := List.mem_map.mp hx
    exact meets_heartbeat name

theorem not_removes_of_mayRevive {name : String} (h : MayRevive seen r)
    (hanswer : m.before.Answers r a m.after) : ¬m.Removes name := by
  rintro ⟨⟨x, hx⟩, hnone⟩
  by_cases hwrite : r.isWrite
  · obtain ⟨-, y, -, rfl⟩ := h hwrite
    rw [hanswer.record?_of_create hx] at hnone
    cases hnone
  · have hidle : Exchange.Idle ⟨r, a⟩ := fun h ↦ absurd h hwrite
    rw [hanswer.eq_of_idle hidle, hx] at hnone
    cases hnone

/-- The one thing that heartbeats write is a record that was read, was removed by somebody else, and
was found missing then. It is created again as it was read. -/
theorem heartbeats_write_only_what_was_removed
    (hrun : Run Hall.Step start (past ++ m :: future) hall)
    (hbeat : start.parties i = Record.beat clusterId pageSize parallelism)
    (hm : m.event = .asked i ⟨r, a⟩) (hwrite : r.isWrite) :
    ∃ name x earlier read between gone later,
      past = earlier ++ read :: between ++ gone :: later ∧
        read.event = .asked i ⟨.fetchRecord name, .ok (some x)⟩ ∧
        gone.event = .asked i ⟨.fetchRecord x.spec.nodeName, .ok none⟩ ∧
        r = .createRecord (.ofSpec x.spec) ∧
        (x.spec.nodeName = name → ∃ removal ∈ between, removal.Removes name ∧ ¬removal.By i) := by
  have hstart : (start.parties i).Heeds MayRevive [] := hbeat ▸ heeds_beat
  obtain ⟨hadmits, -⟩ := Hall.admits_of_run lasting_mayRevive hrun hstart hm
  obtain ⟨name, x, hseen, hr⟩ := hadmits hwrite
  obtain ⟨earlier, read, between, gone, later, rfl, hread, hgone⟩ := exists_moments_of_sublist hseen
  refine ⟨name, x, earlier, read, between, gone, later, rfl, hread, hgone, hr, ?_⟩
  rintro rfl
  obtain ⟨_, _, hpast, -, -⟩ := hrun.exists_step
  obtain ⟨now, _, hbefore, hgoneStep, -⟩ := hpast.exists_step
  obtain ⟨_, then', -, hreadStep, hbetween⟩ := hbefore.exists_step
  have hthere : then'.shelf.record? x.spec.nodeName = some x := by
    cases hreadStep with
    | stored | removed => cases hread
    | asked _ hanswer =>
      cases hread
      obtain ⟨hx, rfl⟩ := hanswer.of_fetched
      exact hx
  have hmissing : now.shelf.record? x.spec.nodeName = none := by
    cases hgoneStep with
    | stored | removed => cases hgone
    | asked _ hanswer =>
      cases hgone
      exact hanswer.of_fetched.1
  obtain ⟨removal, hmem, hremoves⟩ := Hall.exists_removal hbetween hthere hmissing
  refine ⟨removal, hmem, hremoves, fun ⟨e, hevent⟩ ↦ ?_⟩
  -- heartbeats remove nothing
  obtain ⟨before, after, rfl⟩ := List.append_of_mem hmem
  have hrun' : Run Hall.Step start ((earlier ++ read :: before) ++ removal :: after) now := by
    simpa using hbefore
  obtain ⟨hadmits', hanswer'⟩ := Hall.admits_of_run lasting_mayRevive hrun' hstart hevent
  exact not_removes_of_mayRevive hadmits' hanswer' hremoves

/-- One party asks about the nodes of all records, and the others remove the record of a node. -/
def heldUp (stored : Record) : Hall where
  shelf := Shelf.empty.write stored "1"
  parties i := if i = 0 then Record.beat "c" 1 1 else Program.ofAction (Record.deleteOrphan "c" "a")

theorem exists_revival :
    let stored : Record := .ofSpec { nodeName := "a", status := "Ready" }
    let revival : Exchange := ⟨.createRecord (.ofSpec stored.spec), .ok ()⟩
    ∃ past m hall, Run Hall.Step (heldUp stored) (past ++ [m]) hall ∧ m.event = .asked 0 revival ∧
      m.before.record? "a" = none ∧ hall.shelf.record? "a" = some (stored.at "2") ∧
      ∀ m' ∈ past, ∀ name answer, m'.event = .asked 0 ⟨.fetchRecord name, answer⟩ →
        name = "a" := by
  intro stored revival
  let shelf := Shelf.empty.write stored "1"
  have hlisted : shelf.Answers (.listRecords none 1) (.ok ⟨[stored.at "1"], none⟩) shelf :=
    .other rfl _
  have hfirst := (@Run.nil _ _ Hall.Step (heldUp stored)).snoc (.asked (i := 0) (.loop _) hlisted)
  have hunknown : shelf.Answers (.callFleet (.heartbeat ⟨"a", "c"⟩)) (.ok { code := 404 }) shelf :=
    .other rfl _
  have hsecond := hfirst.snoc (.asked (i := 0) (.item [] [] _) hunknown)
  have hread : shelf.Answers (.fetchRecord "a") (.ok (some (stored.at "1"))) shelf := .fetched "a"
  have hthird := hsecond.snoc (.asked (i := 0) (.item [] [] _) hread)
  have hcounted : shelf.Answers (.count .selfHeals) () shelf := .other rfl _
  have hfourth := hthird.snoc (.asked (i := 0) (.item [] [] _) hcounted)
  have hremoved : shelf.Answers (.deleteRecord "a") (.ok ()) (shelf.remove "a") :=
    .deleted (x := stored.at "1") rfl
  have hfifth := hfourth.snoc (.asked (i := 1) (.ask _ _) hremoved)
  have hmissing : (shelf.remove "a").Answers (.fetchRecord "a") (.ok none) (shelf.remove "a") :=
    .fetched "a"
  have hsixth := hfifth.snoc (.asked (i := 0) (.item [] [] _) hmissing)
  have hcreated : (shelf.remove "a").Answers (.createRecord (.ofSpec stored.spec)) (.ok ())
      ((shelf.remove "a").write (.ofSpec stored.spec) "2") :=
    .created rfl (by simp [shelf, Shelf.empty])
  have hrun := hsixth.snoc (.asked (i := 0) (.item [] [] _) hcreated)
  refine ⟨_, _, _, hrun, rfl, rfl, rfl, fun m' hm' name answer hevent ↦ ?_⟩
  simp only [List.nil_append, List.cons_append, List.mem_cons, List.not_mem_nil, or_false] at hm'
  rcases hm' with rfl | rfl | rfl | rfl | rfl | rfl <;> cases hevent <;> rfl

/-- A record that is brought back had been removed by another party. -/
theorem record_brought_back_had_been_removed :
    let stored : Record := .ofSpec { nodeName := "a", status := "Ready" }
    ∃ past m hall, Run Hall.Step (heldUp stored) (past ++ [m]) hall ∧
      m.event = .asked 0 ⟨.createRecord (.ofSpec stored.spec), .ok ()⟩ ∧
      ∃ removal ∈ past, ∃ name, removal.Removes name ∧ ¬removal.By 0 := by
  intro stored
  obtain ⟨past, m, hall, hrun, hevent, -, -, hnames⟩ := exists_revival
  refine ⟨past, m, hall, hrun, hevent, ?_⟩
  obtain ⟨name, x, earlier, read, between, gone, later, rfl, hread, -, hx, hremoved⟩ :=
    heartbeats_write_only_what_was_removed (i := 0) hrun rfl hevent rfl
  have hname : name = "a" := hnames read (by simp) name _ hread
  have hnode : "a" = x.spec.nodeName := congrArg Record.name (Request.createRecord.inj hx)
  obtain ⟨removal, hmem, hremoves, hby⟩ := hremoved (hnode.symm.trans hname.symm)
  exact ⟨removal, by simp [hmem], name, hremoves, hby⟩

/-- Heartbeats bring back a record that was removed while the registry was asked about its node. -/
theorem heartbeats_bring_back_a_removed_record :
    let stored : Record := .ofSpec { nodeName := "a", status := "Ready" }
    (heldUp stored).parties 0 = Record.beat "c" 1 1 ∧
      ∃ past m hall e, Run Hall.Step (heldUp stored) (past ++ [m]) hall ∧ m.event = .asked 0 e ∧
        e.request.isWrite ∧ m.before.record? "a" = none ∧
        hall.shelf.record? "a" = some (stored.at "2") := by
  intro stored
  obtain ⟨past, m, hall, hrun, hevent, hgone, hback, -⟩ := exists_revival
  exact ⟨rfl, past, m, hall, _, hrun, hevent, rfl, hgone, hback⟩

end NodeInventory.Writers
