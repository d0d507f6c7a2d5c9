import NodeInventory.Proofs.Snapshot
import NodeInventory.Proofs.Writers.LostUpdate

/-!
# What callers have seen

A caller knows of the shelf what it was answered. Its *testimony* is the list of all its exchanges
so far. What a caller may ask, and what it may say in the end, can rest on its testimony: that is a
contract whose account is the testimony itself (`testifying`), and a caller that meets it at the
start goes on meeting it, at any time of a run, with what it has seen by then (`meets_testimony`).

Those who bring the record of a node in line with a snapshot tell the registry what they have seen
stored, with one exception: when somebody else has created the record first they tell the snapshot
(`MayTell`). And when they say that the record is in line with the snapshot, they have seen a spec
stored that is (`Testifies`).
-/

namespace NodeInventory

open Simulation

/-- What the registry is told of a node, if it is told anything. -/
def Fleet.Call.report? : Fleet.Call → Option Fleet.NodeReport
  | .add report | .update report => some report
  | .delete _ | .heartbeat _ => none

/-- The exchange did not change what is stored: it is no write, or one that was refused. -/
def Exchange.Idle (e : Exchange) : Prop :=
  e.request.isWrite → ∃ f, World.refuse f e.request = some e.answer

theorem Shelf.Answers.eq_of_idle {s t : Shelf} {r : Request} {a : r.Answer}
    (h : s.Answers r a t) (hidle : Exchange.Idle ⟨r, a⟩) : t = s := by
  cases h with
  | fetched | failed | other => rfl
  | created | updated | deleted =>
    obtain ⟨f, hf⟩ := hidle rfl
    cases hf

namespace Writers

open NodeInventory.Action

variable {α : Type} {i : ℕ} {m : Moment} {moments : List Moment} {e e' : Exchange}
  {start room : Room α}

/-! ## Testimonies -/

/-- The caller asks at the moment. -/
def Moment.By (m : Moment) (i : ℕ) : Prop := ∃ e, m.event = .asked i e

/-- What a caller asks at a moment, and is answered. -/
def Moment.exchange? (m : Moment) (i : ℕ) : Option Exchange :=
  match m.event with
  | .asked j e => if j = i then some e else none
  | .stored _ _ | .removed _ => none

theorem Moment.exchange?_eq_some : m.exchange? i = some e ↔ m.event = .asked i e := by
  rw [exchange?]
  split
  · next j e' hevent =>
    rw [hevent, Event.asked.injEq, ite_eq_iff]
    simp
  · next hevent => simp [hevent]
  · next hevent => simp [hevent]

/-- The exchanges of a caller. -/
def testimony (i : ℕ) (moments : List Moment) : List Exchange := moments.filterMap (·.exchange? i)

@[simp] theorem testimony_nil : testimony i [] = [] := rfl

theorem testimony_snoc :
    testimony i (moments ++ [m]) = testimony i moments ++ (m.exchange? i).toList := by
  rw [testimony, List.filterMap_append, ← testimony]
  cases h : m.exchange? i <;> simp [h]

theorem mem_testimony_snoc :
    e ∈ testimony i (moments ++ [m]) ↔ e ∈ testimony i moments ∨ m.event = .asked i e := by
  rw [testimony_snoc, List.mem_append, Option.mem_toList, Moment.exchange?_eq_some]

theorem exists_moment_of_mem (h : e ∈ testimony i moments) :
    ∃ m ∈ moments, m.event = .asked i e := by
  obtain ⟨m, hm, he⟩ := List.mem_filterMap.mp h
  exact ⟨m, hm, Moment.exchange?_eq_some.mp he⟩

theorem exists_moments_of_sublist (h : [e, e'].Sublist (testimony i moments)) :
    ∃ earlier m between m' later, moments = earlier ++ m :: between ++ m' :: later ∧
      m.event = .asked i e ∧ m'.event = .asked i e' := by
  obtain ⟨first, second, hseen, he, he'⟩ := List.cons_sublist_iff.mp h
  obtain ⟨past, future, rfl, rfl, rfl⟩ := List.filterMap_eq_append_iff.mp hseen
  obtain ⟨m, hm, hevent⟩ := exists_moment_of_mem he
  obtain ⟨m', hm', hevent'⟩ := exists_moment_of_mem (List.singleton_sublist.mp he')
  obtain ⟨earlier, between, rfl⟩ := List.append_of_mem hm
  obtain ⟨between', later, rfl⟩ := List.append_of_mem hm'
  exact ⟨earlier, m, between ++ between', m', later, by simp, hevent, hevent'⟩

/-! ## To rest on what was seen -/

/-- To ask only what is admitted after what was seen. -/
def testifying (admits : List Exchange → Request → Prop) : Contract (List Exchange) where
  allows := admits
  answers seen r a seen' := seen' = seen ++ [⟨r, a⟩]

variable {admits : List Exchange → Request → Prop} {post : List Exchange → α → Prop}
  {seen : List Exchange}

theorem meets_ask_seen {r : Request} {f : r.Answer → Action α} (hr : admits seen r)
    (hf : ∀ a, (f a).Meets (testifying admits) post (seen ++ [⟨r, a⟩])) :
    (ask r done >>= f).Meets (testifying admits) post seen := by
  refine meets_ask_bind hr fun a seen' hseen' ↦ ?_
  rw [hseen']
  exact hf a

/-- At any time what a caller has still to do rests on what it has seen. -/
theorem meets_testimony (hrun : Run Step start moments room)
    (hstart : (start.calls i).Meets (testifying admits) post []) :
    (room.calls i).Meets (testifying admits) post (testimony i moments) := by
  induction hrun with
  | nil => exact hstart
  | @snoc moments m room room' hrun hstep ih =>
    rw [testimony_snoc]
    cases hstep with
    | @asked j r next a t hcall hanswer =>
      by_cases hij : j = i
      · subst j
        rw [hcall] at ih
        simpa [Moment.exchange?] using ih.2 a _ rfl
      · simpa [Moment.exchange?, hij, Function.update_of_ne (Ne.symm hij)] using ih
    | stored | removed => simpa [Moment.exchange?] using ih

/-- What a caller asks is admitted after what it has seen. -/
theorem admits_of_run {past future : List Moment}
    (hrun : Run Step start (past ++ m :: future) room)
    (hstart : (start.calls i).Meets (testifying admits) post []) (hm : m.event = .asked i e) :
    admits (testimony i past) e.request := by
  obtain ⟨now, later, hpast, hstep, -⟩ := hrun.exists_step
  have hmeets := meets_testimony hpast hstart
  cases hstep with
  | stored | removed => cases hm
  | asked hcall hanswer =>
    cases hm
    rw [hcall] at hmeets
    exact hmeets.1

theorem answers_of_mem {r : Request} {a : r.Answer} (hrun : Run Step start moments room)
    (hstart : start.shelf.Sound) (hm : m ∈ moments) (hevent : m.event = .asked i ⟨r, a⟩) :
    m.before.Sound ∧ m.before.Answers r a m.after := by
  obtain ⟨past, future, rfl⟩ := List.append_of_mem hm
  obtain ⟨now, later, hpast, hstep, -⟩ := hrun.exists_step
  have hnow := sound_of_run hpast hstart
  cases hstep with
  | stored | removed => cases hevent
  | asked hcall hanswer =>
    cases hevent
    exact ⟨hnow, hanswer⟩

/-! ## What shows that something was stored -/

/-- What was seen shows that a spec was stored under the name of the node of a snapshot. -/
inductive Stored (snapshot : Spec) (seen : List Exchange) : Spec → Prop
  | read {x : Record} (hread : ⟨.fetchRecord snapshot.nodeName, .ok (some x)⟩ ∈ seen) :
    Stored snapshot seen x.spec
  | created (hcreated : ⟨.createRecord (.ofSpec snapshot), .ok ()⟩ ∈ seen) :
    Stored snapshot seen snapshot
  | updated {x : Record} {version : String}
      (hread : ⟨.fetchRecord snapshot.nodeName, .ok (some x)⟩ ∈ seen)
      (hupdated : ⟨.updateRecord { x with spec := snapshot } version, .ok ()⟩ ∈ seen) :
    Stored snapshot seen snapshot

/-- Somebody else created the record of the node first. -/
def Forestalled (snapshot : Spec) (seen : List Exchange) : Prop :=
  ∃ f : Failure, f.isAlreadyExists ∧ ⟨.createRecord (.ofSpec snapshot), .error f⟩ ∈ seen

variable {clusterId : String} {snapshot spec : Spec} {seen' : List Exchange}

theorem Stored.mono (hsub : seen ⊆ seen') (h : Stored snapshot seen spec) :
    Stored snapshot seen' spec := by
  cases h with
  | read hread => exact .read (hsub hread)
  | created hcreated => exact .created (hsub hcreated)
  | updated hread hupdated => exact .updated (hsub hread) (hsub hupdated)

theorem Stored.exists_moment (h : Stored snapshot (testimony i moments) spec)
    (hrun : Run Step start moments room) (hstart : start.shelf.Sound) :
    ∃ m ∈ moments, m.By i ∧ ∃ x, m.after.record? snapshot.nodeName = some x ∧ x.spec = spec := by
  have hanswer : ∀ {r : Request} {a : r.Answer}, ⟨r, a⟩ ∈ testimony i moments →
      ∃ m ∈ moments, m.By i ∧ m.before.Sound ∧ m.before.Answers r a m.after := by
    intro r a hmem
    obtain ⟨m, hm, hevent⟩ := exists_moment_of_mem hmem
    exact ⟨m, hm, ⟨_, hevent⟩, answers_of_mem hrun hstart hm hevent⟩
  cases h with
  | @read x hread =>
    obtain ⟨m, hm, hby, -, hread⟩ := hanswer hread
    obtain ⟨hx, hsame⟩ := hread.of_fetched
    exact ⟨m, hm, hby, x, hsame ▸ hx, rfl⟩
  | created hcreated =>
    obtain ⟨m, hm, hby, -, hcreated⟩ := hanswer hcreated
    obtain ⟨v, -, hafter⟩ := hcreated.of_created
    refine ⟨m, hm, hby, (Record.ofSpec snapshot).at v, ?_, rfl⟩
    rw [hafter, Shelf.record?_write, if_pos (Record.name_ofSpec snapshot).symm]
  | @updated x version hread hupdated =>
    obtain ⟨m, -, -, hsound, hread⟩ := hanswer hread
    have hname : x.name = snapshot.nodeName := (hsound _ _ hread.of_fetched.1).1
    obtain ⟨m, hm, hby, -, hupdated⟩ := hanswer hupdated
    obtain ⟨-, v, -, hafter⟩ := hupdated.of_updated
    refine ⟨m, hm, hby, ({ x with spec := snapshot } : Record).at v, ?_, rfl⟩
    have hrecord : snapshot.nodeName = ({ x with spec := snapshot } : Record).name := hname.symm
    rw [hafter, Shelf.record?_write, if_pos hrecord]

/-! ## What those say who bring a record in line with a snapshot -/

/-- What may be told to the registry: what was seen stored, or the snapshot if somebody else created
the record first. -/
def MayTell (clusterId : String) (snapshot : Spec) (seen : List Exchange) (r : Request) : Prop :=
  ∀ call report, r = .callFleet call → call.report? = some report →
    (∃ spec, Stored snapshot seen spec ∧ report = .ofSpec clusterId spec) ∨
      Forestalled snapshot seen ∧ report = .ofSpec clusterId snapshot

/-- What was seen when it is said that the record was there already: that it was not there, and
later that it was; and nothing was written. -/
structure Preceded (snapshot : Spec) (seen : List Exchange) : Prop where
  found : ∃ e, List.Sublist [⟨.fetchRecord snapshot.nodeName, .ok none⟩, e] seen ∧
    ((∃ x, e = ⟨.fetchRecord snapshot.nodeName, .ok (some x)⟩) ∨
      ∃ f : Failure, f.isAlreadyExists ∧ e = ⟨.createRecord (.ofSpec snapshot), .error f⟩)
  idle : ∀ e ∈ seen, e.Idle

/-- What was seen bears out what is said of the record. -/
def Testifies (snapshot : Spec) (seen : List Exchange) (result : Result Reconciliation) : Prop :=
  ∀ outcome, result = .ok outcome →
    (outcome ≠ .alreadyPresent → ∃ spec, Stored snapshot seen spec ∧
      spec.status = snapshot.status ∧ spec.resources = snapshot.resources) ∧
    (outcome = .alreadyPresent → Preceded snapshot seen)

theorem mayTell_of_kind {r : Request} (hr : r.kind ≠ .callFleet) :
    MayTell clusterId snapshot seen r := by
  rintro call report rfl
  exact absurd rfl hr

theorem testifies_error {f : Failure} : Testifies snapshot seen (.error f) :=
  fun _ hresult ↦ by cases hresult

theorem idle_of_kind {r : Request} {a : r.Answer}
    (hr : r.kind ∉ [.createRecord, .updateRecord, .deleteRecord]) : Exchange.Idle ⟨r, a⟩ := by
  intro hwrite
  cases r with
  | createRecord | updateRecord | deleteRecord => simp [Request.kind] at hr
  | _ => cases hwrite

theorem idle_append (hseen : ∀ e ∈ seen, e.Idle) (hseen' : ∀ e ∈ seen', e.Idle) :
    ∀ e ∈ seen ++ seen', e.Idle := by
  intro e he
  exact (List.mem_append.mp he).elim (hseen e) (hseen' e)

/-- Telling the registry adds to what was seen, and writes nothing. -/
theorem meets_tell {call : Fleet.Call} (hcall : MayTell clusterId snapshot seen (.callFleet call))
    (source : Report.Source) (subject : String) :
    (Fleet.tell source subject call).Meets (testifying (MayTell clusterId snapshot))
      (fun seen' _ ↦ ∃ later, seen' = seen ++ later ∧ ∀ e ∈ later, e.Idle) seen := by
  have hnote : ∀ {seen r}, r.kind ∈ [.count, .report] → MayTell clusterId snapshot seen r := by
    intro seen r hr
    refine mayTell_of_kind fun hkind ↦ ?_
    simp [hkind] at hr
  refine .bind (meets_ask_seen hcall fun answer ↦ ?_)
  split
  · exact ⟨[⟨_, answer⟩], rfl, by simp [idle_of_kind, Request.kind]⟩
  · refine meets_ask_seen (hnote (by simp [Request.kind])) fun _ ↦ ?_
    refine ⟨hnote (by simp [Request.kind]), fun _ seen' hseen' ↦ ?_⟩
    rw [hseen', List.append_assoc, List.append_assoc]
    exact ⟨_, rfl, by simp [idle_of_kind, Request.kind]⟩

/-- Registering a node ends with what is to be said, and with more seen than before. -/
theorem meets_register {post : List Exchange → Result Reconciliation → Prop}
    {outcome : Reconciliation}
    (hreport : MayTell clusterId snapshot seen (.callFleet (.add (.ofSpec clusterId spec))))
    (hpost : ∀ later, (∀ e ∈ later, e.Idle) → post (seen ++ later) (.ok outcome)) (name : String) :
    (Record.register clusterId name spec outcome).Meets (testifying (MayTell clusterId snapshot))
      post seen := by
  refine .bind ((meets_tell hreport _ _).imp fun seen' _ hseen' ↦ ?_)
  obtain ⟨later, rfl, hlater⟩ := hseen'
  exact hpost later hlater

theorem mayTell_add (h : Stored snapshot seen spec) :
    MayTell clusterId snapshot seen (.callFleet (.add (.ofSpec clusterId spec))) := by
  rintro call report ⟨⟩ ⟨⟩
  exact .inl ⟨spec, h, rfl⟩

theorem Stored.testifies {outcome : Reconciliation} (h : Stored snapshot seen snapshot)
    (houtcome : outcome ≠ .alreadyPresent) : Testifies snapshot seen (.ok outcome) := by
  rintro _ ⟨⟩
  exact ⟨fun _ ↦ ⟨snapshot, h, rfl, rfl⟩, fun h ↦ absurd h houtcome⟩

theorem Preceded.testifies (h : Preceded snapshot seen) :
    Testifies snapshot seen (.ok .alreadyPresent) := by
  rintro _ ⟨⟩
  exact ⟨fun hne ↦ absurd rfl hne, fun _ ↦ h⟩

/-- Who creates the record of a node, having seen that there was none, says what is so. -/
theorem meets_create :
    (Record.create clusterId snapshot).Meets (testifying (MayTell clusterId snapshot))
      (fun seen' result ↦ ⟨.fetchRecord snapshot.nodeName, .ok none⟩ ∈ seen →
        (∀ e ∈ seen, e.Idle) → Testifies snapshot seen' result) seen := by
  refine .bind (meets_ask_seen (mayTell_of_kind (by simp [Request.kind])) fun
    (answer : Result (Option Record)) ↦ ?_)
  have hfetch : Exchange.Idle ⟨.fetchRecord snapshot.nodeName, answer⟩ :=
    idle_of_kind (by simp [Request.kind])
  obtain f | _ | x := answer
  · exact fun _ _ ↦ testifies_error
  · refine meets_ask_seen (mayTell_of_kind (by simp [Request.kind])) fun
      (answer : Result Unit) ↦ ?_
    obtain f | _ := answer
    · change (ite _ _ _ : Action _).Meets _ _ _
      split
      · next hexists =>
        -- somebody else was faster
        refine meets_register ?_ (fun later hlater habsent hidle ↦ ?_) _
        · rintro call report ⟨⟩ ⟨⟩
          exact .inr ⟨⟨f, hexists, by simp⟩, rfl⟩
        · refine Preceded.testifies ⟨⟨_, ?_, .inr ⟨f, hexists, rfl⟩⟩, ?_⟩
          · rw [List.append_assoc, List.append_assoc]
            exact (List.singleton_sublist.mpr habsent).append (by simp)
          · have hcreate : Exchange.Idle ⟨.createRecord (.ofSpec snapshot), .error f⟩ :=
              fun _ ↦ ⟨f, rfl⟩
            exact idle_append (idle_append (idle_append hidle (by simpa)) (by simpa)) hlater
      · exact fun _ _ ↦ testifies_error
    · refine meets_ask_seen (mayTell_of_kind (by simp [Request.kind])) fun _ ↦ ?_
      have hcreated : ⟨.createRecord (.ofSpec snapshot), .ok ()⟩ ∈
          seen ++ [⟨.fetchRecord snapshot.nodeName, .ok none⟩] ++
            [⟨.createRecord (.ofSpec snapshot), .ok ()⟩] ++ [⟨.count .recordsCreated, ()⟩] := by
        simp
      refine meets_register (mayTell_add (.created hcreated)) (fun later _ _ _ ↦ ?_) _
      exact Stored.testifies (.created (List.mem_append_left _ hcreated)) (by decide)
  · have hread : ⟨.fetchRecord snapshot.nodeName, .ok (some x)⟩ ∈
        seen ++ [⟨.fetchRecord snapshot.nodeName, .ok (some x)⟩] := by simp
    refine meets_register (mayTell_add (.read hread)) (fun later hlater habsent hidle ↦ ?_) _
    refine Preceded.testifies ⟨⟨_, ?_, .inl ⟨x, rfl⟩⟩, ?_⟩
    · rw [List.append_assoc]
      exact (List.singleton_sublist.mpr habsent).append (by simp)
    · exact idle_append (idle_append hidle (by simpa)) hlater

/-- An attempt says what is so, if what follows a conflict does. A write that met a conflict is one
that was refused. -/
theorem attempt_testifies {onConflict : Failure → Action (Result Reconciliation)}
    (hconflict : ∀ f seen, (∀ e ∈ seen, e.Idle) →
      (onConflict f).Meets (testifying (MayTell clusterId snapshot)) (Testifies snapshot) seen)
    (hidle : ∀ e ∈ seen, e.Idle) :
    (Record.attempt clusterId snapshot onConflict).Meets (testifying (MayTell clusterId snapshot))
      (Testifies snapshot) seen := by
  refine .bind (meets_ask_seen (mayTell_of_kind (by simp [Request.kind])) fun
    (answer : Result (Option Record)) ↦ ?_)
  have hfetch : Exchange.Idle ⟨.fetchRecord snapshot.nodeName, answer⟩ :=
    idle_of_kind (by simp [Request.kind])
  have hfetched : ∀ e ∈ seen ++ [⟨.fetchRecord snapshot.nodeName, answer⟩], e.Idle :=
    idle_append hidle (by simpa)
  obtain f | _ | x := answer
  · exact testifies_error
  · exact meets_create.imp fun _ _ h ↦ h (by simp) hfetched
  · have hread : ⟨.fetchRecord snapshot.nodeName, .ok (some x)⟩ ∈
        seen ++ [⟨.fetchRecord snapshot.nodeName, .ok (some x)⟩] := by simp
    change (ite _ _ _ : Action _).Meets _ _ _
    split
    · next hsame =>
      -- the record that was read is in line with the snapshot
      rw [Bool.not_eq_true'] at hsame
      rintro _ ⟨⟩
      refine ⟨fun _ ↦ ⟨x.spec, .read hread, ?_⟩, fun h ↦ by cases h⟩
      exact Record.needsUpdate_eq_false_iff.mp hsame
    · split
      · exact testifies_error
      · next version _ =>
        refine meets_ask_seen (mayTell_of_kind (by simp [Request.kind])) fun
          (answer : Result Unit) ↦ ?_
        obtain f | _ := answer
        · have hrefused : Exchange.Idle
              ⟨.updateRecord { x with spec := snapshot } version, .error f⟩ := fun _ ↦ ⟨f, rfl⟩
          have hcount : Exchange.Idle ⟨.count .updateConflicts, ()⟩ :=
            idle_of_kind (by simp [Request.kind])
          change (ite _ _ _ : Action _).Meets _ _ _
          split
          · refine meets_ask_seen (mayTell_of_kind (by simp [Request.kind])) fun _ ↦ ?_
            exact hconflict _ _ (idle_append (idle_append hfetched (by simpa)) (by simpa))
          · exact testifies_error
        · refine meets_ask_seen (mayTell_of_kind (by simp [Request.kind])) fun _ ↦ ?_
          have hupdated : ⟨.updateRecord { x with spec := snapshot } version, .ok ()⟩ ∈
              seen ++ [⟨.fetchRecord snapshot.nodeName, .ok (some x)⟩] ++
                [⟨.updateRecord { x with spec := snapshot } version, .ok ()⟩] ++
                [⟨.count .recordsUpdated, ()⟩] := by simp
          have hstored := Stored.updated (by simp) hupdated
          refine .bind ((meets_tell ?_ _ _).imp fun seen' _ hseen' ↦ ?_)
          · rintro call report ⟨⟩ ⟨⟩
            exact .inl ⟨snapshot, hstored, rfl⟩
          · obtain ⟨later, rfl, -⟩ := hseen'
            exact (hstored.mono (List.subset_append_left _ _)).testifies (by decide)

theorem reconcile_testifies (retry : RetryPolicy) :
    (Record.reconcile clusterId retry snapshot).Meets (testifying (MayTell clusterId snapshot))
      (Testifies snapshot) [] := by
  suffices ∀ left made seen, (∀ e ∈ seen, e.Idle) →
      (Record.reconcileAfter clusterId retry.delay snapshot left made).Meets
        (testifying (MayTell clusterId snapshot)) (Testifies snapshot) seen from
    this _ _ _ fun _ he ↦ by cases he
  intro left
  induction left with
  | zero => exact fun made seen hidle ↦ attempt_testifies (fun _ _ _ ↦ testifies_error) hidle
  | succ left ih =>
    intro made seen hidle
    refine attempt_testifies (fun f seen hseen ↦ ?_) hidle
    refine meets_ask_seen (mayTell_of_kind (by simp [Request.kind])) fun _ ↦ ?_
    have hpause : Exchange.Idle ⟨.pause retry.delay, ()⟩ := idle_of_kind (by simp [Request.kind])
    exact ih _ _ (idle_append hseen (by simpa))

end Writers

end NodeInventory
