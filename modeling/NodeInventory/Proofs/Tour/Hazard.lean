import NodeInventory.Proofs.Failure
import NodeInventory.Proofs.Pass.Upkeep
import NodeInventory.Proofs.Tour.Batch

/-!
# Refreshing a node where requests fail

Any request may fail, and one that fails changes nothing. What then gets in the way of refreshing a
node can be told from what fails, from the node with its pods, and from its record (`Hit`): its pods
cannot be listed, an amount cannot be read, its record cannot be read or cannot be written. A node
that is not hit has a record in the end that is up to date, and a node that is hit keeps the record
that it had, if any (`meets_hazard_refresh`).

Of two failures the program makes an answer. That a new record is there already is taken for a
success, and a conflict is met by trying again; but a conflict that does not go away is told in the
end.
-/

namespace NodeInventory.Tour

open Simulation NodeInventory.Action

/-- Nobody else does anything, and requests fail as given. The registry answers as it likes, and the
nodes of some names can be found. -/
def beset (fault : Request → Option Failure) : Conditions where
  others _ _ := False
  fault
    | .findNodes _ | .callFleet _ => none
    | r => fault r
  fleet _ _ := True
  answers := exists_any_answer

variable {fault : Request → Option Failure} {pods : List Pod} {name : String} {s : Option Record}
  {spec : Spec} {attempts : ℕ} {told : Option Failure} {d : Duties} {node : Node}

/-! ## What gets in the way -/

/-- The record differs from a snapshot, and the write that would bring it in line fails. -/
def WriteFails (fault : Request → Option Failure) (spec : Spec) (s : Option Record) (f : Failure) :
    Prop :=
  ¬Pass.Current spec s ∧ ∃ x version, s = some x ∧ x.metadata.resourceVersion = some version ∧
    fault (.updateRecord { x with spec } version) = some f

/-- Something gets in the way of bringing a record in line with a snapshot, and the failure that is
told of it. -/
inductive Hindered (fault : Request → Option Failure) (attempts : ℕ) (spec : Spec)
    (s : Option Record) : Option Failure → Prop
  | fetch {f : Failure} (h : fault (.fetchRecord spec.nodeName) = some f) :
    Hindered fault attempts spec s (some (.context "error fetching NodeResourceInfo" f))
  | create {f : Failure} (hfetch : fault (.fetchRecord spec.nodeName) = none) (hs : s = none)
      (h : fault (.createRecord (.ofSpec spec)) = some f) (hf : f.isAlreadyExists = false) :
    Hindered fault attempts spec s
      (some (.context ("error creating NodeResourceInfo " ++ spec.nodeName) f))
  /-- The store says that there is a record, which is believed. -/
  | denied {f : Failure} (hfetch : fault (.fetchRecord spec.nodeName) = none) (hs : s = none)
      (h : fault (.createRecord (.ofSpec spec)) = some f) (hf : f.isAlreadyExists) :
    Hindered fault attempts spec s none
  | update {f : Failure} (hfetch : fault (.fetchRecord spec.nodeName) = none)
      (h : WriteFails fault spec s f) (hf : f.isConflict = false) :
    Hindered fault attempts spec s
      (some (.context ("error updating NodeResourceInfo " ++ spec.nodeName) f))
  /-- The write meets a conflict each time. -/
  | conflict {f : Failure} (hfetch : fault (.fetchRecord spec.nodeName) = none)
      (h : WriteFails fault spec s f) (hf : f.isConflict) :
    Hindered fault attempts spec s (some (.context ("giving up updating NodeResourceInfo " ++
      spec.nodeName ++ " after " ++ toString attempts ++ " attempts") f))

/-- Something gets in the way of refreshing a node, and the failure that is told of it. -/
inductive Hit (fault : Request → Option Failure) (d : Duties) (pods : List Pod) (node : Node)
    (s : Option Record) : Option Failure → Prop
  | pods {f : Failure} (h : fault (.listPods node.name) = some f) :
    Hit fault d pods node s
      (some (.context ("error building snapshot of node " ++ node.name) (.query f)))
  /-- An amount of the node or of its pods cannot be read. -/
  | amounts {f : Failure} (hpods : fault (.listPods node.name) = none)
      (h : Snapshot.build node pods d.tracked = .exact (.error f)) :
    Hit fault d pods node s (some (.context ("error building snapshot of node " ++ node.name) f))
  /-- An amount leaves its word while it is read or shown. -/
  | overrun (hpods : fault (.listPods node.name) = none)
      (h : Snapshot.build node pods d.tracked = .overrun) :
    Hit fault d pods node s
      (some (.context "error joining bounded task" (.plain (d.wording.aborted node.name))))
  | record {spec : Spec} {told : Option Failure} (hpods : fault (.listPods node.name) = none)
      (hbuild : Snapshot.build node pods d.tracked = .exact (.ok spec))
      (h : Hindered fault (max d.retry.attempts 1) spec s told) :
    Hit fault d pods node s told

theorem WriteFails.unique {f g : Failure} (h : WriteFails fault spec s f)
    (h' : WriteFails fault spec s g) : f = g := by
  obtain ⟨-, x, version, rfl, hversion, hf⟩ := h
  obtain ⟨-, y, version', hx, hversion', hg⟩ := h'
  cases hx
  rw [hversion] at hversion'
  cases hversion'
  exact Option.some.inj (hf.symm.trans hg)

theorem WriteFails.ne_none {f : Failure} (h : WriteFails fault spec s f) : s ≠ none := by
  obtain ⟨-, x, version, rfl, -⟩ := h
  exact Option.some_ne_none x

theorem Hindered.unique {told' : Option Failure} (h : Hindered fault attempts spec s told)
    (h' : Hindered fault attempts spec s told') : told = told' := by
  cases h with
  | fetch h => cases h' <;> simp_all
  | create _ hs h hf => cases h' <;> simp_all [WriteFails]
  | denied _ hs h hf => cases h' <;> simp_all [WriteFails]
  | update _ h hf =>
    cases h' with
    | update _ h' => rw [h.unique h']
    | conflict _ h' hf' =>
      rw [h.unique h', hf'] at hf
      cases hf
    | fetch => simp_all
    | create _ hs | denied _ hs => exact absurd hs h.ne_none
  | conflict _ h hf =>
    cases h' with
    | conflict _ h' => rw [h.unique h']
    | update _ h' hf' =>
      rw [h.unique h', hf'] at hf
      cases hf
    | fetch => simp_all
    | create _ hs | denied _ hs => exact absurd hs h.ne_none

theorem Hit.unique {told' : Option Failure} (h : Hit fault d pods node s told)
    (h' : Hit fault d pods node s told') : told = told' := by
  cases h with
  | pods h => cases h' <;> simp_all
  | amounts _ h => cases h' <;> simp_all
  | overrun _ h => cases h' <;> simp_all
  | record _ hbuild h =>
    cases h' with
    | record _ hbuild' h' =>
      rw [hbuild] at hbuild'
      cases hbuild'
      exact h.unique h'
    | pods | amounts | overrun => simp_all

/-- Nothing gets in the way if the record can be read, and if a new record can be created or the one
that is there needs no write or can be written. -/
theorem not_hindered (hfetch : fault (.fetchRecord spec.nodeName) = none)
    (hcreate : s = none → fault (.createRecord (.ofSpec spec)) = none)
    (hwrite : ∀ f, ¬WriteFails fault spec s f) : ¬Hindered fault attempts spec s told := by
  intro h
  cases h with
  | fetch h =>
    rw [hfetch] at h
    cases h
  | create _ hs h | denied _ hs h =>
    rw [hcreate hs] at h
    cases h
  | update _ h | conflict _ h => exact hwrite _ h

/-! ## What is told to somebody who takes care of a record -/

/-- The contract of those who take care of a record where requests may fail. -/
def hazard (fault : Request → Option Failure) (pods : List Pod) (name : String) :
    Contract (Option Record) where
  allows := Pass.Allowed False name
  answers s r a t := (beset fault).refusal r = some a ∧ t = s ∨
    (beset fault).refusal r = none ∧ Pass.Told pods name s r a t

/-- Nobody disturbs those who take care of records, and nobody changes the cluster. -/
def besetTerms (fault : Request → Option Failure) (home : World) :
    Terms (beset fault) (Option Record) where
  inv w := w.nodes = home.nodes ∧ w.pods = home.pods ∧ w.allPods = home.allPods
  look w n := w.record? n
  contract n := hazard fault (home.podsOn n) n
  answered {w w' n r a} hinv hr hw := by
    cases hrefusal : (beset fault).refusal r with
    | some a' =>
      have hkind : r.kind ≠ .callFleet := by
        cases r with
        | callFleet => cases hrefusal
        | _ => simp [Request.kind]
      obtain ⟨rfl, rfl⟩ := hw.eq_of_refusal hkind hrefusal
      exact ⟨hinv, .inl ⟨hrefusal, rfl⟩, fun _ _ ↦ rfl⟩
    | none =>
      obtain ⟨htold, htended, -⟩ := hr.told rfl (hw.pass_of_refusal fun _ ↦ hrefusal)
      have hpods : w.podsOn n = home.podsOn n := by
        rw [World.podsOn, World.podsOn, hinv.2.1, hinv.2.2]
      rw [hpods] at htold
      exact ⟨⟨htended.nodes.trans hinv.1, htended.pods.trans hinv.2.1,
        htended.allPods.trans hinv.2.2⟩, .inr ⟨hrefusal, htold⟩, fun m hm ↦ htended.others m hm⟩
  undisturbed _ hc := hc.elim

/-! ## What they do -/

variable {α : Type} {post : Option Record → α → Prop}

theorem ignores_hazard {r : Request} (hr : r.kind ∈ [.callFleet, .count, .report, .pause]) :
    (hazard fault pods name).Ignores s r := by
  refine ⟨?_, fun a t hat ↦ ?_⟩
  · cases r with
    | callFleet call => exact .tell s call not_false
    | count | report | pause => exact .note s (by simp [Request.kind])
    | _ => simp [Request.kind] at hr
  · obtain ⟨-, rfl⟩ | ⟨-, htold⟩ := hat
    · rfl
    · cases htold with
      | other => rfl
      | _ => simp [Request.kind] at hr

theorem meets_hazard_of_ignores {r : Request} {f : r.Answer → Action α}
    (hr : r.kind ∈ [.callFleet, .count, .report, .pause])
    (hf : ∀ a, (f a).Meets (hazard fault pods name) post s) :
    (ask r done >>= f).Meets (hazard fault pods name) post s := by
  have hignores : (hazard fault pods name).Ignores s r := ignores_hazard hr
  refine meets_ask_bind hignores.1 fun a t hat ↦ ?_
  rw [hignores.2 a t hat]
  exact hf a

theorem meets_hazard_tell (source : Report.Source) (subject : String) (call : Fleet.Call) :
    (Fleet.tell source subject call).Meets (hazard fault pods name) (fun t _ ↦ t = s) s :=
  meets_of_ignores ((Fleet.within_tell source subject call).imp fun _ hr ↦
    ignores_hazard (List.mem_append_left [Request.Kind.pause] hr))

theorem meets_hazard_register (clusterId subject : String) (snapshot : Spec)
    (outcome : Reconciliation) :
    (Record.register clusterId subject snapshot outcome).Meets (hazard fault pods name)
      (fun t v ↦ t = s ∧ v = .ok outcome) s :=
  Meets.bind ((meets_hazard_tell _ _ _).imp fun _ _ ht ↦ ⟨ht, rfl⟩)

/-- What is asked either fails, and nothing becomes of the record, or is answered. -/
theorem meets_hazard_ask {r : Request} {f : r.Answer → Action α} {refused : Failure → r.Answer}
    (hallowed : Pass.Allowed False name s r) (hr : r.kind ∉ [.findNodes, .callFleet])
    (hrefused : ∀ g, World.refuse g r = some (refused g))
    (hfails : ∀ g, fault r = some g → (f (refused g)).Meets (hazard fault pods name) post s)
    (hf : fault r = none → ∀ a t, Pass.Told pods name s r a t →
      (f a).Meets (hazard fault pods name) post t) :
    (ask r done >>= f).Meets (hazard fault pods name) post s := by
  have hsame : (beset fault).fault r = fault r := by
    cases r with
    | findNodes | callFleet => simp [Request.kind] at hr
    | _ => rfl
  refine meets_ask_bind hallowed fun a t hat ↦ ?_
  cases hfault : fault r with
  | some g =>
    have hrefusal : (beset fault).refusal r = some (refused g) := by
      rw [Conditions.refusal, hsame, hfault, Option.bind_some, hrefused]
    obtain ⟨ha, rfl⟩ | ⟨hnone, -⟩ := hat
    · rw [hrefusal] at ha
      cases ha
      exact hfails g hfault
    · rw [hrefusal] at hnone
      cases hnone
  | none =>
    obtain ⟨hsome, -⟩ | ⟨-, htold⟩ := hat
    · rw [Conditions.refusal, hsame, hfault] at hsome
      cases hsome
    · exact hf hfault a t htold

/-- A record is read as it is, unless reading it fails. -/
theorem meets_hazard_fetch {f : Result (Option Record) → Action α}
    (hfails : ∀ g, fault (.fetchRecord name) = some g →
      (f (.error (.context "error fetching NodeResourceInfo" g))).Meets (hazard fault pods name)
        post s)
    (hf : fault (.fetchRecord name) = none → (f (.ok s)).Meets (hazard fault pods name) post s) :
    (Record.fetch name >>= f).Meets (hazard fault pods name) post s := by
  refine Meets.bind (meets_hazard_ask (.fetch s) (by simp [Request.kind]) (fun _ ↦ rfl) hfails
    fun hfault a t htold ↦ ?_)
  cases htold with
  | fetched => exact hf hfault
  | other _ hr => simp [Request.kind] at hr

/-- What came of bringing a record in line with a snapshot. -/
inductive Reconciled (fault : Request → Option Failure) (attempts : ℕ) (spec : Spec)
    (s : Option Record) : Option Record → Result Reconciliation → Prop
  | hindered {v : Result Reconciliation} {told : Option Failure}
      (h : Hindered fault attempts spec s told) (hv : Failure.told? (v.map fun _ ↦ ()) = told) :
    Reconciled fault attempts spec s s v
  | current {t : Option Record} (outcome : Reconciliation)
      (hclear : ∀ told, ¬Hindered fault attempts spec s told) (ht : Pass.Current spec t) :
    Reconciled fault attempts spec s t (.ok outcome)

theorem meets_hazard_create (clusterId : String) (hname : spec.nodeName = name) :
    (Record.create clusterId spec).Meets (hazard fault pods name)
      (fun t v ↦ Reconciled fault attempts spec none t v) none := by
  subst hname
  refine meets_hazard_fetch (fun g hg ↦ .hindered (.fetch hg) rfl) fun hfetch ↦ ?_
  refine meets_hazard_ask (.create not_false rfl rfl) (by simp [Request.kind]) (fun _ ↦ rfl)
    (fun g hg ↦ ?_) fun hcreate a t htold ↦ ?_
  · dsimp only
    by_cases hexists : g.isAlreadyExists
    · rw [if_pos hexists]
      refine (meets_hazard_register _ _ _ _).imp ?_
      rintro t v ⟨rfl, rfl⟩
      exact .hindered (.denied hfetch rfl hg hexists) rfl
    · rw [if_neg hexists]
      exact .hindered (.create hfetch rfl hg (Bool.eq_false_iff.mpr hexists)) rfl
  · cases htold with
    | other _ hr => simp [Request.kind] at hr
    | created _ version =>
      refine meets_hazard_of_ignores (by simp [Request.kind]) fun a ↦ ?_
      refine (meets_hazard_register _ _ _ _).imp ?_
      rintro t v ⟨rfl, rfl⟩
      exact .current _ (fun _ ↦ not_hindered hfetch (fun _ ↦ hcreate) fun _ h ↦ h.ne_none rfl)
        ⟨_, rfl, rfl, rfl⟩

/-- A record is written if it differs, unless something gets in the way. When the write meets a
conflict nothing becomes of the record, and it is for the caller to go on. -/
theorem meets_hazard_attempt (clusterId : String) (hname : spec.nodeName = name)
    (hs : Pass.Proper name s) {onConflict : Failure → Action (Result Reconciliation)}
    (hconflict : ∀ f, fault (.fetchRecord spec.nodeName) = none → WriteFails fault spec s f →
      f.isConflict → (onConflict f).Meets (hazard fault pods name)
        (fun t v ↦ Reconciled fault attempts spec s t v) s) :
    (Record.attempt clusterId spec onConflict).Meets (hazard fault pods name)
      (fun t v ↦ Reconciled fault attempts spec s t v) s := by
  subst hname
  refine meets_hazard_fetch (fun g hg ↦ .hindered (.fetch hg) rfl) fun hfetch ↦ ?_
  cases s with
  | none => exact meets_hazard_create clusterId rfl
  | some x =>
    obtain ⟨hxname, -, version, hversion⟩ := hs x rfl
    cases hneeds : Record.needsUpdate x.spec spec with
    | false =>
      have hcurrent : Pass.Current spec (some x) :=
        ⟨x, rfl, Record.needsUpdate_eq_false_iff.mp hneeds⟩
      simp only [hneeds, Bool.not_false, if_true]
      exact .current _ (fun _ ↦ not_hindered hfetch (by rintro ⟨⟩) fun _ h ↦ h.1 hcurrent) hcurrent
    | true =>
      have hdiffers : ¬Pass.Current spec (some x) := fun ⟨y, hy, hcurrent⟩ ↦ by
        cases hy
        rw [Record.needsUpdate_eq_false_iff.mpr hcurrent] at hneeds
        cases hneeds
      simp only [hneeds, Bool.not_true, Bool.false_eq_true, if_false, hversion]
      refine meets_hazard_ask (.update not_false hxname rfl hversion) (by simp [Request.kind])
        (fun _ ↦ rfl) (fun g hg ↦ ?_) fun hupdate a t htold ↦ ?_
      · have hfails : WriteFails fault spec (some x) g :=
          ⟨hdiffers, x, version, rfl, hversion, hg⟩
        dsimp only
        by_cases hg' : g.isConflict
        · rw [if_pos hg']
          exact meets_hazard_of_ignores (by simp [Request.kind]) fun _ ↦
            hconflict g hfetch hfails hg'
        · rw [if_neg hg']
          exact .hindered (.update hfetch hfails (Bool.eq_false_iff.mpr hg')) rfl
      · cases htold with
        | other _ hr => simp [Request.kind] at hr
        | updated _ _ _ version' =>
          refine meets_hazard_of_ignores (by simp [Request.kind]) fun a ↦ ?_
          refine Meets.bind ((meets_hazard_tell _ _ _).imp fun t _ ht ↦ ?_)
          rw [ht]
          have hwrites : ∀ f, ¬WriteFails fault spec (some x) f := by
            rintro f ⟨-, y, v, hy, hv, hf⟩
            cases hy
            rw [hversion] at hv
            cases hv
            rw [hupdate] at hf
            cases hf
          exact .current _ (fun _ ↦ not_hindered hfetch (by rintro ⟨⟩) hwrites)
            ⟨_, rfl, rfl, rfl⟩

theorem meets_hazard_reconcileAfter (clusterId : String) (delay : ℕ) (hname : spec.nodeName = name)
    (hs : Pass.Proper name s) (left made : ℕ) (hattempts : made + left + 1 = attempts) :
    (Record.reconcileAfter clusterId delay spec left made).Meets (hazard fault pods name)
      (fun t v ↦ Reconciled fault attempts spec s t v) s := by
  induction left generalizing made with
  | zero =>
    refine meets_hazard_attempt clusterId hname hs fun f hfetch hfails hf ↦ .hindered ?_ rfl
    subst hattempts
    exact .conflict hfetch hfails hf
  | succ left ih =>
    refine meets_hazard_attempt clusterId hname hs fun f _ _ _ ↦ ?_
    exact meets_hazard_of_ignores (by simp [Request.kind]) fun _ ↦ ih (made + 1) (by omega)

theorem meets_hazard_reconcile (clusterId : String) (retry : RetryPolicy)
    (hname : spec.nodeName = name) (hs : Pass.Proper name s) :
    (Record.reconcile clusterId retry spec).Meets (hazard fault pods name)
      (fun t v ↦ Reconciled fault (max retry.attempts 1) spec s t v) s :=
  meets_hazard_reconcileAfter clusterId retry.delay hname hs _ 0 (by omega)

/-- What came of refreshing a node. -/
inductive Refreshed (fault : Request → Option Failure) (d : Duties) (pods : List Pod) (node : Node)
    (s : Option Record) : Option Record → Result Unit → Prop
  | hit {v : Result Unit} {told : Option Failure} (h : Hit fault d pods node s told)
      (hv : Failure.told? v = told) : Refreshed fault d pods node s s v
  | current {spec : Spec} {t : Option Record} (hclear : ∀ told, ¬Hit fault d pods node s told)
      (hbuild : Snapshot.build node pods d.tracked = .exact (.ok spec)) (ht : Pass.Current spec t) :
    Refreshed fault d pods node s t (.ok ())

variable {t : Option Record} {v : Result Unit}

theorem Refreshed.current_of_clear (h : Refreshed fault d pods node s t v)
    (hclear : ∀ told, ¬Hit fault d pods node s told) :
    ∃ spec, Snapshot.build node pods d.tracked = .exact (.ok spec) ∧ Pass.Current spec t := by
  cases h with
  | hit h => exact absurd h (hclear _)
  | current _ hbuild ht => exact ⟨_, hbuild, ht⟩

theorem Refreshed.eq_of_hit (h : Refreshed fault d pods node s t v)
    (hhit : Hit fault d pods node s told) : t = s := by
  cases h with
  | hit => rfl
  | current hclear => exact absurd hhit (hclear told)

theorem Refreshed.told?_iff {f : Failure} (h : Refreshed fault d pods node s t v) :
    Failure.told? v = some f ↔ Hit fault d pods node s (some f) := by
  cases h with
  | hit h hv =>
    rw [hv]
    constructor
    · rintro rfl
      exact h
    · exact fun h' ↦ h.unique h'
  | current hclear => exact iff_of_false (by rintro ⟨⟩) (hclear _)

/-- A snapshot tells the node with its pods, unless its pods cannot be listed. -/
theorem meets_hazard_snapshot :
    (d.snapshot node).Meets (hazard fault pods node.name)
      (fun t answer ↦ t = s ∧
        ((∃ f, fault (.listPods node.name) = some f ∧ answer = .exact (.error (.query f))) ∨
          fault (.listPods node.name) = none ∧ answer = Snapshot.build node pods d.tracked)) s := by
  refine meets_hazard_ask (.pods s) (by simp [Request.kind]) (fun _ ↦ rfl) (fun g hg ↦ ?_)
    fun hpods a t htold ↦ ?_
  · exact ⟨rfl, .inl ⟨g, hg, rfl⟩⟩
  · cases htold with
    | other _ hr => simp [Request.kind] at hr
    | pods => exact ⟨rfl, .inr ⟨hpods, rfl⟩⟩

/-- A node that is not hit gets a record that is up to date, and a node that is hit keeps the record
it had. -/
theorem meets_hazard_refresh (hs : Pass.Proper node.name s) :
    (d.refresh node).Meets (hazard fault pods node.name)
      (fun t v ↦ Refreshed fault d pods node s t v) s := by
  refine Meets.bind (meets_hazard_snapshot.imp ?_)
  rintro t answer ⟨rfl, ⟨f, hpods, rfl⟩ | ⟨hpods, rfl⟩⟩
  · exact .hit (.pods hpods) rfl
  · rcases hbuild : Snapshot.build node pods d.tracked with (f | spec) | _
    · exact .hit (.amounts hpods hbuild) rfl
    · refine Meets.bind ((meets_hazard_reconcile d.clusterId d.retry
        (Snapshot.nodeName_of_build hbuild) hs).imp fun t v h ↦ ?_)
      cases h with
      | hindered h hv => exact .hit (.record hpods hbuild h) hv
      | current outcome hclear ht =>
        refine .current (fun told h ↦ ?_) hbuild ht
        cases h with
        | pods h =>
          rw [hpods] at h
          cases h
        | amounts _ h | overrun _ h =>
          rw [hbuild] at h
          cases h
        | record _ hbuild' h =>
          rw [hbuild] at hbuild'
          cases hbuild'
          exact hclear _ h
    · exact .hit (.overrun hpods hbuild) rfl

end NodeInventory.Tour
