import NodeInventory.Proofs.Mirror.Registry
import NodeInventory.Proofs.Pass.Upkeep

/-!
# Taking care of a record and of what the registry knows

Who takes care of a record also tells the registry of its node, and of no other. What is stored
under a name and what is known of it make up a view (`View`); who is alone with a name is answered
as the view has it (`told`), and leaves the views of all other names as they are.

Who refreshes a node or removes an orphan leaves the view of the name as it was, or changes the
record and tells the registry (`Mended`). So if the registry knew something else of a name whose
record is left as it is, it knows it still. A heartbeat is different: it leaves the record, and
tells the registry of it if the registry does not know the name (`meets_heartbeat`).
-/

namespace NodeInventory

open Simulation Fleet NodeInventory.Action

namespace Mirror

open Pass

/-- What is stored under a name, and what the registry knows of it. -/
@[ext] structure View where
  record : Option Record
  standing : Option Standing

namespace View

/-- The registry knows of the name what the record says. -/
def Agrees (s : View) : Prop := s.standing = s.record.map Record.standing

/-- The view after a call that succeeded. -/
def tell (s : View) (call : Call) : View := { s with standing := call.effect s.standing }

/-- Nothing happened to the view, or the record changed and the registry knows of it. -/
def Mended (s t : View) : Prop := t = s ∨ (t.Agrees ∧ t.record ≠ s.record)

theorem Mended.eq {s t : View} (h : s.Mended t) (hrecord : t.record = s.record) : t = s :=
  h.resolve_right fun hchanged ↦ hchanged.2 hrecord

end View

/-- The view of a name. -/
def view (w : World) (g : Registry) (name : String) : View := ⟨w.record? name, g name⟩

/-- The contract of those who take care of a name: of its record, and of what the registry knows. -/
def watch (pods : List Pod) (name : String) : Contract View where
  allows s r := Allowed False name s.record r ∧ ∀ call, r = .callFleet call → call.nodeName = name
  answers s r a t := Told pods name s.record r a t.record ∧
    ∃ g g' : Registry, g name = s.standing ∧ g' name = t.standing ∧ g.Hears False r a g'

variable {pods : List Pod} {name : String} {agent : ℕ} {w w' : World} {g g' : Registry}
  {r : Request} {a : r.Answer} {s : View} {α : Type} {post : View → α → Prop}

/-- What is allowed to somebody who takes care of a name is answered as the view of the name has it,
and leaves the views of all other names. -/
theorem told (h : (watch pods name).allows (view w g name) r) (hpods : w.podsOn name = pods)
    (hw : Gives agent w r a w') (hg : g.Hears False r a g') :
    (watch pods name).answers (view w g name) r a (view w' g' name) ∧ Tended False {name} w w' ∧
      w'.coordination = w.coordination ∧ ∀ n ≠ name, view w' g' n = view w g n := by
  obtain ⟨htold, htended, hcoordination⟩ := Allowed.told h.1 rfl hw
  rw [hpods] at htold
  refine ⟨⟨htold, g, g', rfl, rfl, hg⟩, htended, hcoordination, fun n hn ↦ ?_⟩
  have hkept : g' n = g n := hg.eq_of_ne fun call hcall ↦ by rwa [h.2 call hcall]
  rw [view, view, htended.others n hn, hkept]

/-! ## Single requests -/

/-- Who asks for anything but the registry is answered as the record has it. -/
theorem meets_own {f : r.Answer → Action α} (hr : r.kind ≠ .callFleet)
    (hallowed : Allowed False name s.record r)
    (hf : ∀ a x, Told pods name s.record r a x →
      (f a).Meets (watch pods name) post { s with record := x }) :
    (ask r f).Meets (watch pods name) post s := by
  refine ⟨⟨hallowed, fun call hcall ↦ absurd (hcall ▸ rfl) hr⟩, ?_⟩
  rintro a ⟨x, known⟩ ⟨htold, g, g', hg, hg', hears⟩
  obtain rfl : g = g' := (hears.eq_of_kind hr).symm
  obtain rfl : s.standing = known := hg.symm.trans hg'
  exact hf a x htold

/-- Who calls the registry for its own name is answered, and the registry knows of it. -/
theorem meets_call {call : Call} {f : Result Response → Action α} (hcall : call.nodeName = name)
    (hf : ∀ a (g : Registry), g name = s.standing → call.Succeeds a → g.Truthful call a →
      (f a).Meets (watch pods name) post (s.tell call)) :
    (ask (.callFleet call) f).Meets (watch pods name) post s := by
  obtain ⟨y, known⟩ := s
  refine ⟨⟨.tell _ call not_false, fun call' h ↦ by cases h; exact hcall⟩, ?_⟩
  rintro a ⟨x, known'⟩ ⟨htold, g, g', hg, hg', hears⟩
  obtain ⟨hsucceeds, htrue, rfl⟩ := hears.of_call
  subst hcall
  have heffect : g.apply call call.nodeName = call.effect known :=
    (g.apply_self call).trans (congrArg call.effect hg)
  obtain rfl : call.effect known = known' := heffect.symm.trans hg'
  cases htold with
  | other => exact hf a g hg hsucceeds htrue

theorem meets_note {f : r.Answer → Action α} (hr : r.kind ∈ [.count, .report, .pause])
    (hf : ∀ a, (f a).Meets (watch pods name) post s) :
    (ask r f).Meets (watch pods name) post s := by
  obtain ⟨y, known⟩ := s
  refine meets_own (fun h ↦ ?_) (.note _ hr) fun a x hx ↦ ?_
  · simp [h] at hr
  · cases hx with
    | other => exact hf a
    | _ => simp [Request.kind] at hr

theorem meets_fetch {f : Result (Option Record) → Action α}
    (hf : (f (.ok s.record)).Meets (watch pods name) post s) :
    (Record.fetch name >>= f).Meets (watch pods name) post s := by
  obtain ⟨y, known⟩ := s
  refine .bind (meets_own (by simp [Request.kind]) (.fetch _) fun a x hx ↦ ?_)
  cases hx with
  | fetched => exact hf
  | other _ hr => simp [Request.kind] at hr

/-- To tell the registry something changes what it knows, and nothing of the record. -/
theorem meets_tell {call : Call} {source : Report.Source} {subject : String} {f : Unit → Action α}
    (hcall : call.nodeName = name) (hdone : ∀ a, call.Succeeds a → Fleet.done a = .ok ())
    (hf : (f ()).Meets (watch pods name) post (s.tell call)) :
    (tell source subject call >>= f).Meets (watch pods name) post s := by
  refine .bind (.bind (.bind (meets_call hcall fun a g _ hsucceeds _ ↦ ?_)))
  refine meets_done.mpr ?_
  rw [hdone a hsucceeds]
  exact hf

/-! ## Records and their nodes -/

variable {spec : Spec} {clusterId : String}

/-- Who registers a node with a spec lets the registry know of the spec. -/
theorem meets_register (hname : spec.nodeName = name) (subject : String)
    (outcome : Reconciliation) :
    (Record.register clusterId subject spec outcome).Meets (watch pods name)
      (fun t _ ↦ t = { s with standing := some (Record.ofSpec spec).standing }) s :=
  meets_tell hname (fun _ h ↦ h) rfl

/-- Who creates the record of a node and finds one lets the registry know of the one there is. -/
theorem meets_create_of_some {x : Record} (hname : spec.nodeName = name)
    (hx : x.spec.nodeName = name) (hs : s.record = some x) :
    (Record.create clusterId spec).Meets (watch pods name)
      (fun t _ ↦ t = { s with standing := some x.standing }) s := by
  obtain ⟨y, known⟩ := s
  obtain rfl : y = some x := hs
  subst hname
  exact meets_fetch (meets_register hx _ _)

theorem meets_create_of_none (hname : spec.nodeName = name) (hs : s.record = none) :
    (Record.create clusterId spec).Meets (watch pods name)
      (fun t _ ↦ t.Agrees ∧ t.record ≠ s.record) s := by
  obtain ⟨y, known⟩ := s
  obtain rfl : y = none := hs
  subst hname
  refine meets_fetch ?_
  refine meets_own (by simp [Request.kind]) (.create not_false rfl rfl) fun a x hx ↦ ?_
  cases hx with
  | other _ hr => simp [Request.kind] at hr
  | created _ version =>
    refine meets_note (by simp [Request.kind]) fun _ ↦ (meets_register rfl _ _).imp fun t _ ht ↦ ?_
    rw [ht]
    exact ⟨rfl, fun h ↦ by cases h⟩

theorem meets_attempt (hname : spec.nodeName = name) (hs : Proper name s.record)
    (onConflict : Failure → Action (Result Reconciliation)) :
    (Record.attempt clusterId spec onConflict).Meets (watch pods name)
      (fun t _ ↦ s.Mended t ∧ (t.record = s.record ↔ Current spec s.record)) s := by
  subst hname
  refine meets_fetch ?_
  obtain ⟨_ | x, known⟩ := s
  · refine (meets_create_of_none rfl rfl).imp fun t _ ht ↦ ⟨.inr ht, fun h ↦ absurd h ht.2, ?_⟩
    rintro ⟨x, hx, -⟩
    cases hx
  · obtain ⟨hxname, hxnode, version, hversion⟩ := hs x rfl
    cases hneeds : Record.needsUpdate x.spec spec with
    | false =>
      simp only [hneeds, Bool.not_false, if_true]
      exact ⟨.inl rfl, fun _ ↦ ⟨x, rfl, Record.needsUpdate_eq_false_iff.mp hneeds⟩, fun _ ↦ rfl⟩
    | true =>
      simp only [hneeds, Bool.not_true, Bool.false_eq_true, if_false, hversion]
      refine meets_own (by simp [Request.kind]) (.update not_false hxname rfl hversion)
        fun a y hy ↦ ?_
      cases hy with
      | other _ hr => simp [Request.kind] at hr
      | updated _ _ _ version' =>
        refine meets_note (by simp [Request.kind]) fun _ ↦ meets_tell rfl (fun _ h ↦ h) ?_
        -- a record that needs to be written is neither as it is written nor up to date
        have hstale : ¬(x.spec.status = spec.status ∧ x.spec.resources = spec.resources) := by
          rw [← Record.needsUpdate_eq_false_iff, hneeds]
          simp
        have hwritten : some ({ x with spec }.at version') ≠ some x := fun hsame ↦ by
          have hspec : spec = x.spec := congrArg Record.spec (Option.some.inj hsame)
          exact hstale ⟨hspec ▸ rfl, hspec ▸ rfl⟩
        refine ⟨.inr ⟨rfl, hwritten⟩, fun h ↦ absurd h hwritten, ?_⟩
        rintro ⟨y, hy, hcurrent⟩
        cases hy
        exact absurd hcurrent hstale

/-- Who brings the record of a node in line with a snapshot mends the view of its name, and leaves a
record just if it is in line. -/
theorem meets_reconcile (retry : RetryPolicy) (hname : spec.nodeName = name)
    (hs : Proper name s.record) :
    (Record.reconcile clusterId retry spec).Meets (watch pods name)
      (fun t _ ↦ s.Mended t ∧ (t.record = s.record ↔ Current spec s.record)) s := by
  unfold Record.reconcile
  cases retry.attempts - 1 with
  | zero => exact meets_attempt hname hs _
  | succ left => exact meets_attempt hname hs _

/-- Who refreshes a node mends the view of its name, and leaves the record just if there is no
snapshot with which it is not in line. -/
theorem meets_refresh (d : Duties) {node : Node} (hname : node.name = name)
    (hs : Proper name s.record) :
    (d.refresh node).Meets (watch pods name) (fun t _ ↦ s.Mended t ∧
      (t.record = s.record ↔
        ∀ spec, Snapshot.build node pods d.tracked = .exact (.ok spec) →
          Current spec s.record)) s := by
  subst hname
  obtain ⟨x, known⟩ := s
  refine .bind (.bind (meets_own (by simp [Request.kind]) (.pods _) fun a y hy ↦ ?_))
  cases hy with
  | other _ hr => simp [Request.kind] at hr
  | pods =>
    refine meets_done.mpr (meets_done.mpr ?_)
    dsimp only
    rcases hbuild : Snapshot.build node pods d.tracked with (f | spec) | _
    · exact ⟨.inl rfl, fun _ spec h ↦ (by cases h), fun _ ↦ rfl⟩
    · refine .bind ((meets_reconcile d.retry (Snapshot.nodeName_of_build hbuild) hs).imp ?_)
      rintro t _ ⟨hmended, hcurrent⟩
      refine ⟨hmended, hcurrent.trans ⟨fun h spec' hspec' ↦ ?_, fun h ↦ h spec rfl⟩⟩
      cases hspec'
      exact h
    · exact ⟨.inl rfl, fun _ spec h ↦ (by cases h), fun _ ↦ rfl⟩

theorem meets_deleteOrphan {x : Record} (hs : s.record = some x) :
    (Record.deleteOrphan clusterId name).Meets (watch pods name)
      (fun t _ ↦ t = ⟨none, none⟩) s := by
  obtain ⟨y, known⟩ := s
  obtain rfl : y = some x := hs
  refine meets_own (by simp [Request.kind]) (.delete x not_false) fun a y hy ↦ ?_
  cases hy with
  | other _ hr => simp [Request.kind] at hr
  | deleted =>
    exact meets_note (by simp [Request.kind]) fun _ ↦ meets_tell rfl (fun _ h ↦ h) rfl

/-- Who asks the registry about the node of a record leaves the record, and lets the registry know
of it if the registry does not know the node. -/
theorem meets_heartbeat {x : Record} (hx : x.spec.nodeName = name) (hs : s.record = some x) :
    (Record.heartbeat clusterId name).Meets (watch pods name)
      (fun t _ ↦ t = { s with standing := some (s.standing.getD x.standing) }) s := by
  have hask : (Record.askFleet clusterId name).Meets (watch pods name) (fun t code ↦ t = s ∧
      ∃ c, code = .ok c ∧ (c = unknownNode ↔ s.standing = none)) s := by
    refine .bind (.bind (meets_call rfl fun a g hg hsucceeds htrue ↦ ?_))
    obtain ⟨code, hcode⟩ := hsucceeds
    have hknown : codeOf a = .ok unknownNode ↔ g name = none := htrue
    rw [hcode, Except.ok.injEq, hg] at hknown
    refine meets_done.mpr ?_
    rw [hcode]
    exact ⟨rfl, code, rfl, hknown⟩
  refine .bind (hask.imp ?_)
  rintro t _ ⟨rfl, code, rfl, hcode⟩
  obtain ⟨y, known⟩ := t
  obtain rfl : y = some x := hs
  dsimp only
  split
  · next hother =>
    cases known with
    | none => exact absurd (hcode.mpr rfl) hother
    | some standing => rfl
  · next hunknown =>
    obtain rfl : known = none := hcode.mp (not_not.mp hunknown)
    have hheal : (Record.create clusterId x.spec >>= fun outcome ↦
          pure (outcome.map fun _ ↦ ())).Meets (watch pods name)
        (fun t _ ↦ t = ⟨some x, some x.standing⟩) ⟨some x, none⟩ :=
      .bind (meets_create_of_some hx hx rfl)
    exact meets_fetch (meets_note (by simp [Request.kind]) fun _ ↦ hheal)

end Mirror

end NodeInventory
