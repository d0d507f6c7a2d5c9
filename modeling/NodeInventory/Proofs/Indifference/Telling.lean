import NodeInventory.Proofs.Pass.Scene
import NodeInventory.Proofs.Turns

/-!
# Telling the registry

The registry is told of what was done to a record, and whatever it answers, the same is done next:
the answer is looked at only to count and report a call that failed. An action of which that is so
is *indifferent* to the registry. It is a property of the tree of its requests: after a call the
branches for all answers agree, up to what is counted and reported at once (`Fleet.complaints`).

A report names the node that the call was about. The one exception is a record which tells of a node
other than the one that it is stored under: then the call is about the node in the record, and the
report names the node that the record was read for (`Fleet.Call.Names`).
-/

namespace NodeInventory

open Fleet

variable {α β : Type}

/-- Whether a request is neither a call of the registry nor a word about one that failed. -/
def Request.isLocal : Request → Bool
  | callFleet _ | count .fleetCallErrors | report _ => false
  | _ => true

/-- A failed call is counted and reported, and others are not. -/
def Fleet.complaints (source : Report.Source) (subject : String) (answer : Result Response) :
    List Exchange :=
  match done answer with
  | .ok () => []
  | .error f => [⟨.count .fleetCallErrors, ()⟩, ⟨.report ⟨source, subject, f⟩, ()⟩]

/-- After what has been seen, the subject of a report names the node of a call: it is that node, or
a record was found under the subject that tells of that node. -/
def Fleet.Call.Names (seen : List Exchange) (call : Call) (subject : String) : Prop :=
  call.nodeName = subject ∨ ∃ x : Record,
    ⟨.fetchRecord subject, (.ok (some x) : Result (Option Record))⟩ ∈ seen ∧
      call.nodeName = x.spec.nodeName

theorem Fleet.Call.Names.mono {seen seen' : List Exchange} {call : Call} {subject : String}
    (hsub : seen ⊆ seen') : call.Names seen subject → call.Names seen' subject
  | .inl h => .inl h
  | .inr ⟨x, hx, h⟩ => .inr ⟨x, hsub hx, h⟩

namespace Action

variable {seen seen' : List Exchange}

/-- What is left of an action after it has counted and reported goes on in the same way in whatever
follows it. -/
theorem noted_bind (x : Action β) (f : β → Action α) :
    (x >>= f).noted = (x.noted.1 ++ (x.noted.2 >>= f).noted.1, (x.noted.2 >>= f).noted.2) := by
  induction x with
  | done b => rfl
  | ask r next ih =>
    cases r with
    | count | report => simp only [ask_bind, noted, ih (), List.cons_append]
    | _ => rfl

theorem noted_afterAction (x : Action β) (f : β → Program α) (i : ℕ) :
    (Program.afterAction x f).noted i =
      (x.noted.1 ++ ((Program.afterAction x.noted.2 f).noted i).1,
        ((Program.afterAction x.noted.2 f).noted i).2) := by
  induction x with
  | done b => rfl
  | ask r next ih =>
    cases r with
    | count | report =>
      simp only [Program.afterAction, noted, Program.noted, ih (), List.cons_append]
    | _ => rfl

/-- After what has been seen, an action that does the same whatever the registry answers. -/
inductive Indifferent : List Exchange → Action α → Prop
  | done {seen : List Exchange} (a : α) : Indifferent seen (done a)
  | ask {seen : List Exchange} {r : Request} {next : r.Answer → Action α} (hr : r.isLocal = true)
    (hnext : ∀ a, Indifferent (seen ++ [⟨r, a⟩]) (next a)) : Indifferent seen (ask r next)
  /-- Once the failure is told of, if there is one, what follows is the same action. -/
  | tell {seen : List Exchange} {call : Call} {next : (Request.callFleet call).Answer → Action α}
    {x : Action α} (source : Report.Source) {subject : String}
    (hchange : (Request.callFleet call).isChange = true) (hnames : call.Names seen subject)
    (hnext : ∀ a, (next a).noted = (complaints source subject a ++ x.noted.1, x.noted.2))
    (hx : Indifferent seen x) : Indifferent seen (ask (.callFleet call) next)

theorem Indifferent.mono {x : Action α} (h : x.Indifferent seen) (hsub : seen ⊆ seen') :
    x.Indifferent seen' := by
  induction h generalizing seen' with
  | done a => exact .done a
  | ask hr _ ih => exact .ask hr fun a ↦ ih a (List.append_subset.mpr
      ⟨List.subset_append_of_subset_left _ hsub, List.subset_append_right _ _⟩)
  | tell source hchange hnames hnext _ ih =>
    exact .tell source hchange (hnames.mono hsub) hnext (ih hsub)

theorem Indifferent.bind {x : Action β} {f : β → Action α} (hx : x.Indifferent seen)
    (hf : ∀ b, (f b).Indifferent seen) : (x >>= f).Indifferent seen := by
  induction hx with
  | done b => exact hf b
  | ask hr _ ih =>
    exact .ask hr fun a ↦ ih a fun b ↦ (hf b).mono (List.subset_append_left _ _)
  | @tell _ _ next x source _ hchange hnames hnext _ ih =>
    refine .tell source hchange hnames (fun a ↦ ?_) (ih hf)
    change (next a >>= f).noted = _
    rw [noted_bind (next a), hnext, noted_bind x]
    simp only [List.append_assoc]

/-- What an indifferent action counts and reports before anything else is about no failed call, and
what is left of it is indifferent. -/
theorem Indifferent.noted {x : Action α} (h : x.Indifferent seen) :
    (∀ e ∈ x.noted.1, e.request.isLocal = true) ∧ x.noted.2.Indifferent (seen ++ x.noted.1) := by
  induction h with
  | done a => exact ⟨by simp [Action.noted], .done a⟩
  | tell source hchange hnames hnext hx =>
    exact ⟨by simp [Action.noted], by
      simpa [Action.noted] using .tell source hchange hnames hnext hx⟩
  | @ask seen r next hr hnext ih =>
    cases r with
    | callFleet | report => cases hr
    | count c =>
      obtain ⟨hlocal, hrest⟩ := ih ()
      exact ⟨List.forall_mem_cons.mpr ⟨hr, hlocal⟩, by simpa [Action.noted] using hrest⟩
    | _ => exact ⟨by simp [Action.noted], by simpa [Action.noted] using .ask hr hnext⟩

theorem Indifferent.notedAt {items : List (Action (Result Unit))} (i : ℕ)
    (h : ∀ x ∈ items, x.Indifferent seen) :
    (∀ e ∈ (Action.notedAt items i).1, e.request.isLocal = true) ∧
      (Action.notedAt items i).2.Indifferent (seen ++ (Action.notedAt items i).1) := by
  unfold Action.notedAt
  split
  · next x hx => exact (h x (List.mem_of_getElem? hx)).noted
  · exact ⟨by simp, .done _⟩

theorem Indifferent.forall_mem_set {items : List (Action α)} {x : Action α} {i : ℕ}
    (hitems : ∀ y ∈ items, y.Indifferent seen) (hsub : seen ⊆ seen') (hx : x.Indifferent seen') :
    ∀ y ∈ items.set i x, y.Indifferent seen' := by
  intro y hy
  obtain hy | rfl := List.mem_or_eq_of_mem_set hy
  · exact (hitems y hy).mono hsub
  · exact hx

end Action

/-! ## Single records -/

open NodeInventory.Action

theorem Fleet.indifferent_tell {seen : List Exchange} {call : Call} {subject : String}
    (source : Report.Source) (hchange : (Request.callFleet call).isChange = true)
    (hnames : call.Names seen subject) : (tell source subject call).Indifferent seen := by
  refine .tell source (x := .done ()) hchange hnames (fun a ↦ ?_) (.done ())
  dsimp only [Action.bind]
  unfold complaints
  cases Fleet.done a with
  | ok _ => rfl
  | error f => rfl

namespace Record

variable {seen : List Exchange}

theorem indifferent_fetch {name : String} {f : Result (Option Record) → Action α}
    (h : ∀ a : Result (Option Record),
      (f (a.within "error fetching NodeResourceInfo")).Indifferent
        (seen ++ [⟨.fetchRecord name, a⟩])) :
    (fetch name >>= f).Indifferent seen :=
  .ask rfl h

theorem indifferent_register (clusterId : String) {name : String} {spec : Spec}
    (outcome : Reconciliation)
    (hnames : Fleet.Call.Names seen (.add (.ofSpec clusterId spec)) name) :
    (register clusterId name spec outcome).Indifferent seen :=
  (Fleet.indifferent_tell _ rfl hnames).bind fun _ ↦ .done _

theorem indifferent_create (clusterId : String) (snapshot : Spec) (seen : List Exchange) :
    (create clusterId snapshot).Indifferent seen := by
  -- The registry is told of the snapshot, or of what was found under the name.
  refine indifferent_fetch fun found ↦ ?_
  obtain f | _ | existing := found
  · exact .done _
  · refine .ask rfl fun (answer : Result Unit) ↦ ?_
    cases answer with
    | ok _ => exact .ask rfl fun _ ↦ indifferent_register _ _ (.inl rfl)
    | error f =>
      change (ite _ _ _ : Action _).Indifferent _
      split
      · exact indifferent_register _ _ (.inl rfl)
      · exact .done _
  · exact indifferent_register _ _ (.inr ⟨existing, by simp, rfl⟩)

theorem indifferent_attempt {clusterId : String} {snapshot : Spec}
    {onConflict : Failure → Action (Result Reconciliation)} (seen : List Exchange)
    (hconflict : ∀ f seen, (onConflict f).Indifferent seen) :
    (attempt clusterId snapshot onConflict).Indifferent seen := by
  refine indifferent_fetch fun found ↦ ?_
  obtain f | _ | existing := found
  · exact .done _
  · exact indifferent_create _ _ _
  · change (ite _ _ _ : Action _).Indifferent _
    split
    · exact .done _
    · cases hversion : existing.metadata.resourceVersion with
      | none => exact .done _
      | some version =>
        refine .ask rfl fun (answer : Result Unit) ↦ ?_
        cases answer with
        | ok _ =>
          exact .ask rfl fun _ ↦
            (Fleet.indifferent_tell _ rfl (.inl rfl)).bind fun _ ↦ .done _
        | error f =>
          change (ite _ _ _ : Action _).Indifferent _
          split
          · exact .ask rfl fun _ ↦ hconflict f _
          · exact .done _

theorem indifferent_reconcileAfter (clusterId : String) (delay : Nat) (snapshot : Spec) :
    ∀ left made seen, (reconcileAfter clusterId delay snapshot left made).Indifferent seen
  | 0, _, _ => indifferent_attempt _ fun _ _ ↦ .done _
  | left + 1, _, _ => indifferent_attempt _ fun _ _ ↦
    .ask rfl fun _ ↦ indifferent_reconcileAfter clusterId delay snapshot left _ _

theorem indifferent_reconcile (clusterId : String) (retry : RetryPolicy) (snapshot : Spec)
    (seen : List Exchange) : (reconcile clusterId retry snapshot).Indifferent seen :=
  indifferent_reconcileAfter ..

theorem indifferent_deleteOrphan (clusterId name : String) (seen : List Exchange) :
    (deleteOrphan clusterId name).Indifferent seen := by
  have htell : ∀ seen : List Exchange,
      (Fleet.tell .collector name (.delete ⟨name, clusterId⟩) >>= fun _ ↦
        (pure (.ok ()) : Action (Result Unit))).Indifferent seen := fun seen ↦
    (Fleet.indifferent_tell _ rfl (.inl rfl)).bind fun _ ↦ .done _
  refine .ask rfl fun (answer : Result Unit) ↦ ?_
  cases answer with
  | ok _ => exact .ask rfl fun _ ↦ htell _
  | error f =>
    change (ite _ _ _ : Action _).Indifferent _
    split
    · exact htell _
    · exact .done _

end Record

theorem Duties.indifferent_refresh (d : Duties) (node : Node) (seen : List Exchange) :
    (d.refresh node).Indifferent seen := by
  have hsnapshot : (d.snapshot node).Indifferent seen := .ask rfl fun (a : Result (List Pod)) ↦ by
    cases a <;> exact .done _
  refine hsnapshot.bind fun snapshot ↦ ?_
  obtain (f | spec) | _ := snapshot
  · exact .done _
  · exact (Record.indifferent_reconcile _ _ _ _).bind fun _ ↦ .done _
  · exact .done _

end NodeInventory
