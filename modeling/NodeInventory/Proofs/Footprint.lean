import NodeInventory.Operation.Dispatch
import NodeInventory.Operation.Enumerate
import NodeInventory.Operation.Heartbeat
import NodeInventory.Proofs.Contract
import NodeInventory.Simulation.Session

/-!
# What the operations ask for

The kinds of requests that an operation makes, whatever it is answered. Most of what an operation
leaves alone follows from its kinds: an operation that makes no requests about keys cannot touch a
lock, and one that makes no writes cannot change a record.

The kinds are listed once for every operation. A property that holds of all requests of these kinds
then holds of everything that the operation asks (`Action.Asks.imp`).
-/

namespace NodeInventory

variable {α β : Type}

/-- The kinds of requests. -/
inductive Request.Kind
  | fetchRecord | listRecords | createRecord | updateRecord | deleteRecord | listNodes | findNodes
  | listPods | callFleet | setKey | extendKey | deleteKey | pushValue | startRenewal | stopRenewal
  | pause | count | report
deriving DecidableEq, Repr

/-- The kind of a request. -/
def Request.kind : Request → Kind
  | fetchRecord _ => .fetchRecord
  | listRecords _ _ => .listRecords
  | createRecord _ => .createRecord
  | updateRecord _ _ => .updateRecord
  | deleteRecord _ => .deleteRecord
  | listNodes _ _ => .listNodes
  | findNodes _ => .findNodes
  | listPods _ => .listPods
  | callFleet _ => .callFleet
  | setKey _ _ _ => .setKey
  | extendKey _ _ => .extendKey
  | deleteKey _ => .deleteKey
  | pushValue _ _ => .pushValue
  | startRenewal _ _ => .startRenewal
  | stopRenewal _ => .stopRenewal
  | pause _ => .pause
  | count _ => .count
  | report _ => .report

/-! ## Actions -/

namespace Action

/-- Whatever it is answered, an action asks only for what `p` holds of. -/
def Asks (p : Request → Prop) : Action α → Prop
  | done _ => True
  | ask r next => p r ∧ ∀ a, (next a).Asks p

/-- The kinds of all requests of an action are among the given ones. -/
abbrev Within (kinds : List Request.Kind) (x : Action α) : Prop := x.Asks fun r ↦ r.kind ∈ kinds

variable {p q : Request → Prop}

theorem Asks.imp (hpq : ∀ r, p r → q r) {x : Action α} (h : x.Asks p) : x.Asks q := by
  induction x with
  | done a => trivial
  | ask r next ih => exact ⟨hpq r h.1, fun a ↦ ih a (h.2 a)⟩

theorem Within.mono {kinds kinds' : List Request.Kind} (hsub : kinds ⊆ kinds') {x : Action α}
    (h : x.Within kinds) : x.Within kinds' :=
  h.imp fun _ hr ↦ hsub hr

theorem asks_bind {x : Action β} {f : β → Action α} (hx : x.Asks p) (hf : ∀ b, (f b).Asks p) :
    (x >>= f).Asks p := by
  induction x with
  | done b => exact hf b
  | ask r next ih => exact ⟨hx.1, fun a ↦ ih a (hx.2 a)⟩

theorem asks_ask_bind {r : Request} {f : r.Answer → Action α} (hr : p r)
    (hf : ∀ a, (f a).Asks p) : (ask r done >>= f).Asks p :=
  ⟨hr, hf⟩

theorem Asks.meets {σ : Type} {c : Contract σ} {x : Action α} (hx : x.Asks p)
    (hp : ∀ s r, p r → c.allows s r) (s : σ) : x.Meets c (fun _ _ ↦ True) s := by
  induction x generalizing s with
  | done a => trivial
  | ask r next ih => exact ⟨hp s r hx.1, fun a t _ ↦ ih a (hx.2 a) t⟩

end Action

/-! ## Programs -/

namespace Program

/-- Whatever it is answered, a program asks only for what `p` holds of. -/
def Asks (p : Request → Prop) : Program α → Prop
  | done _ => True
  | ask r next => p r ∧ ∀ a, (next a).Asks p
  | batch _ items next => (∀ x ∈ items, x.Asks p) ∧ ∀ results, (next results).Asks p
  | loop question act _ next =>
    (∀ s, p (question s)) ∧ (∀ s a, (act s a).Asks p) ∧ ∀ b, (next b).Asks p

/-- The kinds of all requests of a program are among the given ones. -/
abbrev Within (kinds : List Request.Kind) (x : Program α) : Prop := x.Asks fun r ↦ r.kind ∈ kinds

variable {p q : Request → Prop}

theorem Asks.imp (hpq : ∀ r, p r → q r) {x : Program α} (h : x.Asks p) : x.Asks q := by
  induction x with
  | done a => trivial
  | ask r next ih => exact ⟨hpq r h.1, fun a ↦ ih a (h.2 a)⟩
  | batch n items next ih =>
    exact ⟨fun x hx ↦ (h.1 x hx).imp hpq, fun results ↦ ih results (h.2 results)⟩
  | loop question act s next ih =>
    exact ⟨fun s ↦ hpq _ (h.1 s), fun s a ↦ (h.2.1 s a).imp hpq, fun b ↦ ih b (h.2.2 b)⟩

theorem Within.mono {kinds kinds' : List Request.Kind} (hsub : kinds ⊆ kinds') {x : Program α}
    (h : x.Within kinds) : x.Within kinds' :=
  h.imp fun _ hr ↦ hsub hr

theorem asks_bind {x : Program β} {f : β → Program α} (hx : x.Asks p) (hf : ∀ b, (f b).Asks p) :
    (x >>= f).Asks p := by
  induction x with
  | done b => exact hf b
  | ask r next ih => exact ⟨hx.1, fun a ↦ ih a (hx.2 a)⟩
  | batch n items next ih => exact ⟨hx.1, fun results ↦ ih results (hx.2 results)⟩
  | loop question act s next ih => exact ⟨hx.1, hx.2.1, fun b ↦ ih b (hx.2.2 b)⟩

theorem asks_joined {n : Int} {items : List (Action (Result Unit))} (h : ∀ x ∈ items, x.Asks p) :
    (joined n items).Asks p :=
  ⟨h, fun _ ↦ trivial⟩

end Program

/-! ## The operations on single records -/

open NodeInventory.Action

theorem Action.within_reportFailure (source : Report.Source) (subject : String)
    (result : Result Unit) : (reportFailure source subject result).Within [.report] := by
  cases result with
  | ok _ => trivial
  | error f => exact ⟨by simp [Request.kind], fun _ ↦ trivial⟩

/-- What is told to the registry, and what is told of failing to. -/
abbrev Fleet.kinds : List Request.Kind := [.callFleet, .count, .report]

theorem Fleet.within_perform (call : Fleet.Call) : (perform call).Within Fleet.kinds := by
  refine asks_ask_bind (by simp [Request.kind]) fun a ↦ ?_
  split
  · trivial
  · exact ⟨by simp [Request.kind], fun _ ↦ trivial⟩

theorem Fleet.within_question (call : Fleet.Call) : (question call).Within Fleet.kinds := by
  refine asks_ask_bind (by simp [Request.kind]) fun a ↦ ?_
  split
  · trivial
  · exact ⟨by simp [Request.kind], fun _ ↦ trivial⟩

theorem Fleet.within_tell (source : Report.Source) (subject : String) (call : Fleet.Call) :
    (tell source subject call).Within Fleet.kinds :=
  asks_bind (within_perform call) fun result ↦
    Within.mono (by decide) (within_reportFailure source subject result)

namespace Record

theorem within_fetch (name : String) : (fetch name).Within [.fetchRecord] :=
  asks_ask_bind (by simp [Request.kind]) fun _ ↦ trivial

theorem within_register (clusterId name : String) (spec : Spec) (outcome : Reconciliation) :
    (register clusterId name spec outcome).Within Fleet.kinds :=
  asks_bind (Fleet.within_tell _ _ _) fun _ ↦ trivial

theorem within_create (clusterId : String) (snapshot : Spec) :
    (create clusterId snapshot).Within (.fetchRecord :: .createRecord :: Fleet.kinds) := by
  have hregister : ∀ spec outcome, (register clusterId snapshot.nodeName spec outcome).Within
      (.fetchRecord :: .createRecord :: Fleet.kinds) := fun spec outcome ↦
    Within.mono (by decide) (within_register _ _ _ _)
  refine asks_bind (Within.mono (by decide) (within_fetch _)) fun found ↦ ?_
  split
  · trivial
  · exact hregister _ _
  · refine asks_ask_bind (by simp [Request.kind]) fun answer ↦ ?_
    split
    · exact asks_ask_bind (by simp [Request.kind]) fun _ ↦ hregister _ _
    · split
      · exact hregister _ _
      · trivial

/-- What reconciling a record takes. -/
abbrev reconcileKinds : List Request.Kind :=
  [.fetchRecord, .createRecord, .updateRecord, .pause] ++ Fleet.kinds

theorem within_attempt {clusterId : String} {snapshot : Spec}
    {onConflict : Failure → Action (Result Reconciliation)}
    (hconflict : ∀ f, (onConflict f).Within reconcileKinds) :
    (attempt clusterId snapshot onConflict).Within reconcileKinds := by
  refine asks_bind (Within.mono (by decide) (within_fetch _)) fun found ↦ ?_
  split
  · trivial
  · exact Within.mono (by decide) (within_create _ _)
  · split
    · trivial
    · split
      · trivial
      · refine asks_ask_bind (by simp [Request.kind]) fun answer ↦ ?_
        split
        · exact asks_ask_bind (by simp [Request.kind]) fun _ ↦
            asks_bind (Within.mono (by decide) (Fleet.within_tell _ _ _)) fun _ ↦ trivial
        · split
          · exact asks_ask_bind (by simp [Request.kind]) fun _ ↦ hconflict _
          · trivial

theorem within_reconcileAfter (clusterId : String) (delay : Nat) (snapshot : Spec) :
    ∀ left made, (reconcileAfter clusterId delay snapshot left made).Within reconcileKinds
  | 0, _ => within_attempt fun _ ↦ trivial
  | left + 1, _ => within_attempt fun _ ↦
    asks_ask_bind (by simp [Request.kind]) fun _ ↦
      within_reconcileAfter clusterId delay snapshot left _

theorem within_reconcile (clusterId : String) (retry : RetryPolicy) (snapshot : Spec) :
    (reconcile clusterId retry snapshot).Within reconcileKinds :=
  within_reconcileAfter _ _ _ _ _

theorem within_deleteOrphan (clusterId name : String) :
    (deleteOrphan clusterId name).Within (.deleteRecord :: Fleet.kinds) := by
  have htell : (Fleet.tell .collector name (.delete ⟨name, clusterId⟩)).Within
      (.deleteRecord :: Fleet.kinds) := Within.mono (by decide) (Fleet.within_tell _ _ _)
  refine asks_ask_bind (by simp [Request.kind]) fun answer ↦ ?_
  split
  · exact asks_ask_bind (by simp [Request.kind]) fun _ ↦ asks_bind htell fun _ ↦ trivial
  · split
    · exact asks_bind htell fun _ ↦ trivial
    · trivial

theorem within_askFleet (clusterId name : String) :
    (askFleet clusterId name).Within Fleet.kinds :=
  asks_bind (Fleet.within_question _) fun _ ↦ trivial

theorem within_heartbeat (clusterId name : String) :
    (heartbeat clusterId name).Within (.fetchRecord :: .createRecord :: Fleet.kinds) := by
  refine asks_bind (Within.mono (by decide) (within_askFleet _ _)) fun code ↦ ?_
  split
  · trivial
  · split
    · trivial
    · refine asks_bind (Within.mono (by decide) (within_fetch _)) fun found ↦ ?_
      split
      · trivial
      · trivial
      · exact asks_ask_bind (by simp [Request.kind]) fun _ ↦
          asks_bind (within_create _ _) fun _ ↦ trivial

end Record

/-! ## The jobs -/

theorem Record.within_listNames (pageSize : Nat) :
    (listNames pageSize).Within [.listRecords] := by
  refine ⟨fun _ ↦ by simp [Request.kind], fun s (answer : Result (Page Record)) ↦ ?_,
    fun _ ↦ trivial⟩
  cases answer with
  | error f => trivial
  | ok page =>
    rw [collectNames]
    split <;> trivial

theorem Record.within_beat (clusterId : String) (pageSize : Nat) (parallelism : Int) :
    (beat clusterId pageSize parallelism).Within
      ([.listRecords, .fetchRecord, .createRecord] ++ Fleet.kinds) := by
  refine Program.asks_bind (Program.Within.mono (by decide) (within_listNames _)) fun answer ↦ ?_
  cases answer with
  | error f => trivial
  | ok names =>
    refine Program.asks_joined fun x hx ↦ ?_
    obtain ⟨name, -, rfl⟩ := List.mem_map.mp hx
    exact Within.mono (by decide) (within_heartbeat _ _)

theorem Record.within_sweep (clusterId : String) (pageSize : Nat) (parallelism : Int) :
    (sweep clusterId pageSize parallelism).Within
      ([.listRecords, .findNodes, .deleteRecord] ++ Fleet.kinds) := by
  refine Program.asks_bind (Program.Within.mono (by decide) (within_listNames _)) fun answer ↦ ?_
  obtain f | _ | names := answer
  · trivial
  · trivial
  · refine ⟨by simp [Request.kind], fun (answer : Result (List Node)) ↦ ?_⟩
    cases answer with
    | error f => trivial
    | ok live =>
      refine Program.asks_joined fun x hx ↦ ?_
      obtain ⟨name, -, rfl⟩ := List.mem_map.mp hx
      exact Within.mono (by decide) (within_deleteOrphan _ _)

theorem Task.within_push (queue : String) (task : Task) :
    (push queue task).Within [.pushValue, .count] := by
  refine asks_ask_bind (by simp [Request.kind]) fun (answer : Result Unit) ↦ ?_
  cases answer with
  | error f => trivial
  | ok _ => exact ⟨by simp [Request.kind], fun _ ↦ trivial⟩

theorem Task.within_enqueueAll (queue : String) (pageSize : Nat) :
    (enqueueAll queue pageSize).Within [.listNodes, .pushValue, .count] := by
  refine ⟨fun _ ↦ by simp [Request.kind], fun s (answer : Result (Page Node)) ↦ ?_,
    fun _ ↦ trivial⟩
  cases answer with
  | error f => trivial
  | ok page =>
    refine asks_bind ?_ fun pushed ↦ ?_
    · unfold pushPage
      split
      · trivial
      · exact asks_bind (Within.mono (by decide) (within_push _ _)) fun _ ↦ trivial
    · dsimp only
      split <;> trivial

/-- What the jobs that run time and again may ask. -/
abbrev Job.kinds : List Request.Kind :=
  [.listRecords, .fetchRecord, .createRecord, .deleteRecord, .listNodes, .findNodes, .pushValue] ++
    Fleet.kinds

theorem Job.within_program (d : Duties) (job : Job) : (job.program d).Within Job.kinds := by
  cases job with
  | sync => exact Program.Within.mono (by decide) (Task.within_enqueueAll _ _)
  | heartbeat => exact Program.Within.mono (by decide) (Record.within_beat _ _ _)
  | collection => exact Program.Within.mono (by decide) (Record.within_sweep _ _ _)

end NodeInventory
