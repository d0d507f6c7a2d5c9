import NodeInventory.Proofs.Bound
import NodeInventory.Proofs.Dict
import NodeInventory.Proofs.Run

/-!
# Removing records without a node

A sweep, and a batch of names that is worked off, remove the records of names to which no node
answers. Between any two of their requests nodes may join and leave and others may write records, so
each request meets a ground of its own (`Moment`). All that is known of the grounds is that records
and nodes go by their names.

Once the nodes of some names were asked for, what is left of a run asks for no more of the truth: it
removes the records of those of the names that have no node, and of no others, and then it comes to
its end (`Removing.step`, `Removing.inevitable_ended`).
-/

namespace NodeInventory

theorem Duties.within_refresh (d : Duties) (node : Node) :
    (d.refresh node).Within (.listPods :: Record.reconcileKinds) := by
  have hsnapshot : (d.snapshot node).Within (.listPods :: Record.reconcileKinds) :=
    Action.asks_ask_bind (by simp [Request.kind]) fun (answer : Result (List Pod)) ↦ by
      cases answer <;> trivial
  refine Action.asks_bind hsnapshot fun snapshot ↦ ?_
  obtain (f | spec) | _ := snapshot
  · trivial
  · exact Action.asks_bind (Action.Within.mono (by decide) (Record.within_reconcile _ _ _))
      fun _ ↦ trivial
  · trivial

theorem Record.asks_deleteOrphan {p : Request → Prop} {name : String}
    (hdelete : p (.deleteRecord name)) (hfleet : ∀ r, r.kind ∈ Fleet.kinds → p r)
    (clusterId : String) : (deleteOrphan clusterId name).Asks p := by
  have htell : (Fleet.tell .collector name (.delete ⟨name, clusterId⟩)).Asks p :=
    (Fleet.within_tell _ _ _).imp hfleet
  refine Action.asks_ask_bind hdelete fun answer ↦ ?_
  split
  · exact Action.asks_ask_bind (hfleet _ (by simp [Request.kind])) fun _ ↦
      Action.asks_bind htell fun _ ↦ trivial
  · split
    · exact Action.asks_bind htell fun _ ↦ trivial
    · trivial

namespace Collection

open Pass (Named)

/-- What is stored and what lives at some moment. -/
structure Ground where
  records : Dict Record
  nodes : Dict Node
  /-- Records are stored under the names of their nodes. -/
  keyed : ∀ n x, records.get? n = some x → x.spec.nodeName = n
  /-- Nodes are listed under their names, and have no other host names. -/
  named : Named nodes

/-- There are no records and no nodes. -/
def Ground.empty : Ground := ⟨.empty, .empty, by simp, by simp, by simp⟩

/-- A truthful answer, or none. Nodes come in any order, and once or more often. -/
inductive Ground.Tells (g : Ground) : (r : Request) → r.Answer → Prop
  | listed (token : Option String) (limit : ℕ) :
    Tells g (.listRecords token limit) (.ok (g.records.page token limit))
  | unlisted (token : Option String) (limit : ℕ) (f : Failure) :
    Tells g (.listRecords token limit) (.error f)
  | found {names : List String} {nodes : List Node}
    (h : ∀ node, node ∈ nodes ↔ ∃ n ∈ names, g.nodes.get? n = some node) :
    Tells g (.findNodes names) (.ok nodes)
  | unfound (names : List String) (f : Failure) : Tells g (.findNodes names) (.error f)
  | other {r : Request} (hr : r.kind ∉ [Request.Kind.listRecords, .findNodes]) (a : r.Answer) :
    Tells g r a

theorem Ground.mem_missingNames_iff (g : Ground) {names : List String} {nodes : List Node}
    (hnodes : ∀ node, node ∈ nodes ↔ ∃ n ∈ names, g.nodes.get? n = some node) {n : String} :
    n ∈ Node.missingNames names nodes ↔ n ∈ names ∧ g.nodes.get? n = none := by
  rw [← g.named.mem_missingNames_iff (w := { nodes := g.nodes }) (.refl _), Node.mem_missingNames,
    Node.mem_missingNames]
  simp only [hnodes, List.mem_filterMap]

/-- A request and its answer, and the ground that they met. -/
structure Moment where
  ground : Ground
  exchange : Exchange

/-- A program asks for something, and is told the truth if it is told anything. -/
def Step (x : Program (Result Unit)) (m : Moment) (y : Program (Result Unit)) : Prop :=
  x.Step m.exchange.request m.exchange.answer y ∧
    m.ground.Tells m.exchange.request m.exchange.answer

/-- What collects records: a sweep, or working off a batch of names. -/
inductive Errand
  | sweep
  | batch (names : List String)

namespace Errand

/-- What is done. -/
def program (d : Duties) : Errand → Program (Result Unit)
  | sweep => Record.sweep d.clusterId d.recordPageSize d.parallelism
  | batch names => d.handleNodeBatch names

/-- The name was read: a record of it, stored under it, came up in a listing; or it is in the batch.
-/
def Read (moments : List Moment) (n : String) : Errand → Prop
  | sweep => ∃ m ∈ moments, ∃ token limit x, ∃ page : Page Record,
    m.exchange = ⟨.listRecords token limit, (.ok page : Result (Page Record))⟩ ∧ x ∈ page.items ∧
      x.spec.nodeName = n ∧ m.ground.records.get? n = some x
  | batch names => n ∈ names

/-- The name is to be looked at: whenever records are listed there is one of it; or it is in the
batch. -/
def Due (moments : List Moment) (n : String) : Errand → Prop
  | sweep => ∀ m ∈ moments, m.exchange.request.kind = .listRecords →
    ∃ x, m.ground.records.get? n = some x
  | batch names => n ∈ names

end Errand

/-- Whether the listing or the question for nodes fails. -/
def Moment.Fails (m : Moment) : Prop :=
  (∃ token limit f, m.exchange = ⟨.listRecords token limit, (.error f : Result (Page Record))⟩) ∨
    ∃ names f, m.exchange = ⟨.findNodes names, (.error f : Result (List Node))⟩

/-! ## After the question for nodes -/

/-- What may be asked for after the question for nodes: of records only that those of missing names
are removed. -/
abbrev AskedAfter (names : List String) (nodes : List Node) (r : Request) : Prop :=
  r.kind ∉ [Request.Kind.listRecords, .findNodes] ∧
    ∀ n, r = .deleteRecord n → n ∈ Node.missingNames names nodes

/-- What follows the question for the nodes of some names: of the names that are missing, and of no
others, the records are removed. -/
structure Removes (names : List String) (next : Result (List Node) → Program (Result Unit)) :
    Prop where
  only : ∀ nodes, (next (.ok nodes)).Asks (AskedAfter names nodes)
  all : ∀ nodes, ∀ n ∈ Node.missingNames names nodes, (next (.ok nodes)).Owes (.deleteRecord n)
  loopless : ∀ nodes, (next (.ok nodes)).Loopless
  failed : ∀ f, ∃ v, next (.error f) = .done v

variable {names : List String} {next : Result (List Node) → Program (Result Unit)}

theorem askedAfter_of_mem {kinds : List Request.Kind} {nodes : List Node} {r : Request}
    (hkinds : ∀ k ∈ kinds, k ∉ [Request.Kind.listRecords, .findNodes, .deleteRecord])
    (hr : r.kind ∈ kinds) : AskedAfter names nodes r := by
  have hkind := hkinds _ hr
  simp only [List.mem_cons, List.not_mem_nil, or_false, not_or] at hkind
  refine ⟨by simp [hkind.1, hkind.2.1], ?_⟩
  rintro n rfl
  exact absurd rfl hkind.2.2

theorem asks_deleteOrphans (d : Duties) (names : List String) (nodes : List Node) :
    (Record.deleteOrphans d.clusterId d.parallelism (Node.missingNames names nodes)).Asks
      (AskedAfter names nodes) := by
  refine Program.asks_joined fun x hx ↦ ?_
  obtain ⟨n, hn, rfl⟩ := List.mem_map.mp hx
  refine Record.asks_deleteOrphan ⟨by simp [Request.kind], fun m hm ↦ ?_⟩
    (fun r ↦ askedAfter_of_mem (by decide)) _
  cases hm
  exact hn

theorem owes_deleteOrphans (d : Duties) {names : List String} {n : String} (hn : n ∈ names) :
    (Record.deleteOrphans d.clusterId d.parallelism names).Owes (.deleteRecord n) :=
  .item (List.mem_map_of_mem hn) (.now _)

theorem removes_of_sweep (d : Duties) (names : List String) :
    Removes names fun answer ↦
      match answer with
      | .error f => .done (.error (.query (.context "error checking for live nodes" f)))
      | .ok live =>
        Record.deleteOrphans d.clusterId d.parallelism (Node.missingNames names live) where
  only nodes := asks_deleteOrphans d names nodes
  all _ _ hn := owes_deleteOrphans d hn
  loopless _ := .batch fun _ ↦ .done _
  failed _ := ⟨_, rfl⟩

theorem removes_of_batch (d : Duties) (names : List String) :
    ∃ next, d.handleNodeBatch names = .ask (.findNodes names) next ∧ Removes names next := by
  refine ⟨_, rfl, ?_, ?_, ?_, fun f ↦ ⟨_, rfl⟩⟩
  · intro nodes
    refine ⟨fun x hx ↦ ?_, fun results ↦ ?_⟩
    · obtain ⟨node, -, rfl⟩ := List.mem_map.mp hx
      exact (d.within_refresh node).imp fun r ↦ askedAfter_of_mem (by decide)
    · split
      · trivial
      · exact Program.asks_bind (asks_deleteOrphans d names nodes) fun _ ↦ trivial
  · intro nodes n hn
    refine .after fun results ↦ ?_
    split
    · next hnone => rw [hnone] at hn; cases hn
    · exact .item (List.mem_map_of_mem hn) (.now _)
  · intro nodes
    refine .batch fun results ↦ ?_
    split
    · exact .done _
    · exact .batch fun _ ↦ .done _

/-- How far a run has come after the question for nodes. -/
structure Removing (names : List String) (nodes : List Node) (moments : List Moment)
    (x : Program (Result Unit)) : Prop where
  asked : ∀ m ∈ moments, AskedAfter names nodes m.exchange.request
  asks : x.Asks (AskedAfter names nodes)
  owed : ∀ n ∈ Node.missingNames names nodes,
    (∃ m ∈ moments, m.exchange.request = .deleteRecord n) ∨ x.Owes (.deleteRecord n)
  ends : Acc (fun y x : Program (Result Unit) ↦ ∃ (r : Request) (a : r.Answer), x.Step r a y) x

variable {nodes : List Node} {moments : List Moment} {m : Moment} {x y : Program (Result Unit)}

theorem Removes.removing (h : Removes names next) (nodes : List Node) :
    Removing names nodes [] (next (.ok nodes)) :=
  ⟨by simp, h.only nodes, fun n hn ↦ .inr (h.all nodes n hn), (h.loopless nodes).acc⟩

theorem Removing.step (h : Removing names nodes moments x) (hstep : Step x m y) :
    Removing names nodes (moments ++ [m]) y := by
  obtain ⟨hm, hy⟩ := h.asks.step hstep.1
  refine ⟨fun m' hm' ↦ ?_, hy, fun n hn ↦ ?_, h.ends.inv ⟨_, _, hstep.1⟩⟩
  · obtain hm' | hm' := List.mem_append.mp hm'
    · exact h.asked m' hm'
    · exact List.mem_singleton.mp hm' ▸ hm
  · obtain ⟨m', hm', hrequest⟩ | howes := h.owed n hn
    · exact .inl ⟨m', List.mem_append_left _ hm', hrequest⟩
    · obtain hrequest | howes := howes.step hstep.1
      · exact .inl ⟨m, by simp, hrequest⟩
      · exact .inr howes

theorem exists_tells (r : Request) : ∃ (g : Ground) (a : r.Answer), g.Tells r a := by
  let g := Ground.empty
  by_cases hr : r.kind ∈ [Request.Kind.listRecords, .findNodes]
  · cases r with
    | listRecords token limit => exact ⟨g, _, .listed token limit⟩
    | findNodes names => exact ⟨g, _, .unfound names (.plain "")⟩
    | _ => simp [Request.kind] at hr
  · obtain ⟨a⟩ := r.nonempty_answer
    exact ⟨g, a, .other hr a⟩

/-- After the question for nodes a run comes to its end. -/
theorem Removing.inevitable_ended (h : Removing names nodes moments x) :
    Inevitable (fun x y ↦ ∃ m, Step x m y) (fun x ↦ ∃ v, x.Ended v) x := by
  refine .of_acc (Subrelation.accessible (fun ⟨m, hstep⟩ ↦ ⟨_, _, hstep.1⟩) h.ends) fun x ↦ ?_
  refine x.ended_or_asks.imp_right fun ⟨r, hasks⟩ ↦ ?_
  obtain ⟨g, a, htold⟩ := exists_tells r
  obtain ⟨y, hstep⟩ := hasks a
  exact ⟨y, ⟨g, ⟨r, a⟩⟩, hstep, htold⟩

end Collection

end NodeInventory
