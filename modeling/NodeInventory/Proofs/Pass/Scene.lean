import NodeInventory.Proofs.Inevitable
import NodeInventory.Proofs.Interleaving
import NodeInventory.Simulation.Pool

/-!
# A pass over a cluster

A pass queues all nodes of the cluster, works off the queue with any number of workers, and sweeps
the records without a node; the sweep comes before the queue is worked off or after. The cluster
stays as it is, nothing fails but calls of the registry, and nobody else writes.

Which of the workers goes on, and which item of its batch, is left open, and so is the order in
which the cluster names the nodes that it was asked for (`Gives`). A bound on how many items run at
once leaves fewer orders, but always one of the items that may go on.

A scene is the world together with the stages of the pass that are still to come. The first stage is
at hand, and it is over when nothing is left to do in it.
-/

namespace NodeInventory

open Simulation

/-- Whether a request would change a record, or what the registry knows of a node. -/
def Request.isChange : Request → Bool
  | .createRecord _ | .updateRecord _ _ | .deleteRecord _ => true
  | .callFleet (.add _) | .callFleet (.update _) | .callFleet (.delete _) => true
  | _ => false

namespace Simulation.World

/-- What is stored under a name. -/
def record? (w : World) (name : String) : Option Record := w.store.records.get? name

/-- The changes that were asked for, the last first. -/
def changes (w : World) : List Event := w.events.filter (·.request.isChange)

/-- The queued texts. -/
def queued (w : World) (queue : String) : List String := w.coordination.list queue

end Simulation.World

namespace Pass

/-- The world answers, and is as it is after that. The registry may answer anything; the nodes of
some names come in any order; all other answers are those of a world in which nothing fails. -/
inductive Gives (agent : ℕ) (w : World) : (r : Request) → r.Answer → World → Prop
  | answered (r : Request) :
    Gives agent w r ((w.note agent r).respond {} r).2 ((w.note agent r).respond {} r).1
  | found (names : List String) {nodes : List Node}
      (hnodes : nodes.Perm (names.filterMap w.nodes.get?)) :
    Gives agent w (.findNodes names) (.ok nodes) (w.note agent (.findNodes names))
  | told (call : Fleet.Call) (a : Result Fleet.Response) :
    Gives agent w (.callFleet call) a (w.note agent (.callFleet call))

/-- A worker, and what is left to do of the task that it works off. -/
structure Clerk : Type 1 where
  worker : Worker := .waiting
  work : Option (Program (Result Unit)) := none

/-- Part of a pass. -/
inductive Stage : Type 1
  /-- Carry out a program. -/
  | job (rest : Program (Result Unit))
  /-- Let workers take texts off the queue until it is empty and all of them wait. -/
  | drain (clerks : List Clerk)

/-- A world, and the stages that are to come in it. -/
structure Scene : Type 1 where
  world : World
  stages : List Stage

variable {d : Duties} {p : Scene → Prop} {w : World} {rest : List Stage}

/-- Something happens in the stage at hand, or the stage is over. -/
inductive Step (d : Duties) : Scene → Scene → Prop
  | asked {w w' : World} {x y : Program (Result Unit)} {r : Request} {a : r.Answer}
      {rest : List Stage} (hx : x.Step r a y) (hw : Gives 0 w r a w') :
    Step d ⟨w, .job x :: rest⟩ ⟨w', .job y :: rest⟩
  | ended {w : World} {x : Program (Result Unit)} {result : Result Unit} {rest : List Stage}
      (hx : x.Ended result) :
    Step d ⟨w, .job x :: rest⟩ ⟨w, rest⟩
  /-- A worker takes a text off the queue. -/
  | took {w : World} {coordination : KeyStore} {raw : String} {before after : List Clerk}
      {clerk : Clerk} {worker : Worker} {notes : List Request} {rest : List Stage}
      (hpop : w.coordination.pop? d.queue = some (raw, coordination))
      (hworker : clerk.worker.step d.queue (.popped raw) = some (worker, notes)) :
    Step d ⟨w, .drain (before ++ clerk :: after) :: rest⟩
      ⟨Pool.noteAll before.length notes { w with coordination },
        .drain (before ++ ⟨worker, some (Task.dispatch d.handlers raw)⟩ :: after) :: rest⟩
  /-- A worker asks for something on behalf of its task. -/
  | worked {w w' : World} {x y : Program (Result Unit)} {r : Request} {a : r.Answer}
      {before after : List Clerk} {worker : Worker} {rest : List Stage}
      (hx : x.Step r a y) (hw : Gives before.length w r a w') :
    Step d ⟨w, .drain (before ++ ⟨worker, some x⟩ :: after) :: rest⟩
      ⟨w', .drain (before ++ ⟨worker, some y⟩ :: after) :: rest⟩
  /-- A worker is done with its task. -/
  | finished {w : World} {x : Program (Result Unit)} {result : Result Unit}
      {before after : List Clerk} {worker worker' : Worker} {notes : List Request}
      {rest : List Stage} (hx : x.Ended result)
      (hworker : worker.step d.queue (.handled result) = some (worker', notes)) :
    Step d ⟨w, .drain (before ++ ⟨worker, some x⟩ :: after) :: rest⟩
      ⟨Pool.noteAll before.length notes w, .drain (before ++ ⟨worker', none⟩ :: after) :: rest⟩
  | drained {w : World} {clerks : List Clerk} {rest : List Stage} (hqueue : w.queued d.queue = [])
      (hclerks : ∀ clerk ∈ clerks, clerk = {}) :
    Step d ⟨w, .drain clerks :: rest⟩ ⟨w, rest⟩

/-- The stages of a pass. -/
def stages (d : Duties) (workers : ℕ) (sweepFirst : Bool) : List Stage :=
  let sync := Stage.job (Job.sync.program d)
  let drain := Stage.drain (List.replicate workers {})
  let sweep := Stage.job (Job.collection.program d)
  if sweepFirst then [sync, sweep, drain] else [sync, drain, sweep]

/-! ## Jobs that leave nothing open -/

theorem inevitable_done {result : Result Unit} (h : Inevitable (Step d) p ⟨w, rest⟩) :
    Inevitable (Step d) p ⟨w, .job (.done result) :: rest⟩ := by
  refine .later ⟨_, .ended (.done result)⟩ fun t ht ↦ ?_
  cases ht with
  | asked hx => cases hx
  | ended => exact h

theorem inevitable_ask {r : Request} {next : r.Answer → Program (Result Unit)}
    (h : ∀ a w', Gives 0 w r a w' → Inevitable (Step d) p ⟨w', .job (next a) :: rest⟩) :
    Inevitable (Step d) p ⟨w, .job (.ask r next) :: rest⟩ := by
  refine .later ⟨_, .asked (.ask next _) (.answered r)⟩ fun t ht ↦ ?_
  cases ht with
  | asked hx hw =>
    cases hx
    exact h _ _ hw
  | ended hx => cases hx

theorem inevitable_loop {ι κ : Type} {question : ι → Request}
    {act : (s : ι) → (question s).Answer → Action (ι ⊕ κ)} {s : ι}
    {next : κ → Program (Result Unit)}
    (h : ∀ a w', Gives 0 w (question s) a w' → Inevitable (Step d) p
      ⟨w', .job (.afterAction (act s a) fun
        | .inl s' => .loop question act s' next
        | .inr b => next b) :: rest⟩) :
    Inevitable (Step d) p ⟨w, .job (.loop question act s next) :: rest⟩ := by
  refine .later ⟨_, .asked (.loop _) (.answered _)⟩ fun t ht ↦ ?_
  cases ht with
  | asked hx hw =>
    cases hx
    exact h _ _ hw
  | ended hx => cases hx

/-- A loop ends if every round of it keeps an invariant and makes something smaller, or ends it. -/
theorem inevitable_rounds {ι κ : Type} {question : ι → Request}
    {act : (s : ι) → (question s).Answer → Action (ι ⊕ κ)} {next : κ → Program (Result Unit)}
    (inv : ι → World → Prop) (size : ι → World → ℕ)
    (hround : ∀ s w a w', inv s w → Gives 0 w (question s) a w' →
      Inevitable (Step d)
        (fun t ↦ p t ∨ ∃ s' w'', t = ⟨w'', .job (.loop question act s' next) :: rest⟩ ∧
          inv s' w'' ∧ size s' w'' < size s w)
      ⟨w', .job (.afterAction (act s a) fun
        | .inl s' => .loop question act s' next
        | .inr b => next b) :: rest⟩)
    {s : ι} (h : inv s w) :
    Inevitable (Step d) p ⟨w, .job (.loop question act s next) :: rest⟩ := by
  obtain ⟨left, hleft⟩ : ∃ left, left = size s w := ⟨_, rfl⟩
  induction left using Nat.strongRecOn generalizing s w with
  | _ left ih =>
    refine inevitable_loop fun a w' hw ↦ (hround s w a w' h hw).bind fun t ht ↦ ?_
    rcases ht with ht | ⟨s', w'', rfl, hinv, hless⟩
    · exact .now ht
    · exact ih _ (hleft ▸ hless) hinv rfl

/-! ## The nodes of some names -/

/-- Nodes are listed under their names. -/
def Listed (nodes : Dict Node) : Prop := ∀ n node, nodes.get? n = some node → node.name = n

/-- Nodes are listed under their names, and answer to no others. -/
structure Named (nodes : Dict Node) : Prop where
  name : ∀ n node, nodes.get? n = some node → node.name = n
  hostname : ∀ n node host, nodes.get? n = some node →
    node.labels.get? Node.hostnameLabel = some host → host = node.name

theorem Named.of_forall_mem {nodes : Dict Node} (h : ∀ e ∈ nodes.toList,
    e.2.name = e.1 ∧ (e.2.labels.get? Node.hostnameLabel).all (· = e.2.name)) : Named nodes := by
  refine ⟨fun n node hnode ↦ (h _ (Dict.mem_toList_iff.mpr hnode)).1,
    fun n node host hnode hhost ↦ ?_⟩
  have hown := (h _ (Dict.mem_toList_iff.mpr hnode)).2
  rw [hhost] at hown
  exact of_decide_eq_true hown

theorem Named.mem_aliases_iff {nodes : Dict Node} (h : Named nodes) {n m : String} {node : Node}
    (hnode : nodes.get? m = some node) : n ∈ node.aliases ↔ n = m := by
  rw [Node.aliases, List.mem_cons, h.name m node hnode, Option.mem_toList, or_iff_left_iff_imp]
  intro hhost
  rw [h.hostname m node n hnode hhost, h.name m node hnode]

/-- The nodes of some names, in whatever order they come. -/
theorem Gives.of_findNodes {agent : ℕ} {names : List String} {a : (Request.findNodes names).Answer}
    {w' : World} (h : Gives agent w (.findNodes names) a w') :
    ∃ nodes : List Node, a = .ok nodes ∧ nodes.Perm (names.filterMap w.nodes.get?) ∧
      w' = w.note agent (.findNodes names) := by
  cases h with
  | answered => exact ⟨_, rfl, .refl _, rfl⟩
  | found _ hnodes => exact ⟨_, rfl, hnodes, rfl⟩

theorem Listed.eq_none_of_mem_missingNames (h : Listed w.nodes) {names : List String}
    {nodes : List Node} (hnodes : nodes.Perm (names.filterMap w.nodes.get?)) {n : String}
    (hn : n ∈ Node.missingNames names nodes) : w.nodes.get? n = none := by
  obtain ⟨hmem, hall⟩ := Node.mem_missingNames.mp hn
  by_contra hsome
  obtain ⟨node, hget⟩ := Option.ne_none_iff_exists'.mp hsome
  have hnode : node ∈ nodes := hnodes.mem_iff.mpr (List.mem_filterMap.mpr ⟨n, hmem, hget⟩)
  refine hall node hnode ?_
  rw [Node.aliases, h n node hget]
  exact List.mem_cons_self

theorem Named.mem_missingNames_iff (h : Named w.nodes) {names : List String} {nodes : List Node}
    (hnodes : nodes.Perm (names.filterMap w.nodes.get?)) {n : String} :
    n ∈ Node.missingNames names nodes ↔ n ∈ names ∧ w.nodes.get? n = none := by
  constructor
  · intro hn
    exact ⟨(Node.mem_missingNames.mp hn).1,
      Listed.eq_none_of_mem_missingNames h.name hnodes hn⟩
  · rintro ⟨hn, hnone⟩
    refine Node.mem_missingNames.mpr ⟨hn, fun node hnode halias ↦ ?_⟩
    obtain ⟨m, -, hm⟩ := List.mem_filterMap.mp (hnodes.mem_iff.mp hnode)
    rw [(h.mem_aliases_iff hm).mp halias, hm] at hnone
    cases hnone

theorem Named.missingNames_eq (h : Named w.nodes) {names : List String} {nodes : List Node}
    (hnodes : nodes.Perm (names.filterMap w.nodes.get?)) :
    Node.missingNames names nodes = names.filter fun n ↦ (w.nodes.get? n).isNone := by
  refine List.filter_congr fun n hn ↦ Bool.eq_iff_iff.mpr ?_
  have hmissing := h.mem_missingNames_iff hnodes (n := n)
  rw [Node.missingNames, List.mem_filter, and_iff_right hn, and_iff_right hn] at hmissing
  rw [hmissing, Option.isNone_iff_eq_none]

end Pass

end NodeInventory
