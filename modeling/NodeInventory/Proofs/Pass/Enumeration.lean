import NodeInventory.Proofs.Pass.Care
import NodeInventory.Proofs.Task

/-!
# The first stage of a pass

The nodes of the cluster are listed part by part, and the names of each part are queued as one task.
No name is lost between two parts and none is queued twice: the names that are queued, in the order
of the queue, are the names of the cluster (`inevitable_enqueueAll`).
-/

namespace NodeInventory

open Simulation

theorem KeyStore.list_push (s : KeyStore) (name value : String) :
    (s.push name value).list name = s.list name ++ [value] := by
  simp [list, push]

theorem Program.afterAction_bind {α β γ : Type} (x : Action α) (f : α → Action β)
    (k : β → Program γ) :
    afterAction (x >>= f) k = afterAction x fun a ↦ afterAction (f a) k := by
  induction x with
  | done a => rfl
  | ask r next ih =>
    rw [Action.ask_bind, afterAction, afterAction]
    congr 1
    funext a
    exact ih a

namespace Pass

variable {d : Duties} {p : Scene → Prop} {w : World} {rest : List Stage} {pageSize : ℕ}

/-- The texts of batches of names in the queue. -/
def texts (batches : List (List String)) : List String :=
  batches.map fun names ↦ (Task.nodeBatch names).encode

/-- Queueing a part of the listing queues its names, unless it is empty. -/
theorem inevitable_pushPage {items : List Node} {k : List (Result Unit) → Program (Result Unit)}
    {batches : List (List String)} (hqueued : w.queued d.queue = texts batches)
    (hp : ∀ w' results batches', Tended True ∅ w w' → w'.queued d.queue = texts batches' →
      batches'.flatten = batches.flatten ++ items.map Node.name →
        Inevitable (Step d) p ⟨w', .job (k results) :: rest⟩) :
    Inevitable (Step d) p ⟨w, .job (.afterAction (Task.pushPage d.queue items) k) :: rest⟩ := by
  cases items with
  | nil => exact hp w [] batches (.refl w) hqueued (by simp)
  | cons node nodes =>
    refine inevitable_ask fun a w' hw ↦ ?_
    cases hw with
    | answered =>
      refine inevitable_ask fun a w'' hw ↦ ?_
      cases hw with
      | answered =>
        refine hp _ _ (batches ++ [(node :: nodes).map Node.name]) ?_ ?_ (by simp)
        · -- a text was put in the queue, and two requests were noted
          refine .trans (Still.note w 0 ?_).tended
            (.trans (.coordination _ _) (Still.note _ 0 ?_).tended)
          · rfl
          · rfl
        · rw [texts, List.map_append, ← texts, ← hqueued]
          exact KeyStore.list_push w.coordination d.queue _

/-- Queueing the nodes of the cluster queues every name once, and changes nothing else. -/
theorem inevitable_enqueueAll (hlisted : Listed w.nodes) (hempty : w.queued d.queue = [])
    (hp : ∀ w' batches, Tended True ∅ w w' → w'.queued d.queue = texts batches →
      batches.flatten = w.nodes.keys → Inevitable (Step d) p ⟨w', rest⟩) :
    Inevitable (Step d) p ⟨w, .job (Job.sync.program d) :: rest⟩ := by
  refine inevitable_rounds
    (fun s v ↦ Tended True ∅ w v ∧ ∃ batches, v.queued d.queue = texts batches ∧
      batches.flatten ++ (w.nodes.remaining s.1).map (·.1) = w.nodes.keys)
    (fun s _ ↦ (w.nodes.remaining s.1).length) ?_ ⟨.refl w, [], hempty, rfl⟩
  rintro ⟨token, sofar⟩ v a v' ⟨htended, batches, hqueued, hkeys⟩ hv
  cases hv with
  | answered =>
    have htended' : Tended True ∅ w (v.note 0 (.listNodes token d.nodePageSize)) :=
      htended.trans (Still.note v 0 rfl).tended
    have hnames : (w.nodes.page token d.nodePageSize).items.map Node.name =
        ((w.nodes.remaining token).take (max d.nodePageSize 1)).map (·.1) := by
      rw [Dict.items_page]
      refine Dict.map_map_snd hlisted fun e he ↦ ?_
      exact (Dict.mem_remaining_iff.mp (List.mem_of_mem_take he)).1
    change Inevitable (Step d) _ ⟨v.note 0 (.listNodes token d.nodePageSize), .job (.afterAction
      (Task.pushNext d.queue (token, sofar) (.ok (v.nodes.page token d.nodePageSize))) _) :: rest⟩
    rw [htended.nodes, Task.pushNext, Program.afterAction_bind]
    refine inevitable_pushPage hqueued fun u results batches' hu hqueued' hbatches ↦ ?_
    rw [hnames] at hbatches
    dsimp only
    cases hnext : (w.nodes.page token d.nodePageSize).next with
    | none =>
      rw [Dict.take_of_page_next_eq_none hnext, hkeys] at hbatches
      refine (inevitable_done ?_).imp fun t ht ↦ .inl ht
      exact hp u batches' (htended'.trans hu) hqueued' hbatches
    | some next =>
      have hrest := Dict.remaining_of_page_next hnext
      refine .now (.inr ⟨_, u, rfl, ⟨htended'.trans hu, batches', hqueued', ?_⟩, ?_⟩)
      · rw [hbatches, hrest, List.append_assoc, ← List.map_append, List.take_append_drop]
        exact hkeys
      · have hlt := Dict.lt_of_page_next hnext
        rw [hrest, List.length_drop]
        omega

end Pass

end NodeInventory
