import NodeInventory.Proofs.Indifference.Telling

/-!
# Operations that are indifferent to the registry

A program is indifferent to the registry if the actions of which it is made are. In each turn that
it takes it either asks for something else, or it calls the registry and then goes on in the same
way but for the complaints about the answer (`Program.Indifferent.turn`). The operations on records
are indifferent (`Duties.indifferent_handleNodeBatch`, `Record.indifferent_sweep`).
-/

namespace NodeInventory

open Fleet

variable {α β : Type}

/-! ## Indifferent programs -/

namespace Program

variable {seen seen' : List Exchange}

/-- After what has been seen, a program that does the same whatever the registry answers. -/
inductive Indifferent (seen : List Exchange) : Program α → Prop
  | done (a : α) : Indifferent seen (done a)
  | action {β : Type} {x : Action β} {f : β → Program α} (hx : x.Indifferent seen)
    (hf : ∀ b, Indifferent seen (f b)) : Indifferent seen (afterAction x f)
  | batch {n : Int} {items : List (Action (Result Unit))} {next : List (Result Unit) → Program α}
    (hitems : ∀ x ∈ items, x.Indifferent seen)
    (hnext : ∀ results, Indifferent seen (next results)) :
    Indifferent seen (batch n items next)
  | loop {ι κ : Type} {question : ι → Request}
    {act : (s : ι) → (question s).Answer → Action (ι ⊕ κ)} (s : ι) {next : κ → Program α}
    (hquestion : ∀ s, (question s).isLocal = true) (hact : ∀ s a, (act s a).Indifferent [])
    (hnext : ∀ b, Indifferent seen (next b)) : Indifferent seen (loop question act s next)

theorem Indifferent.mono {p : Program α} (h : p.Indifferent seen) (hsub : seen ⊆ seen') :
    p.Indifferent seen' := by
  induction h with
  | done a => exact .done a
  | action hx _ ih => exact .action (hx.mono hsub) ih
  | batch hitems _ ih => exact .batch (fun x hx ↦ (hitems x hx).mono hsub) ih
  | loop s hquestion hact _ ih => exact .loop s hquestion hact ih

theorem Indifferent.ask {r : Request} {next : r.Answer → Program α} (hr : r.isLocal = true)
    (hnext : ∀ a, (next a).Indifferent seen) : (Program.ask r next).Indifferent seen :=
  .action (x := .ask r .done) (.ask hr fun a ↦ .done a) hnext

theorem afterAction_then (x : Action β) {γ : Type} (f : β → Program γ) (g : γ → Program α) :
    (afterAction x f >>= g) = afterAction x fun b ↦ f b >>= g := by
  induction x with
  | done b => rfl
  | ask r next ih => simp only [afterAction, ask_bind, ih]

theorem Indifferent.bind {p : Program β} {f : β → Program α} (hp : p.Indifferent seen)
    (hf : ∀ b, (f b).Indifferent seen) : (p >>= f).Indifferent seen := by
  induction hp with
  | done b => exact hf b
  | action hx _ ih => exact afterAction_then _ _ f ▸ .action hx ih
  | batch hitems _ ih => exact .batch hitems ih
  | loop s hquestion hact _ ih => exact .loop s hquestion hact ih

/-- What an indifferent program counts and reports before anything else is about no failed call, and
what is left of it is indifferent. -/
theorem Indifferent.noted {p : Program α} (h : p.Indifferent seen) (i : ℕ) :
    (∀ e ∈ (p.noted i).1, e.request.isLocal = true) ∧
      (p.noted i).2.Indifferent (seen ++ (p.noted i).1) := by
  induction h with
  | done a => exact ⟨by simp [Program.noted], .done a⟩
  | loop s hquestion hact hnext =>
    exact ⟨by simp [Program.noted], (Indifferent.loop s hquestion hact hnext).mono (by simp)⟩
  | @action β x f hx hf ih =>
    induction hx with
    | done b => exact ih b
    | tell source hchange hnames hnext hx _ =>
      exact ⟨by simp [Program.noted, afterAction],
        (Indifferent.action (.tell source hchange hnames hnext hx) hf).mono (by simp)⟩
    | @ask seen r next hr hnext ihx =>
      cases r with
      | callFleet | report => cases hr
      | count c =>
        have hseen : ∀ later, seen ++ later ⊆ seen ++ [⟨.count c, ()⟩] ++ later := fun later ↦
          ((List.sublist_append_left seen _).append_right later).subset
        obtain ⟨hlocal, hrest⟩ := ihx () (fun b ↦ (hf b).mono (List.subset_append_left _ _))
          fun b ↦ ⟨(ih b).1, (ih b).2.mono (hseen _)⟩
        exact ⟨List.forall_mem_cons.mpr ⟨hr, hlocal⟩,
          by simpa [Program.noted, afterAction] using hrest⟩
      | _ =>
        exact ⟨by simp [Program.noted, afterAction],
          (Indifferent.action (.ask hr hnext) hf).mono (by simp)⟩
  | @batch n items next hitems hnext ih =>
    obtain ⟨hlocal, hrest⟩ := Action.Indifferent.notedAt i hitems
    rw [Program.noted]
    split
    · next results hresults =>
      refine ⟨fun e he ↦ ?_, (ih results).2.mono ?_⟩
      · exact (List.mem_append.mp he).elim (hlocal e) ((ih results).1 e)
      · rw [← List.append_assoc]
        exact ((List.sublist_append_left seen _).append_right _).subset
    · exact ⟨hlocal, .batch (.forall_mem_set hitems (List.subset_append_left _ _) hrest)
        fun results ↦ (hnext results).mono (List.subset_append_left _ _)⟩

end Program

namespace Turn

/-- What an indifferent program asks is no call, and then it goes on indifferently; or it is a call,
after which it goes on in the same way but for the complaints about the answer. -/
inductive Indifferent (i : ℕ) (seen : List Exchange) : Turn α → Prop
  | ask {r : Request} {next : r.Answer → Program α} (hr : r.isLocal = true)
    (hnext : ∀ a, (next a).Indifferent (seen ++ [⟨r, a⟩])) : Indifferent i seen ⟨r, next⟩
  | tell {call : Call} {next : (Request.callFleet call).Answer → Program α} {p : Program α}
    (source : Report.Source) {subject : String} (hchange : (Request.callFleet call).isChange = true)
    (hnames : call.Names seen subject)
    (hnext : ∀ a, (next a).noted i = (complaints source subject a ++ (p.noted i).1, (p.noted i).2))
    (hp : p.Indifferent seen) : Indifferent i seen ⟨.callFleet call, next⟩

end Turn

namespace Program

variable {seen : List Exchange}

theorem Indifferent.turn {p : Program α} (h : p.Indifferent seen) {i : ℕ} {turn : Turn α}
    (hturn : p.turn? i = some turn) : turn.Indifferent i seen := by
  induction h with
  | done a => cases hturn
  | @action β x f hx hf ih =>
    cases hx with
    | done b => exact ih b hturn
    | ask hr hnext =>
      cases hturn
      exact .ask hr fun a ↦ .action (hnext a) fun b ↦ (hf b).mono (List.subset_append_left _ _)
    | @tell _ call next x source _ hchange hnames hnext hx =>
      cases hturn
      refine .tell source (p := afterAction x f) hchange hnames (fun a ↦ ?_) (.action hx hf)
      rw [Action.noted_afterAction, hnext, Action.noted_afterAction x]
      simp only [List.append_assoc]
  | @batch n items next hitems hnext ih =>
    rw [turn?] at hturn
    split at hturn
    · next results hresults => exact ih results hturn
    · split at hturn
      · next r go hitem =>
        cases hturn
        cases hitems _ (List.mem_of_getElem? hitem) with
        | ask hr hgo =>
          exact .ask hr fun a ↦ .batch
            (.forall_mem_set hitems (List.subset_append_left _ _) (hgo a))
            fun results ↦ (hnext results).mono (List.subset_append_left _ _)
        | @tell _ call next' x source _ hchange hnames hgo hx =>
          have hi : i < items.length := (List.getElem?_eq_some_iff.mp hitem).1
          exact .tell source (p := .batch n (items.set i x) next) hchange hnames
            (fun a ↦ noted_batch_set hi (hgo a))
            (.batch (.forall_mem_set hitems (List.Subset.refl _) hx) hnext)
      · cases hturn
  | @loop ι κ question act s next hquestion hact hnext ih =>
    cases hturn
    refine .ask (hquestion s) fun a ↦ .action ((hact s a).mono (List.nil_subset _)) fun b ↦ ?_
    cases b with
    | inl s' =>
      exact (Indifferent.loop s' hquestion hact hnext).mono (List.subset_append_left _ _)
    | inr b => exact (hnext b).mono (List.subset_append_left _ _)

end Program

/-! ## The operations -/

open Program

theorem Record.indifferent_listNames (pageSize : Nat) (seen : List Exchange) :
    (listNames pageSize).Indifferent seen := by
  refine .loop _ (fun _ ↦ rfl) (fun s (answer : Result (Page Record)) ↦ ?_) fun b ↦ .done b
  cases answer with
  | error f => exact .done _
  | ok page =>
    unfold collectNames
    dsimp only
    split <;> exact .done _

theorem Record.indifferent_deleteOrphans (clusterId : String) (parallelism : Int)
    (names : List String) (seen : List Exchange) :
    (deleteOrphans clusterId parallelism names).Indifferent seen := by
  refine .batch (fun x hx ↦ ?_) fun results ↦ .done _
  obtain ⟨name, -, rfl⟩ := List.mem_map.mp hx
  exact indifferent_deleteOrphan _ _ _

theorem Record.indifferent_sweep (clusterId : String) (pageSize : Nat) (parallelism : Int)
    (seen : List Exchange) : (sweep clusterId pageSize parallelism).Indifferent seen := by
  refine (indifferent_listNames _ _).bind fun answer ↦ ?_
  obtain f | _ | ⟨name, names⟩ := answer
  · exact .done _
  · exact .done _
  · refine .ask rfl fun (answer : Result (List Node)) ↦ ?_
    cases answer with
    | error f => exact .done _
    | ok live => exact indifferent_deleteOrphans _ _ _ _

theorem Duties.indifferent_handleNodeBatch (d : Duties) (names : List String)
    (seen : List Exchange) : (d.handleNodeBatch names).Indifferent seen := by
  refine .ask rfl fun (answer : Result (List Node)) ↦ ?_
  cases answer with
  | error f => exact .done _
  | ok nodes =>
    refine .batch (fun x hx ↦ ?_) fun results ↦ ?_
    · obtain ⟨node, -, rfl⟩ := List.mem_map.mp hx
      exact d.indifferent_refresh node seen
    · split
      · exact .done _
      · exact (Record.indifferent_deleteOrphans _ _ _ _).bind fun _ ↦ .done _

end NodeInventory
