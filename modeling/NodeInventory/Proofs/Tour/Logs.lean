import NodeInventory.Proofs.Play
import NodeInventory.Proofs.Tour.Batch

/-!
# What the logs of items tell

The log of an item is what it exchanges on its own. What is called, removed and counted in a batch
is what is called, removed and counted by its items, one item after another
(`Exchange.perm_calls`). To tell the registry something takes one call; what else is exchanged for
it is that it failed (`Fleet.tells_of_plays_tell`).
-/

namespace NodeInventory

open NodeInventory.Action Simulation

variable {α σ : Type}

theorem Action.Asks.meets_logged {c : Contract σ} {p : Request → Prop} {x : Action α}
    (hx : x.Asks p) (hp : ∀ s r, p r → c.allows s r) (s : σ × List Exchange) :
    x.Meets c.logged (fun t v ↦ ∃ log, t.2 = s.2 ++ log ∧ x.Plays log v) s := by
  induction x generalizing s with
  | done v => exact ⟨[], (List.append_nil _).symm, .done v⟩
  | ask r next ih =>
    refine ⟨hp s.1 r hx.1, fun a t hat ↦ (ih a (hx.2 a) t).imp ?_⟩
    rintro u v ⟨log, hlog, hplays⟩
    refine ⟨⟨r, a⟩ :: log, ?_, .ask a hplays⟩
    rw [hlog, hat.2, List.append_assoc, List.singleton_append]

theorem Action.meets_plays {c : Contract σ} (hc : ∀ s r, c.allows s r) (x : Action α)
    (s : σ × List Exchange) :
    x.Meets c.logged (fun t v ↦ ∃ log, t.2 = s.2 ++ log ∧ x.Plays log v) s := by
  have hx : x.Asks fun _ ↦ True := by
    induction x with
    | done v => trivial
    | ask r next ih => exact ⟨trivial, ih⟩
  exact hx.meets_logged (fun s r _ ↦ hc s r) s

namespace Tour

/-- Terms on which nothing is known of the answers. -/
def freely (K : Conditions) : Terms K Unit where
  inv _ := True
  look _ _ := ()
  contract _ := ⟨fun _ _ ↦ True, fun _ _ _ _ ↦ True⟩
  answered _ _ _ := ⟨trivial, trivial, fun _ _ ↦ rfl⟩
  undisturbed _ _ := ⟨trivial, fun _ ↦ rfl⟩

/-- What is exchanged in a batch is what its items exchange on their own, item by item. -/
theorem exists_plays_of_course {K : Conditions} {w : World} {s : Scene α} {events : List Event}
    {names : List String} {k : Int} {act : String → Action (Result Unit)}
    {g : List (Result Unit) → α} (hnodup : names.Nodup)
    (hcourse : Course K ⟨w, .batch k (names.map act) fun results ↦ .done (g results)⟩ events s)
    {v : α} (hended : s.rest.Ended v) :
    ∃ logs results, (exchanges events).Perm (names.flatMap logs) ∧
      (∀ n ∈ names, (act n).Plays (logs n) (results n)) ∧ v = g (names.map results) := by
  obtain ⟨logs, results, hexchanged, hplays, -, -, hv⟩ :=
    (freely K).concluded (fun n _ log v ↦ (act n).Plays log v) hnodup trivial
      (fun n _ ↦ ((act n).meets_plays (fun _ _ ↦ trivial) _).imp
        fun t v ⟨log, hlog, hplays⟩ ↦ by rwa [hlog, List.nil_append]) hcourse hended
  exact ⟨logs, results, hexchanged, hplays, hv⟩

end Tour

namespace Exchange

@[simp] theorem calls_append (log more : List Exchange) :
    calls (log ++ more) = calls log ++ calls more :=
  List.filterMap_append

@[simp] theorem removals_append (log more : List Exchange) :
    removals (log ++ more) = removals log ++ removals more :=
  List.filterMap_append

@[simp] theorem lookups_append (log more : List Exchange) :
    lookups (log ++ more) = lookups log ++ lookups more :=
  List.filterMap_append

@[simp] theorem counted_append (c : Counter) (log more : List Exchange) :
    counted c (log ++ more) = counted c log + counted c more :=
  List.countP_append

@[simp] theorem calls_nil : calls [] = [] := rfl

@[simp] theorem removals_nil : removals [] = [] := rfl

@[simp] theorem counted_nil (c : Counter) : counted c [] = 0 := rfl

variable (e : Exchange) (log : List Exchange)

@[simp] theorem calls_cons : calls (e :: log) = e.request.call?.toList ++ calls log := by
  rw [calls, List.filterMap_cons]
  cases e.request.call? <;> rfl

@[simp] theorem removals_cons :
    removals (e :: log) = e.request.removal?.toList ++ removals log := by
  rw [removals, List.filterMap_cons]
  cases e.request.removal? <;> rfl

@[simp] theorem counted_cons (c : Counter) :
    counted c (e :: log) = counted c log + if e.request.counts c then 1 else 0 :=
  List.countP_cons

/-! ## Where nothing of the kind is asked -/

variable {log}

theorem filterMap_eq_nil {β : Type*} {f : Request → Option β} {kind : Request.Kind}
    (hf : ∀ r, r.kind ≠ kind → f r = none) (h : ∀ e ∈ log, e.request.kind ≠ kind) :
    log.filterMap (fun e ↦ f e.request) = [] :=
  List.filterMap_eq_nil_iff.mpr fun e he ↦ hf e.request (h e he)

theorem calls_eq_nil (h : ∀ e ∈ log, e.request.kind ≠ .callFleet) : calls log = [] := by
  refine filterMap_eq_nil (fun r hr ↦ ?_) h
  cases r with
  | callFleet => exact absurd rfl hr
  | _ => rfl

theorem removals_eq_nil (h : ∀ e ∈ log, e.request.kind ≠ .deleteRecord) : removals log = [] := by
  refine filterMap_eq_nil (fun r hr ↦ ?_) h
  cases r with
  | deleteRecord => exact absurd rfl hr
  | _ => rfl

theorem lookups_eq_nil (h : ∀ e ∈ log, e.request.kind ≠ .findNodes) : lookups log = [] := by
  refine filterMap_eq_nil (fun r hr ↦ ?_) h
  cases r with
  | findNodes => exact absurd rfl hr
  | _ => rfl

theorem counted_eq_zero {c : Counter} (h : ∀ e ∈ log, e.request.kind ≠ .count) :
    counted c log = 0 := by
  refine List.countP_eq_zero.mpr fun ⟨r, a⟩ he ↦ ?_
  have hr := h _ he
  cases r with
  | count => exact absurd rfl hr
  | _ => simp [Request.counts]

/-! ## Item by item -/

variable {names : List String} {logs : String → List Exchange}

theorem perm_filterMap {β : Type*} (f : Exchange → Option β) (h : log.Perm (names.flatMap logs)) :
    (log.filterMap f).Perm (names.flatMap fun n ↦ (logs n).filterMap f) := by
  rw [← List.filterMap_flatMap]
  exact h.filterMap f

theorem perm_calls (h : log.Perm (names.flatMap logs)) :
    (calls log).Perm (names.flatMap fun n ↦ calls (logs n)) :=
  perm_filterMap _ h

theorem map_filter_eq_flatMap {β γ : Type*} (l : List β) (p : β → Bool) (f : β → γ) :
    (l.filter p).map f = l.flatMap fun b ↦ if p b then [f b] else [] := by
  induction l with
  | nil => rfl
  | cons b l ih =>
    rw [List.filter_cons, List.flatMap_cons, ← ih]
    split
    · rfl
    · rfl

theorem perm_removals (h : log.Perm (names.flatMap logs)) :
    (removals log).Perm (names.flatMap fun n ↦ removals (logs n)) :=
  perm_filterMap _ h

theorem counted_eq {c : Counter} {p : String → Bool} (h : log.Perm (names.flatMap logs))
    (hcounted : ∀ n ∈ names, counted c (logs n) = if p n then 1 else 0) :
    counted c log = names.countP p := by
  rw [counted, h.countP_eq, List.countP_flatMap]
  clear h
  induction names with
  | nil => rfl
  | cons n names ih =>
    rw [List.map_cons, List.sum_cons, List.countP_cons, ih fun m hm ↦
      hcounted m (List.mem_cons_of_mem _ hm), Nat.add_comm]
    exact congrArg (names.countP p + ·) (hcounted n List.mem_cons_self)

end Exchange

/-! ## Telling the registry -/

namespace Fleet

open Exchange

/-- What is exchanged to tell the registry something by a call. -/
structure Tells (call : Call) (log : List Exchange) : Prop where
  calls : calls log = [call]
  removals : removals log = []
  counted : ∀ c, c ≠ .fleetCallErrors → counted c log = 0

theorem tells_of_plays_tell {source : Report.Source} {subject : String} {call : Call}
    {log : List Exchange} (h : (tell source subject call).Plays log ()) : Tells call log := by
  obtain ⟨a, rest, rfl, hrest⟩ := exists_of_plays_tell h
  have hcall : ∀ e ∈ rest, e.request.call? = none := fun e he ↦ by
    obtain hr | ⟨_, hr⟩ := hrest e he <;> rw [hr] <;> rfl
  have hremoval : ∀ e ∈ rest, e.request.removal? = none := fun e he ↦ by
    obtain hr | ⟨_, hr⟩ := hrest e he <;> rw [hr] <;> rfl
  refine ⟨?_, ?_, fun c hc ↦ List.countP_eq_zero.mpr (List.forall_mem_cons.mpr
    ⟨by simp [Request.counts], fun e he ↦ ?_⟩)⟩
  · exact congrArg (call :: ·) (List.filterMap_eq_nil_iff.mpr hcall)
  · exact List.filterMap_eq_nil_iff.mpr (List.forall_mem_cons.mpr ⟨rfl, hremoval⟩)
  · obtain hr | ⟨_, hr⟩ := hrest e he
    · simpa [hr, Request.counts] using hc.symm
    · simp [hr, Request.counts]

/-- Who may call, count and report may tell the registry something. -/
theorem meets_tell {c : Contract σ} (hallows : ∀ s r, r.kind ∈ Fleet.kinds → c.allows s r)
    (source : Report.Source) (subject : String) (call : Call) (s : σ × List Exchange) :
    (tell source subject call).Meets c.logged
      (fun t _ ↦ ∃ more, t.2 = s.2 ++ more ∧ Tells call more) s :=
  ((within_tell source subject call).meets_logged hallows s).imp
    fun _ _ ⟨more, hmore, hplays⟩ ↦ ⟨more, hmore, tells_of_plays_tell hplays⟩

end Fleet

end NodeInventory
