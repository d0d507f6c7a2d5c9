import NodeInventory.Proofs.Failure
import NodeInventory.Proofs.Pass.Care
import NodeInventory.Proofs.Tour.Logs

/-!
# Removing records on a tour

Records are removed by the program and by others, and none is written meanwhile. Then the store is
known from what happened: a record is gone if and only if one of the two removed it, and not both
did (`erasure_of_course`). That a removal is refused although it does not fail means that the record
was gone before.

The removal of one record is exchanged in one of three ways (`Removal`). The registry is told unless
the removal failed, where a record that is gone already does not count as a failure.
-/

namespace NodeInventory

namespace Exchange

/-- The name whose record was removed. -/
def erasure? : Exchange → Option String
  | ⟨.deleteRecord name, .ok ()⟩ => some name
  | _ => none

/-- The names whose records were removed. -/
def erased (log : List Exchange) : List String := log.filterMap erasure?

variable {e : Exchange} {log : List Exchange} {n : String}

@[simp] theorem erased_append (log more : List Exchange) :
    erased (log ++ more) = erased log ++ erased more :=
  List.filterMap_append

@[simp] theorem erased_nil : erased [] = [] := rfl

@[simp] theorem erased_cons (e : Exchange) (log : List Exchange) :
    erased (e :: log) = e.erasure?.toList ++ erased log := by
  rw [erased, List.filterMap_cons]
  cases e.erasure? <;> rfl

theorem erasure?_eq_some_iff :
    e.erasure? = some n ↔ e = ⟨.deleteRecord n, (.ok () : Result Unit)⟩ := by
  constructor
  · intro h
    unfold erasure? at h
    split at h
    · cases h
      rfl
    · cases h
  · rintro rfl
    rfl

theorem mem_erased_iff : n ∈ erased log ↔ ⟨.deleteRecord n, (.ok () : Result Unit)⟩ ∈ log := by
  rw [erased, List.mem_filterMap]
  constructor
  · rintro ⟨e, he, hn⟩
    rwa [erasure?_eq_some_iff.mp hn] at he
  · exact fun h ↦ ⟨_, h, rfl⟩

theorem erased_sublist_removals (log : List Exchange) : (erased log).Sublist (removals log) := by
  induction log with
  | nil => exact .slnil
  | cons e log ih =>
    rw [erased_cons, removals_cons]
    cases hn : e.erasure? with
    | none => exact ih.trans (List.sublist_append_right _ _)
    | some n =>
      rw [erasure?_eq_some_iff.mp hn]
      exact ih.cons_cons n

theorem erased_eq_nil (h : removals log = []) : erased log = [] :=
  List.sublist_nil.mp (h ▸ erased_sublist_removals log)

theorem perm_erased {names : List String} {logs : String → List Exchange}
    (h : log.Perm (names.flatMap logs)) :
    (erased log).Perm (names.flatMap fun n ↦ erased (logs n)) :=
  perm_filterMap _ h

end Exchange

namespace Tour

open Simulation Exchange NodeInventory.Action

variable {α : Type} {K : Conditions} {w w' : World} {s : Scene α} {events : List Event}
  {n : String}

/-! ## The store -/

/-- Others only remove records that are there. -/
def Conditions.OnlyDrops (K : Conditions) : Prop :=
  ∀ w c, K.others w c → ∃ n x, c = .drop n ∧ w.record? n = some x

/-- What becomes of a record that is to be removed. -/
theorem Gives.of_deleteRecord {a : (Request.deleteRecord n).Answer}
    (h : Gives K w (.deleteRecord n) a w') :
    (∃ f, K.fault (.deleteRecord n) = some f ∧ a = (.error f : Result Unit) ∧
      w'.store = w.store) ∨
    (K.fault (.deleteRecord n) = none ∧ (∃ x, w.record? n = some x) ∧ a = (.ok () : Result Unit) ∧
      w'.store = w.store.drop n) ∨
    (K.fault (.deleteRecord n) = none ∧ w.record? n = none ∧
      a = (.error (.notFound n) : Result Unit) ∧ w'.store = w.store) := by
  cases hfault : K.fault (.deleteRecord n) with
  | some f =>
    have hrefusal : K.refusal (.deleteRecord n) = some (.error f : Result Unit) := by
      rw [Conditions.refusal, hfault]
      rfl
    obtain ⟨rfl, rfl⟩ := h.eq_of_refusal (by simp [Request.kind]) hrefusal
    exact .inl ⟨f, rfl, rfl, rfl⟩
  | none =>
    cases h.pass hfault with
    | answered =>
      cases hx : w.record? n with
      | some x =>
        have hdelete : w.store.delete n = (w.store.drop n, .ok ()) := by
          rw [World.record?] at hx
          rw [Store.delete, hx]
        refine .inr (.inl ⟨rfl, ⟨x, rfl⟩, ?_, ?_⟩)
        · exact congrArg Prod.snd hdelete
        · exact congrArg Prod.fst hdelete
      | none =>
        have hdelete : w.store.delete n = (w.store, .error (.notFound n)) := by
          rw [World.record?] at hx
          rw [Store.delete, hx]
        refine .inr (.inr ⟨rfl, rfl, ?_, ?_⟩)
        · exact congrArg Prod.snd hdelete
        · exact congrArg Prod.fst hdelete

/-- What is known of the store after some records were removed. -/
structure Erasure (K : Conditions) (start : World) (events : List Event) (w : World) : Prop where
  gone : ∀ n, n ∈ losses events ∨ n ∈ erased (exchanges events) → w.record? n = none
  kept : ∀ n, n ∉ losses events → n ∉ erased (exchanges events) → w.record? n = start.record? n
  /-- What others removed the program did not. -/
  exclusive : ∀ n ∈ losses events, n ∉ erased (exchanges events)
  /-- The program removed only what was there. -/
  known : ∀ n ∈ erased (exchanges events), ∃ x, start.record? n = some x
  unfailing : ∀ n ∈ erased (exchanges events), K.fault (.deleteRecord n) = none
  /-- A removal is refused because it fails or because the record is gone. -/
  refused : ∀ n f, ⟨.deleteRecord n, (.error f : Result Unit)⟩ ∈ exchanges events →
    K.fault (.deleteRecord n) = some f ∨
      (K.fault (.deleteRecord n) = none ∧ f = .notFound n ∧
        (n ∈ losses events ∨ n ∈ erased (exchanges events) ∨ start.record? n = none))

variable {v : World}

theorem Erasure.refl (K : Conditions) (w : World) : Erasure K w [] w :=
  ⟨by simp [losses, exchanges], by simp, by simp [losses], by simp [exchanges],
    by simp [exchanges], by simp [exchanges]⟩

theorem Erasure.record?_start (h : Erasure K v events w) {x : Record} (hx : w.record? n = some x) :
    v.record? n = some x := by
  have hgone : ¬(n ∈ losses events ∨ n ∈ erased (exchanges events)) := fun hgone ↦ by
    rw [h.gone n hgone] at hx
    cases hx
  rw [not_or] at hgone
  rw [← h.kept n hgone.1 hgone.2, hx]

theorem Erasure.dropped (h : Erasure K v events w) {x : Record} (hx : w.record? n = some x) :
    Erasure K v (events ++ [.other (.drop n)]) (Change.apply w (.drop n)) := by
  have hrecord : ∀ m, (Change.apply w (.drop n)).record? m =
      if m = n then none else w.record? m := fun m ↦ Store.get?_drop _ _ _
  have hlosses : ∀ m, m ∈ losses (events ++ [.other (.drop n)]) ↔ m ∈ losses events ∨ m = n :=
    fun m ↦ by simp
  have hexchanges : exchanges (events ++ [.other (.drop n)]) = exchanges events := by simp
  refine ⟨fun m hm ↦ ?_, fun m hloss herased ↦ ?_, fun m hm ↦ ?_, ?_, ?_, fun m f hm ↦ ?_⟩
  · rw [hrecord]
    split
    · rfl
    · next hmn =>
      rw [hlosses, hexchanges, or_assoc, or_comm (b := _ ∈ _), ← or_assoc, or_iff_left hmn] at hm
      exact h.gone m hm
  · rw [hlosses, not_or] at hloss
    rw [hexchanges] at herased
    rw [hrecord, if_neg hloss.2]
    exact h.kept m hloss.1 herased
  · rw [hexchanges]
    obtain hm | rfl := (hlosses m).mp hm
    · exact h.exclusive m hm
    · intro herased
      rw [h.gone m (.inr herased)] at hx
      cases hx
  · rw [hexchanges]
    exact h.known
  · rw [hexchanges]
    exact h.unfailing
  · rw [hexchanges] at hm ⊢
    refine (h.refused m f hm).imp_right ?_
    rintro ⟨hfault, hf, hwhy⟩
    rw [hlosses]
    exact ⟨hfault, hf, hwhy.imp_left .inl⟩

/-- A request that changes no records, and that is not refused without a reason. -/
theorem Erasure.asked (h : Erasure K v events w) {e : Exchange} (he : e.erasure? = none)
    (hstore : w'.store = w.store)
    (hrefused : ∀ n f, e = ⟨.deleteRecord n, (.error f : Result Unit)⟩ →
      K.fault (.deleteRecord n) = some f ∨
        (K.fault (.deleteRecord n) = none ∧ f = .notFound n ∧ w.record? n = none)) :
    Erasure K v (events ++ [.asked w e]) w' := by
  have hrecord : ∀ m, w'.record? m = w.record? m := fun m ↦ by
    rw [World.record?, World.record?, hstore]
  have hlosses : losses (events ++ [.asked w e]) = losses events := by simp
  have herased : erased (exchanges (events ++ [.asked w e])) = erased (exchanges events) := by
    simp [he]
  refine ⟨fun m hm ↦ ?_, fun m hloss hm ↦ ?_, ?_, ?_, ?_, fun m f hm ↦ ?_⟩
  · rw [hlosses, herased] at hm
    exact (hrecord m).trans (h.gone m hm)
  · rw [hlosses] at hloss
    rw [herased] at hm
    exact (hrecord m).trans (h.kept m hloss hm)
  · rw [hlosses, herased]
    exact h.exclusive
  · rw [herased]
    exact h.known
  · rw [herased]
    exact h.unfailing
  · rw [exchanges_append, exchanges_asked, List.mem_append, List.mem_singleton] at hm
    rw [hlosses, herased]
    obtain hm | rfl := hm
    · exact h.refused m f hm
    · refine (hrefused m f rfl).imp_right ?_
      rintro ⟨hfault, hf, hnone⟩
      refine ⟨hfault, hf, ?_⟩
      -- a record that is not there was removed by somebody, or was never there
      by_cases hloss : m ∈ losses events
      · exact .inl hloss
      · by_cases hgone : m ∈ erased (exchanges events)
        · exact .inr (.inl hgone)
        · exact .inr (.inr ((h.kept m hloss hgone).symm.trans hnone))

theorem Erasure.deleted (h : Erasure K v events w) (hfault : K.fault (.deleteRecord n) = none)
    {x : Record} (hx : w.record? n = some x) (hstore : w'.store = w.store.drop n) :
    Erasure K v (events ++ [.asked w ⟨.deleteRecord n, (.ok () : Result Unit)⟩]) w' := by
  have hrecord : ∀ m, w'.record? m = if m = n then none else w.record? m := fun m ↦ by
    rw [World.record?, hstore]
    exact Store.get?_drop _ _ _
  have hlosses : losses (events ++ [.asked w ⟨.deleteRecord n, (.ok () : Result Unit)⟩]) =
      losses events := by simp
  have herased : ∀ m,
      m ∈ erased (exchanges (events ++ [.asked w ⟨.deleteRecord n, (.ok () : Result Unit)⟩])) ↔
        m ∈ erased (exchanges events) ∨ m = n := fun m ↦ by
    simp [erasure?]
  refine ⟨fun m hm ↦ ?_, fun m hloss hm ↦ ?_, fun m hloss hm ↦ ?_, fun m hm ↦ ?_, fun m hm ↦ ?_,
    fun m f hm ↦ ?_⟩
  · rw [hrecord]
    split
    · rfl
    · next hmn =>
      rw [hlosses, herased, ← or_assoc, or_iff_left hmn] at hm
      exact h.gone m hm
  · rw [hlosses] at hloss
    rw [herased, not_or] at hm
    rw [hrecord, if_neg hm.2]
    exact h.kept m hloss hm.1
  · rw [hlosses] at hloss
    obtain hm | rfl := (herased m).mp hm
    · exact h.exclusive m hloss hm
    · rw [h.gone m (.inl hloss)] at hx
      cases hx
  · obtain hm | rfl := (herased m).mp hm
    · exact h.known m hm
    · exact ⟨x, h.record?_start hx⟩
  · obtain hm | rfl := (herased m).mp hm
    · exact h.unfailing m hm
    · exact hfault
  · rw [exchanges_append, exchanges_asked, List.mem_append, List.mem_singleton] at hm
    rw [hlosses, herased]
    obtain hm | hm := hm
    · refine (h.refused m f hm).imp_right ?_
      rintro ⟨hfault, hf, hwhy⟩
      exact ⟨hfault, hf, hwhy.imp_right (Or.imp_left .inl)⟩
    · cases hm

/-- If others only remove records, and the program writes none, it is known at every time what has
become of the records. -/
theorem erasure_of_course {start : Scene α} (hdrops : K.OnlyDrops)
    (hkinds : ∀ e ∈ exchanges events, e.request.kind ∉ [.createRecord, .updateRecord])
    (hcourse : Course K start events s) : Erasure K start.world events s.world := by
  induction hcourse with
  | nil => exact .refl K start.world
  | snoc _ hstep ih =>
    rw [exchanges_append, List.forall_mem_append] at hkinds
    have h := ih hkinds.1
    cases hstep with
    | other hc =>
      obtain ⟨n, x, rfl, hx⟩ := hdrops _ _ hc
      exact h.dropped hx
    | @asked w w' _ _ r a _ hw =>
      have hkind := hkinds.2 _ (List.mem_singleton_self _)
      cases r with
      | deleteRecord n =>
        obtain ⟨f, hfault, rfl, hstore⟩ | ⟨hfault, ⟨x, hx⟩, rfl, hstore⟩ |
          ⟨hfault, hnone, rfl, hstore⟩ := hw.of_deleteRecord
        · refine h.asked rfl hstore fun m g he ↦ .inl ?_
          cases he
          exact hfault
        · exact h.deleted hfault hx hstore
        · refine h.asked rfl hstore fun m g he ↦ .inr ?_
          cases he
          exact ⟨hfault, rfl, hnone⟩
      | createRecord | updateRecord => simp [Request.kind] at hkind
      | _ => exact h.asked rfl (hw.store_eq rfl) fun m g he ↦ by cases he

theorem Conditions.OnlyDrops.drops (h : K.OnlyDrops) : ∀ w c, K.others w c → ∃ n, c = .drop n :=
  fun w c hc ↦ by
    obtain ⟨n, -, rfl, -⟩ := h w c hc
    exact ⟨n, rfl⟩

/-- As long as the program only reads, a record is gone if and only if somebody else removed it. -/
theorem record?_of_course {start : Scene α} (hdrops : K.OnlyDrops)
    (hreads : ∀ e ∈ exchanges events, e.request.isWrite = false)
    (hcourse : Course K start events s) (n : String) :
    s.world.record? n = if n ∈ losses events then none else start.world.record? n := by
  have hkinds : ∀ e ∈ exchanges events,
      e.request.kind ∉ [.createRecord, .updateRecord] := by
    rintro ⟨r, a⟩ he
    have hr := hreads _ he
    cases r with
    | createRecord | updateRecord => cases hr
    | _ => simp [Request.kind]
  have hnone : n ∉ erased (exchanges events) := fun hn ↦ by
    cases hreads _ (mem_erased_iff.mp hn)
  have h := erasure_of_course hdrops hkinds hcourse
  split
  · next hloss => exact h.gone n (.inl hloss)
  · next hloss => exact h.kept n hloss hnone

/-! ## The names without a node -/

/-- A tour that ends and begins with asking for the nodes of some names is answered with the nodes
there are. -/
theorem exists_found_of_course {names : List String} {next : Result (List Node) → Program α}
    (hdrops : K.OnlyDrops) (hfault : K.fault (.findNodes names) = none)
    (hcourse : Course K ⟨w, .ask (.findNodes names) next⟩ events s) {v : α}
    (hended : s.rest.Ended v) :
    ∃ past future between nodes, events = past ++ future ∧
      exchanges past = [⟨.findNodes names, (.ok nodes : Result (List Node))⟩] ∧
      nodes.Perm (names.filterMap w.nodes.get?) ∧
      Course K ⟨w, .ask (.findNodes names) next⟩ past ⟨between, next (.ok nodes)⟩ ∧
      Course K ⟨between, next (.ok nodes)⟩ future s := by
  obtain ⟨past, w', a, w'', future, rfl, hexchanges, hpast, hw, hfuture⟩ :=
    exists_asked_of_course hcourse hended
  obtain ⟨nodes, rfl, hnodes, -⟩ := (hw.pass hfault).of_findNodes
  rw [(cluster_eq_of_course hdrops.drops hpast).1] at hnodes
  have hx : Program.Step (.ask (.findNodes names) next) (.findNodes names)
      (.ok nodes : Result (List Node)) (next (.ok nodes)) := .ask _ _
  refine ⟨past ++ [.asked w' ⟨.findNodes names, (.ok nodes : Result (List Node))⟩], future, w'',
    nodes, ?_, ?_, hnodes, hpast.snoc (.asked hx hw), hfuture⟩
  · rw [List.append_assoc, List.singleton_append]
  · rw [exchanges_append, hexchanges, exchanges_asked, List.nil_append]

/-! ## One removal -/

/-- What is exchanged to remove the record of a name, and what comes of it. -/
inductive Removal (clusterId n : String) : List Exchange → Result Unit → Prop
  | removed {log : List Exchange} (h : Fleet.Tells (.delete ⟨n, clusterId⟩) log) :
    Removal clusterId n
      (⟨.deleteRecord n, (.ok () : Result Unit)⟩ :: ⟨.count .recordsDeleted, ()⟩ :: log) (.ok ())
  /-- The record was gone already. -/
  | absent {f : Failure} (hf : f.isNotFound) {log : List Exchange}
    (h : Fleet.Tells (.delete ⟨n, clusterId⟩) log) :
    Removal clusterId n (⟨.deleteRecord n, (.error f : Result Unit)⟩ :: log) (.ok ())
  | failed {f : Failure} (hf : ¬f.isNotFound) :
    Removal clusterId n [⟨.deleteRecord n, (.error f : Result Unit)⟩]
      (.error (.context ("error deleting NodeResourceInfo " ++ n) f))

variable {clusterId : String} {log : List Exchange} {result : Result Unit}

theorem removal_of_plays (h : (Record.deleteOrphan clusterId n).Plays log result) :
    Removal clusterId n log result := by
  obtain ⟨answer, rest, rfl, hrest⟩ := plays_ask_bind.mp h
  split at hrest
  · obtain ⟨⟨⟩, more, rfl, hmore⟩ := plays_ask_bind.mp hrest
    obtain ⟨told, ⟨⟩, final, rfl, htold, hfinal⟩ := plays_bind.mp hmore
    obtain ⟨rfl, rfl⟩ := plays_done.mp hfinal
    rw [List.append_nil]
    exact .removed (Fleet.tells_of_plays_tell htold)
  · next f =>
    by_cases hf : f.isNotFound
    · rw [if_pos hf] at hrest
      obtain ⟨told, ⟨⟩, final, rfl, htold, hfinal⟩ := plays_bind.mp hrest
      obtain ⟨rfl, rfl⟩ := plays_done.mp hfinal
      rw [List.append_nil]
      exact .absent hf (Fleet.tells_of_plays_tell htold)
    · rw [if_neg hf] at hrest
      obtain ⟨rfl, rfl⟩ := plays_done.mp hrest
      exact .failed hf

theorem Removal.removals (h : Removal clusterId n log result) : removals log = [n] := by
  cases h with
  | removed h => simp [h.removals, Request.removal?]
  | absent _ h => simp [h.removals, Request.removal?]
  | failed => rfl

theorem Removal.counted (h : Removal clusterId n log result) :
    counted .recordsDeleted log = (erased log).length := by
  cases h with
  | removed h => simp [erased_eq_nil h.removals, h.counted, Request.counts, erasure?]
  | absent _ h => simp [erased_eq_nil h.removals, h.counted, Request.counts, erasure?]
  | failed => rfl

/-- The failure to be told of a removal. That the record is gone is none. -/
def Conditions.spoil? (K : Conditions) (n : String) : Option Failure :=
  match K.fault (.deleteRecord n) with
  | none => none
  | some f =>
    if f.isNotFound then none else some (.context ("error deleting NodeResourceInfo " ++ n) f)

/-- Whether a record is there to be removed by the program: nothing is in the way, and nobody else
removes it. -/
def Conditions.yields (K : Conditions) (w : World) (events : List Event) (n : String) : Bool :=
  K.fault (.deleteRecord n) = none ∧ w.record? n ≠ none ∧ n ∉ losses events

/-- What came of the removal of a record that was tried once. -/
structure Settled (K : Conditions) (clusterId n : String) (w : World) (events : List Event)
    (w' : World) (log : List Exchange) (result : Result Unit) : Prop where
  gone : K.fault (.deleteRecord n) = none → w'.record? n = none
  erased : erased log = if K.yields w events n then [n] else []
  calls : calls log = if (K.spoil? n).isNone then [.delete ⟨n, clusterId⟩] else []
  told : Failure.told? result = K.spoil? n

theorem Erasure.settled (h : Erasure K w events w') (hr : Removal clusterId n log result)
    (hlog : ∀ e ∈ log, e ∈ exchanges events)
    (hown : n ∈ Exchange.erased (exchanges events) → n ∈ Exchange.erased log) :
    Settled K clusterId n w events w' log result := by
  cases hr with
  | removed htells =>
    have hmem : n ∈ Exchange.erased (exchanges events) :=
      mem_erased_iff.mpr (hlog _ List.mem_cons_self)
    obtain ⟨x, hx⟩ := h.known n hmem
    have hfault := h.unfailing n hmem
    have hloss : n ∉ losses events := fun hloss ↦ h.exclusive n hloss hmem
    have hspoil : K.spoil? n = none := by rw [Conditions.spoil?, hfault]
    refine ⟨fun _ ↦ h.gone n (.inr hmem), ?_, ?_, hspoil.symm⟩
    · have hyields : K.yields w events n = true := by simp [Conditions.yields, hfault, hx, hloss]
      simp [hyields, erased_eq_nil htells.removals, erasure?]
    · simp [hspoil, htells.calls, Request.call?]
  | @absent f hf log htells =>
    have hnone : Exchange.erased (⟨.deleteRecord n, (.error f : Result Unit)⟩ :: log) = [] := by
      simp [erased_eq_nil htells.removals, erasure?]
    rw [hnone] at hown
    have hwhy : (∃ g, K.fault (.deleteRecord n) = some g ∧ g.isNotFound) ∨
        (K.fault (.deleteRecord n) = none ∧ (n ∈ losses events ∨ w.record? n = none)) := by
      obtain hfault | ⟨hfault, -, hloss | herased | hstart⟩ :=
        h.refused n f (hlog _ List.mem_cons_self)
      · exact .inl ⟨f, hfault, hf⟩
      · exact .inr ⟨hfault, .inl hloss⟩
      · exact absurd (hown herased) List.not_mem_nil
      · exact .inr ⟨hfault, .inr hstart⟩
    have hspoil : K.spoil? n = none := by
      rw [Conditions.spoil?]
      obtain ⟨g, hfault, hg⟩ | ⟨hfault, -⟩ := hwhy
      · rw [hfault]
        exact if_pos hg
      · rw [hfault]
    refine ⟨fun hfault ↦ ?_, ?_, ?_, hspoil.symm⟩
    · by_cases hloss : n ∈ losses events
      · exact h.gone n (.inl hloss)
      · rw [h.kept n hloss fun herased ↦ List.not_mem_nil (hown herased)]
        simpa [hfault, hloss] using hwhy
    · have hyields : K.yields w events n = false := by
        obtain ⟨g, hfault, -⟩ | ⟨-, hloss | hstart⟩ := hwhy
        · simp [Conditions.yields, hfault]
        · simp [Conditions.yields, hloss]
        · simp [Conditions.yields, hstart]
      simp [hyields, hnone]
    · simp [hspoil, htells.calls, Request.call?]
  | @failed f hf =>
    have hfault : K.fault (.deleteRecord n) = some f := by
      obtain hfault | ⟨-, rfl, -⟩ := h.refused n f (hlog _ List.mem_cons_self)
      · exact hfault
      · exact absurd rfl hf
    have hspoil : K.spoil? n =
        some (.context ("error deleting NodeResourceInfo " ++ n) f) := by
      rw [Conditions.spoil?, hfault]
      exact if_neg hf
    refine ⟨fun hnone ↦ ?_, ?_, ?_, hspoil.symm⟩
    · rw [hfault] at hnone
      cases hnone
    · simp [Conditions.yields, hfault, erasure?]
    · simp [hspoil, Request.call?]

/-! ## The removals of a batch -/

/-- What became of the records of some names that were to be removed. -/
structure Removed (K : Conditions) (clusterId : String) (names : List String) (w : World)
    (events : List Event) (w' : World) : Prop where
  /-- A record is gone if somebody else removed it or nothing was in the way of removing it. -/
  record? : ∀ n, w'.record? n =
    if n ∈ losses events ∨ n ∈ names ∧ K.fault (.deleteRecord n) = none then none else w.record? n
  /-- To remove a record was tried once for each name. -/
  attempts : (removals (exchanges events)).Perm names
  erased : (erased (exchanges events)).Perm (names.filter (K.yields w events))
  counted : counted .recordsDeleted (exchanges events) =
    (Exchange.erased (exchanges events)).length
  /-- The registry was told of each name unless the removal failed, and of nothing else. -/
  calls : (calls (exchanges events)).Perm
    ((names.filter fun n ↦ (K.spoil? n).isNone).map fun n ↦ .delete ⟨n, clusterId⟩)
  kinds : ∀ e ∈ exchanges events, e.request.kind ∈ .deleteRecord :: Fleet.kinds

/-- If a tour has ended that is a batch of removals, what became of the records follows from what
others removed and from what failed. -/
theorem exists_removed_of_course {names : List String} {k : Int} {g : List (Result Unit) → α}
    (hdrops : K.OnlyDrops) (hnodup : names.Nodup)
    (hcourse : Course K ⟨w, .batch k (names.map (Record.deleteOrphan clusterId))
      fun results ↦ .done (g results)⟩ events s) {v : α} (hended : s.rest.Ended v) :
    ∃ results : String → Result Unit, Removed K clusterId names w events s.world ∧
      (∀ n ∈ names, Failure.told? (results n) = K.spoil? n) ∧ v = g (names.map results) := by
  obtain ⟨logs, results, hexchanged, hplays, hv⟩ := exists_plays_of_course hnodup hcourse hended
  have hremoval : ∀ n ∈ names, Removal clusterId n (logs n) (results n) := fun n hn ↦
    removal_of_plays (hplays n hn)
  have hkinds : ∀ e ∈ exchanges events, e.request.kind ∈ .deleteRecord :: Fleet.kinds := by
    intro e he
    obtain ⟨n, hn, he⟩ := List.mem_flatMap.mp (hexchanged.mem_iff.mp he)
    exact (Record.within_deleteOrphan clusterId n).of_plays (hplays n hn) e he
  have hnever : ∀ kind ∈ .deleteRecord :: Fleet.kinds, kind ∉ [.createRecord, .updateRecord] := by
    decide
  have herasure : Erasure K w events s.world :=
    erasure_of_course hdrops (fun e he ↦ hnever _ (hkinds e he)) hcourse
  -- what was removed under a name was removed by the item of this name
  have hof : ∀ n, n ∈ erased (exchanges events) → n ∈ names ∧ n ∈ erased (logs n) := by
    intro n hn
    obtain ⟨m, hm, hmem⟩ := List.mem_flatMap.mp ((perm_erased hexchanged).mem_iff.mp hn)
    have hnm := (erased_sublist_removals (logs m)).subset hmem
    rw [(hremoval m hm).removals, List.mem_singleton] at hnm
    exact hnm ▸ ⟨hm, hnm ▸ hmem⟩
  have hsettled : ∀ n ∈ names, Settled K clusterId n w events s.world (logs n) (results n) :=
    fun n hn ↦ herasure.settled (hremoval n hn)
      (fun e he ↦ hexchanged.mem_iff.mpr (List.mem_flatMap.mpr ⟨n, hn, he⟩)) fun h ↦ (hof n h).2
  have herased : (erased (exchanges events)).Perm (names.filter (K.yields w events)) := by
    refine (perm_erased hexchanged).trans (.of_eq ?_)
    rw [← List.map_id (List.filter _ _), map_filter_eq_flatMap]
    exact List.flatMap_congr fun n hn ↦ (hsettled n hn).erased
  refine ⟨results, ⟨fun n ↦ ?_, ?_, ?_, ?_, ?_, hkinds⟩, fun n hn ↦ (hsettled n hn).told, hv⟩
  · split
    · next hgone =>
      obtain hloss | ⟨hn, hfault⟩ := hgone
      · exact herasure.gone n (.inl hloss)
      · exact (hsettled n hn).gone hfault
    · next hkept =>
      rw [not_or, not_and] at hkept
      exact herasure.kept n hkept.1 fun hn ↦ hkept.2 (hof n hn).1 (herasure.unfailing n hn)
  · have hattempts : (names.flatMap fun n ↦ removals (logs n)) = names := by
      rw [List.flatMap_congr fun n hn ↦ (hremoval n hn).removals, List.flatMap_singleton']
    exact hattempts ▸ perm_removals hexchanged
  · exact herased
  · have hcounted : ∀ n ∈ names, counted .recordsDeleted (logs n) =
        if K.yields w events n then 1 else 0 := fun n hn ↦ by
      rw [(hremoval n hn).counted, (hsettled n hn).erased]
      split
      · rfl
      · rfl
    rw [counted_eq hexchanged hcounted, herased.length_eq, List.countP_eq_length_filter]
  · have hcalls : (names.flatMap fun n ↦ calls (logs n)) =
        (names.filter fun n ↦ (K.spoil? n).isNone).map fun n ↦ .delete ⟨n, clusterId⟩ := by
      rw [map_filter_eq_flatMap]
      exact List.flatMap_congr fun n hn ↦ (hsettled n hn).calls
    exact hcalls ▸ perm_calls hexchanged

end Tour

end NodeInventory
