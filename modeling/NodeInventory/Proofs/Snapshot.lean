import NodeInventory.Operation.Reconcile
import NodeInventory.Proofs.Dict
import NodeInventory.Snapshot

/-!
# Snapshots and what they depend on

A snapshot of a node can be computed if the amounts of its tracked resources can be read and shown
and what is requested of them can be summed up (`exists_build`). It depends on no pods but those
that are bound to the node (`build_podsOf`), so it does not matter whether pods of other nodes are
listed with them. It accounts for tracked resources only (`keys_subset_of_build`).

A record is not written again after it was written with a snapshot (`needsUpdate_eq_false_iff`).
-/

namespace NodeInventory

namespace Snapshot

variable {node : Node} {pods : List Pod} {tracked : List String} {resource : String}

/-! ## Pods of other nodes -/

/-- The pods that are bound to the named node. -/
def podsOf (node : String) (pods : List Pod) : List Pod := pods.filter (·.nodeName == some node)

theorem requests_podsOf (node resource : String) (pods : List Pod) :
    requests node resource (podsOf node pods) = requests node resource pods := by
  rw [requests, requests, podsOf, List.filter_filter]
  congr 2
  funext p
  exact Bool.and_self _

theorem accounting_podsOf (node : Node) (pods : List Pod) (resource capacity : String) :
    accounting node (podsOf node.name pods) resource capacity =
      accounting node pods resource capacity := by
  rw [accounting, accounting, used, used, requests_podsOf]

theorem resources_podsOf (node : Node) (pods : List Pod) (tracked : List String)
    (done : Dict Accounting) :
    resources node (podsOf node.name pods) tracked done = resources node pods tracked done := by
  induction tracked generalizing done with
  | nil => rfl
  | cons r rs ih =>
    rw [resources, resources]
    split
    · exact ih done
    · simp only [accounting_podsOf, ih]

/-- A snapshot depends on no pods of other nodes. -/
theorem build_podsOf (node : Node) (pods : List Pod) (tracked : List String) :
    build node (podsOf node.name pods) tracked = build node pods tracked := by
  rw [build, build, resources_podsOf]

/-! ## Amounts that can be read and shown -/

/-- There is room for an amount of a resource while it is shown. -/
def Showable (resource : String) (q : Quantity) : Prop := ∃ text, q.renderAs resource = .exact text

/-- The amounts of a resource of a node can be read, what is requested of it can be summed up, and
none of them leaves its word while it is shown. -/
structure Readable (node : Node) (pods : List Pod) (resource : String) : Prop where
  capacity : ∀ text, node.capacity.get? resource = some text →
    ∃ q, Quantity.parse text = .exact (.ok q) ∧ Showable resource q
  allocatable : ∀ text, node.allocatable.get? resource = some text →
    ∃ q, Quantity.parse text = .exact (.ok q) ∧ Showable resource q
  requests : ∃ (amounts : List Quantity) (sum : Quantity),
    List.Forall₂ (fun text q ↦ Quantity.parse text = .exact (.ok q))
      (requests node.name resource pods) amounts ∧ amounts.foldlM Quantity.add? .zero = some sum ∧
      Showable resource sum

theorem showable_zero (resource : String) : Showable resource .zero := by
  unfold Showable Quantity.renderAs
  split
  · exact ⟨_, rfl⟩
  · split
    · exact ⟨_, rfl⟩
    · exact ⟨_, rfl⟩

theorem read_eq {text : String} {q : Quantity} (h : Quantity.parse text = .exact (.ok q))
    (context : String) :
    Quantity.read context text = .exact (.ok q) := by
  rw [Quantity.read, h]
  rfl

theorem addRequests_eq (context : String) {texts : List String} {amounts : List Quantity}
    (hread : List.Forall₂ (fun text q ↦ Quantity.parse text = .exact (.ok q)) texts amounts)
    {start sum : Quantity} (hsum : amounts.foldlM Quantity.add? start = some sum) :
    addRequests context start texts = .exact (.ok sum) := by
  induction hread generalizing start with
  | nil =>
    cases hsum
    rfl
  | cons hq _ ih =>
    rw [List.foldlM_cons] at hsum
    obtain ⟨next, hnext, hrest⟩ := Option.bind_eq_some_iff.mp hsum
    rw [addRequests, read_eq hq, Calculation.ok_andThen, hnext]
    exact ih hrest

theorem Readable.exists_accounting (h : Readable node pods resource) {capacity : String}
    (hcapacity : node.capacity.get? resource = some capacity) :
    ∃ a, accounting node pods resource capacity = .exact (.ok a) := by
  obtain ⟨total, htotal, totalText, htotalText⟩ := h.capacity capacity hcapacity
  obtain ⟨amounts, sum, hread, hsum, usedText, husedText⟩ := h.requests
  have hused : used node.name resource pods = .exact (.ok sum) := addRequests_eq _ hread hsum
  obtain ⟨given, hgiven, givenText, hgivenText⟩ :
      ∃ given, Snapshot.allocatable node resource = .exact (.ok given) ∧ Showable resource given := by
    rw [Snapshot.allocatable]
    split
    · next text htext =>
      obtain ⟨q, hq, hshown⟩ := h.allocatable text htext
      exact ⟨q, read_eq hq _, hshown⟩
    · exact ⟨.zero, rfl, showable_zero resource⟩
  rw [accounting, read_eq htotal, Calculation.ok_andThen, hgiven, Calculation.ok_andThen, hused,
    Calculation.ok_andThen, htotalText, hgivenText, husedText]
  exact ⟨_, rfl⟩

theorem exists_resources (h : ∀ r ∈ tracked, ∀ capacity, node.capacity.get? r = some capacity →
      ∃ a, accounting node pods r capacity = .exact (.ok a)) (done : Dict Accounting) :
    ∃ all, resources node pods tracked done = .exact (.ok all) := by
  induction tracked generalizing done with
  | nil => exact ⟨done, rfl⟩
  | cons r rs ih =>
    have hrest := ih fun s hs ↦ h s (List.mem_cons_of_mem r hs)
    rw [resources]
    split
    · exact hrest done
    · next capacity hcapacity =>
      obtain ⟨a, ha⟩ := h r List.mem_cons_self capacity hcapacity
      rw [ha]
      exact hrest _

/-- A node has a snapshot if the amounts of all tracked resources can be read and shown. -/
theorem exists_build (h : ∀ r ∈ tracked, Readable node pods r) :
    ∃ spec, build node pods tracked = .exact (.ok spec) := by
  obtain ⟨all, hall⟩ := exists_resources (fun r hr _ ↦ (h r hr).exists_accounting) .empty
  rw [build, hall]
  exact ⟨_, rfl⟩

/-- The spec of a node with an accounting of its resources. -/
def ofNode (node : Node) (resources : Dict Accounting) : Spec where
  nodeName := node.name
  resources
  status := status node
  roles := roles node
  scheduleVersion := node.software.kubeletVersion
  internalIp := internalIp node
  os := node.software.osImage
  kernelVersion := node.software.kernelVersion
  containerRuntime := node.software.containerRuntimeVersion

theorem build_eq_ok_iff {spec : Spec} : build node pods tracked = .exact (.ok spec) ↔
    resources node pods tracked .empty = .exact (.ok spec.resources) ∧
      spec = ofNode node spec.resources := by
  rw [build, Calculation.andThen_eq_ok_iff]
  constructor
  · rintro ⟨all, hall, ⟨⟩⟩
    exact ⟨hall, rfl⟩
  · rintro ⟨hall, hspec⟩
    exact ⟨spec.resources, hall, congrArg (Calculation.exact ∘ Except.ok) hspec.symm⟩

theorem nodeName_of_build {spec : Spec} (h : build node pods tracked = .exact (.ok spec)) :
    spec.nodeName = node.name := congrArg Spec.nodeName (build_eq_ok_iff.mp h).2

/-! ## What a snapshot accounts for -/

theorem keys_subset_of_resources {done all : Dict Accounting} (hdone : done.keys ⊆ tracked)
    {later : List String} (hlater : later ⊆ tracked)
    (h : resources node pods later done = .exact (.ok all)) : all.keys ⊆ tracked := by
  induction later generalizing done with
  | nil =>
    cases h
    exact hdone
  | cons r rs ih =>
    obtain ⟨hr, hrs⟩ := List.cons_subset.mp hlater
    rw [resources] at h
    split at h
    · exact ih hdone hrs h
    · next capacity _ =>
      obtain ⟨a, -, h⟩ := Calculation.andThen_eq_ok_iff.mp h
      refine ih (fun k hk ↦ ?_) hrs h
      obtain ⟨b, hb⟩ := Dict.mem_keys_iff.mp hk
      rw [Dict.get?_insert] at hb
      split at hb
      · next hkr => exact hkr ▸ hr
      · exact hdone (Dict.mem_keys_iff.mpr ⟨b, hb⟩)

/-- A snapshot accounts for tracked resources only. -/
theorem keys_subset_of_build {spec : Spec} (h : build node pods tracked = .exact (.ok spec)) :
    spec.resources.keys ⊆ tracked :=
  keys_subset_of_resources (List.nil_subset _) (List.Subset.refl _) (build_eq_ok_iff.mp h).1

end Snapshot

/-! ## Records that are up to date -/

namespace Record

/-- A record is written for nothing but its status and its accounting. -/
theorem needsUpdate_eq_false_iff {stored snapshot : Spec} :
    needsUpdate stored snapshot = false ↔
      stored.status = snapshot.status ∧ stored.resources = snapshot.resources := by
  simp only [needsUpdate, Bool.or_eq_false_iff, bne_eq_false_iff_eq, List.any_eq_false, bne_iff_ne,
    ne_eq, Decidable.not_not, and_assoc]
  apply and_congr_right
  intro _
  constructor
  · rintro ⟨hsize, hall⟩
    exact Dict.eq_of_size_eq hsize hall
  · intro h
    rw [h]
    exact ⟨rfl, fun a ha ↦ Dict.mem_toList_iff.mp ha⟩

end Record

end NodeInventory
