import NodeInventory.Fleet.Basic
import NodeInventory.Proofs.Accounting.Exactness

/-!
# Snapshots as the registry is told of them

The registry is told of amounts and of their unit apart from each other, and the unit is taken off
the text in which an amount is recorded. A text that does not end in the unit would be told as it
is, under a unit in which it was not meant. No text of a snapshot is told like that: what is written
for a resource is a number before the unit of that resource (`exists_number_of_renderAs`), so
nothing is lost between the record and the registry (`snapshots_are_told_in_full`).
-/

namespace NodeInventory

variable {node : Node} {pods : List Pod} {tracked : List String} {spec : Spec}

namespace Quantity

variable {resource text : String} {q : Quantity}

/-- An amount is shown as a number before the unit in which the registry is told of it. -/
theorem exists_number_of_renderAs (h : q.renderAs resource = .exact text) :
    ∃ number, text = number ++ Fleet.unitOf resource ∧
      (resource = "cpu" → ∃ m, q.milliValue = .exact m ∧ number = toString m) ∧
      (resource = "memory" → ∃ m, q.value = .exact m ∧ number = toString (m.tdiv (2 ^ 20))) := by
  rw [renderAs] at h
  rw [Fleet.unitOf]
  split at h
  · next hcpu =>
    obtain ⟨m, hm, ⟨⟩⟩ := Calculation.bind_eq_exact_iff.mp h
    refine ⟨toString m, by rw [if_pos hcpu], fun _ ↦ ⟨m, hm, rfl⟩, ?_⟩
    rintro rfl
    exact absurd hcpu (by decide)
  · next hcpu =>
    rw [if_neg hcpu]
    split at h
    · next hmemory =>
      obtain ⟨m, hm, ⟨⟩⟩ := Calculation.bind_eq_exact_iff.mp h
      exact ⟨toString (m.tdiv unitsPerMebi), by rw [if_pos hmemory], (absurd · hcpu),
        fun _ ↦ ⟨m, hm, rfl⟩⟩
    · next hmemory =>
      refine ⟨text, ?_, (absurd · hcpu), (absurd · hmemory)⟩
      rw [if_neg hmemory, String.append_empty]

end Quantity

namespace Fleet

theorem map_name_resourcesOf (spec : Spec) :
    (resourcesOf spec).map (·.name) = spec.resources.keys := by
  rw [resourcesOf, List.map_map]
  rfl

theorem mem_resourcesOf {e : Resource} (h : e ∈ resourcesOf spec) :
    ∃ a, spec.resources.get? e.name = some a ∧ e = .ofAccounting e.name a := by
  obtain ⟨⟨name, a⟩, hmem, rfl⟩ := List.mem_map.mp h
  exact ⟨a, Dict.mem_toList_iff.mp hmem, rfl⟩

/-- What the registry is told of a resource: what the record says, with the unit set apart, and of
`cpu` and `memory` the amounts of the node as integers. -/
structure Resource.Tells (e : Resource) (a : Accounting) (total given : Quantity) : Prop where
  capacity : e.capacity ++ e.unit = a.total
  allocatable : e.allocatable ++ e.unit = a.allocatable
  cpu : e.name = "cpu" → ∃ m m', total.milliValue = .exact m ∧ given.milliValue = .exact m' ∧
    e.capacity = toString m ∧ e.allocatable = toString m'
  memory : e.name = "memory" → ∃ m m', total.value = .exact m ∧ given.value = .exact m' ∧
    e.capacity = toString (m.tdiv (2 ^ 20)) ∧ e.allocatable = toString (m'.tdiv (2 ^ 20))

theorem tells_ofAccounting {resource : String} {a : Accounting} {total given : Quantity}
    (htotal : total.renderAs resource = .exact a.total)
    (hgiven : given.renderAs resource = .exact a.allocatable) :
    (Resource.ofAccounting resource a).Tells a total given := by
  obtain ⟨number, htext, hcpu, hmemory⟩ := Quantity.exists_number_of_renderAs htotal
  obtain ⟨number', htext', hcpu', hmemory'⟩ := Quantity.exists_number_of_renderAs hgiven
  have hcapacity : (Resource.ofAccounting resource a).capacity = number := by
    rw [Resource.ofAccounting, htext, withoutUnit_append]
  have hallocatable : (Resource.ofAccounting resource a).allocatable = number' := by
    rw [Resource.ofAccounting, htext', withoutUnit_append]
  constructor
  · rw [hcapacity, htext]
    rfl
  · rw [hallocatable, htext']
    rfl
  · intro hname
    obtain ⟨m, hm, hnumber⟩ := hcpu hname
    obtain ⟨m', hm', hnumber'⟩ := hcpu' hname
    exact ⟨m, m', hm, hm', hcapacity.trans hnumber, hallocatable.trans hnumber'⟩
  · intro hname
    obtain ⟨m, hm, hnumber⟩ := hmemory hname
    obtain ⟨m', hm', hnumber'⟩ := hmemory' hname
    exact ⟨m, m', hm, hm', hcapacity.trans hnumber, hallocatable.trans hnumber'⟩

end Fleet

namespace Snapshot

/-- The registry is told of every resource of a snapshot, in the order of their names, and what it
is told is what the record says. Of `cpu` and `memory` it is told integers: the milli units and the
mebi units of what the node has and can give away. -/
theorem snapshots_are_told_in_full (h : build node pods tracked = .exact (.ok spec)) :
    (Fleet.resourcesOf spec).map (·.name) = spec.resources.keys ∧
    spec.resources.keys.Pairwise (· < ·) ∧
    ∀ e ∈ Fleet.resourcesOf spec, ∃ a, spec.resources.get? e.name = some a ∧
      ∃ text total given, node.capacity.get? e.name = some text ∧
        Quantity.parse text = .exact (.ok total) ∧ Gives node e.name given ∧ e.Tells a total given := by
  refine ⟨Fleet.map_name_resourcesOf spec, List.pairwise_map.mpr spec.resources.sorted, ?_⟩
  intro e he
  obtain ⟨a, ha, htold⟩ := Fleet.mem_resourcesOf he
  obtain ⟨total, given, sum, ⟨⟨text, htext, htotal⟩, hgiven, -⟩, htotalText, hgivenText, -⟩ :=
    accounted_iff.mp ((get?_resources_of_build h).mp ha).2
  refine ⟨_, ha, text, total, given, htext, htotal, hgiven, ?_⟩
  rw [htold]
  exact Fleet.tells_ofAccounting htotalText hgivenText

/-- A node that owes memory and does not say what it can give away. -/
theorem debt_is_told_with_its_sign :
    let node : Node :=
      { ownName := some "a", capacity := .ofList [("memory", "-1536Ki"), ("cpu", "1e-4")] }
    ∃ spec, build node [] ["memory", "cpu"] = .exact (.ok spec) ∧
      (Fleet.resourcesOf spec).map (·.name) = ["cpu", "memory"] ∧
      ∃ e ∈ Fleet.resourcesOf spec, e.name = "memory" ∧ e.capacity = "-1" ∧
        e.capacity ++ e.unit = "-1Mi" ∧ e.allocatable ++ e.unit = "0Mi" := by
  intro node
  let spec := ofNode node
    (.ofList [("cpu", ⟨"1m", "0m", "0m"⟩), ("memory", ⟨"-1Mi", "0Mi", "0Mi"⟩)])
  have h : build node [] ["memory", "cpu"] = .exact (.ok spec) := rfl
  obtain ⟨hnames, -, hall⟩ := snapshots_are_told_in_full h
  let e : Fleet.Resource := { name := "memory", capacity := "-1", allocatable := "0", unit := "Mi" }
  have he : e ∈ Fleet.resourcesOf spec := List.mem_cons_of_mem _ List.mem_cons_self
  obtain ⟨a, ha, text, total, given, -, -, -, htells⟩ := hall e he
  obtain rfl := Option.some.inj ha
  exact ⟨spec, h, hnames, e, he, rfl, rfl, htells.capacity, htells.allocatable⟩

end Snapshot

end NodeInventory
