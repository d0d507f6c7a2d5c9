import NodeInventory.Proofs.Accounting.Amounts

/-!
# Snapshots account exactly

A snapshot accounts for the tracked resources of which the node has any: for what the node has, what
it can give away, and what the containers of its pods request, each rounded once, when it is shown
(`snapshots_account_exactly`).

What is accounted for of one resource depends on nothing that is accounted for of another
(`resources_eq_ok_iff`), so it does not matter in which order resources are tracked, or how often.
Nor does it matter how an amount of `cpu` or `memory` is written, nor in which order pods and
containers are listed, as far as the sums can be formed in either order. Of any other resource the
order decides in which family the sum is shown.
-/

namespace NodeInventory.Snapshot

open Quantity (Alike Respells ShownAs SumOf leadingFamily)

variable {node : Node} {pods pods' : List Pod} {tracked tracked' : List String}
  {resource text context : String} {a : Accounting} {q start sum total given : Quantity}
  {spec : Spec}

/-! ## The parts of an accounting -/

/-- What a node can give away of a resource; nothing, if it does not say. -/
def Gives (node : Node) (resource : String) (q : Quantity) : Prop :=
  (∃ text, node.allocatable.get? resource = some text ∧ Quantity.parse text = .exact (.ok q)) ∨
    node.allocatable.get? resource = none ∧ q = .zero

theorem read_eq_ok_iff :
    Quantity.read context text = .exact (.ok q) ↔ Quantity.parse text = .exact (.ok q) := by
  refine ⟨fun h ↦ ?_, fun h ↦ read_eq h context⟩
  obtain ⟨r, hr, h⟩ := Calculation.bind_eq_exact_iff.mp h
  cases r with
  | ok p =>
    cases h
    exact hr
  | error fault => cases h

theorem allocatable_eq_ok_iff :
    allocatable node resource = .exact (.ok q) ↔ Gives node resource q := by
  rw [allocatable, Gives]
  cases node.allocatable.get? resource with
  | some text => simp [read_eq_ok_iff]
  | none => simp [eq_comm]

/-- Requests are added onto a sum if all of them can be read and none of the sums leaves the
bounds. -/
theorem addRequests_eq_ok_iff {texts : List String} :
    addRequests context start texts = .exact (.ok sum) ↔ ∃ amounts,
      List.Forall₂ (fun text q ↦ Quantity.parse text = .exact (.ok q)) texts amounts ∧
        amounts.foldlM Quantity.add? start = some sum := by
  constructor
  · intro h
    induction texts generalizing start with
    | nil =>
      cases h
      exact ⟨[], .nil, rfl⟩
    | cons text texts ih =>
      rw [addRequests] at h
      obtain ⟨q, hq, h⟩ := Calculation.andThen_eq_ok_iff.mp h
      split at h
      · next next hnext =>
        obtain ⟨amounts, hread, hsum⟩ := ih h
        refine ⟨q :: amounts, .cons (read_eq_ok_iff.mp hq) hread, ?_⟩
        rw [List.foldlM_cons, hnext]
        exact hsum
      · cases h
  · rintro ⟨amounts, hread, hsum⟩
    exact addRequests_eq context hread hsum

theorem sumOf_of_used (h : used node.name resource pods = .exact (.ok sum)) :
    SumOf (requests node.name resource pods) sum := by
  obtain ⟨amounts, hread, hsum⟩ := addRequests_eq_ok_iff.mp h
  exact Quantity.sumOf_of_foldlM hread hsum

/-- The three amounts of a resource that can be read off a node and its pods. -/
structure Amounts (node : Node) (pods : List Pod) (resource : String)
    (total given sum : Quantity) : Prop where
  total : ∃ text, node.capacity.get? resource = some text ∧ Quantity.parse text = .exact (.ok total)
  given : Gives node resource given
  used : used node.name resource pods = .exact (.ok sum)

/-- A resource of which the node has any is accounted for like this. -/
def Accounted (node : Node) (pods : List Pod) (resource : String) (a : Accounting) : Prop :=
  ∃ capacity, node.capacity.get? resource = some capacity ∧
    accounting node pods resource capacity = .exact (.ok a)

theorem Accounted.unique {b : Accounting} (ha : Accounted node pods resource a)
    (hb : Accounted node pods resource b) : a = b := by
  obtain ⟨capacity, hcapacity, ha⟩ := ha
  obtain ⟨capacity', hcapacity', hb⟩ := hb
  obtain rfl := Option.some.inj (hcapacity.symm.trans hcapacity')
  cases ha.symm.trans hb
  rfl

theorem Accounted.mem_keys (h : Accounted node pods resource a) : resource ∈ node.capacity.keys :=
  Dict.mem_keys_iff.mpr (h.imp fun _ h ↦ h.1)

theorem accounted_iff : Accounted node pods resource a ↔ ∃ total given sum,
    Amounts node pods resource total given sum ∧ total.renderAs resource = .exact a.total ∧
      given.renderAs resource = .exact a.allocatable ∧ sum.renderAs resource = .exact a.used := by
  constructor
  · rintro ⟨capacity, hcapacity, h⟩
    obtain ⟨total, htotal, h⟩ := Calculation.andThen_eq_ok_iff.mp h
    obtain ⟨given, hgiven, h⟩ := Calculation.andThen_eq_ok_iff.mp h
    obtain ⟨sum, hsum, h⟩ := Calculation.andThen_eq_ok_iff.mp h
    obtain ⟨totalText, htotalText, h⟩ := Calculation.bind_eq_exact_iff.mp h
    obtain ⟨givenText, hgivenText, h⟩ := Calculation.bind_eq_exact_iff.mp h
    obtain ⟨usedText, husedText, ⟨⟩⟩ := Calculation.bind_eq_exact_iff.mp h
    refine ⟨total, given, sum, ⟨?_, allocatable_eq_ok_iff.mp hgiven, hsum⟩, htotalText, hgivenText,
      husedText⟩
    exact ⟨capacity, hcapacity, read_eq_ok_iff.mp htotal⟩
  · rintro ⟨total, given, sum, ⟨⟨capacity, hcapacity, htotal⟩, hgiven, hsum⟩, htotalText,
      hgivenText, husedText⟩
    refine ⟨capacity, hcapacity, ?_⟩
    rw [accounting, read_eq htotal, Calculation.ok_andThen, allocatable_eq_ok_iff.mpr hgiven,
      Calculation.ok_andThen, hsum, Calculation.ok_andThen, htotalText, hgivenText, husedText]
    rfl

/-! ## Every resource on its own -/

/-- What is there after all resources are accounted for is what was accounted for of each of them,
and what was there before of all others. -/
theorem get?_of_resources {done all : Dict Accounting}
    (h : resources node pods tracked done = .exact (.ok all)) (resource : String) :
    (resource ∈ tracked ∧ ∃ a, Accounted node pods resource a ∧ all.get? resource = some a) ∨
      (resource ∈ tracked → resource ∉ node.capacity.keys) ∧
        all.get? resource = done.get? resource := by
  induction tracked generalizing done with
  | nil =>
    cases h
    exact .inr ⟨fun hmem ↦ absurd hmem List.not_mem_nil, rfl⟩
  | cons r rs ih =>
    rw [resources] at h
    split at h
    · next hnone =>
      obtain ⟨hmem, ha⟩ | ⟨hrest, hget⟩ := ih h
      · exact .inl ⟨List.mem_cons_of_mem r hmem, ha⟩
      · refine .inr ⟨fun hmem ↦ ?_, hget⟩
        obtain rfl | hmem := List.mem_cons.mp hmem
        · simp [Dict.mem_keys_iff, hnone]
        · exact hrest hmem
    · next capacity hcapacity =>
      obtain ⟨a, ha, h⟩ := Calculation.andThen_eq_ok_iff.mp h
      obtain ⟨hmem, ha⟩ | ⟨hrest, hget⟩ := ih h
      · exact .inl ⟨List.mem_cons_of_mem r hmem, ha⟩
      rw [Dict.get?_insert] at hget
      split at hget
      · next heq =>
        subst heq
        exact .inl ⟨List.mem_cons_self, a, ⟨capacity, hcapacity, ha⟩, hget⟩
      · next hne =>
        exact .inr ⟨fun hmem ↦ hrest ((List.mem_cons.mp hmem).resolve_left hne), hget⟩

theorem exists_accounted {done all : Dict Accounting}
    (h : resources node pods tracked done = .exact (.ok all)) (htracked : resource ∈ tracked)
    (hcapacity : resource ∈ node.capacity.keys) : ∃ a, Accounted node pods resource a := by
  obtain ⟨-, a, ha, -⟩ | ⟨hnone, -⟩ := get?_of_resources h resource
  · exact ⟨a, ha⟩
  · exact absurd hcapacity (hnone htracked)

theorem get?_resources_iff {all : Dict Accounting}
    (h : resources node pods tracked .empty = .exact (.ok all)) :
    all.get? resource = some a ↔ resource ∈ tracked ∧ Accounted node pods resource a := by
  obtain ⟨htracked, b, hb, hget⟩ | ⟨hnone, hget⟩ := get?_of_resources h resource
  · rw [hget, Option.some.injEq]
    exact ⟨fun heq ↦ heq ▸ ⟨htracked, hb⟩, fun ha ↦ hb.unique ha.2⟩
  · rw [hget]
    exact iff_of_false (by rintro ⟨⟩) fun ⟨htracked, ha⟩ ↦ hnone htracked ha.mem_keys

/-- Accounting for resources comes to the dictionary of what is accounted for of each of them, if
each of them can be accounted for. -/
theorem resources_eq_ok_iff {all : Dict Accounting} :
    resources node pods tracked .empty = .exact (.ok all) ↔
      (∀ r ∈ tracked, r ∈ node.capacity.keys → ∃ a, Accounted node pods r a) ∧
        ∀ r a, all.get? r = some a ↔ r ∈ tracked ∧ Accounted node pods r a := by
  constructor
  · exact fun h ↦ ⟨fun r ↦ exists_accounted h, fun r a ↦ get?_resources_iff h⟩
  · rintro ⟨hexists, hall⟩
    obtain ⟨all', hall'⟩ : ∃ all', resources node pods tracked .empty = .exact (.ok all') := by
      refine exists_resources (fun r hr capacity hcapacity ↦ ?_) .empty
      obtain ⟨a, capacity', hcapacity', ha⟩ := hexists r hr (Dict.mem_keys_iff.mpr ⟨_, hcapacity⟩)
      obtain rfl := Option.some.inj (hcapacity.symm.trans hcapacity')
      exact ⟨a, ha⟩
    have heq : all' = all := Dict.ext_get? fun r ↦ Option.ext fun a ↦
      (get?_resources_iff hall').trans (hall r a).symm
    rw [hall', heq]

theorem get?_resources_of_build (h : build node pods tracked = .exact (.ok spec)) :
    spec.resources.get? resource = some a ↔ resource ∈ tracked ∧ Accounted node pods resource a :=
  get?_resources_iff (build_eq_ok_iff.mp h).1

/-- A snapshot is the same of all nodes and pods of which the same is accounted for. -/
theorem build_of_accounted (capacity allocatable : Dict String)
    (h : build node pods tracked = .exact (.ok spec)) (htracked : ∀ r, r ∈ tracked' ↔ r ∈ tracked)
    (hkeys : ∀ r, r ∈ capacity.keys ↔ r ∈ node.capacity.keys)
    (haccounted : ∀ r a, Accounted node pods r a →
      Accounted { node with capacity, allocatable } pods' r a) :
    build { node with capacity, allocatable } pods' tracked' = .exact (.ok spec) := by
  obtain ⟨hresources, hspec⟩ := build_eq_ok_iff.mp h
  obtain ⟨hexists, hall⟩ := resources_eq_ok_iff.mp hresources
  refine build_eq_ok_iff.mpr ⟨resources_eq_ok_iff.mpr ⟨?_, fun r a ↦ ?_⟩, hspec⟩
  · intro r hr hcapacity
    obtain ⟨a, ha⟩ := hexists r ((htracked r).mp hr) ((hkeys r).mp hcapacity)
    exact ⟨a, haccounted r a ha⟩
  · rw [hall, htracked]
    refine and_congr_right fun hr ↦ ⟨haccounted r a, fun ha ↦ ?_⟩
    -- the resource is accounted for already, and in one way only
    obtain ⟨b, hb⟩ := hexists r hr ((hkeys r).mp ha.mem_keys)
    rwa [ha.unique (haccounted r b hb)]

/-! ## Amounts in other notations -/

/-- The texts of a dictionary say of each resource what those of another say. -/
def SameAmounts (d e : Dict String) : Prop :=
  ∀ resource, Option.Rel (Respells resource) (d.get? resource) (e.get? resource)

/-- A pod is bound to the same node as another, and its containers request the same. -/
structure SamePod (p p' : Pod) : Prop where
  nodeName : p'.nodeName = p.nodeName
  requests : List.Forall₂ SameAmounts p.requests p'.requests

theorem SameAmounts.get?_eq_none_iff {d e : Dict String} (h : SameAmounts d e) (resource : String) :
    e.get? resource = none ↔ d.get? resource = none := by
  have hrel := h resource
  generalize d.get? resource = x, e.get? resource = y at hrel
  cases hrel with
  | none => rfl
  | some => simp

theorem SameAmounts.mem_keys_iff {d e : Dict String} (h : SameAmounts d e) (resource : String) :
    resource ∈ e.keys ↔ resource ∈ d.keys := by
  rw [Dict.mem_keys_iff, Dict.mem_keys_iff, ← Option.ne_none_iff_exists', ne_eq,
    h.get?_eq_none_iff resource, ← ne_eq, Option.ne_none_iff_exists']

theorem SameAmounts.exists_alike {d e : Dict String} (h : SameAmounts d e)
    (htext : d.get? resource = some text) (hq : Quantity.parse text = .exact (.ok q)) :
    ∃ text' q', e.get? resource = some text' ∧ Quantity.parse text' = .exact (.ok q') ∧
      Alike resource q q' := by
  have hrel := h resource
  rw [htext] at hrel
  generalize e.get? resource = y at hrel
  cases hrel with
  | @some _ text' hspelled =>
    obtain ⟨q', hq', halike⟩ := hspelled.exists_alike hq
    exact ⟨text', q', rfl, hq', halike⟩

theorem Gives.respelled {allocatable : Dict String} (capacity : Dict String)
    (h : Gives node resource given) (hsame : SameAmounts node.allocatable allocatable) :
    ∃ given', Gives { node with capacity, allocatable } resource given' ∧
      Alike resource given given' := by
  obtain ⟨text, htext, hgiven⟩ | ⟨hnone, rfl⟩ := h
  · obtain ⟨text', given', htext', hgiven', halike⟩ := hsame.exists_alike htext hgiven
    exact ⟨given', .inl ⟨text', htext', hgiven'⟩, halike⟩
  · exact ⟨.zero, .inr ⟨(hsame.get?_eq_none_iff resource).mpr hnone, rfl⟩, .refl resource .zero⟩

theorem requests_samePod (h : List.Forall₂ SamePod pods pods') (name resource : String) :
    List.Forall₂ (Respells resource) (requests name resource pods)
      (requests name resource pods') := by
  have hbound : List.Forall₂ SamePod (pods.filter (·.nodeName == some name))
      (pods'.filter (·.nodeName == some name)) :=
    List.rel_filter (fun p p' hp ↦ by simp only [hp.nodeName]) h
  refine List.rel_flatMap hbound fun p p' hp ↦ ?_
  exact List.rel_filterMap (fun d e hd ↦ hd resource) hp.requests

/-- What is written in another notation is accounted for alike. -/
theorem Accounted.respelled {capacity allocatable : Dict String}
    (h : Accounted node pods resource a) (hcapacity : SameAmounts node.capacity capacity)
    (hallocatable : SameAmounts node.allocatable allocatable)
    (hpods : List.Forall₂ SamePod pods pods') :
    Accounted { node with capacity, allocatable } pods' resource a := by
  obtain ⟨total, given, sum, ⟨⟨text, htext, htotal⟩, hgiven, hused⟩, hshown⟩ := accounted_iff.mp h
  obtain ⟨text', total', htext', htotal', hsameTotal⟩ := hcapacity.exists_alike htext htotal
  obtain ⟨given', hgiven', hsameGiven⟩ := hgiven.respelled capacity hallocatable
  obtain ⟨amounts, hread, hsum⟩ := addRequests_eq_ok_iff.mp hused
  obtain ⟨amounts', hread', halike⟩ :=
    Respells.exists_forall₂_alike (requests_samePod hpods node.name resource) hread
  obtain ⟨sum', hsum', hsameSum⟩ := Alike.foldlM halike (.refl resource .zero) hsum
  refine accounted_iff.mpr ⟨total', given', sum', ⟨⟨text', htext', htotal'⟩, hgiven', ?_⟩, ?_⟩
  · exact addRequests_eq_ok_iff.mpr ⟨amounts', hread', hsum'⟩
  · rwa [hsameTotal.renderAs_eq, hsameGiven.renderAs_eq, hsameSum.renderAs_eq]

/-! ## Other orders -/

/-- Pods are listed in another order, and so are the containers of each of them. -/
def Shuffled (pods pods' : List Pod) : Prop :=
  ∃ between, pods.Perm between ∧
    List.Forall₂ (fun p p' ↦ p'.nodeName = p.nodeName ∧ p.requests.Perm p'.requests) between pods'

theorem Shuffled.requests_perm (h : Shuffled pods pods') (name resource : String) :
    (requests name resource pods).Perm (requests name resource pods') := by
  obtain ⟨between, hpods, hcontainers⟩ := h
  have hbetween : (requests name resource pods).Perm (requests name resource between) :=
    (hpods.filter _).flatMap_right _
  refine hbetween.trans ?_
  have hbound := List.rel_filter (p := fun p ↦ p.nodeName == some name)
    (q := fun p ↦ p.nodeName == some name) (fun p p' hp ↦ by simp only [hp.1]) hcontainers
  rw [requests, requests, List.flatMap_def, List.flatMap_def]
  refine List.Perm.flatten_congr ?_
  rw [List.forall₂_map_left_iff, List.forall₂_map_right_iff]
  exact hbound.imp fun p p' hp ↦ hp.2.filterMap _

/-- What is accounted for in another order: the same of what the node has and can give away, and of
what is requested a sum of the same amount. -/
theorem Accounted.shuffled {a' : Accounting} (h : Accounted node pods resource a)
    (h' : Accounted node pods' resource a') (hpods : Shuffled pods pods') :
    a'.total = a.total ∧ a'.allocatable = a.allocatable ∧ ∃ sum sum',
      SumOf (requests node.name resource pods) sum ∧
        SumOf (requests node.name resource pods') sum' ∧ sum'.nanos = sum.nanos ∧
          sum.renderAs resource = .exact a.used ∧ sum'.renderAs resource = .exact a'.used := by
  obtain ⟨total, given, sum, ⟨⟨text, htext, htotal⟩, hgiven, hsum⟩, htotalText, hgivenText,
    husedText⟩ := accounted_iff.mp h
  obtain ⟨total', given', sum', ⟨⟨text', htext', htotal'⟩, hgiven', hsum'⟩, htotalText',
    hgivenText', husedText'⟩ := accounted_iff.mp h'
  obtain rfl := Option.some.inj (htext.symm.trans htext')
  cases htotal.symm.trans htotal'
  cases (allocatable_eq_ok_iff.mpr hgiven).symm.trans (allocatable_eq_ok_iff.mpr hgiven')
  refine ⟨Calculation.exact.inj (htotalText'.symm.trans htotalText),
    Calculation.exact.inj (hgivenText'.symm.trans hgivenText), sum, sum', sumOf_of_used hsum,
    sumOf_of_used hsum', ?_, husedText, husedText'⟩
  exact (sumOf_of_used hsum).nanos_eq_of_perm (sumOf_of_used hsum') (hpods.requests_perm _ _)

/-- Two snapshots of a node, computed of the same pods in two orders, tell the same, up to the
families in which sums are shown. -/
structure Reordered (node : Node) (pods pods' : List Pod) (spec spec' : Spec) : Prop where
  rest : spec' = { spec with resources := spec'.resources }
  keys : spec'.resources.keys = spec.resources.keys
  ofNode : ∀ r a a', spec.resources.get? r = some a → spec'.resources.get? r = some a' →
    a'.total = a.total ∧ a'.allocatable = a.allocatable
  fixed : ∀ r a a', spec.resources.get? r = some a → spec'.resources.get? r = some a' →
    r = "cpu" ∨ r = "memory" → a' = a
  others : ∀ r a a', spec.resources.get? r = some a → spec'.resources.get? r = some a' →
    r ≠ "cpu" → r ≠ "memory" → ∃ nanos : ℤ,
      (⟨nanos, leadingFamily (requests node.name r pods)⟩ : Quantity).render = .exact a.used ∧
        (⟨nanos, leadingFamily (requests node.name r pods')⟩ : Quantity).render = .exact a'.used

theorem mem_keys_iff_of_build (h : build node pods tracked = .exact (.ok spec)) :
    resource ∈ spec.resources.keys ↔ resource ∈ tracked ∧ resource ∈ node.capacity.keys := by
  rw [Dict.mem_keys_iff]
  constructor
  · rintro ⟨a, ha⟩
    obtain ⟨htracked, haccounted⟩ := (get?_resources_of_build h).mp ha
    exact ⟨htracked, haccounted.mem_keys⟩
  · rintro ⟨htracked, hcapacity⟩
    obtain ⟨a, ha⟩ := exists_accounted (build_eq_ok_iff.mp h).1 htracked hcapacity
    exact ⟨a, (get?_resources_of_build h).mpr ⟨htracked, ha⟩⟩

theorem reordered_of_build {spec' : Spec} (h : build node pods tracked = .exact (.ok spec))
    (h' : build node pods' tracked = .exact (.ok spec')) (hpods : Shuffled pods pods') :
    Reordered node pods pods' spec spec' := by
  have hboth {r a a'} (ha : spec.resources.get? r = some a)
      (ha' : spec'.resources.get? r = some a') :=
    ((get?_resources_of_build h).mp ha).2.shuffled ((get?_resources_of_build h').mp ha').2 hpods
  constructor
  · rw [(build_eq_ok_iff.mp h').2, (build_eq_ok_iff.mp h).2]
    rfl
  · refine Dict.keys_eq_of_iff fun r ↦ ?_
    rw [← Dict.mem_keys_iff, ← Dict.mem_keys_iff, mem_keys_iff_of_build h, mem_keys_iff_of_build h']
  · intro r a a' ha ha'
    obtain ⟨htotal, hgiven, -⟩ := hboth ha ha'
    exact ⟨htotal, hgiven⟩
  · intro r a a' ha ha' hfixed
    obtain ⟨htotal, hgiven, sum, sum', -, -, hnanos, hused, hused'⟩ := hboth ha ha'
    have halike : Alike r sum sum' :=
      ⟨hnanos, fun hcpu hmemory ↦ absurd hfixed (not_or.mpr ⟨hcpu, hmemory⟩)⟩
    rw [halike.renderAs_eq, hused] at hused'
    cases a
    cases a'
    exact (Accounting.mk.injEq ..).mpr ⟨htotal, hgiven, (Calculation.exact.inj hused').symm⟩
  · intro r a a' ha ha' hcpu hmemory
    obtain ⟨-, -, sum, sum', hsum, hsum', hnanos, hused, hused'⟩ := hboth ha ha'
    refine ⟨sum.nanos, ?_, ?_⟩
    · rw [← hsum.family]
      exact (Quantity.shownAs_of_renderAs hused).other hcpu hmemory
    · rw [← hsum'.family, ← hnanos]
      exact (Quantity.shownAs_of_renderAs hused').other hcpu hmemory

/-! ## Snapshots -/

/-- What an accounting tells of a resource: what the node has of it, what it can give away, and the
exact sum of what the containers of its pods request. -/
structure Accounts (node : Node) (pods : List Pod) (resource : String) (a : Accounting) : Prop where
  total : ∃ text q, node.capacity.get? resource = some text ∧ Quantity.parse text = .exact (.ok q) ∧
    q.ShownAs resource a.total
  allocatable : ∃ q, Gives node resource q ∧ q.ShownAs resource a.allocatable
  used : ∃ q, SumOf (requests node.name resource pods) q ∧ q.ShownAs resource a.used

theorem Accounted.accounts (h : Accounted node pods resource a) :
    Accounts node pods resource a := by
  obtain ⟨total, given, sum, ⟨⟨text, htext, htotal⟩, hgiven, hsum⟩, htotalText, hgivenText,
    husedText⟩ := accounted_iff.mp h
  constructor
  · exact ⟨text, total, htext, htotal, Quantity.shownAs_of_renderAs htotalText⟩
  · exact ⟨given, hgiven, Quantity.shownAs_of_renderAs hgivenText⟩
  · exact ⟨sum, sumOf_of_used hsum, Quantity.shownAs_of_renderAs husedText⟩

/-- A snapshot tells, of the tracked resources of which the node has any and of no others, exactly
what there is. It is the same for every list that tracks the same resources, among whatever pods of
other nodes, and in whatever notation amounts of `cpu` and `memory` are written. Of the same pods in
another order, if it can be computed, it shows some sums in another family. -/
theorem snapshots_account_exactly (h : build node pods tracked = .exact (.ok spec)) :
    (∀ r, r ∈ spec.resources.keys ↔ r ∈ tracked ∧ r ∈ node.capacity.keys) ∧
    (∀ r a, spec.resources.get? r = some a → Accounts node pods r a) ∧
    (∀ tracked', (∀ r, r ∈ tracked' ↔ r ∈ tracked) → build node pods tracked' = .exact (.ok spec)) ∧
    (∀ pods', podsOf node.name pods' = podsOf node.name pods →
      build node pods' tracked = .exact (.ok spec)) ∧
    (∀ capacity allocatable pods', SameAmounts node.capacity capacity →
      SameAmounts node.allocatable allocatable → List.Forall₂ SamePod pods pods' →
        build { node with capacity, allocatable } pods' tracked = .exact (.ok spec)) ∧
    ∀ pods' spec', Shuffled pods pods' → build node pods' tracked = .exact (.ok spec') →
      Reordered node pods pods' spec spec' := by
  refine ⟨fun r ↦ mem_keys_iff_of_build h, ?_, ?_, ?_, ?_, ?_⟩
  · exact fun r a ha ↦ ((get?_resources_of_build h).mp ha).2.accounts
  · intro tracked' htracked
    exact build_of_accounted node.capacity node.allocatable h htracked (fun _ ↦ Iff.rfl)
      fun _ _ ha ↦ ha
  · intro pods' hpods
    rw [← build_podsOf, hpods, build_podsOf, h]
  · intro capacity allocatable pods' hcapacity hallocatable hpods
    exact build_of_accounted capacity allocatable h (fun _ ↦ Iff.rfl) hcapacity.mem_keys_iff
      fun r a ha ↦ ha.respelled hcapacity hallocatable hpods
  · exact fun pods' spec' hpods h' ↦ reordered_of_build h h' hpods

/-- Half a milli unit is rounded in the sum and nowhere else, in whatever notation, and though a pod
of another node is listed. -/
theorem halves_are_rounded_once :
    let node : Node :=
      { ownName := some "a", capacity := .ofList [("cpu", "4"), ("pods", "110")] }
    let pod (requests : List (String × String)) : Pod :=
      { nodeName := some "a", requests := [.ofList requests] }
    let pods := [pod [("cpu", "0.2505"), ("pods", "1")], pod [("cpu", "1500500u"), ("pods", "1k")]]
    let stranger : Pod := { nodeName := some "b", requests := [.ofList [("cpu", "two")]] }
    ∃ spec, build node pods ["pods", "cpu", "cpu"] = .exact (.ok spec) ∧
      spec.resources.get? "cpu" = some ⟨"4000m", "0m", "1751m"⟩ ∧
      spec.resources.get? "pods" = some ⟨"110", "0", "1001"⟩ ∧
      Accounts node pods "cpu" ⟨"4000m", "0m", "1751m"⟩ ∧
      build node pods ["cpu", "pods"] = .exact (.ok spec) ∧
      build node (stranger :: pods) ["pods", "cpu", "cpu"] = .exact (.ok spec) := by
  intro node pod pods stranger
  let spec := ofNode node
    (.ofList [("cpu", ⟨"4000m", "0m", "1751m"⟩), ("pods", ⟨"110", "0", "1001"⟩)])
  have h : build node pods ["pods", "cpu", "cpu"] = .exact (.ok spec) := rfl
  obtain ⟨-, haccounts, htracked, hstrangers, -⟩ := snapshots_account_exactly h
  refine ⟨spec, h, rfl, rfl, haccounts "cpu" _ rfl, htracked _ fun r ↦ ?_, hstrangers _ rfl⟩
  simp only [List.mem_cons, List.not_mem_nil, or_false]
  tauto

end NodeInventory.Snapshot
