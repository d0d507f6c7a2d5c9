import Mathlib.Data.List.Perm.Basic
import NodeInventory.Proofs.Failure
import NodeInventory.Proofs.Tour.Logs
import NodeInventory.Proofs.Tour.Naming

/-!
# An undisturbed round of heartbeats

The registry is asked about the node of every record, and nobody else does anything meanwhile. The
registry may answer whatever it likes; how it answers to the heartbeat of a node is its *pulse*.
What is called, counted and told in the end is read off the pulses, record by record
(`beat_goes_by_the_pulse`): every node gets its heartbeat, a node that is unknown is registered as
its record has it, and the failures are those of the heartbeats in the order of the listing. The
store stays as it is.
-/

namespace NodeInventory.Tour

open Simulation Exchange NodeInventory.Action

variable {pulse : String → Result Fleet.Response} {w w' home : World} {clusterId n : String}
  {x : Record} {log : List Exchange} {v : Result Unit}

/-- The failure to be told of a heartbeat that is not answered. -/
def lapse? (pulse : String → Result Fleet.Response) (n : String) : Option Failure :=
  match pulse n with
  | .error f => some (.context ("error sending heartbeat for " ++ n) (.rpc f))
  | .ok _ => none

/-- The registry answers that it does not know the node. -/
def isUnknown (pulse : String → Result Fleet.Response) (n : String) : Bool :=
  match pulse n with
  | .error _ => false
  | .ok r => r.code = 404

/-- Nobody else does anything and nothing fails. The registry answers each heartbeat by the pulse,
and other calls as it likes. -/
def beating (pulse : String → Result Fleet.Response) : Conditions where
  others _ _ := False
  fault _ := none
  fleet call a := ∀ node, call = .heartbeat node → a = pulse node.nodeName
  answers call := by
    cases call with
    | heartbeat node => exact ⟨pulse node.nodeName, by rintro _ ⟨⟩; rfl⟩
    | _ => exact ⟨.ok { code := 200 }, by rintro _ ⟨⟩⟩

/-! ## Registrations -/

/-- What is told of an amount beside its unit: what stands before the unit, or the amount as it is
if it does not end in the unit. -/
def IsTold (unit amount told : String) : Prop :=
  amount = told ++ unit ∨ ¬ unit.toList <:+ amount.toList ∧ told = amount

/-- What the registry is told of a resource that is accounted for. -/
structure Translates (resource : String) (a : Accounting) (e : Fleet.Resource) : Prop where
  name : e.name = resource
  cpu : resource = "cpu" → e.unit = "m"
  memory : resource = "memory" → e.unit = "Mi"
  other : resource ≠ "cpu" → resource ≠ "memory" → e.unit = ""
  capacity : IsTold e.unit a.total e.capacity
  allocatable : IsTold e.unit a.allocatable e.allocatable
  removed : e.removed = false

/-- The registry is told of a node as its record has it: of the status, and of every resource. -/
structure Registers (cluster : String) (x : Record) (report : Fleet.NodeReport) : Prop where
  nodeName : report.nodeName = x.spec.nodeName
  clusterId : report.clusterId = cluster
  status : report.status = x.spec.status
  resources : List.Forall₂ (fun e ↦ Translates e.1 e.2) x.spec.resources.toList report.resources

theorem isTold_withoutUnit (unit amount : String) :
    IsTold unit amount (Fleet.withoutUnit unit amount) := by
  unfold IsTold Fleet.withoutUnit
  by_cases hsuffix : unit.toList <:+ amount.toList
  · left
    obtain ⟨told, htold⟩ := hsuffix
    obtain rfl : amount = String.ofList told ++ unit := by
      rw [← String.toList_inj, String.toList_append, String.toList_ofList, htold]
    have hunit := Fleet.withoutUnit_append (String.ofList told) unit
    unfold Fleet.withoutUnit at hunit
    rw [hunit]
  · right
    refine ⟨hsuffix, if_neg ?_⟩
    rwa [List.isSuffixOf_iff_suffix]

theorem translates_ofAccounting (resource : String) (a : Accounting) :
    Translates resource a (.ofAccounting resource a) where
  name := rfl
  cpu hname := if_pos hname
  memory hname := by
    subst hname
    rfl
  other hcpu hmemory := (if_neg hcpu).trans (if_neg hmemory)
  capacity := isTold_withoutUnit _ _
  allocatable := isTold_withoutUnit _ _
  removed := rfl

theorem registers_ofSpec (clusterId : String) (x : Record) :
    Registers clusterId x (.ofSpec clusterId x.spec) where
  nodeName := rfl
  clusterId := rfl
  status := rfl
  resources := by
    change List.Forall₂ _ _ (x.spec.resources.toList.map _)
    rw [List.forall₂_map_right_iff]
    exact List.forall₂_same.mpr fun e _ ↦ translates_ofAccounting e.1 e.2

/-! ## One heartbeat -/

/-- What can be heard in a world that nobody changes. -/
def Heard (pulse : String → Result Fleet.Response) (home : World) :
    (r : Request) → r.Answer → Prop
  | .fetchRecord n, a => a = (.ok (home.record? n) : Result (Option Record))
  | .callFleet (.heartbeat node), a => a = pulse node.nodeName
  | _, _ => True

/-- Who sends a heartbeat reads, calls, counts and reports. -/
def listening (pulse : String → Result Fleet.Response) (home : World) : Contract Unit where
  allows _ r := r.kind ∈ .fetchRecord :: Fleet.kinds
  answers _ r a _ := Heard pulse home r a

/-- The store stays as it is. -/
def beatTerms (pulse : String → Result Fleet.Response) (home : World) :
    Terms (beating pulse) Unit where
  inv w := w.store = home.store
  look _ _ := ()
  contract _ := listening pulse home
  answered {w w' n r a} hinv hr hw := by
    have hwrite : r.isWrite = false := by
      cases r with
      | createRecord | updateRecord | deleteRecord => simp [listening, Request.kind] at hr
      | _ => rfl
    refine ⟨(hw.store_eq hwrite).trans hinv, ?_, fun _ _ ↦ rfl⟩
    cases hw with
    | answered =>
      cases r with
      | fetchRecord name =>
        change Except.ok ((w.store.records.get? name).map fun r ↦ r) = Except.ok (home.record? name)
        rw [hinv, Option.map_id']
        rfl
      | callFleet => exact absurd rfl ‹_›
      | _ => trivial
    | failed _ hfault => cases hfault
    | found => trivial
    | @told call a ha =>
      cases call with
      | heartbeat node => exact ha node rfl
      | _ => trivial
  undisturbed _ hc := hc.elim

/-- What the heartbeat of a node comes to, by its log and its result. -/
structure Beaten (pulse : String → Result Fleet.Response) (home : World) (clusterId n : String)
    (log : List Exchange) (v : Result Unit) : Prop where
  calls : calls log = .heartbeat ⟨n, clusterId⟩ ::
    if isUnknown pulse n then
      (home.record? n).toList.map fun x ↦ .add (.ofSpec clusterId x.spec)
    else []
  counted : counted .selfHeals log = if isUnknown pulse n then 1 else 0
  result : Failure.told? v = lapse? pulse n

theorem listens {s : Unit × List Exchange} {r : Request}
    (hr : r.kind ∈ .fetchRecord :: Fleet.kinds) : (listening pulse home).logged.allows s r :=
  hr

theorem meets_askFleet (s : Unit × List Exchange) (hs : s.2 = []) :
    (Record.askFleet clusterId n).Meets (listening pulse home).logged
      (fun t answer ↦ calls t.2 = [.heartbeat ⟨n, clusterId⟩] ∧ counted .selfHeals t.2 = 0 ∧
        answer = (Fleet.codeOf (pulse n)).within ("error sending heartbeat for " ++ n)) s := by
  refine Meets.bind (meets_ask_bind (listens (by simp [Request.kind])) fun a t hat ↦ ?_)
  obtain ⟨rfl, hlog⟩ := hat
  rw [hs, List.nil_append] at hlog
  dsimp only
  split
  · next code hcode =>
    rw [hcode]
    refine ⟨?_, ?_, rfl⟩
    · simp [hlog, Request.call?]
    · simp [hlog, Request.counts]
  · next f hcode =>
    refine meets_ask_bind (listens (by simp [Request.kind])) fun a u hau ↦ ?_
    rw [hcode]
    refine ⟨?_, ?_, rfl⟩
    · simp [hau.2, hlog, Request.call?]
    · simp [hau.2, hlog, Request.counts]

/-- A node that is unknown is registered as its record has it. -/
theorem meets_create_of_present (hx : home.record? n = some x) (hn : x.spec.nodeName = n)
    (s : Unit × List Exchange) :
    (Record.create clusterId x.spec).Meets (listening pulse home).logged
      (fun t result ↦ calls t.2 = calls s.2 ++ [.add (.ofSpec clusterId x.spec)] ∧
        counted .selfHeals t.2 = counted .selfHeals s.2 ∧ ∃ outcome, result = .ok outcome) s := by
  subst hn
  refine Meets.bind (meets_ask_bind (listens (by simp [Request.kind])) fun a t hat ↦ ?_)
  obtain ⟨rfl, hlog⟩ := hat
  rw [hx]
  refine Meets.bind ((Fleet.meets_tell (fun _ _ ↦ List.mem_cons_of_mem _) _ _ _ t).imp ?_)
  rintro u _ ⟨more, hmore, htells⟩
  refine ⟨?_, ?_, _, rfl⟩
  · simp [hmore, hlog, htells.calls, Request.call?]
  · simp [hmore, hlog, htells.counted, Request.counts]

theorem meets_heartbeat (hx : home.record? n = some x) (hn : x.spec.nodeName = n)
    (s : Unit × List Exchange) (hs : s.2 = []) :
    (Record.heartbeat clusterId n).Meets (listening pulse home).logged
      (fun t v ↦ Beaten pulse home clusterId n t.2 v) s := by
  refine Meets.bind ((meets_askFleet s hs).imp ?_)
  rintro t answer ⟨hcalls, hcounted, rfl⟩
  cases hpulse : pulse n with
  | error f =>
    refine ⟨?_, ?_, ?_⟩
    · simp [hcalls, isUnknown, hpulse]
    · simp [hcounted, isUnknown, hpulse]
    · rw [lapse?, hpulse]
      rfl
  | ok r =>
    dsimp only [Fleet.codeOf, Result.within_ok]
    have hlapse : lapse? pulse n = none := by rw [lapse?, hpulse]
    by_cases hunknown : r.code = Fleet.unknownNode
    · have hknown : isUnknown pulse n = true := by
        rw [isUnknown, hpulse]
        exact decide_eq_true hunknown
      rw [if_neg (not_not.mpr hunknown)]
      refine Meets.bind (meets_ask_bind (listens (by simp [Request.kind])) fun a u hau ↦ ?_)
      obtain ⟨rfl, hlog⟩ := hau
      rw [hx]
      refine meets_ask_bind (listens (by simp [Request.kind])) fun a u' hau' ↦ ?_
      refine Meets.bind ((meets_create_of_present hx hn u').imp ?_)
      rintro u'' _ ⟨hcalls', hcounted', outcome, rfl⟩
      refine ⟨?_, ?_, ?_⟩
      · simp [hcalls', hau'.2, hlog, hcalls, hknown, hx, Request.call?]
      · simp [hcounted', hau'.2, hlog, hcounted, hknown, Request.counts]
      · rw [hlapse]
        rfl
    · have hknown : isUnknown pulse n = false := by
        rw [isUnknown, hpulse]
        exact decide_eq_false hunknown
      rw [if_pos hunknown]
      refine ⟨?_, ?_, ?_⟩
      · simp [hcalls, hknown]
      · simp [hcounted, hknown]
      · rw [hlapse]
        rfl

/-! ## The whole round -/

variable {s : Scene (Result Unit)} {events : List Event} {pageSize : ℕ} {parallelism : Int}

/-- What a round of heartbeats has come to, record by record in the order of the listing. -/
structure Round (pulse : String → Result Fleet.Response) (clusterId : String) (w : World)
    (log : List Exchange) (w' : World) (v : Result Unit) : Prop where
  /-- Every node gets its heartbeat, one that is unknown is registered as its record has it, and
  there are no other calls. -/
  calls : ∃ reports, List.Forall₂ (Registers clusterId)
      (w.store.records.values.filter fun x ↦ isUnknown pulse x.spec.nodeName) reports ∧
    (calls log).Perm
      ((w.store.records.values.map fun x ↦ .heartbeat ⟨x.spec.nodeName, clusterId⟩) ++
        reports.map .add)
  store : w'.store = w.store
  counted : counted .selfHeals log =
    w.store.records.values.countP fun x ↦ isUnknown pulse x.spec.nodeName
  /-- The failures are those of the heartbeats. -/
  result : v = Failure.summary
    (w.store.records.values.filterMap fun x ↦ lapse? pulse x.spec.nodeName)

theorem Keyed.keys_eq (h : Keyed w) :
    w.store.records.keys = w.store.records.values.map (·.spec.nodeName) :=
  (Dict.map_map_snd (fun n x hx ↦ h n x hx) fun _ he ↦ he).symm

theorem Keyed.record?_of_mem (h : Keyed w) (hx : x ∈ w.store.records.values) :
    w.record? x.spec.nodeName = some x := by
  obtain ⟨⟨n, y⟩, hmem, rfl⟩ := List.mem_map.mp hx
  have hy : w.record? n = some y := Dict.mem_toList_iff.mp hmem
  rw [h n y hy, hy]

/-- The calls of all heartbeats together. -/
theorem perm_calls_of_beaten (hkeyed : Keyed w) {logs : String → List Exchange}
    {results : String → Result Unit}
    (h : ∀ n ∈ w.store.records.keys, Beaten pulse w clusterId n (logs n) (results n)) :
    (w.store.records.keys.flatMap fun n ↦ calls (logs n)).Perm
      ((w.store.records.values.map fun x ↦ .heartbeat ⟨x.spec.nodeName, clusterId⟩) ++
        (w.store.records.values.filter fun x ↦ isUnknown pulse x.spec.nodeName).map fun x ↦
          .add (.ofSpec clusterId x.spec)) := by
  have hcalls : (w.store.records.keys.flatMap fun n ↦ calls (logs n)) =
      w.store.records.values.flatMap fun x ↦
        [.heartbeat ⟨x.spec.nodeName, clusterId⟩] ++
          if isUnknown pulse x.spec.nodeName then [.add (.ofSpec clusterId x.spec)] else [] := by
    rw [hkeyed.keys_eq] at h ⊢
    rw [List.flatMap_map]
    refine List.flatMap_congr fun x hx ↦ ?_
    rw [(h _ (List.mem_map_of_mem hx)).calls, hkeyed.record?_of_mem hx]
    rfl
  rw [hcalls, map_filter_eq_flatMap, List.map_eq_flatMap]
  exact (List.flatMap_append_perm _ _ _).symm

/-- Whatever the registry answers, a round of heartbeats that nobody disturbs comes to its end, and
goes by the pulse of every node. -/
theorem beat_goes_by_the_pulse (hkeyed : Keyed w)
    (hcourse : Course (beating pulse) ⟨w, Record.beat clusterId pageSize parallelism⟩ events s) :
    Inevitable (Moves (beating pulse)) (fun t ↦ ∃ v, t.rest.Ended v) s ∧
      ∀ v, s.rest.Ended v → Round pulse clusterId w (exchanges events) s.world v := by
  have hnobody : ∀ w c, ¬(beating pulse).others w c := fun _ _ hc ↦ hc
  constructor
  · refine inevitable_ended_of_acc (acc_of_course ?_ hcourse)
    refine acc_listing (fun w c hc ↦ absurd hc (hnobody w c)) (fun _ ↦ rfl) (fun answer w' ↦ ?_) w
      none []
    refine acc_of_acc (fun _ ↦ 0) (fun w c hc ↦ absurd hc (hnobody w c))
      (Program.Loopless.acc ?_) w'
    cases answer with
    | error f => exact .done _
    | ok names => exact .batch fun _ ↦ .done _
  · intro v hended
    obtain ⟨past, future, w', rfl, hasked, hpast, hfuture⟩ := exists_named_of_course
      (fun w c hc ↦ absurd hc (hnobody w c)) (fun _ ↦ rfl) hkeyed (late_of_nobody hnobody hcourse)
      hcourse hended
    have hwrites : ∀ e ∈ exchanges past, e.request.isWrite = false :=
      writes_none [.listRecords] (by decide)
        fun e he ↦ List.mem_singleton.mpr (hasked e he)
    have hstore : w'.store = w.store := store_eq_of_course hnobody hwrites hpast
    obtain ⟨logs, results, hexchanged, hbeaten, hinv, -, rfl⟩ :=
      (beatTerms pulse w).concluded (fun n _ log v ↦ Beaten pulse w clusterId n log v)
        w.store.records.nodup_keys hstore (fun n hn ↦ by
          obtain ⟨x, hx⟩ := Dict.mem_keys_iff.mp hn
          exact meets_heartbeat hx (hkeyed n x hx) _ rfl) hfuture hended
    have hreads : ∀ kind ≠ Request.Kind.listRecords, ∀ e ∈ exchanges past,
        e.request.kind ≠ kind := fun kind hkind e he ↦ hasked e he ▸ hkind.symm
    refine ⟨?_, hinv, ?_, ?_⟩
    · refine ⟨_, List.forall₂_map_right_iff.mpr
        (List.forall₂_same.mpr fun x _ ↦ registers_ofSpec clusterId x), ?_⟩
      rw [exchanges_append, calls_append, calls_eq_nil (hreads _ (by decide)), List.nil_append,
        List.map_map]
      exact (perm_calls hexchanged).trans (perm_calls_of_beaten hkeyed hbeaten)
    · rw [exchanges_append, counted_append, counted_eq_zero (hreads _ (by decide)), Nat.zero_add,
        counted_eq hexchanged fun n hn ↦ (hbeaten n hn).counted, hkeyed.keys_eq, List.countP_map]
      rfl
    · have hresults : w.store.records.keys.filterMap (Failure.told? ∘ results) =
          w.store.records.keys.filterMap (lapse? pulse) :=
        List.filterMap_congr fun n hn ↦ (hbeaten n hn).result
      rw [Failure.join_eq_summary, List.filterMap_map, hresults, hkeyed.keys_eq, List.filterMap_map]
      rfl

/-- A registry that has lost the node "a", is at odds with itself about "b", and cannot be reached
for "c". -/
def forgetfulPulse : String → Result Fleet.Response
  | "a" => .ok { code := 404 }
  | "b" => .ok { code := 500 }
  | _ => .error (.plain "unreachable")

/-- The registry agrees to a heartbeat by the pulse, and to nothing else. -/
def forgetfulFleet : Fleet.Call → Result Fleet.Response
  | .heartbeat node => forgetfulPulse node.nodeName
  | _ => .ok { code := 500 }

/-- The resources of a node, one amount of which is in a unit of its own. -/
def ownUnits : Dict Accounting := .ofList [("cpu", ⟨"4000m", "3800m", "250m"⟩),
  ("memory", ⟨"16384Mi", "16Gi", "0Mi"⟩), ("pods", ⟨"110", "110", "7"⟩)]

/-- The records of three nodes. -/
def threeRecords : World where
  store := ["a", "b", "c"].foldl (fun s n ↦
    s.put (.ofSpec { nodeName := n, status := "Ready", resources := ownUnits })) Store.empty

/-- The lost node is registered again, which fails, and only the failed heartbeat is told. -/
theorem lost_node_is_registered_again :
    ∃ events s, Course (beating forgetfulPulse) ⟨threeRecords, Record.beat "k" 2 0⟩ events s ∧
      (∃ v, s.rest.Ended v) ∧
      calls (exchanges events) = [.heartbeat ⟨"a", "k"⟩,
        .add ⟨"a", "k", "Ready", [⟨"cpu", "4000", "3800", "m", false⟩,
          ⟨"memory", "16384", "16Gi", "Mi", false⟩, ⟨"pods", "110", "110", "", false⟩]⟩,
        .heartbeat ⟨"b", "k"⟩, .heartbeat ⟨"c", "k"⟩] ∧
      Inevitable (Moves (beating forgetfulPulse)) (fun t ↦ ∃ v, t.rest.Ended v) s ∧
      ∀ v, s.rest.Ended v →
        Round forgetfulPulse "k" threeRecords (exchanges events) s.world v := by
  have hkeyed : Keyed threeRecords := .of_forall_mem (by decide +kernel)
  have hfleet : ∀ call, (beating forgetfulPulse).fleet call (forgetfulFleet call) := by
    rintro _ node rfl
    rfl
  have hcourse := course_advance hfleet 12 ⟨threeRecords, Record.beat "k" 2 0⟩
  exact ⟨_, _, hcourse, exists_ended_of_isLeft (by decide +kernel), by decide +kernel,
    beat_goes_by_the_pulse hkeyed hcourse⟩

end NodeInventory.Tour
