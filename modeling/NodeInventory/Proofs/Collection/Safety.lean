import NodeInventory.Proofs.Collection.Removal

/-!
# Collecting records without a node

What makes removing safe is the order: the names come first, and the nodes are asked for after them.
A name for which a record is removed had no node when the nodes were asked for. Conversely a record
that is there while the records are listed comes up in some part of the listing, since each part
takes up after the last key of the one before it, and if its node is gone when the nodes are asked
for, its removal is owed from then on (`Removes`).

A run goes through stages (`Stage`): it lists the records, asks for the nodes of the names, and
removes the records of those that have none. With a batch of names it begins at the second.
-/

namespace NodeInventory.Collection

variable {names : List String} {nodes : List Node} {moments : List Moment} {m : Moment}
  {x y : Program (Result Unit)}

/-! ## The listing -/

variable {g : Ground} {token : Option String} {limit : ℕ} {n : String}

theorem Ground.names_page (g : Ground) (token : Option String) (limit : ℕ) :
    (g.records.page token limit).items.map (·.spec.nodeName) =
      ((g.records.remaining token).take (max limit 1)).map (·.1) := by
  rw [Dict.items_page]
  exact Dict.map_map_snd g.keyed fun e he ↦ (Dict.mem_remaining_iff.mp (List.mem_of_mem_take he)).1

/-- A record whose name comes after the token is in the part, or comes after the token of the next
part. -/
theorem Ground.mem_names_page_or_lt {r : Record} (hr : g.records.get? n = some r)
    (htoken : ∀ t ∈ token, t < n) :
    n ∈ (g.records.page token limit).items.map (·.spec.nodeName) ∨
      ∃ t, (g.records.page token limit).next = some t ∧ t < n := by
  have hmem : (n, r) ∈ g.records.remaining token :=
    Dict.mem_remaining_iff.mpr ⟨Dict.mem_toList_iff.mpr hr, htoken⟩
  rw [g.names_page]
  cases hnext : (g.records.page token limit).next with
  | none =>
    rw [Dict.take_of_page_next_eq_none hnext]
    exact .inl (List.mem_map.mpr ⟨_, hmem, rfl⟩)
  | some t =>
    rw [← List.take_append_drop (max limit 1) (g.records.remaining token)] at hmem
    obtain hmem | hmem := List.mem_append.mp hmem
    · exact .inl (List.mem_map.mpr ⟨_, hmem, rfl⟩)
    · rw [← Dict.remaining_of_page_next hnext] at hmem
      exact .inr ⟨t, rfl, (Dict.mem_remaining_iff.mp hmem).2 t rfl⟩

theorem Ground.get?_of_mem_page {r : Record} (hr : r ∈ (g.records.page token limit).items) :
    g.records.get? r.spec.nodeName = some r := by
  rw [Dict.items_page] at hr
  obtain ⟨⟨k, r⟩, hmem, rfl⟩ := List.mem_map.mp hr
  have hget : g.records.get? k = some r :=
    Dict.mem_toList_iff.mp (Dict.mem_remaining_iff.mp (List.mem_of_mem_take hmem)).1
  rwa [g.keyed k r hget]

/-- What follows the listing: the question for the nodes of the names, if there are any. -/
structure Checks (next : Result (List String) → Program (Result Unit)) : Prop where
  failed : ∀ f, ∃ v, next (.error f) = .done v
  none : ∃ v, next (.ok []) = .done v
  some : ∀ n names, ∃ next', next (.ok (n :: names)) = .ask (.findNodes (n :: names)) next' ∧
    Removes (n :: names) next'

theorem sweep_eq (d : Duties) : ∃ next, Errand.sweep.program d =
    .loop (fun s : Option String × List String ↦ .listRecords s.1 d.recordPageSize)
      Record.collectNames (none, []) next ∧ Checks next :=
  ⟨_, rfl, fun _ ↦ ⟨_, rfl⟩, ⟨_, rfl⟩, fun n names ↦ ⟨_, rfl, removes_of_sweep d (n :: names)⟩⟩

/-! ## A whole run -/

variable {e : Errand}

theorem Errand.Read.mono (h : e.Read moments n) (m : Moment) : e.Read (moments ++ [m]) n := by
  cases e with
  | sweep =>
    obtain ⟨m', hm', hread⟩ := h
    exact ⟨m', List.mem_append_left _ hm', hread⟩
  | batch names => exact h

theorem Errand.Due.of_append {later : List Moment} (h : e.Due (moments ++ later) n) :
    e.Due moments n := by
  cases e with
  | sweep => exact fun m' hm' ↦ h m' (List.mem_append_left _ hm')
  | batch names => exact h

/-- The names that are looked at were read, and those that are due are among them. -/
structure Gathered (e : Errand) (moments : List Moment) (names : List String) : Prop where
  listed : ∀ m ∈ moments, m.exchange.request.kind = .listRecords
  read : ∀ n ∈ names, e.Read moments n
  due : ∀ n, e.Due moments n → n ∈ names

/-- How far a run has come. -/
inductive Stage (e : Errand) : List Moment → Program (Result Unit) → Prop
  /-- Records are listed. A name that is due was read or comes after the token. -/
  | listing {moments : List Moment} {token : Option String} {sofar : List String} {limit : ℕ}
    {next : Result (List String) → Program (Result Unit)} (he : e = .sweep) (hnext : Checks next)
    (hlisted : ∀ m ∈ moments, m.exchange.request.kind = .listRecords)
    (hread : ∀ n ∈ sofar, e.Read moments n)
    (hdue : ∀ n, e.Due moments n → n ∈ sofar ∨ ∀ t ∈ token, t < n) :
    Stage e moments (.loop (fun s : Option String × List String ↦ .listRecords s.1 limit)
      Record.collectNames (token, sofar) next)
  /-- The nodes of the names are to be asked for. -/
  | asking {moments : List Moment} {names : List String}
    {next : Result (List Node) → Program (Result Unit)} (hnext : Removes names next)
    (h : Gathered e moments names) : Stage e moments (.ask (.findNodes names) next)
  /-- The nodes of the names were asked for. -/
  | removing {past between : List Moment} {g : Ground} {names : List String} {nodes : List Node}
    {x : Program (Result Unit)} (h : Gathered e past names)
    (hnodes : ∀ node, node ∈ nodes ↔ ∃ n ∈ names, g.nodes.get? n = some node)
    (hx : Removing names nodes between x) :
    Stage e (past ++ ⟨g, ⟨.findNodes names, (.ok nodes : Result (List Node))⟩⟩ :: between) x
  /-- The run ended before the nodes were known. -/
  | ended {moments : List Moment} (v : Result Unit)
    (hasked : ∀ m ∈ moments, m.exchange.request.kind ∈ [Request.Kind.listRecords, .findNodes])
    (hwhy : (∃ m ∈ moments, m.Fails) ∨ ∀ n, ¬e.Due moments n) : Stage e moments (.done v)

theorem Stage.start (d : Duties) (e : Errand) : Stage e [] (e.program d) := by
  cases e with
  | sweep =>
    obtain ⟨next, hprogram, hnext⟩ := sweep_eq d
    rw [hprogram]
    exact .listing rfl hnext (by simp) (by simp) fun n _ ↦ .inr (by simp)
  | batch names =>
    obtain ⟨next, hprogram, hnext⟩ := removes_of_batch d names
    change Stage _ _ (d.handleNodeBatch names)
    rw [hprogram]
    exact .asking hnext ⟨by simp, fun n hn ↦ hn, fun n hn ↦ hn⟩

/-- After a part of the listing there comes another, or all names that are due were read. -/
theorem Stage.listed {sofar : List String} {next : Result (List String) → Program (Result Unit)}
    {a : (Request.listRecords token limit).Answer} (hnext : Checks next)
    (hlisted : ∀ m ∈ moments, m.exchange.request.kind = .listRecords)
    (hread : ∀ n ∈ sofar, Errand.sweep.Read moments n)
    (hdue : ∀ n, Errand.sweep.Due moments n → n ∈ sofar ∨ ∀ t ∈ token, t < n)
    (hasked : (Program.loop (fun s : Option String × List String ↦ .listRecords s.1 limit)
      Record.collectNames (token, sofar) next).Step (.listRecords token limit) a y)
    (htold : g.Tells (.listRecords token limit) a) :
    Stage .sweep (moments ++ [⟨g, ⟨.listRecords token limit, a⟩⟩]) y := by
  have hlisted' : ∀ m ∈ moments ++ [⟨g, ⟨.listRecords token limit, a⟩⟩],
      m.exchange.request.kind = .listRecords := fun m hm ↦ by
    obtain hm | hm := List.mem_append.mp hm
    · exact hlisted m hm
    · rw [List.mem_singleton.mp hm]
      rfl
  cases hasked
  cases htold with
  | unlisted _ _ f =>
    obtain ⟨v, hv⟩ := hnext.failed (.context "error listing NodeResourceInfo records" f)
    change Stage _ _ (next _)
    rw [hv]
    exact .ended v (fun m hm ↦ by simp [hlisted' m hm])
      (.inl ⟨_, List.mem_append_right _ (List.mem_singleton_self _), .inl ⟨_, _, f, rfl⟩⟩)
  | other hr => simp [Request.kind] at hr
  | listed =>
    have hread' : ∀ n ∈ sofar ++ (g.records.page token limit).items.map (·.spec.nodeName),
        Errand.sweep.Read (moments ++ [⟨g, ⟨.listRecords token limit,
          (.ok (g.records.page token limit) : Result (Page Record))⟩⟩]) n := fun n hn ↦ by
      obtain hn | hn := List.mem_append.mp hn
      · exact (hread n hn).mono _
      · obtain ⟨r, hr, rfl⟩ := List.mem_map.mp hn
        exact ⟨_, List.mem_append_right _ (List.mem_singleton_self _), token, limit, r, _, rfl, hr,
          rfl, Ground.get?_of_mem_page hr⟩
    have hdue' : ∀ n, Errand.sweep.Due (moments ++ [⟨g, ⟨.listRecords token limit,
          (.ok (g.records.page token limit) : Result (Page Record))⟩⟩]) n →
        n ∈ sofar ++ (g.records.page token limit).items.map (·.spec.nodeName) ∨
          ∃ t, (g.records.page token limit).next = some t ∧ t < n := fun n hn ↦ by
      obtain ⟨r, hr⟩ := hn _ (List.mem_append_right _ (List.mem_singleton_self _)) rfl
      obtain hold | htoken := hdue n hn.of_append
      · exact .inl (List.mem_append_left _ hold)
      · exact (g.mem_names_page_or_lt hr htoken).imp_left (List.mem_append_right _)
    rw [Record.collectNames]
    cases hpage : (g.records.page token limit).next with
    | some t =>
      refine .listing rfl hnext hlisted' hread' fun n hn ↦ (hdue' n hn).imp_right ?_
      rintro ⟨t', ht', hlt⟩
      rw [hpage] at ht'
      cases ht'
      simpa using hlt
    | none =>
      have hall := fun n hn ↦ (hdue' n hn).resolve_right (by simp [hpage])
      change Stage _ _ (next (.ok (sofar ++ _)))
      generalize sofar ++ (g.records.page token limit).items.map (·.spec.nodeName) = names
        at hread' hall ⊢
      cases names with
      | nil =>
        obtain ⟨v, hv⟩ := hnext.none
        rw [hv]
        exact .ended v (fun m hm ↦ by simp [hlisted' m hm]) (.inr fun n hn ↦ by cases hall n hn)
      | cons n names =>
        obtain ⟨next', hask, hremoves⟩ := hnext.some n names
        rw [hask]
        exact .asking hremoves ⟨hlisted', hread', hall⟩

theorem Stage.step (h : Stage e moments x) (hstep : Step x m y) : Stage e (moments ++ [m]) y := by
  cases h with
  | listing he hnext hlisted hread hdue =>
    subst he
    obtain ⟨g, r, a⟩ := m
    obtain ⟨hasked, htold⟩ := hstep
    have hr := hasked
    cases hr
    exact .listed hnext hlisted hread hdue hasked htold
  | @asking _ names next hnext hgathered =>
    obtain ⟨g, r, a⟩ := m
    obtain ⟨hasked, htold⟩ := hstep
    cases hasked
    cases htold with
    | found hnodes => exact .removing hgathered hnodes (hnext.removing _)
    | unfound _ f =>
      obtain ⟨v, hv⟩ := hnext.failed f
      dsimp only
      rw [hv]
      refine .ended v (fun m hm ↦ ?_) (.inl ⟨_, List.mem_append_right _ (List.mem_singleton_self _),
        .inr ⟨_, f, rfl⟩⟩)
      obtain hm | hm := List.mem_append.mp hm
      · simp [hgathered.listed m hm]
      · rw [List.mem_singleton.mp hm]
        simp [Request.kind]
    | other hr => simp [Request.kind] at hr
  | removing hgathered hnodes hx =>
    rw [List.append_assoc, List.cons_append]
    exact .removing hgathered hnodes (hx.step hstep)
  | ended v => cases hstep.1

theorem stage_of_run {d : Duties} (hrun : Run Step (e.program d) moments x) :
    Stage e moments x := by
  induction hrun with
  | nil => exact .start d e
  | snoc _ hstep ih => exact ih.step hstep

/-- What is collected, whatever happens between two requests of a run. -/
structure Collects (e : Errand) (moments : List Moment) (rest : Program (Result Unit)) : Prop where
  /-- If the record of a name is to be removed, the nodes of some names were asked for before that,
  the name was among them and had been read before, and there was no node of it then. -/
  safe : ∀ past m future n, moments = past ++ m :: future → m.exchange.request = .deleteRecord n →
    ∃ before q between names nodes, past = before ++ q :: between ∧
      q.exchange = ⟨.findNodes names, (.ok nodes : Result (List Node))⟩ ∧ n ∈ names ∧
        e.Read before n ∧ q.ground.nodes.get? n = none
  /-- No record of a node that lives all along is to be removed. -/
  spares : ∀ n, (∀ m ∈ moments, ∃ node, m.ground.nodes.get? n = some node) →
    ∀ m ∈ moments, m.exchange.request ≠ .deleteRecord n
  /-- Once it is known which of the names have nodes the run comes to its end. -/
  ends : (∃ m ∈ moments, ∃ names nodes,
      m.exchange = ⟨.findNodes names, (.ok nodes : Result (List Node))⟩) →
    Inevitable (fun x y ↦ ∃ m, Step x m y) (fun x ↦ ∃ v, x.Ended v) rest
  /-- If the run has ended and neither the listing nor the question for nodes failed, the records of
  all names that were due, and had no node when the nodes were asked for, were to be removed. -/
  complete : (∃ v, rest.Ended v) → (∀ m ∈ moments, ¬m.Fails) → ∀ n, e.Due moments n →
    (∀ m ∈ moments, m.exchange.request.kind = .findNodes → m.ground.nodes.get? n = none) →
      ∃ m ∈ moments, m.exchange.request = .deleteRecord n

/-- A sweep, and working off a batch of names, remove the records of names without a node and no
others, whoever joins, leaves or writes between two of its requests. -/
theorem collects_just_what_has_no_node (d : Duties) (e : Errand)
    (hrun : Run Step (e.program d) moments x) : Collects e moments x := by
  have hsafe : ∀ past m future n, moments = past ++ m :: future →
      m.exchange.request = .deleteRecord n →
      ∃ before q between names nodes, past = before ++ q :: between ∧
        q.exchange = ⟨.findNodes names, (.ok nodes : Result (List Node))⟩ ∧ n ∈ names ∧
          e.Read before n ∧ q.ground.nodes.get? n = none := by
    rintro past ⟨g, r, a⟩ future n rfl hr
    obtain ⟨x, y, hpast, ⟨hasked, -⟩, -⟩ := hrun.exists_step
    cases hr
    cases stage_of_run hpast with
    | listing | asking | ended => cases hasked
    | @removing before between q names nodes _ hgathered hnodes hx =>
      have hmissing := (hx.asks.step hasked).1.2 n rfl
      obtain ⟨hn, hnone⟩ := (q.mem_missingNames_iff hnodes).mp hmissing
      exact ⟨before, _, between, names, nodes, rfl, rfl, hn, hgathered.read n hn, hnone⟩
  refine ⟨hsafe, fun n hlive m hm hr ↦ ?_, fun ⟨m, hm, names, nodes, hq⟩ ↦ ?_,
    fun ⟨v, hended⟩ hfails n hdue hgone ↦ ?_⟩
  · obtain ⟨past, future, hsplit⟩ := List.append_of_mem hm
    obtain ⟨before, q, between, -, -, rfl, -, -, -, hnone⟩ := hsafe past m future n hsplit hr
    obtain ⟨node, hnode⟩ := hlive q (by simp [hsplit])
    rw [hnone] at hnode
    cases hnode
  · have hkind : m.exchange.request.kind = .findNodes := by rw [hq]; rfl
    cases stage_of_run hrun with
    | listing _ _ hlisted => exact absurd (hlisted m hm) (by simp [hkind])
    | asking _ hgathered => exact absurd (hgathered.listed m hm) (by simp [hkind])
    | removing _ _ hx => exact hx.inevitable_ended
    | ended v => exact .now ⟨v, .done v⟩
  · cases stage_of_run hrun with
    | listing | asking => cases hended
    | @removing before between q names nodes _ hgathered hnodes hx =>
      have hn := hgathered.due n hdue.of_append
      have hnone := hgone _ (List.mem_append_right before List.mem_cons_self) rfl
      obtain ⟨m, hm, hr⟩ | howes := hx.owed n ((q.mem_missingNames_iff hnodes).mpr ⟨hn, hnone⟩)
      · exact ⟨m, by simp [hm], hr⟩
      · exact absurd hended howes.not_ended
    | ended v _ hwhy =>
      obtain ⟨m, hm, hfailed⟩ | hnot := hwhy
      · exact absurd hfailed (hfails m hm)
      · exact absurd hdue (hnot n)

/-- There is a record of a node. -/
def Ground.store (g : Ground) (name : String) : Ground where
  records := g.records.insert name (.ofSpec { nodeName := name })
  nodes := g.nodes
  keyed n x hx := by
    rw [Dict.get?_insert] at hx
    split at hx
    · next hn =>
      cases hx
      exact hn.symm
    · exact g.keyed n x hx
  named := g.named

/-- There is a node, without a host name. -/
def Ground.join (g : Ground) (name : String) : Ground where
  records := g.records
  nodes := g.nodes.insert name { ownName := some name }
  keyed := g.keyed
  named := by
    refine ⟨fun n node hnode ↦ ?_, fun n node host hnode hhost ↦ ?_⟩
    all_goals
      rw [Dict.get?_insert] at hnode
      split at hnode
    · next hn =>
      cases hnode
      exact hn.symm
    · exact g.named.name n node hnode
    · cases hnode
      cases hhost
    · exact g.named.hostname n node host hnode hhost

/-- Two records are listed, of one of which the node has left by the time the nodes are asked for.
The record of that one is to be removed. -/
theorem collects_record_of_node_that_left :
    let d : Duties := ⟨"c", ⟨1, 0⟩, [], 0, 1, 2, "tasks", default⟩
    ∃ moments x, Run Step (Errand.sweep.program d) moments x ∧ (∃ v, x.Ended v) ∧
      (∃ m ∈ moments, m.exchange.request = .deleteRecord "b") ∧
      (∀ m ∈ moments, m.exchange.request ≠ .deleteRecord "a") ∧
      Collects .sweep moments x := by
  intro d
  let g' := ((Ground.empty.store "a").store "b").join "a"
  let g := g'.join "b"
  have hnode : ∀ node, node ∈ [({ ownName := some "a" } : Node)] ↔
      ∃ n ∈ ["a", "b"], g'.nodes.get? n = some node := by
    intro node
    simp [g', Ground.join, Ground.store, Ground.empty, Dict.get?_insert, eq_comm]
  have hstart : Run Step (Errand.sweep.program d) [] _ := .nil
  have hlist : Step (Errand.sweep.program d) ⟨g, ⟨.listRecords none 2,
      (.ok (g.records.page none 2) : Result (Page Record))⟩⟩ _ := ⟨.loop _, .listed none 2⟩
  have hlisted := hstart.snoc hlist
  let question : Moment := ⟨g', ⟨.findNodes ["a", "b"],
      (.ok [{ ownName := some "a" }] : Result (List Node))⟩⟩
  have hfound := hlisted.snoc (l := question) ⟨.ask _ _, .found hnode⟩
  let removal : Moment := ⟨g', ⟨.deleteRecord "b", (.ok () : Result Unit)⟩⟩
  have hdeleted := hfound.snoc (l := removal) ⟨.item [] [] _, .other (by decide) _⟩
  have hcounted := hdeleted.snoc (l := (⟨g', ⟨.count .recordsDeleted, ()⟩⟩ : Moment))
    ⟨.item [] [] _, .other (by decide) _⟩
  have htold := hcounted.snoc (l := (⟨g', ⟨.callFleet (.delete ⟨"b", "c"⟩),
      (.ok { code := 200 } : Result Fleet.Response)⟩⟩ : Moment))
    ⟨.item [] [] _, .other (by decide) _⟩
  refine ⟨_, _, htold, ⟨_, @Program.Ended.joined _ _ _ [.ok ()] _ (.done _)⟩, ?_, ?_,
    collects_just_what_has_no_node d .sweep htold⟩
  · exact ⟨removal, by simp, rfl⟩
  · simp [question, removal]

end NodeInventory.Collection
