import NodeInventory.Proofs.Pass.Care
import NodeInventory.Proofs.Tour.Reading

/-!
# Listing the names of all records

The names of all records are listed part by part, and between two parts others may add and remove
records. A tour that begins with the listing is either still at it, and then what was listed so far
is a reading of the store in parts, or it has gone on with what was enumerated
(`naming_of_course`). What follows the listing is left open: it may be nothing at all, a sweep, or
the heartbeats of all nodes.
-/

namespace NodeInventory.Tour

open Simulation

variable {α : Type} {K : Conditions} {w w' : World} {s t start : Scene α} {e : Event}
  {events past future : List Event} {limit : ℕ} {token : Option String}

/-! ## What is listed -/

/-- What is listed in parts. -/
inductive Subject
  | records
  | nodes
deriving DecidableEq

namespace Subject

/-- The names that there are to list. -/
def names : Subject → World → List String
  | records, w => w.store.records.keys
  | nodes, w => w.nodes.keys

/-- The kind of request by which a part is listed. -/
def kind : Subject → Request.Kind
  | records => .listRecords
  | nodes => .listNodes

/-- The name that somebody else adds in an event. -/
def added? : Subject → Event → Option String
  | records, .other (.put r) => some r.name
  | nodes, .other (.join node) => some node.name
  | _, _ => none

/-- The names that there are when a part is asked for. -/
def visit? (q : Subject) : Event → Option (List String)
  | .other _ => none
  | .asked w e => if e.request.kind = q.kind then some (q.names w) else none

/-- The names that others added. -/
def additions (q : Subject) (events : List Event) : List String := events.filterMap q.added?

/-- The names that there were each time a part was asked for. -/
def visits (q : Subject) (events : List Event) : List (List String) := events.filterMap q.visit?

variable (q : Subject)

@[simp] theorem additions_append (past future : List Event) :
    q.additions (past ++ future) = q.additions past ++ q.additions future :=
  List.filterMap_append

@[simp] theorem visits_append (past future : List Event) :
    q.visits (past ++ future) = q.visits past ++ q.visits future :=
  List.filterMap_append

theorem visits_snoc_other (events : List Event) (c : Change) :
    q.visits (events ++ [.other c]) = q.visits events := by
  rw [visits_append]
  exact List.append_nil _

@[simp] theorem additions_asked (w : World) (e : Exchange) : q.additions [.asked w e] = [] := by
  cases q <;> rfl

variable {q}

theorem visits_snoc {e : Exchange} (h : e.request.kind = q.kind) :
    q.visits (events ++ [.asked w e]) = q.visits events ++ [q.names w] := by
  rw [visits_append]
  simp [visits, visit?, h]

theorem visits_snoc_of_ne {e : Exchange} (h : e.request.kind ≠ q.kind) :
    q.visits (events ++ [.asked w e]) = q.visits events := by
  rw [visits_append]
  simp [visits, visit?, h]

theorem visits_eq_nil (h : exchanges events = []) : q.visits events = [] := by
  refine List.filterMap_eq_nil_iff.mpr fun e he ↦ ?_
  cases e with
  | other c => rfl
  | asked w e => cases List.filterMap_eq_nil_iff.mp h _ he

end Subject

/-! ## Names that come and go -/

variable {q : Subject} {n : String}

theorem Subject.mem_names_apply {c : Change} (hn : n ∈ q.names (c.apply w)) :
    n ∈ q.names w ++ q.additions [.other c] := by
  rw [List.mem_append]
  cases q with
  | records =>
    cases c with
    | join | leave => exact .inl hn
    | put r =>
      obtain rfl | hn := Dict.mem_keys_insert.mp hn
      · exact .inr (List.mem_singleton_self _)
      · exact .inl hn
    | drop name => exact .inl (Dict.mem_keys_erase.mp hn).2
  | nodes =>
    cases c with
    | put | drop => exact .inl hn
    | join node =>
      obtain rfl | hn := Dict.mem_keys_insert.mp hn
      · exact .inr (List.mem_singleton_self _)
      · exact .inl hn
    | leave name => exact .inl (Dict.mem_keys_erase.mp hn).2

theorem Subject.mem_records_apply {c : Change} (hn : n ∈ records.names w)
    (hloss : n ∉ losses [.other c]) : n ∈ records.names (c.apply w) := by
  cases c with
  | join | leave => exact hn
  | put r => exact Dict.mem_keys_insert.mpr (.inr hn)
  | drop name => exact Dict.mem_keys_erase.mpr ⟨fun h ↦ hloss (List.mem_singleton.mpr h), hn⟩

theorem Gives.names_eq {r : Request} {a : r.Answer} (h : Gives K w r a w')
    (hr : r.isWrite = false) : q.names w' = q.names w := by
  cases q with
  | records => exact congrArg (fun s : Store ↦ s.records.keys) (h.store_eq hr)
  | nodes => exact congrArg Dict.keys h.cluster_eq.1

theorem writes_none (kinds : List Request.Kind) {log : List Exchange}
    (hkinds : ∀ k ∈ kinds, k ∉ [.createRecord, .updateRecord, .deleteRecord])
    (h : ∀ e ∈ log, e.request.kind ∈ kinds) : ∀ e ∈ log, e.request.isWrite = false := by
  intro ⟨r, a⟩ he
  have hnot := hkinds r.kind (h _ he)
  cases r with
  | createRecord | updateRecord | deleteRecord => simp [Request.kind] at hnot
  | _ => rfl

/-- Whatever there is, was there from the beginning or was added. -/
theorem known_of_course (hwrites : ∀ e ∈ exchanges events, e.request.isWrite = false)
    (hcourse : Course K start events s) :
    (∀ n ∈ q.names s.world, n ∈ q.names start.world ++ q.additions events) ∧
      ∀ visit ∈ q.visits events, ∀ n ∈ visit, n ∈ q.names start.world ++ q.additions events := by
  induction hcourse with
  | nil => exact ⟨fun n hn ↦ List.mem_append_left _ hn, by simp [Subject.visits]⟩
  | @snoc events e s t _ hstep ih =>
    rw [exchanges_append, List.forall_mem_append] at hwrites
    obtain ⟨hnames, hvisits⟩ := ih hwrites.1
    have hmore : ∀ n ∈ q.names start.world ++ q.additions events,
        n ∈ q.names start.world ++ q.additions (events ++ [e]) := fun n hn ↦ by
      rw [Subject.additions_append, ← List.append_assoc]
      exact List.mem_append_left _ hn
    cases hstep with
    | @other w x c hc =>
      refine ⟨fun n hn ↦ ?_, fun visit hvisit n hn ↦ ?_⟩
      · obtain hn | hn := List.mem_append.mp (Subject.mem_names_apply hn)
        · exact hmore n (hnames n hn)
        · rw [Subject.additions_append, ← List.append_assoc]
          exact List.mem_append_right _ hn
      · rw [Subject.visits_snoc_other] at hvisit
        exact hmore n (hvisits visit hvisit n hn)
    | @asked w w' x y r a hx hw =>
      refine ⟨fun n hn ↦ ?_, fun visit hvisit n hn ↦ ?_⟩
      · rw [hw.names_eq (hwrites.2 _ (List.mem_singleton_self _))] at hn
        exact hmore n (hnames n hn)
      · by_cases hkind : r.kind = q.kind
        · rw [Subject.visits_snoc hkind, List.mem_append, List.mem_singleton] at hvisit
          obtain hvisit | rfl := hvisit
          · exact hmore n (hvisits visit hvisit n hn)
          · exact hmore n (hnames n hn)
        · rw [Subject.visits_snoc_of_ne hkind] at hvisit
          exact hmore n (hvisits visit hvisit n hn)

/-- A record that nobody removes is there for every part. -/
theorem mem_visits_of_course (hwrites : ∀ e ∈ exchanges events, e.request.isWrite = false)
    (hcourse : Course K start events s) (hn : n ∈ Subject.records.names start.world)
    (hloss : n ∉ losses events) :
    n ∈ Subject.records.names s.world ∧ ∀ visit ∈ Subject.records.visits events, n ∈ visit := by
  induction hcourse with
  | nil => exact ⟨hn, by simp [Subject.visits]⟩
  | snoc _ hstep ih =>
    rw [exchanges_append, List.forall_mem_append] at hwrites
    rw [losses_append, List.mem_append, not_or] at hloss
    obtain ⟨hname, hvisits⟩ := ih hwrites.1 hloss.1
    cases hstep with
    | other =>
      rw [Subject.visits_snoc_other]
      exact ⟨Subject.mem_records_apply hname hloss.2, hvisits⟩
    | @asked w w' x y r a hx hw =>
      rw [hw.names_eq (hwrites.2 _ (List.mem_singleton_self _))]
      refine ⟨hname, ?_⟩
      by_cases hkind : r.kind = Subject.records.kind
      · rw [Subject.visits_snoc hkind]
        exact List.forall_mem_append.mpr ⟨hvisits, List.forall_mem_singleton.mpr hname⟩
      · rw [Subject.visits_snoc_of_ne hkind]
        exact hvisits

/-! ## Records under the names of their nodes -/

/-- Every record is stored under the name of its node. -/
def Keyed (w : World) : Prop := ∀ n r, w.record? n = some r → r.spec.nodeName = n

/-- The change stores no record under another name than that of its node. -/
def Change.Keyed : Change → Prop
  | put r => r.spec.nodeName = r.name
  | drop _ | join _ | leave _ => True

theorem Keyed.of_forall_mem (h : ∀ e ∈ w.store.records.toList, e.2.spec.nodeName = e.1) :
    Keyed w :=
  fun _ _ hx ↦ h _ (Dict.mem_toList_iff.mpr hx)

theorem Keyed.apply {c : Change} (h : Keyed w) (hc : c.Keyed) : Keyed (c.apply w) := by
  intro n x hx
  cases c with
  | join | leave => exact h n x hx
  | put r =>
    rw [World.record?, Change.apply, Store.get?_put] at hx
    split at hx
    · next hn =>
      cases hx
      exact hc.trans hn.symm
    · exact h n x hx
  | drop name =>
    rw [World.record?, Change.apply, Store.get?_drop] at hx
    split at hx
    · cases hx
    · exact h n x hx

theorem Keyed.of_store_eq (h : Keyed w) (hstore : w'.store = w.store) : Keyed w' := by
  intro n x hx
  rw [World.record?, hstore] at hx
  exact h n x hx

theorem Keyed.names_page (h : Keyed w) :
    (w.store.records.page token limit).items.map (·.spec.nodeName) =
      w.store.records.part token limit :=
  Dict.map_items_page fun n x hx ↦ h n x hx

/-- A part of the listing comes as it is if asking for it does not fail. -/
theorem Gives.of_listRecords {a : (Request.listRecords token limit).Answer}
    (h : Gives K w (.listRecords token limit) a w')
    (hfault : K.fault (.listRecords token limit) = none) :
    a = .ok (w.store.records.page token limit) ∧ w' = w.note 0 (.listRecords token limit) := by
  cases h.pass hfault with
  | answered => exact ⟨rfl, rfl⟩

/-! ## The listing, and what follows it -/

/-- The listing of all names, when some were listed, and what follows it. -/
abbrev listing (limit : ℕ) (next : Result (List String) → Program α) (token : Option String)
    (sofar : List String) : Program α :=
  .loop (fun s : Option String × List String ↦ .listRecords s.1 limit) Record.collectNames
    (token, sofar) next

/-- What was listed in some parts. -/
structure Listed (events : List Event) (parts : List (List String)) : Prop where
  names : listedNames events = parts.flatten
  asked : ∀ e ∈ exchanges events, e.request.kind = .listRecords

/-- How far a tour has come that begins with the listing of all names. -/
inductive Naming (K : Conditions) (limit : ℕ) (next : Result (List String) → Program α)
    (start : Scene α) : List Event → Scene α → Prop
  /-- There are more parts to list. -/
  | listing {events : List Event} {w : World} {token : Option String} {parts : List (List String)}
      (hread : Reading limit (Subject.records.visits events) parts token)
      (hlisted : Listed events parts) (hkeyed : Keyed w) :
    Naming K limit next start events ⟨w, listing limit next token parts.flatten⟩
  /-- All names were listed. -/
  | named {past future : List Event} {w : World} {s : Scene α} {parts : List (List String)}
      (hread : Enumerated limit (Subject.records.visits past) parts)
      (hlisted : Listed past parts) (hpast : Course K start past ⟨w, next (.ok parts.flatten)⟩)
      (hfuture : Course K ⟨w, next (.ok parts.flatten)⟩ future s) :
    Naming K limit next start (past ++ future) s

theorem Listed.other {parts : List (List String)} (h : Listed events parts) (c : Change) :
    Listed (events ++ [.other c]) parts := by
  refine ⟨?_, ?_⟩
  · rw [listedNames_append, h.names]
    exact List.append_nil _
  · rw [exchanges_snoc_other]
    exact h.asked

/-- After a part of the listing, more was listed. -/
theorem Listed.listed {parts parts' : List (List String)} (h : Listed events parts)
    (hkeyed : Keyed w)
    (hparts : parts'.flatten = parts.flatten ++ w.store.records.part token limit) :
    Listed (events ++ [.asked w ⟨.listRecords token limit,
      (.ok (w.store.records.page token limit) : Result (Page Record))⟩]) parts' := by
  refine ⟨?_, fun e he ↦ ?_⟩
  · rw [listedNames_append, h.names, hparts, ← hkeyed.names_page]
    simp [listedNames, Exchange.listed]
  · rw [exchanges_append, List.mem_append] at he
    obtain he | he := he
    · exact h.asked e he
    · rw [List.mem_singleton.mp he]
      rfl

/-- A tour that begins with the listing of all names is still at it, or has listed them all. -/
theorem naming_of_course {next : Result (List String) → Program α}
    (hothers : ∀ w c, K.others w c → c.Keyed)
    (hfault : ∀ token, K.fault (.listRecords token limit) = none) (hkeyed : Keyed w)
    (hcourse : Course K ⟨w, listing limit next none []⟩ events s) :
    Naming K limit next ⟨w, listing limit next none []⟩ events s := by
  induction hcourse with
  | nil => exact .listing (.start limit) ⟨rfl, by simp [exchanges]⟩ hkeyed
  | @snoc events e s t hrun hstep ih =>
    cases ih with
    | @named past future w s parts hread hlisted hpast hfuture =>
      rw [List.append_assoc]
      exact .named hread hlisted hpast (hfuture.snoc hstep)
    | @listing _ w token parts hread hlisted hkeyed =>
      have hsnoc := hrun.snoc hstep
      cases hstep with
      | @other _ _ c hc =>
        refine .listing ?_ (hlisted.other c) (hkeyed.apply (hothers _ _ hc))
        rw [Subject.visits_snoc_other]
        exact hread
      | asked hx hw =>
        cases hx
        obtain ⟨rfl, rfl⟩ := hw.of_listRecords (hfault token)
        revert hsnoc
        rw [Record.collectNames, hkeyed.names_page]
        cases hpage : (w.store.records.page token limit).next with
        | some t =>
          intro _
          have hflatten : (parts ++ [w.store.records.part token limit]).flatten =
              parts.flatten ++ w.store.records.part token limit := by simp
          dsimp only
          rw [← hflatten]
          refine .listing ?_ (hlisted.listed hkeyed hflatten) (hkeyed.of_store_eq rfl)
          rw [Subject.visits_snoc rfl]
          exact hread.next hpage
        | none =>
          dsimp only
          rw [← flatten_addPart]
          intro hsnoc
          rw [← List.append_nil (events ++ _)]
          refine .named ?_ (hlisted.listed hkeyed (flatten_addPart _ _)) hsnoc .nil
          rw [Subject.visits_snoc rfl]
          exact hread.finish hpage

/-! ## Where only what was listed is removed -/

/-- Others remove only records that were listed before. -/
def Late (events : List Event) : Prop :=
  ∀ past n future, events = past ++ .other (.drop n) :: future → n ∈ listedNames past

theorem Late.of_append (h : Late (past ++ future)) : Late past := by
  intro before n after hsplit
  refine h before n (after ++ future) ?_
  rw [hsplit, List.append_assoc, List.cons_append]

theorem Late.append (h : Late past) (hmore : ∀ n ∈ losses future, n ∈ listedNames past) :
    Late (past ++ future) := by
  intro before n after hsplit
  have hloss : ∀ between, future = between ++ .other (.drop n) :: after → n ∈ listedNames past :=
    fun between hfuture ↦ hmore n (by simp [hfuture, losses, Event.loss?])
  obtain ⟨between, rfl, hfuture⟩ | ⟨between, rfl, hrest⟩ := List.append_eq_append_iff.mp hsplit
  · rw [listedNames_append]
    exact List.mem_append_left _ (hloss between hfuture)
  · cases between with
    | nil =>
      rw [List.append_nil] at hloss
      exact hloss [] hrest.symm
    | cons e between =>
      cases hrest
      exact h before n between rfl

theorem late_of_nobody (hothers : ∀ w c, ¬K.others w c) (hcourse : Course K start events s) :
    Late events := by
  rintro past n future rfl
  obtain ⟨t, t', -, hstep, -⟩ := hcourse.exists_step
  cases hstep with
  | other hc => exact absurd hc (hothers _ _)

theorem Late.mem_listedNames (h : Late events) (hn : n ∈ losses events) :
    n ∈ listedNames events := by
  obtain ⟨e, he, hloss⟩ := List.mem_filterMap.mp hn
  obtain ⟨before, after, rfl⟩ := List.append_of_mem he
  obtain rfl : e = .other (.drop n) := by
    cases e with
    | asked => cases hloss
    | other c =>
      cases c with
      | drop name =>
        cases hloss
        rfl
      | _ => cases hloss
  rw [listedNames_append]
  exact List.mem_append_left _ (h before n after rfl)

theorem additions_eq_nil (hdrops : ∀ w c, K.others w c → ∃ n, c = .drop n)
    (hcourse : Course K start events s) (q : Subject) : q.additions events = [] := by
  induction hcourse with
  | nil => rfl
  | snoc _ hstep ih =>
    rw [Subject.additions_append, ih]
    cases hstep with
    | asked => exact q.additions_asked _ _
    | other hc =>
      obtain ⟨n, rfl⟩ := hdrops _ _ hc
      cases q <;> rfl

/-- If others only remove records that were listed before, the listing has the names of all records
that there were. -/
theorem Enumerated.flatten_eq {parts : List (List String)}
    (hread : Enumerated limit (Subject.records.visits events) parts) (hlisted : Listed events parts)
    (hdrops : ∀ w c, K.others w c → ∃ n, c = .drop n) (hlate : Late events)
    (hcourse : Course K start events s) :
    parts.flatten = Subject.records.names start.world := by
  have hwrites : ∀ e ∈ exchanges events, e.request.isWrite = false :=
    writes_none [.listRecords] (by decide)
      fun e he ↦ List.mem_singleton.mpr (hlisted.asked e he)
  obtain ⟨-, hknown⟩ := known_of_course (q := .records) hwrites hcourse
  rw [additions_eq_nil hdrops hcourse, List.append_nil] at hknown
  refine eq_of_increasing hread.increasing (Dict.sorted_keys _) fun n ↦ ⟨fun hn ↦ ?_, fun hn ↦ ?_⟩
  · obtain ⟨visit, hvisit, hmem⟩ := hread.present n hn
    exact hknown visit hvisit n hmem
  · by_cases hloss : n ∈ losses events
    · rw [← hlisted.names]
      exact hlate.mem_listedNames hloss
    · exact hread.complete n (mem_visits_of_course hwrites hcourse hn hloss).2

/-- If a tour has ended that began with the listing of all names, it has gone on with the names of
all records. -/
theorem exists_named_of_course {next : Result (List String) → Program α} {v : α}
    (hdrops : ∀ w c, K.others w c → ∃ n, c = .drop n)
    (hfault : ∀ token, K.fault (.listRecords token limit) = none) (hkeyed : Keyed w)
    (hlate : Late events) (hcourse : Course K ⟨w, listing limit next none []⟩ events s)
    (hended : s.rest.Ended v) :
    ∃ past future w', events = past ++ future ∧
      (∀ e ∈ exchanges past, e.request.kind = .listRecords) ∧
      Course K ⟨w, listing limit next none []⟩ past ⟨w', next (.ok w.store.records.keys)⟩ ∧
      Course K ⟨w', next (.ok w.store.records.keys)⟩ future s := by
  have hothers : ∀ w c, K.others w c → c.Keyed := fun w c hc ↦ by
    obtain ⟨n, rfl⟩ := hdrops w c hc
    trivial
  cases naming_of_course hothers hfault hkeyed hcourse with
  | listing => cases hended
  | @named past future w' s parts hread hlisted hpast hfuture =>
    have hnames : parts.flatten = w.store.records.keys :=
      hread.flatten_eq hlisted hdrops hlate.of_append hpast
    rw [hnames] at hpast hfuture
    exact ⟨past, future, w', rfl, hlisted.asked, hpast, hfuture⟩

/-- Where others only remove records that are there, the listing ends, and so does the tour if what
follows ends. -/
theorem acc_listing {next : Result (List String) → Program α}
    (hdrops : ∀ w c, K.others w c → ∃ n x, c = .drop n ∧ w.record? n = some x)
    (hfault : ∀ token, K.fault (.listRecords token limit) = none)
    (hnext : ∀ answer w, Acc (fun t s ↦ Moves K s t) ⟨w, next answer⟩) (w : World)
    (token : Option String) (sofar : List String) :
    Acc (fun t s ↦ Moves K s t) ⟨w, listing limit next token sofar⟩ := by
  -- the store and what is left of it to list never grow, and one of them is smaller after a move
  induction hleft : (w.store.records.remaining token).length + w.store.records.size
    using Nat.strongRecOn generalizing w token sofar with
  | _ left ih =>
    refine .intro _ fun t ⟨e, hstep⟩ ↦ ?_
    cases hstep with
    | other hc =>
      obtain ⟨n, x, rfl, hx⟩ := hdrops _ _ hc
      refine ih _ ?_ _ _ _ rfl
      have hremaining := w.store.records.length_remaining_erase_le n token
      have hsize := Dict.size_erase_lt hx
      rw [← hleft]
      exact Nat.add_lt_add_of_le_of_lt hremaining hsize
    | asked hx hw =>
      cases hx
      obtain ⟨rfl, rfl⟩ := hw.of_listRecords (hfault token)
      rw [Record.collectNames]
      cases hpage : (w.store.records.page token limit).next with
      | none => exact hnext _ _
      | some t =>
        refine ih _ ?_ _ _ _ rfl
        have hlt := Dict.lt_of_page_next hpage
        rw [← hleft, World.store_note, Dict.remaining_of_page_next hpage, List.length_drop]
        omega

end NodeInventory.Tour
