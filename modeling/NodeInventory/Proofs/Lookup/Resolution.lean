import Mathlib.Data.List.Nodup
import NodeInventory.Proofs.Exchange
import NodeInventory.Proofs.Json.RoundTrip
import NodeInventory.Proofs.Lookup.Selectors

/-!
# Nodes by name

Each of some names is asked for in one place: in the selector of its part of the list if it can be
the value of a label, and else by a request of its own. These requests are sent in order whatever is
replied, until one of them fails (`follows_nodesByName`).

What comes of it is told by a server that answers as it should (`Serves`). Every selector brings the
nodes whose label is listed, and since labels tell the names (`Labelled`) these are the nodes of the
names in its part. The parts make up the list, so together with the nodes fetched one by one they
are the nodes of all names (`mem_resolved_iff`), and no node comes twice unless a name does
(`resolved_perm`).

All this is for names that can be sent. A name with a blank makes no address, so it is not asked for
and nothing is resolved.
-/

namespace NodeInventory.Api.Cluster

variable {names later : List String} {found : List Node}

/-! ## What is asked -/

theorem namesPerRequest_ne_zero : namesPerRequest ≠ 0 := by decide

/-- The words between the parentheses of the selectors for some names. -/
def selectorWords (names : List String) : List String :=
  (chunks namesPerRequest (names.filter Node.isLabelValue)).map (Text.join ',')

/-- The requests for the nodes of some names. -/
def plan (names : List String) : List Request :=
  (selectorWords names).map labelRequest ++
    (names.filter fun n ↦ !Node.isLabelValue n).map nodeRequest

theorem comma_notMem_of_isLabelValue {s : String} (h : Node.isLabelValue s) : ',' ∉ s.toList := by
  intro hcomma
  have := (Node.isLabelValue_iff.mp h).2.1 _ hcomma
  revert this
  decide

theorem isLabelValue_of_mem_chunk {c : List String}
    (hc : c ∈ chunks namesPerRequest (names.filter Node.isLabelValue)) {s : String} (hs : s ∈ c) :
    Node.isLabelValue s := by
  have hmem : s ∈ names.filter Node.isLabelValue := by
    rw [← flatten_chunks namesPerRequest_ne_zero (names.filter Node.isLabelValue)]
    exact List.mem_flatten_of_mem hc hs
  exact (List.mem_filter.mp hmem).2

theorem part_of_mem_chunk {c : List String}
    (hc : c ∈ chunks namesPerRequest (names.filter Node.isLabelValue)) :
    (∀ s ∈ c, Node.isLabelValue s) ∧ c.length ≤ namesPerRequest :=
  ⟨fun _ ↦ isLabelValue_of_mem_chunk hc, (length_of_mem_chunks hc).2⟩

theorem split_join_of_mem_chunk {c : List String}
    (hc : c ∈ chunks namesPerRequest (names.filter Node.isLabelValue)) :
    Text.split ',' (Text.join ',' c) = c := by
  refine Text.split_join (fun hnil ↦ ?_) fun s hs ↦
    comma_notMem_of_isLabelValue (isLabelValue_of_mem_chunk hc hs)
  have := (length_of_mem_chunks hc).1
  simp [hnil] at this

theorem length_split_selectorWords {words : String} (h : words ∈ selectorWords names) :
    1 ≤ (Text.split ',' words).length ∧ (Text.split ',' words).length ≤ 50 := by
  obtain ⟨c, hc, rfl⟩ := List.mem_map.mp h
  rw [split_join_of_mem_chunk hc]
  exact length_of_mem_chunks hc

theorem flatMap_split_selectorWords (names : List String) :
    (selectorWords names).flatMap (Text.split ',') = names.filter Node.isLabelValue := by
  have hmap : (selectorWords names).map (Text.split ',') =
      chunks namesPerRequest (names.filter Node.isLabelValue) := by
    rw [selectorWords, List.map_map]
    exact (List.map_congr_left fun c hc ↦ split_join_of_mem_chunk hc).trans (List.map_id _)
  rw [List.flatMap_def, hmap, flatten_chunks namesPerRequest_ne_zero]

theorem byLabel_cons {part : List String} (hvalues : ∀ s ∈ part, Node.isLabelValue s)
    (hlength : part.length ≤ namesPerRequest) (later : List (List String)) (found : List Node) :
    byLabel (part :: later) found = .send (labelRequest (Text.join ',' part)) fun reply ↦
      match result "timeout listing nodes by name" "error listing nodes by name"
        (answer (page? Node.ofJson?) reply) with
      | .error f => .done (.error f)
      | .ok page => byLabel later (found ++ page.items) := by
  rw [byLabel, query_selector, ask_eq_send (sent?_labelRequest hvalues hlength)]
  rfl

theorem oneByOne_cons {name : String}
    (h : Uri.sent? (nodeRequest name).path = some (nodeRequest name).path.toList)
    (later : List String) (found : List Node) :
    oneByOne (name :: later) found = .send (nodeRequest name) fun reply ↦
      match answer (fun text ↦ (Json.parse text).bind Node.ofJson?) reply with
      | some (.error f) =>
        if f.isNotFound then oneByOne later found
        else .done (.error (.context ("error fetching node " ++ name) (.plain f.message)))
      | reply =>
        match result "timeout fetching node" ("error fetching node " ++ name) reply with
        | .error f => .done (.error f)
        | .ok node => oneByOne later (found ++ [node]) := by
  have hpath : nodesPath ++ "/" ++ name = (nodeRequest name).path :=
    congrArg (· ++ name) (by decide : nodesPath ++ "/" = "/api/v1/nodes/")
  rw [oneByOne, hpath, ask_eq_send h]
  rfl

open Api.Exchange (Follows)

theorem follows_byLabel {parts : List (List String)}
    (h : ∀ part ∈ parts, (∀ s ∈ part, Node.isLabelValue s) ∧ part.length ≤ namesPerRequest)
    (found : List Node) :
    Follows (parts.map fun c ↦ labelRequest (Text.join ',' c)) (byLabel parts found) := by
  induction parts generalizing found with
  | nil => exact .ok found
  | cons part later ih =>
    obtain ⟨hpart, hlater⟩ := List.forall_mem_cons.mp h
    rw [byLabel_cons hpart.1 hpart.2]
    refine .send fun reply ↦ ?_
    split
    · exact .error _ _
    · exact ih hlater _

theorem follows_oneByOne
    (h : ∀ n ∈ names, Uri.sent? (nodeRequest n).path = some (nodeRequest n).path.toList)
    (found : List Node) : Follows (names.map nodeRequest) (oneByOne names found) := by
  induction names generalizing found with
  | nil => exact .ok found
  | cons name later ih =>
    obtain ⟨hname, hlater⟩ := List.forall_mem_cons.mp h
    rw [oneByOne_cons hname]
    refine .send fun reply ↦ ?_
    split
    · split
      · exact ih hlater _
      · exact .error _ _
    · split
      · exact .error _ _
      · exact ih hlater _

theorem nodesByName_eq (names : List String) : nodesByName names =
    (byLabel (chunks namesPerRequest (names.filter Node.isLabelValue)) []).andThen
      (oneByOne (names.filter fun n ↦ !Node.isLabelValue n)) := by
  rw [nodesByName, Node.partitionNames_eq]
  exact congrArg (byLabel _ _ >>= ·) (funext fun x ↦ by cases x <;> rfl)

/-- Whether a name stands for itself in a path: all its characters may stand in one, none of them
has a meaning of its own there, and it is not too long for an address. -/
structure StandsForItself (name : String) : Prop where
  ne_empty : name ≠ ""
  chars : ∀ c ∈ name.toList, Uri.isPathChar c ∧ c ≠ '/' ∧ c ≠ '%'
  length : (nodeRequest name).path.utf8ByteSize < Uri.lengthBound

/-- Whether those of some names that are fetched one by one stand for themselves. -/
def Sendable (names : List String) : Prop :=
  ∀ n ∈ names, ¬ Node.isLabelValue n → StandsForItself n

theorem Sendable.sent? (h : Sendable names) : ∀ n ∈ names.filter fun n ↦ !Node.isLabelValue n,
    Uri.sent? (nodeRequest n).path = some (nodeRequest n).path.toList := by
  intro n hn
  obtain ⟨hmem, hvalue⟩ := List.mem_filter.mp hn
  have hplain := h n hmem (by simpa using hvalue)
  exact sent?_nodeRequest (fun c hc ↦ (hplain.chars c hc).1) hplain.length

theorem follows_nodesByName (h : Sendable names) : Follows (plan names) (nodesByName names) := by
  rw [nodesByName_eq, plan, selectorWords, List.map_map]
  exact (follows_byLabel (fun part hpart ↦ part_of_mem_chunk hpart) _).andThen fun found ↦
    follows_oneByOne h.sent? found

/-! ## What is found -/

/-- A server that has the given live nodes and is asked about some names. It answers a selector with
the nodes whose label with the host name is listed, in any order, and the request for a node with
the node of that name. -/
structure Serves (server : Request → Reply) (live : List Node) (names : List String) : Prop where
  selects : ∀ words ∈ selectorWords names, ∃ text page,
    receive (server (labelRequest words)) = some (.ok text) ∧
      page? Node.ofJson? text = some page ∧ page.items.Perm (live.filter fun node ↦
        (node.labels.get? Node.hostnameLabel).any (Text.split ',' words).contains)
  finds : ∀ name ∈ names, ¬ Node.isLabelValue name → ∀ node ∈ live, node.name = name →
    ∃ text, receive (server (nodeRequest name)) = some (.ok text) ∧
      (Json.parse text).bind Node.ofJson? = some node
  refuses : ∀ name ∈ names, ¬ Node.isLabelValue name → (∀ node ∈ live, node.name ≠ name) →
    ∃ f, receive (server (nodeRequest name)) = some (.error f) ∧ f.isNotFound

variable {server : Request → Reply} {live : List Node}

/-- The nodes of a label that is listed. -/
def labelled (live : List Node) (names : List String) : List Node :=
  live.filter fun node ↦ (node.labels.get? Node.hostnameLabel).any names.contains

/-- The live node of a name. -/
def named (live : List Node) (name : String) : Option Node := live.find? (·.name == name)

theorem value_byLabel {parts : List (List String)}
    (hsend : ∀ part ∈ parts, (∀ s ∈ part, Node.isLabelValue s) ∧ part.length ≤ namesPerRequest)
    (h : ∀ part ∈ parts, ∃ text page,
      receive (server (labelRequest (Text.join ',' part))) = some (.ok text) ∧
        page? Node.ofJson? text = some page ∧ page.items.Perm (labelled live part))
    (found : List Node) : ∃ items, items.Perm (parts.flatMap (labelled live)) ∧
      ((byLabel parts found).against server).value = .ok (found ++ items) := by
  induction parts generalizing found with
  | nil => exact ⟨[], .nil, congrArg Except.ok (List.append_nil found).symm⟩
  | cons part later ih =>
    obtain ⟨hpart, hlater⟩ := List.forall_mem_cons.mp h
    obtain ⟨text, page, hreceive, hpage, hperm⟩ := hpart
    obtain ⟨hsendPart, hsendLater⟩ := List.forall_mem_cons.mp hsend
    obtain ⟨items, hitems, hvalue⟩ := ih hsendLater hlater (found ++ page.items)
    refine ⟨page.items ++ items, hperm.append hitems, ?_⟩
    rw [byLabel_cons hsendPart.1 hsendPart.2, Exchange.value_against_send, answer_eq_ok hreceive hpage]
    rw [← List.append_assoc]
    exact hvalue

theorem value_oneByOne
    (hsend : ∀ n ∈ names, Uri.sent? (nodeRequest n).path = some (nodeRequest n).path.toList)
    (hfinds : ∀ name ∈ names, ∀ node ∈ live, node.name = name →
      ∃ text, receive (server (nodeRequest name)) = some (.ok text) ∧
        (Json.parse text).bind Node.ofJson? = some node)
    (hrefuses : ∀ name ∈ names, (∀ node ∈ live, node.name ≠ name) →
      ∃ f, receive (server (nodeRequest name)) = some (.error f) ∧ f.isNotFound)
    (found : List Node) : ((oneByOne names found).against server).value =
      .ok (found ++ names.filterMap (named live)) := by
  induction names generalizing found with
  | nil => exact congrArg Except.ok (List.append_nil found).symm
  | cons name later ih =>
    obtain ⟨hname, hlater⟩ := List.forall_mem_cons.mp hsend
    obtain ⟨hfind, hfinds⟩ := List.forall_mem_cons.mp hfinds
    obtain ⟨hrefuse, hrefuses⟩ := List.forall_mem_cons.mp hrefuses
    rw [oneByOne_cons hname, Exchange.value_against_send]
    cases hnamed : named live name with
    | none =>
      have hnone : ∀ node ∈ live, node.name ≠ name := fun node hnode heq ↦
        List.find?_eq_none.mp hnamed node hnode (by simpa using heq)
      obtain ⟨f, hreceive, hf⟩ := hrefuse hnone
      rw [answer_eq_error hreceive, List.filterMap_cons_none hnamed]
      simp only [hf, if_true]
      exact ih hlater hfinds hrefuses found
    | some node =>
      have hname : node.name = name := by simpa using List.find?_some hnamed
      obtain ⟨text, hreceive, hread⟩ := hfind node (List.mem_of_find?_eq_some hnamed) hname
      rw [answer_eq_ok hreceive hread, List.filterMap_cons_some hnamed, List.append_cons]
      exact ih hlater hfinds hrefuses (found ++ [node])

/-! ## Which nodes these are -/

/-- Live nodes of different names, of which none has a label with another host name than its own,
and those have this label whose names can be values of it. -/
structure Labelled (live : List Node) : Prop where
  nodup : (live.map Node.name).Nodup
  own : ∀ node ∈ live, ∀ h, node.labels.get? Node.hostnameLabel = some h → h = node.name
  label : ∀ node ∈ live, Node.isLabelValue node.name →
    node.labels.get? Node.hostnameLabel = some node.name

theorem mem_named_iff (h : (live.map Node.name).Nodup) {name : String} {node : Node} :
    named live name = some node ↔ node ∈ live ∧ node.name = name := by
  constructor
  · intro hnamed
    exact ⟨List.mem_of_find?_eq_some hnamed, by simpa using List.find?_some hnamed⟩
  · rintro ⟨hmem, rfl⟩
    obtain ⟨other, hother⟩ : ∃ other, named live node.name = some other :=
      Option.isSome_iff_exists.mp (List.find?_isSome.mpr ⟨node, hmem, by simp⟩)
    have hname : other.name = node.name := by simpa using List.find?_some hother
    rw [hother, List.inj_on_of_nodup_map h (List.mem_of_find?_eq_some hother) hmem hname]

theorem Labelled.labelled_eq (h : Labelled live) {part : List String}
    (hpart : ∀ s ∈ part, Node.isLabelValue s) :
    labelled live part = live.filter fun node ↦ part.contains node.name := by
  refine List.filter_congr fun node hnode ↦ ?_
  cases hlabel : node.labels.get? Node.hostnameLabel with
  | none =>
    have hnotMem : node.name ∉ part := fun hmem ↦ by
      cases hlabel.symm.trans (h.label node hnode (hpart _ hmem))
    simp [hnotMem]
  | some host => rw [Option.any_some, h.own node hnode host hlabel]

theorem filter_append_filter_perm {α : Type} {p q : α → Bool} {l : List α}
    (h : ∀ a ∈ l, p a → ¬ q a) :
    (l.filter p ++ l.filter q).Perm (l.filter fun a ↦ p a || q a) := by
  induction l with
  | nil => exact .nil
  | cons a l ih =>
    obtain ⟨ha, hl⟩ := List.forall_mem_cons.mp h
    by_cases hp : p a
    · have hq := ha hp
      simpa [hp, hq] using ih hl
    · by_cases hq : q a
      · simpa [hp, hq] using List.perm_middle.trans ((ih hl).cons a)
      · simpa [hp, hq] using ih hl

/-- Part by part, the nodes are the ones whose names are in any of the parts. -/
theorem flatMap_filter_perm (live : List Node) {parts : List (List String)} {all : List String}
    (hall : parts.flatten = all) (h : all.Nodup) :
    (parts.flatMap fun part ↦ live.filter fun node ↦ part.contains node.name).Perm
      (live.filter fun node ↦ all.contains node.name) := by
  subst hall
  induction parts with
  | nil => simp
  | cons part later ih =>
    rw [List.flatten_cons] at h
    have hexclude : ∀ node ∈ live, part.contains node.name →
        ¬ later.flatten.contains node.name := by
      intro node _ hpart hlater
      exact List.disjoint_of_nodup_append h (List.contains_iff_mem.mp hpart)
        (List.contains_iff_mem.mp hlater)
    have hor : (fun node : Node ↦ (part :: later).flatten.contains node.name) =
        fun node ↦ part.contains node.name || later.flatten.contains node.name := by
      funext node
      simp
    rw [List.flatMap_cons, hor]
    exact ((ih h.of_append_right).append_left _).trans (filter_append_filter_perm hexclude)

theorem filterMap_named_perm (hlive : (live.map Node.name).Nodup) (h : names.Nodup) :
    (names.filterMap (named live)).Perm (live.filter fun node ↦ names.contains node.name) := by
  refine (List.perm_ext_iff_of_nodup (h.filterMap fun a b node ha hb ↦ ?_)
    (hlive.of_map.filter _)).mpr fun node ↦ ?_
  · exact ((mem_named_iff hlive).mp ha).2.symm.trans ((mem_named_iff hlive).mp hb).2
  · simp [mem_named_iff hlive, and_comm]

/-- The nodes of each selector, and then the others name by name. -/
def resolved (live : List Node) (names : List String) : List Node :=
  ((chunks namesPerRequest (names.filter Node.isLabelValue)).flatMap fun part ↦
    live.filter fun node ↦ part.contains node.name) ++
  (names.filter fun n ↦ !Node.isLabelValue n).filterMap (named live)

/-- These are the live nodes of the names. -/
theorem mem_resolved_iff (hlive : (live.map Node.name).Nodup) {node : Node} :
    node ∈ resolved live names ↔ node ∈ live ∧ node.name ∈ names := by
  have hparts : (∃ part ∈ chunks namesPerRequest (names.filter Node.isLabelValue),
      node.name ∈ part) ↔ node.name ∈ names.filter Node.isLabelValue := by
    rw [← List.mem_flatten, flatten_chunks namesPerRequest_ne_zero]
  have hpart : node ∈ (chunks namesPerRequest (names.filter Node.isLabelValue)).flatMap
      (fun part ↦ live.filter fun node ↦ part.contains node.name) ↔
        node ∈ live ∧ node.name ∈ names.filter Node.isLabelValue := by
    rw [List.mem_flatMap, ← hparts]
    simp only [List.mem_filter, List.contains_iff_mem]
    tauto
  have hother : node ∈ (names.filter fun n ↦ !Node.isLabelValue n).filterMap (named live) ↔
      node ∈ live ∧ node.name ∈ names.filter fun n ↦ !Node.isLabelValue n := by
    rw [List.mem_filterMap]
    simp only [mem_named_iff hlive]
    constructor
    · rintro ⟨name, hname, hnode, rfl⟩
      exact ⟨hnode, hname⟩
    · exact fun ⟨hnode, hname⟩ ↦ ⟨_, hname, hnode, rfl⟩
  rw [resolved, List.mem_append, hpart, hother, ← and_or_left, ← List.mem_append,
    (List.filter_append_perm Node.isLabelValue names).mem_iff]

/-- Of different names, these are the live nodes of the names once each. -/
theorem resolved_perm (hlive : (live.map Node.name).Nodup) (hnames : names.Nodup) :
    (resolved live names).Perm (live.filter fun node ↦ names.contains node.name) := by
  have hparts := flatMap_filter_perm live (flatten_chunks namesPerRequest_ne_zero
    (names.filter Node.isLabelValue)) (hnames.filter _)
  have hothers := filterMap_named_perm hlive (hnames.filter fun n ↦ !Node.isLabelValue n)
  have hexclude : ∀ node ∈ live, (names.filter Node.isLabelValue).contains node.name →
      ¬ (names.filter fun n ↦ !Node.isLabelValue n).contains node.name := by
    intro node _ hvalue hother
    simp_all
  have hor : (fun node : Node ↦ (names.filter Node.isLabelValue).contains node.name ||
      (names.filter fun n ↦ !Node.isLabelValue n).contains node.name) =
        fun node ↦ names.contains node.name := by
    funext node
    cases h : Node.isLabelValue node.name <;> simp [h]
  rw [← hor]
  exact (hparts.append hothers).trans (filter_append_filter_perm hexclude)

/-- What is found are the nodes of the selectors, and then the others. -/
theorem exists_value_nodesByName (hsend : Sendable names) (hserves : Serves server live names)
    (hlive : Labelled live) : ∃ found : List Node,
      ((nodesByName names).against server).value = .ok found ∧
        found.Perm (resolved live names) := by
  have hparts : ∀ part ∈ chunks namesPerRequest (names.filter Node.isLabelValue), ∃ text page,
      receive (server (labelRequest (Text.join ',' part))) = some (.ok text) ∧
        page? Node.ofJson? text = some page ∧ page.items.Perm (labelled live part) := by
    intro part hpart
    have hselects := hserves.selects _ (List.mem_map_of_mem hpart)
    rwa [split_join_of_mem_chunk hpart] at hselects
  obtain ⟨items, hitems, hvalue⟩ := value_byLabel (fun part hpart ↦ part_of_mem_chunk hpart) hparts []
  have hother {n : String} (hn : n ∈ names.filter fun n ↦ !Node.isLabelValue n) :
      n ∈ names ∧ ¬ Node.isLabelValue n := by
    simpa using hn
  have hlabelled : (chunks namesPerRequest (names.filter Node.isLabelValue)).flatMap
      (labelled live) = (chunks namesPerRequest (names.filter Node.isLabelValue)).flatMap
        fun part ↦ live.filter fun node ↦ part.contains node.name :=
    List.flatMap_congr fun part hpart ↦
      hlive.labelled_eq fun s hs ↦ isLabelValue_of_mem_chunk hpart hs
  refine ⟨items ++ (names.filter fun n ↦ !Node.isLabelValue n).filterMap (named live), ?_, ?_⟩
  · rw [nodesByName_eq, Exchange.andThen, Exchange.value_against_bind, hvalue]
    exact value_oneByOne hsend.sent?
      (fun n hn ↦ hserves.finds n (hother hn).1 (hother hn).2)
      (fun n hn ↦ hserves.refuses n (hother hn).1 (hother hn).2) _
  · rw [hlabelled] at hitems
    exact hitems.append_right _

theorem missingNames_eq (hlive : Labelled live) {found : List Node}
    (hfound : ∀ node, node ∈ found ↔ node ∈ live ∧ node.name ∈ names) :
    Node.missingNames names found = names.filter fun n ↦ !(live.map Node.name).contains n := by
  refine List.filter_congr fun n hn ↦ congrArg (!·) (Bool.eq_iff_iff.mpr ?_)
  rw [List.any_eq_true, List.contains_iff_mem, List.mem_map]
  simp only [List.contains_iff_mem, Node.aliases, List.mem_cons, Option.mem_toList]
  constructor
  · rintro ⟨node, hnode, halias⟩
    have hmem : node ∈ live := ((hfound node).mp hnode).1
    refine ⟨node, hmem, ?_⟩
    rcases halias with rfl | hlabel
    · rfl
    · exact (hlive.own node hmem n hlabel).symm
  · rintro ⟨node, hnode, rfl⟩
    exact ⟨node, (hfound node).mpr ⟨hnode, hn⟩, .inl rfl⟩

theorem value_missing {found : List Node}
    (hvalue : ((nodesByName names).against server).value = .ok found) :
    ((missing names).against server).value = .ok (Node.missingNames names found) := by
  rw [missing, Exchange.value_against_bind, hvalue]
  rfl

/-- Names that can be values of a label, which are the texts of 1 to 63 ASCII letters, digits,
hyphens, underscores and points with a letter or digit at either end, are asked for in selectors of
1 to 50 words, which together are these names in order. The others are fetched after them, one by
one and in order. If the server answers to this as it should, the live nodes of the names are found
and no others, and what is missing are the names of which no node lives. -/
theorem names_are_resolved (names : List String) (hsend : Sendable names) :
    (∀ s, Node.isLabelValue s ↔ (1 ≤ s.utf8ByteSize ∧ s.utf8ByteSize ≤ 63) ∧
      (∀ c ∈ s.toList, c.isAlphanum ∨ c = '-' ∨ c = '_' ∨ c = '.') ∧
      (∀ c ∈ s.toList.head?, c.isAlphanum) ∧ ∀ c ∈ s.toList.getLast?, c.isAlphanum) ∧
    (∀ words ∈ selectorWords names,
      1 ≤ (Text.split ',' words).length ∧ (Text.split ',' words).length ≤ 50) ∧
    (selectorWords names).flatMap (Text.split ',') = names.filter Node.isLabelValue ∧
    (∀ replies, ((nodesByName names).run replies).requests <+: plan names) ∧
    (∀ replies found, ((nodesByName names).run replies).value = .ok found →
      ((nodesByName names).run replies).requests = plan names) ∧
    ∀ server live, Labelled live → Serves server live names → ∃ found : List Node,
      ((nodesByName names).against server).value = .ok found ∧
      (∀ node, node ∈ found ↔ node ∈ live ∧ node.name ∈ names) ∧
      (names.Nodup → found.Perm (live.filter fun node ↦ names.contains node.name)) ∧
      ((missing names).against server).value =
        .ok (names.filter fun n ↦ !(live.map Node.name).contains n) := by
  have hfollows := follows_nodesByName hsend
  refine ⟨fun s ↦ Node.isLabelValue_iff, fun words ↦ length_split_selectorWords,
    flatMap_split_selectorWords names, hfollows.isPrefix, fun replies found ↦ hfollows.requests_eq,
    fun server live hlive hserves ↦ ?_⟩
  obtain ⟨found, hvalue, hperm⟩ := exists_value_nodesByName hsend hserves hlive
  have hfound (node : Node) : node ∈ found ↔ node ∈ live ∧ node.name ∈ names :=
    hperm.mem_iff.trans (mem_resolved_iff hlive.nodup)
  refine ⟨found, hvalue, hfound, fun hnames ↦ hperm.trans (resolved_perm hlive.nodup hnames), ?_⟩
  rw [value_missing hvalue, missingNames_eq hlive hfound]

/-! ## A server -/

/-- The answer that there is no such node. -/
def noSuchNode : Reply :=
  .response 404 (Json.record [("status", .text "Failure"), ("reason", .text "NotFound"),
    ("code", .nat 404)]).render

theorem receive_noSuchNode : ∃ f, receive noSuchNode = some (.error f) ∧ f.isNotFound := by
  refine ⟨.refused (.ofResponse 404 _), rfl, ?_⟩
  rw [Refusal.ofResponse, Refusal.parse?, Json.parse_render]
  rfl

/-- The only node of a cluster. -/
def onlyNode : Node := { ownName := some "a", labels := .ofList [(Node.hostnameLabel, "a")] }

/-- The listing of it. -/
def onlyListing : String :=
  (Json.record [("metadata", .record []), ("items", .array [.record [("metadata", .record
    [("name", .text "a"), ("labels", .record [(Node.hostnameLabel, .text "a")])])]])]).render

/-- A server of this cluster, which is asked for the node and for others. -/
def onlyServer (r : Request) : Reply :=
  if r.path = (labelRequest "a").path then .response 200 onlyListing else noSuchNode

theorem selectorWords_onlyNode : selectorWords ["a", "-"] = ["a"] := by
  have hfilter : ["a", "-"].filter Node.isLabelValue = ["a"] := by decide +kernel
  have hchunks : chunks namesPerRequest ["a"] = [["a"]] := by simp [chunks, namesPerRequest]
  rw [selectorWords, hfilter, hchunks]
  decide

theorem serves_onlyNode : Serves onlyServer [onlyNode] ["a", "-"] where
  selects := by
    rw [selectorWords_onlyNode, List.forall_mem_singleton]
    refine ⟨onlyListing, ⟨[onlyNode], none⟩, ?_, ?_, ?_⟩
    · rw [onlyServer, if_pos rfl]
      rfl
    · rw [onlyListing, page?, Json.parse_render]
      rfl
    · have hlisted : [onlyNode].filter (fun node ↦
          (node.labels.get? Node.hostnameLabel).any (Text.split ',' "a").contains) =
            [onlyNode] := by decide +kernel
      rw [hlisted]
  finds name _ hvalue node hnode hname := by
    obtain rfl := List.mem_singleton.mp hnode
    subst hname
    exact absurd (by decide +kernel) hvalue
  refuses := by
    have hpath : ∀ name ∈ ["a", "-"], (nodeRequest name).path ≠ (labelRequest "a").path := by
      decide +kernel
    intro name hname _ _
    rw [onlyServer, if_neg (hpath name hname)]
    exact receive_noSuchNode

theorem labelled_onlyNode : Labelled [onlyNode] where
  nodup := by decide +kernel
  own := by decide +kernel
  label := by decide +kernel

theorem onlyNode_is_resolved :
    ∃ found : List Node, ((nodesByName ["a", "-"]).against onlyServer).value = .ok found ∧
      found.Perm [onlyNode] ∧ ((missing ["a", "-"]).against onlyServer).value = .ok ["-"] := by
  have hsend : Sendable ["a", "-"] := by
    have hplain : StandsForItself "-" :=
      ⟨by decide, List.forall_mem_singleton.mpr (by decide), by decide +kernel⟩
    have ha : Node.isLabelValue "a" := by decide +kernel
    simp only [Sendable, List.forall_mem_cons, ha, hplain]
    simp
  obtain ⟨found, hvalue, -, hperm, hmissing⟩ :=
    (names_are_resolved ["a", "-"] hsend).2.2.2.2.2 _ _ labelled_onlyNode serves_onlyNode
  exact ⟨found, hvalue, hperm (by decide), hmissing⟩

/-- A name with a blank is not fetched, and none of the names is resolved then. -/
theorem name_with_blank_is_not_resolved :
    ¬ ∀ names : List String, (∀ n ∈ names, n ≠ "" ∧ '/' ∉ n.toList) →
      ∀ server live, Labelled live → Serves server live names →
        ∃ found, ((nodesByName names).against server).value = .ok found := by
  intro h
  have hfilter : ["a b"].filter Node.isLabelValue = [] := by decide +kernel
  have hothers : (["a b"].filter fun n ↦ !Node.isLabelValue n) = ["a b"] := by decide +kernel
  have hchunks : chunks namesPerRequest ([] : List String) = [] := by simp [chunks]
  have hserves : Serves (fun _ ↦ noSuchNode) [] ["a b"] := {
    selects := by simp [selectorWords, hfilter, hchunks]
    finds := fun _ _ _ node hnode ↦ absurd hnode List.not_mem_nil
    refuses := fun _ _ _ _ ↦ receive_noSuchNode }
  have hlabelled : Labelled [] := ⟨List.nodup_nil, by simp, by simp⟩
  obtain ⟨found, hfound⟩ := h ["a b"] (by decide) _ _ hlabelled hserves
  rw [nodesByName_eq, hfilter, hothers, hchunks] at hfound
  cases hfound

end NodeInventory.Api.Cluster
