import NodeInventory.Proofs.Json.Double
import NodeInventory.Proofs.Json.Fields
import NodeInventory.Proofs.Json.RoundTrip
import NodeInventory.Proofs.Record.Timestamp
import NodeInventory.Record.Reading
import NodeInventory.Record.Writing

/-!
# Records are kept

A record that is read, written and read again is the same, but for two things: a point in time is
written to the second (`half_a_second_is_not_kept`), and among the fields that the cluster lists for
its writers a number that is no integer of 64 bits is held in double precision and read as such
again. A replacement of a record with what was read of it takes nothing else away
(`records_are_kept`).

Whatever has a value is written as a member of its own name, and so it is found under this name and
nowhere else. Where a reader accepts less than could be written, what was read is within these
limits: the numbers of metadata are words, and what a writer has written is sound and not null
(`Metadata.Legible`).
-/

namespace NodeInventory

open Json

/-! ## Specs -/

theorem Accounting.ofJson?_toJson (a : Accounting) : ofJson? a.toJson = some a := by
  simp [ofJson?, toJson, fields?, record, keysDenote, occurrences]

theorem Spec.ofJson?_toJson (s : Spec) : ofJson? s.toJson = some s := by
  have hresources : dict? Accounting.ofJson? (ofDict Accounting.toJson s.resources) =
      some s.resources := dict?_ofDict Accounting.ofJson?_toJson _
  have hfields : fields? fieldNames s.toJson = some [some (text s.nodeName),
      some (ofDict Accounting.toJson s.resources), some (text s.status), some (text s.roles),
      some (text s.scheduleVersion), some (text s.internalIp), some (text s.os),
      some (text s.kernelVersion), some (text s.containerRuntime)] := rfl
  simp [ofJson?, hfields, hresources, orDefault]

/-! ## Members of metadata -/

section Members

variable {key : String} {members : List (String × Json)}

theorem member?_text {a : Option String}
    (h : members.filter (·.1 == key) = optionalMember key text a) :
    member? text? key (members.map fun m ↦ (some m.1, m.2)) = some a :=
  member?_map_eq_some text h fun _ _ ↦ ⟨rfl, rfl⟩

theorem member?_bool {a : Option Bool}
    (h : members.filter (·.1 == key) = optionalMember key Json.bool a) :
    member? bool? key (members.map fun m ↦ (some m.1, m.2)) = some a :=
  member?_map_eq_some Json.bool h fun _ _ ↦ ⟨rfl, rfl⟩

theorem member?_texts {a : Option (List String)}
    (h : members.filter (·.1 == key) = optionalMember key texts a) :
    member? (list? text?) key (members.map fun m ↦ (some m.1, m.2)) = some a :=
  member?_map_eq_some texts h fun l _ ↦ ⟨rfl, list?_text?_texts l⟩

theorem member?_dict {a : Option (Dict String)}
    (h : members.filter (·.1 == key) = optionalMember key (ofDict text) a) :
    member? (dict? text?) key (members.map fun m ↦ (some m.1, m.2)) = some a :=
  member?_map_eq_some (ofDict text) h fun d _ ↦ ⟨rfl, dict?_ofDict text?_text d⟩

theorem member?_word {a : Option ℤ} (h : members.filter (·.1 == key) = optionalMember key int a)
    (hword : ∀ n ∈ a, Word.minInt 64 ≤ n ∧ n ≤ Word.maxInt 64) :
    member? wordInt? key (members.map fun m ↦ (some m.1, m.2)) = some a := by
  refine member?_map_eq_some int h fun n hn ↦ ⟨rfl, ?_⟩
  rw [wordInt?, int?_int]
  exact if_pos (hword n hn)

/-- A point in time is read without the fraction of its second. -/
theorem member?_timestamp {a : Option Text.Timestamp}
    (h : members.filter (·.1 == key) = optionalMember key (fun t ↦ text t.render) a) :
    member? timestamp? key (members.map fun m ↦ (some m.1, m.2)) =
      some (a.map Text.Timestamp.wholeSeconds) :=
  member?_map_eq_some_map _ h fun t _ ↦ ⟨rfl, Text.Timestamp.parse_render t⟩

end Members

/-! ## Metadata -/

theorem Owner.ofJson?_toJson (o : Owner) : ofJson? o.toJson = some o := by
  rw [ofJson?, toJson]
  refine Option.bind_eq_some_iff.mpr ⟨_, openObject?_record _, ?_⟩
  refine Option.bind_eq_some_iff.mpr ⟨_, member?_text (a := some o.apiVersion) (by simp), ?_⟩
  refine Option.bind_eq_some_iff.mpr ⟨_, member?_text (a := some o.kind) (by simp), ?_⟩
  refine Option.bind_eq_some_iff.mpr ⟨_, member?_text (a := some o.name) (by simp), ?_⟩
  refine Option.bind_eq_some_iff.mpr ⟨_, member?_text (a := some o.uid) (by simp), ?_⟩
  refine Option.bind_eq_some_iff.mpr ⟨_, member?_bool (a := o.controller) (by simp), ?_⟩
  refine Option.bind_eq_some_iff.mpr ⟨_, member?_bool (a := o.blockOwnerDeletion) (by simp), ?_⟩
  rfl

namespace FieldManager

/-- What can be read of a writer: what was written is sound, and not null. -/
structure Legible (m : FieldManager) : Prop where
  fields : ∀ f ∈ m.fields, f.isNull = false ∧ f.isSound fieldsDepth

/-- A writer whose time is without the fraction of its second. -/
def wholeSeconds (m : FieldManager) : FieldManager :=
  { m with time := m.time.map Text.Timestamp.wholeSeconds }

/-- A writer of whose numbers is kept what is held of them. -/
def held (m : FieldManager) : FieldManager := { m with fields := m.fields.map Json.held }

/-- The numbers of what was written. -/
def numbers (m : FieldManager) : List Number := (m.fields.map Json.numbers).getD []

theorem held_eq_self {m : FieldManager} (h : ∀ n ∈ m.numbers, n.isWord = true) : m.held = m := by
  obtain ⟨manager, operation, apiVersion, time, fieldsType, fields, subresource⟩ := m
  cases fields with
  | none => rfl
  | some f => exact congrArg (fun f ↦ FieldManager.mk _ _ _ _ _ (some f) _) (Json.held_eq_self h)

theorem ofJson?_toJson {m : FieldManager} (h : m.Legible) :
    ofJson? m.toJson = some m.wholeSeconds.held := by
  have hfields (f : Json) (hf : f ∈ m.fields) : f.isNull = false ∧
      (if f.isSound fieldsDepth then some f.held else none) = some f.held :=
    ⟨(h.fields f hf).1, if_pos (h.fields f hf).2⟩
  rw [ofJson?, toJson]
  refine Option.bind_eq_some_iff.mpr ⟨_, openObject?_record _, ?_⟩
  refine Option.bind_eq_some_iff.mpr ⟨_, member?_text (a := m.manager) (by simp), ?_⟩
  refine Option.bind_eq_some_iff.mpr ⟨_, member?_text (a := m.operation) (by simp), ?_⟩
  refine Option.bind_eq_some_iff.mpr ⟨_, member?_text (a := m.apiVersion) (by simp), ?_⟩
  refine Option.bind_eq_some_iff.mpr ⟨_, member?_timestamp (a := m.time) (by simp), ?_⟩
  refine Option.bind_eq_some_iff.mpr ⟨_, member?_text (a := m.fieldsType) (by simp), ?_⟩
  refine Option.bind_eq_some_iff.mpr ⟨_, member?_map_eq_some_map id (by simp) hfields, ?_⟩
  refine Option.bind_eq_some_iff.mpr ⟨_, member?_text (a := m.subresource) (by simp), ?_⟩
  rfl

theorem legible_of_ofJson? {v : Json} {m : FieldManager} (h : ofJson? v = some m) :
    m.Legible := by
  iterate 6 obtain ⟨_, -, h⟩ := Option.bind_eq_some_iff.mp h
  obtain ⟨fields, hfields, h⟩ := Option.bind_eq_some_iff.mp h
  obtain ⟨_, -, h⟩ := Option.bind_eq_some_iff.mp h
  cases h
  refine ⟨fun f hf ↦ ?_⟩
  cases hf
  obtain ⟨w, hnull, hw⟩ := exists_of_member? hfields
  obtain ⟨hsound, hw⟩ := Option.ite_none_right_eq_some.mp hw
  cases hw
  exact ⟨(isNull_held w).trans hnull, isSound_held hsound⟩

end FieldManager

namespace Metadata

/-- What can be read as metadata: its numbers are words, and its writers can be read. -/
structure Legible (m : Metadata) : Prop where
  generation : ∀ n ∈ m.generation, Word.minInt 64 ≤ n ∧ n ≤ Word.maxInt 64
  grace : ∀ n ∈ m.deletionGraceSeconds, Word.minInt 64 ≤ n ∧ n ≤ Word.maxInt 64
  fieldManagers : ∀ l ∈ m.fieldManagers, ∀ w ∈ l, w.Legible

/-- Metadata whose times are without the fractions of their seconds. -/
def wholeSeconds (m : Metadata) : Metadata :=
  { m with
    creationTime := m.creationTime.map Text.Timestamp.wholeSeconds
    deletionTime := m.deletionTime.map Text.Timestamp.wholeSeconds
    fieldManagers := m.fieldManagers.map (·.map FieldManager.wholeSeconds) }

/-- Metadata of whose numbers in writers is kept what is held of them. -/
def held (m : Metadata) : Metadata :=
  { m with fieldManagers := m.fieldManagers.map (·.map FieldManager.held) }

/-- The numbers of what the writers have written. -/
def numbers (m : Metadata) : List Number :=
  (m.fieldManagers.getD []).flatMap FieldManager.numbers

theorem held_eq_self {m : Metadata} (h : ∀ n ∈ m.numbers, n.isWord = true) : m.held = m := by
  have hmanagers : m.fieldManagers.map (·.map FieldManager.held) = m.fieldManagers := by
    rw [numbers] at h
    generalize m.fieldManagers = managers at h ⊢
    cases managers with
    | none => rfl
    | some l =>
      refine congrArg some ((List.map_congr_left fun w hw ↦ ?_).trans (List.map_id l))
      exact FieldManager.held_eq_self fun n hn ↦ h n (List.mem_flatMap.mpr ⟨w, hw, hn⟩)
  rw [held, hmanagers]

theorem ofJson?_toJson {m : Metadata} (h : m.Legible) :
    ofJson? m.toJson = some m.wholeSeconds.held := by
  have howners (l : List Owner) (_ : l ∈ m.owners) :
      (Json.array (l.map Owner.toJson)).isNull = false ∧
        list? Owner.ofJson? (.array (l.map Owner.toJson)) = some l := by
    refine ⟨rfl, ?_⟩
    rw [list?_array_map (f := id) fun o _ ↦ Owner.ofJson?_toJson o, List.map_id]
  have hmanagers (l : List FieldManager) (hl : l ∈ m.fieldManagers) :
      (Json.array (l.map FieldManager.toJson)).isNull = false ∧
        list? FieldManager.ofJson? (.array (l.map FieldManager.toJson)) =
          some (l.map fun w ↦ w.wholeSeconds.held) :=
    ⟨rfl, list?_array_map fun w hw ↦ FieldManager.ofJson?_toJson (h.fieldManagers l hl w hw)⟩
  rw [ofJson?, toJson]
  refine Option.bind_eq_some_iff.mpr ⟨_, openObject?_record _, ?_⟩
  refine Option.bind_eq_some_iff.mpr ⟨_, member?_text (a := m.name) (by simp), ?_⟩
  refine Option.bind_eq_some_iff.mpr ⟨_, member?_text (a := m.generateName) (by simp), ?_⟩
  refine Option.bind_eq_some_iff.mpr ⟨_, member?_text (a := m.namespaceName) (by simp), ?_⟩
  refine Option.bind_eq_some_iff.mpr ⟨_, member?_text (a := m.selfLink) (by simp), ?_⟩
  refine Option.bind_eq_some_iff.mpr ⟨_, member?_text (a := m.uid) (by simp), ?_⟩
  refine Option.bind_eq_some_iff.mpr ⟨_, member?_text (a := m.resourceVersion) (by simp), ?_⟩
  refine Option.bind_eq_some_iff.mpr ⟨_, member?_word (by simp) h.generation, ?_⟩
  refine Option.bind_eq_some_iff.mpr ⟨_, member?_timestamp (a := m.creationTime) (by simp), ?_⟩
  refine Option.bind_eq_some_iff.mpr ⟨_, member?_timestamp (a := m.deletionTime) (by simp), ?_⟩
  refine Option.bind_eq_some_iff.mpr ⟨_, member?_word (by simp) h.grace, ?_⟩
  refine Option.bind_eq_some_iff.mpr ⟨_, member?_dict (a := m.labels) (by simp), ?_⟩
  refine Option.bind_eq_some_iff.mpr ⟨_, member?_dict (a := m.annotations) (by simp), ?_⟩
  refine Option.bind_eq_some_iff.mpr ⟨_, member?_map_eq_some _ (by simp) howners, ?_⟩
  refine Option.bind_eq_some_iff.mpr ⟨_, member?_texts (a := m.finalizers) (by simp), ?_⟩
  refine Option.bind_eq_some_iff.mpr ⟨_, member?_map_eq_some_map _ (by simp) hmanagers, ?_⟩
  simp [wholeSeconds, held, Function.comp_def]

theorem word_of_member? {key : String} {members : List (Option String × Json)} {n : ℤ}
    (h : member? wordInt? key members = some (some n)) :
    Word.minInt 64 ≤ n ∧ n ≤ Word.maxInt 64 := by
  obtain ⟨v, -, hv⟩ := exists_of_member? h
  obtain ⟨k, -, hk⟩ := Option.bind_eq_some_iff.mp hv
  obtain ⟨hword, hk⟩ := Option.ite_none_right_eq_some.mp hk
  cases hk
  exact hword

theorem legible_of_ofJson? {v : Json} {m : Metadata} (h : ofJson? v = some m) : m.Legible := by
  iterate 7 obtain ⟨_, -, h⟩ := Option.bind_eq_some_iff.mp h
  obtain ⟨generation, hgeneration, h⟩ := Option.bind_eq_some_iff.mp h
  iterate 2 obtain ⟨_, -, h⟩ := Option.bind_eq_some_iff.mp h
  obtain ⟨grace, hgrace, h⟩ := Option.bind_eq_some_iff.mp h
  iterate 4 obtain ⟨_, -, h⟩ := Option.bind_eq_some_iff.mp h
  obtain ⟨managers, hmanagers, h⟩ := Option.bind_eq_some_iff.mp h
  cases h
  refine ⟨fun n hn ↦ ?_, fun n hn ↦ ?_, fun l hl w hw ↦ ?_⟩
  · cases hn
    exact word_of_member? hgeneration
  · cases hn
    exact word_of_member? hgrace
  · cases hl
    obtain ⟨u, -, hu⟩ := exists_of_member? hmanagers
    obtain ⟨x, hx⟩ := exists_of_mem_of_list? hu hw
    exact FieldManager.legible_of_ofJson? hx

end Metadata

/-! ## Records -/

namespace Record

variable {r : Record}

/-- A record whose times are without the fractions of their seconds. -/
def wholeSeconds (r : Record) : Record := { r with metadata := r.metadata.wholeSeconds }

/-- A record of whose numbers in metadata is kept what is held of them. -/
def held (r : Record) : Record := { r with metadata := r.metadata.held }

theorem held_eq_self (h : ∀ n ∈ r.metadata.numbers, n.isWord = true) : r.held = r := by
  rw [held, Metadata.held_eq_self h]

theorem ofJson?_toJson (h : r.metadata.Legible) : ofJson? r.toJson = some r.wholeSeconds.held := by
  have hfields : fields? ["metadata", "spec"] r.toJson =
      some [some r.metadata.toJson, some r.spec.toJson] := rfl
  simp [ofJson?, hfields, Metadata.ofJson?_toJson h, Spec.ofJson?_toJson, wholeSeconds,
    held]

theorem parse_render_toJson (h : r.metadata.Legible) :
    parse r.toJson.render = some r.wholeSeconds.held := by
  rw [parse, parse_render, Option.bind_some, ofJson?_toJson h]

theorem legible_of_ofJson? {v : Json} (h : ofJson? v = some r) : r.metadata.Legible := by
  rw [ofJson?] at h
  split at h
  · obtain ⟨m, hm, h⟩ := Option.bind_eq_some_iff.mp h
    obtain ⟨s, -, h⟩ := Option.bind_eq_some_iff.mp h
    cases h
    exact Metadata.legible_of_ofJson? hm
  · cases h

theorem legible_of_parse {raw : String} (h : parse raw = some r) : r.metadata.Legible := by
  obtain ⟨v, -, hv⟩ := Option.bind_eq_some_iff.mp h
  exact legible_of_ofJson? hv

end Record

/-! ## Fields that are left out -/

/-- Whether a value, taken for a record of the given fields, leaves out a field. -/
def Json.LeavesOut (names : List String) (field : String) : Json → Prop
  | .array items => items.length ≤ names.idxOf field
  | .object members => ∀ m ∈ members, m.1 ≠ some field
  | _ => False

theorem Json.getElem?_fields? {names : List String} {field : String} {v : Json}
    {l : List (Option Json)} (h : fields? names v = some l) (hfield : field ∈ names)
    (hv : v.LeavesOut names field) : l[names.idxOf field]? = some none := by
  have hlt : names.idxOf field < names.length := List.idxOf_lt_length_iff.mpr hfield
  cases v with
  | null | bool | number | string => cases hv
  | array items =>
    obtain ⟨-, hl⟩ := Option.ite_none_right_eq_some.mp h
    cases hl
    have hlength : (items.map some).length ≤ names.idxOf field := by
      rw [List.length_map]
      exact hv
    rw [List.getElem?_append_right hlength, List.getElem?_replicate_of_lt (by
      rw [List.length_map] at hlength ⊢
      omega)]
  | object members =>
    obtain ⟨-, hl⟩ := Option.ite_none_right_eq_some.mp h
    cases hl
    have hfind : members.find? (·.1 == some field) = none :=
      List.find?_eq_none.mpr fun m hm hfound ↦ hv m hm (eq_of_beq hfound)
    simp [hlt, hfind]

theorem Spec.get_toJson_of_leavesOut {v : Json} {s : Spec} (h : ofJson? v = some s) {field : String}
    (hfield : field ∈ fieldNames) (hv : v.LeavesOut fieldNames field) :
    s.toJson.get field = if field = "resources" then .object [] else .text "" := by
  rw [ofJson?] at h
  split at h
  · next nodeName resources status roles scheduleVersion internalIp os kernelVersion
      containerRuntime hfields =>
    have hnone := getElem?_fields? hfields hfield hv
    obtain ⟨_, -, h⟩ := Option.bind_eq_some_iff.mp h
    obtain ⟨_, hresources, h⟩ := Option.bind_eq_some_iff.mp h
    obtain ⟨_, hstatus, h⟩ := Option.bind_eq_some_iff.mp h
    obtain ⟨_, hroles, h⟩ := Option.bind_eq_some_iff.mp h
    obtain ⟨_, hscheduleVersion, h⟩ := Option.bind_eq_some_iff.mp h
    obtain ⟨_, hinternalIp, h⟩ := Option.bind_eq_some_iff.mp h
    obtain ⟨_, hos, h⟩ := Option.bind_eq_some_iff.mp h
    obtain ⟨_, hkernelVersion, h⟩ := Option.bind_eq_some_iff.mp h
    obtain ⟨_, hcontainerRuntime, h⟩ := Option.bind_eq_some_iff.mp h
    cases h
    simp only [fieldNames, List.mem_cons, List.not_mem_nil, or_false] at hfield
    rcases hfield with rfl | rfl | rfl | rfl | rfl | rfl | rfl | rfl | rfl <;> cases hnone
    · cases hresources; rfl
    · cases hstatus; rfl
    · cases hroles; rfl
    · cases hscheduleVersion; rfl
    · cases hinternalIp; rfl
    · cases hos; rfl
    · cases hkernelVersion; rfl
    · cases hcontainerRuntime; rfl
  · cases h

/-! ## What is kept of records -/

/-- Metadata of which no more is known than a name, a version, labels, annotations and
finalizers. -/
def Metadata.plain (name version : Option String) (labels annotations : Option (Dict String))
    (finalizers : Option (List String)) : Metadata where
  name := name
  resourceVersion := version
  labels := labels
  annotations := annotations
  finalizers := finalizers

theorem Metadata.legible_plain {name version : Option String}
    {labels annotations : Option (Dict String)} {finalizers : Option (List String)} :
    (plain name version labels annotations finalizers).Legible where
  generation _ h := by cases h
  grace _ h := by cases h
  fieldManagers _ h := by cases h

/-- A record of plain metadata is read from its text as it was written. What was read from any text,
as a spec or as a record, is read again from its own text, apart from the fractions of seconds of
the times in its metadata, and from the numbers of its writers, which are held once more. That
leaves integers of 64 bits as they are. A field that the text of a spec leaves out is written as an
empty text or dictionary. -/
theorem records_are_kept :
    (∀ name version labels annotations finalizers spec,
      Record.parse (Record.toJson
          ⟨.plain name version labels annotations finalizers, spec⟩).render =
        some ⟨.plain name version labels annotations finalizers, spec⟩) ∧
    (∀ raw s, Spec.parse raw = some s → Spec.parse s.toJson.render = some s) ∧
    (∀ raw r, Record.parse raw = some r →
      Record.parse r.toJson.render = some r.wholeSeconds.held) ∧
    (∀ r : Record, (∀ n ∈ r.metadata.numbers, n.isWord = true) → r.held = r) ∧
    ∀ v s, Spec.ofJson? v = some s → ∀ field ∈ Spec.fieldNames, v.LeavesOut Spec.fieldNames field →
      s.toJson.get field = if field = "resources" then .object [] else .text "" := by
  refine ⟨fun _ _ _ _ _ _ ↦ ?_, fun _ s _ ↦ ?_, fun raw r h ↦ ?_, fun _ ↦ Record.held_eq_self,
    fun v s h field ↦ ?_⟩
  · exact Record.parse_render_toJson Metadata.legible_plain
  · rw [Spec.parse, parse_render, Option.bind_some, Spec.ofJson?_toJson]
  · exact Record.parse_render_toJson (Record.legible_of_parse h)
  · exact Spec.get_toJson_of_leavesOut h

/-- A record that was created half a second after midnight. -/
def halfPast : Record where
  metadata := { name := some "a", creationTime := some ⟨⟨2024, 1, 1, by decide⟩, ⟨0, by decide⟩,
    ⟨0, by decide⟩, ⟨500000000, by decide⟩⟩ }
  spec := { nodeName := "a" }

/-- A text of it in which most of the spec is left out. -/
def halfPastText : String :=
  (Json.record [("metadata", .record [("name", .text "a"),
    ("creationTimestamp", .text "2024-01-01T00:00:00.5Z")]),
    ("spec", .record [("nodeName", .text "a")])]).render

theorem parse_halfPastText : Record.parse halfPastText = some halfPast := by
  rw [halfPastText, Record.parse, parse_render, Option.bind_some]
  rfl

/-- It is kept to the second. -/
theorem half_past_is_kept_to_the_second :
    Record.parse halfPast.toJson.render = some halfPast.wholeSeconds := by
  obtain ⟨-, -, hkept, hheld, -⟩ := records_are_kept
  rw [hkept _ _ parse_halfPastText, hheld _ (by simp [halfPast, Record.wholeSeconds,
    Metadata.wholeSeconds, Metadata.numbers])]

theorem half_a_second_is_not_kept :
    ¬ ∀ raw r, Record.parse raw = some r → Record.parse r.toJson.render = some r := by
  intro h
  have hkept := h _ _ parse_halfPastText
  rw [Record.parse_render_toJson (Record.legible_of_parse parse_halfPastText)] at hkept
  have htime : halfPast.wholeSeconds.held.metadata.creationTime = halfPast.metadata.creationTime :=
    congrArg (·.metadata.creationTime) (Option.some.inj hkept)
  exact absurd htime (by decide)

end NodeInventory
