import NodeInventory.Proofs.Task

/-!
# Envelopes of tasks

Every text is one of four things: the text of a task, no envelope, an envelope of a type that nobody
handles, or an envelope of a type whose payload does not suit it. Which of them it is can be told
from the value that it spells (`texts_are_sorted`), and a value is an envelope in four ways
(`IsEnvelope`) and is none in others (`Flawed`). What is sought in an object are the values under
two names, so what else it holds, and in which order, does not change what the text is.
-/

namespace NodeInventory

namespace Task

open Json

/-- A value is an envelope of a type and a payload if it has them in this order or under their
names. A payload that is left out is null. What is kept of an envelope has to be sound, which other
members of it have not. -/
inductive IsEnvelope (type : String) : Json → Json → Prop
  | pair {payload : Json} (hsound : payload.isSound (maxDepth - 1)) :
    IsEnvelope type payload (.array [.text type, payload])
  | alone : IsEnvelope type .null (.array [.text type])
  | named {payload : Json} {members : List (Option String × Json)}
      (hkeys : ∀ m ∈ members, m.1.isSome) (htype : valuesOf "type" members = [.text type])
      (hpayload : valuesOf "payload" members = [payload])
      (hsound : payload.isSound (maxDepth - 1)) : IsEnvelope type payload (.object members)
  | unladen {members : List (Option String × Json)} (hkeys : ∀ m ∈ members, m.1.isSome)
      (htype : valuesOf "type" members = [.text type]) (hpayload : valuesOf "payload" members = []) :
    IsEnvelope type .null (.object members)

/-- What keeps a value from being an envelope. -/
inductive Flawed : Json → Prop
  | neither {v : Json} (hitems : v.items? = none) (hmembers : v.members? = none) : Flawed v
  | size {items : List Json} (h : items.length ≠ 1 ∧ items.length ≠ 2) : Flawed (.array items)
  | firstNoText {v : Json} {items : List Json} (h : v.text? = none) : Flawed (.array (v :: items))
  | secondUnsound {v payload : Json} (h : ¬ payload.isSound (maxDepth - 1)) :
    Flawed (.array [v, payload])
  | keyNoText {members : List (Option String × Json)} {v : Json} (h : (none, v) ∈ members) :
    Flawed (.object members)
  | typeMissing {members : List (Option String × Json)} (h : valuesOf "type" members = []) :
    Flawed (.object members)
  | typeRepeated {members : List (Option String × Json)}
      (h : 1 < (valuesOf "type" members).length) : Flawed (.object members)
  | typeNoText {members : List (Option String × Json)} {v : Json}
      (hv : v ∈ valuesOf "type" members) (h : v.text? = none) : Flawed (.object members)
  | payloadRepeated {members : List (Option String × Json)}
      (h : 1 < (valuesOf "payload" members).length) : Flawed (.object members)
  | payloadUnsound {members : List (Option String × Json)} {payload : Json}
      (hv : payload ∈ valuesOf "payload" members) (h : ¬ payload.isSound (maxDepth - 1)) :
    Flawed (.object members)

variable {v payload : Json} {type : String} {members : List (Option String × Json)}

theorem envelope?_eq_some_iff : envelope? v = some (type, payload) ↔ IsEnvelope type payload v := by
  constructor
  · intro h
    rw [envelope?] at h
    split at h
    · next t p hfields =>
      simp only [Option.bind_eq_bind, Option.bind_eq_some_iff, text?_eq_some_iff,
        Option.ite_none_right_eq_some, Option.some.injEq, Prod.mk.injEq] at h
      obtain ⟨_, rfl, hsound, rfl, rfl⟩ := h
      cases v with
      | null | bool | number | string => cases hfields
      | array items =>
        obtain ⟨rfl, -⟩ := fields?_array_eq_some_iff.mp hfields
        cases p with
        | none => exact .alone
        | some payload => exact .pair hsound
      | object members =>
        obtain ⟨hkeys, htype, hpayload⟩ := fields?_object_eq_some_iff.mp hfields
        cases p with
        | none => exact .unladen hkeys htype hpayload
        | some payload => exact .named hkeys htype hpayload hsound
    · cases h
  · intro h
    cases h with
    | pair hsound => simp [envelope?, fields?, hsound]
    | alone => simp [envelope?, fields?, isSound]
    | @named payload members hkeys htype hpayload hsound =>
      have hfields : fields? ["type", "payload"] (.object members) =
          some [some (.text type), some payload] :=
        fields?_object_eq_some_iff.mpr ⟨hkeys, htype, hpayload⟩
      simp [envelope?, hfields, hsound]
    | @unladen members hkeys htype hpayload =>
      have hfields : fields? ["type", "payload"] (.object members) =
          some [some (.text type), none] :=
        fields?_object_eq_some_iff.mpr ⟨hkeys, htype, hpayload⟩
      simp [envelope?, hfields, isSound]

/-- An object is not flawed that has one type and at most one payload. -/
theorem not_flawed_object (hkeys : ∀ m ∈ members, m.1.isSome)
    (htype : valuesOf "type" members = [text type])
    (hpayload : (valuesOf "payload" members).length ≤ 1)
    (hsound : ∀ payload ∈ valuesOf "payload" members, payload.isSound (maxDepth - 1)) :
    ¬ Flawed (.object members) := by
  intro hflaw
  cases hflaw with
  | neither _ hmembers => cases hmembers
  | keyNoText h => cases hkeys _ h
  | typeMissing h => cases htype.symm.trans h
  | typeRepeated h => simp [htype] at h
  | typeNoText hv h =>
    rw [htype, List.mem_singleton] at hv
    subst hv
    cases h
  | payloadRepeated h => exact absurd h hpayload.not_gt
  | payloadUnsound hv h => exact h (hsound _ hv)

theorem not_flawed_of_isEnvelope (h : IsEnvelope type payload v) : ¬ Flawed v := by
  cases h with
  | pair hsound =>
    intro hflaw
    cases hflaw with
    | neither hitems => cases hitems
    | size h => exact h.2 rfl
    | firstNoText h => cases h
    | secondUnsound h => exact h hsound
  | alone =>
    intro hflaw
    cases hflaw with
    | neither hitems => cases hitems
    | size h => exact h.1 rfl
    | firstNoText h => cases h
  | named hkeys htype hpayload hsound =>
    refine not_flawed_object hkeys htype (by rw [hpayload, List.length_singleton]) ?_
    rw [hpayload]
    exact List.forall_mem_singleton.mpr hsound
  | unladen hkeys htype hpayload =>
    refine not_flawed_object hkeys htype (by rw [hpayload, List.length_nil]; omega) ?_
    rw [hpayload]
    exact List.forall_mem_nil _

theorem exists_isEnvelope_of_not_flawed (h : ¬ Flawed v) :
    ∃ type payload, IsEnvelope type payload v := by
  cases v with
  | null | bool | number | string => exact absurd (.neither rfl rfl) h
  | array items =>
    match items with
    | [] => exact absurd (.size (by simp)) h
    | [v] =>
      obtain ⟨type, htype⟩ := Option.ne_none_iff_exists'.mp fun hv ↦ h (.firstNoText hv)
      exact ⟨type, .null, text?_eq_some_iff.mp htype ▸ .alone⟩
    | [v, payload] =>
      obtain ⟨type, htype⟩ := Option.ne_none_iff_exists'.mp fun hv ↦ h (.firstNoText hv)
      have hsound : payload.isSound (maxDepth - 1) :=
        Classical.byContradiction fun hp ↦ h (.secondUnsound hp)
      exact ⟨type, payload, text?_eq_some_iff.mp htype ▸ .pair hsound⟩
    | _ :: _ :: _ :: _ => exact absurd (.size (by simp)) h
  | object members =>
    have hkeys : ∀ m ∈ members, m.1.isSome := fun ⟨k, v⟩ hm ↦
      Option.isSome_iff_ne_none.mpr fun hk ↦ h (.keyNoText (v := v) (hk ▸ hm))
    obtain ⟨value, hvalue⟩ : ∃ value, valuesOf "type" members = [value] := by
      refine List.length_eq_one_iff.mp (le_antisymm ?_ ?_)
      · exact not_lt.mp fun hlt ↦ h (.typeRepeated hlt)
      · exact List.length_pos_of_ne_nil fun hnil ↦ h (.typeMissing hnil)
    obtain ⟨type, htype⟩ := Option.ne_none_iff_exists'.mp fun hv ↦
      h (.typeNoText (hvalue ▸ List.mem_singleton.mpr rfl) hv)
    rw [text?_eq_some_iff.mp htype] at hvalue
    match hpayload : valuesOf "payload" members with
    | [] => exact ⟨type, .null, .unladen hkeys hvalue hpayload⟩
    | [payload] =>
      refine ⟨type, payload, .named hkeys hvalue hpayload (Classical.byContradiction fun hp ↦ ?_)⟩
      exact h (.payloadUnsound (hpayload ▸ List.mem_singleton.mpr rfl) hp)
    | _ :: _ :: _ => exact absurd (.payloadRepeated (by simp [hpayload])) h

theorem envelope?_eq_none_iff : envelope? v = none ↔ Flawed v := by
  rw [← not_iff_not, ← ne_eq, Option.ne_none_iff_exists']
  simp only [Prod.exists, envelope?_eq_some_iff]
  exact ⟨fun ⟨_, _, h⟩ ↦ not_flawed_of_isEnvelope h, exists_isEnvelope_of_not_flawed⟩

/-- An object is as much of an envelope as another with the same values under both names. -/
theorem IsEnvelope.of_perm (h : IsEnvelope type payload (.object members))
    {members' : List (Option String × Json)} (hkeys : ∀ m ∈ members', m.1.isSome)
    (htype : (valuesOf "type" members').Perm (valuesOf "type" members))
    (hpayload : (valuesOf "payload" members').Perm (valuesOf "payload" members)) :
    IsEnvelope type payload (.object members') := by
  cases h with
  | named _ ht hp hsound =>
    exact .named hkeys (List.perm_singleton.mp (ht ▸ htype))
      (List.perm_singleton.mp (hp ▸ hpayload)) hsound
  | unladen _ ht hp =>
    exact .unladen hkeys (List.perm_singleton.mp (ht ▸ htype)) (List.perm_nil.mp (hp ▸ hpayload))

theorem IsEnvelope.keys (h : IsEnvelope type payload (.object members)) :
    ∀ m ∈ members, m.1.isSome := by
  cases h <;> assumption

/-- What is read from an object does not depend on the order of its members, nor on those of other
names. -/
theorem envelope?_of_perm {members' extra : List (Option String × Json)}
    (hperm : members'.Perm (members ++ extra))
    (hextra : ∀ m ∈ extra, ∃ k, m.1 = some k ∧ k ≠ "type" ∧ k ≠ "payload") :
    envelope? (.object members') = envelope? (.object members) := by
  have hvalues (name : String) (h : name = "type" ∨ name = "payload") :
      (valuesOf name members').Perm (valuesOf name members) := by
    refine valuesOf_perm hperm fun m hm hname ↦ ?_
    obtain ⟨k, hk, htype, hpayload⟩ := hextra m hm
    obtain rfl : k = name := Option.some.inj (hk.symm.trans hname)
    exact h.elim htype hpayload
  ext ⟨type, payload⟩
  rw [envelope?_eq_some_iff, envelope?_eq_some_iff]
  constructor
  · intro h
    have hkeys : ∀ m ∈ members, m.1.isSome := fun m hm ↦
      h.keys m (hperm.mem_iff.mpr (List.mem_append_left _ hm))
    exact h.of_perm hkeys (hvalues _ (.inl rfl)).symm (hvalues _ (.inr rfl)).symm
  · intro h
    have hkeys : ∀ m ∈ members', m.1.isSome := by
      intro m hm
      rcases List.mem_append.mp (hperm.mem_iff.mp hm) with hm | hm
      · exact h.keys m hm
      · obtain ⟨k, hk, -⟩ := hextra m hm
        exact hk ▸ rfl
    exact h.of_perm hkeys (hvalues _ (.inl rfl)) (hvalues _ (.inr rfl))

/-! ## The four kinds of texts -/

variable {words : Wording} {raw : String}

theorem bind_envelope?_eq_some_iff : (parse raw).bind envelope? = some (type, payload) ↔
    ∃ v, IsTextOf raw v ∧ IsEnvelope type payload v := by
  simp only [Option.bind_eq_some_iff, parse_eq_some_iff, envelope?_eq_some_iff]

theorem bind_envelope?_eq_none_iff : (parse raw).bind envelope? = none ↔
    (∀ v, ¬ IsTextOf raw v) ∨ ∃ v, IsTextOf raw v ∧ Flawed v := by
  cases hv : parse raw with
  | none =>
    have hno (v : Json) : ¬ IsTextOf raw v := by simp [← parse_eq_some_iff, hv]
    exact iff_of_true rfl (.inl hno)
  | some v =>
    have htext : IsTextOf raw v := parse_eq_some_iff.mp hv
    rw [Option.bind_some, envelope?_eq_none_iff]
    constructor
    · exact fun h ↦ .inr ⟨v, htext, h⟩
    · rintro (hno | ⟨w, hw, hflaw⟩)
      · exact absurd htext (hno v)
      · exact htext.unique hw ▸ hflaw

theorem envelopeFault_ne_payloadFault : envelopeFault words raw ≠ payloadFault words payload := by
  intro h
  have hhead := congrArg (fun s : String ↦ s.toList.head?) (Failure.malformedTask.inj h)
  simp [nodeBatchType] at hhead

theorem decode_eq_envelopeFault_iff :
    decode words raw = .error (envelopeFault words raw) ↔ (parse raw).bind envelope? = none := by
  rcases h : (parse raw).bind envelope? with _ | ⟨type, payload⟩
  · simp [decode, h]
  · rw [decode, h]
    split
    · next heq => cases heq
    · split
      · split <;> simp [envelopeFault_ne_payloadFault.symm]
      · simp [envelopeFault]

theorem decode_eq_unknownTask_iff : decode words raw = .error (.unknownTask type) ↔
    type ≠ nodeBatchType ∧ ∃ payload, (parse raw).bind envelope? = some (type, payload) := by
  rcases h : (parse raw).bind envelope? with _ | ⟨type', payload⟩
  · simp [decode, h, envelopeFault]
  · by_cases htype : type' = nodeBatchType
    · cases hnames : list? text? payload <;>
        simp [decode, h, htype, hnames, payloadFault, eq_comm]
    · have hdecode : decode words raw = .error (.unknownTask type') := by simp [decode, h, htype]
      simp only [hdecode, Except.error.injEq, Failure.unknownTask.injEq, Option.some.injEq,
        Prod.mk.injEq, exists_and_left, exists_eq', and_true]
      exact ⟨fun h ↦ ⟨h ▸ htype, h⟩, And.right⟩

theorem payloadFault_inj {payload payload' : Json} :
    payloadFault words payload = payloadFault words payload' ↔
      words.unsuitable payload = words.unsuitable payload' := by
  simp [payloadFault]

theorem decode_eq_payloadFault_iff : decode words raw = .error (payloadFault words payload) ↔
    ∃ payload', (parse raw).bind envelope? = some (nodeBatchType, payload') ∧
      (∀ names, payload' ≠ texts names) ∧
        words.unsuitable payload' = words.unsuitable payload := by
  simp only [ne_eq, ← list?_text?_eq_some_iff, ← Option.eq_none_iff_forall_ne_some]
  rcases h : (parse raw).bind envelope? with _ | ⟨type, payload'⟩
  · simp [decode, h, envelopeFault_ne_payloadFault]
  · by_cases htype : type = nodeBatchType
    · cases hnames : list? text? payload' <;> simp [decode, h, htype, hnames, payloadFault_inj]
    · simp [decode, h, htype, payloadFault]

theorem decode_eq_ok_iff {names : List String} : decode words raw = .ok (nodeBatch names) ↔
    (parse raw).bind envelope? = some (nodeBatchType, texts names) := by
  rcases h : (parse raw).bind envelope? with _ | ⟨type, payload⟩
  · simp [decode, h]
  · by_cases htype : type = nodeBatchType
    · cases hnames : list? text? payload <;>
        simp [decode, h, htype, hnames, ← list?_text?_eq_some_iff]
    · simp [decode, h, htype]

/-- A text is a task, or has no envelope, an unknown type, or a payload that does not suit. -/
theorem decode_cases (words : Wording) (raw : String) :
    (∃ names, decode words raw = .ok (nodeBatch names)) ∨
      decode words raw = .error (envelopeFault words raw) ∨
      (∃ type, decode words raw = .error (.unknownTask type)) ∨
      ∃ payload, decode words raw = .error (payloadFault words payload) := by
  rcases h : decode words raw with e | t
  · rw [decode] at h
    split at h
    · exact .inr (.inl h.symm)
    · split at h
      · split at h
        · cases h
        · exact .inr (.inr (.inr ⟨_, h.symm⟩))
      · exact .inr (.inr (.inl ⟨_, h.symm⟩))
  · cases t with
    | nodeBatch names => exact .inl ⟨names, rfl⟩

end Task

/-- A text is a task of names just if it is JSON for an envelope of this type and the array of the
names. Otherwise the first of these is told: that it is no JSON, or that for a value that is flawed
as an envelope; that the envelope is of another type, whatever its payload; that the payload is no
array of texts. What is told does not change when the members of an object change places or are
joined by others of other names, but for the words in which the reader finds fault with the text. -/
theorem texts_are_sorted (words : Wording) (raw : String) :
    (∀ names, Task.decode words raw = .ok (.nodeBatch names) ↔ ∃ v, Json.IsTextOf raw v ∧
      Task.IsEnvelope Task.nodeBatchType (Json.texts names) v) ∧
    (Task.decode words raw = .error (Task.envelopeFault words raw) ↔
      (∀ v, ¬ Json.IsTextOf raw v) ∨ ∃ v, Json.IsTextOf raw v ∧ Task.Flawed v) ∧
    (∀ type, Task.decode words raw = .error (.unknownTask type) ↔ type ≠ Task.nodeBatchType ∧
      ∃ payload v, Json.IsTextOf raw v ∧ Task.IsEnvelope type payload v) ∧
    (∀ payload, Task.decode words raw = .error (Task.payloadFault words payload) ↔ ∃ payload',
      (∃ v, Json.IsTextOf raw v ∧ Task.IsEnvelope Task.nodeBatchType payload' v) ∧
        (∀ names, payload' ≠ Json.texts names) ∧
        words.unsuitable payload' = words.unsuitable payload) ∧
    ((∃ names, Task.decode words raw = .ok (.nodeBatch names)) ∨
      Task.decode words raw = .error (Task.envelopeFault words raw) ∨
      (∃ type, Task.decode words raw = .error (.unknownTask type)) ∨
      ∃ payload, Task.decode words raw = .error (Task.payloadFault words payload)) ∧
    ∀ (raw' : String) (members members' extra : List (Option String × Json)),
      Json.IsTextOf raw (.object members) → Json.IsTextOf raw' (.object members') →
      (∀ m ∈ extra, ∃ k, m.1 = some k ∧ k ≠ "type" ∧ k ≠ "payload") →
      members'.Perm (members ++ extra) →
        Task.decode words raw' = Task.decode words raw ∨
          Task.decode words raw = .error (Task.envelopeFault words raw) ∧
            Task.decode words raw' = .error (Task.envelopeFault words raw') := by
  refine ⟨fun names ↦ ?_, ?_, fun type ↦ ?_, fun payload ↦ ?_, Task.decode_cases words raw, ?_⟩
  · rw [Task.decode_eq_ok_iff, Task.bind_envelope?_eq_some_iff]
  · rw [Task.decode_eq_envelopeFault_iff, Task.bind_envelope?_eq_none_iff]
  · simp only [Task.decode_eq_unknownTask_iff, Task.bind_envelope?_eq_some_iff]
  · simp only [Task.decode_eq_payloadFault_iff, Task.bind_envelope?_eq_some_iff]
  · intro raw' members members' extra hraw hraw' hextra hperm
    have hsame : (Json.parse raw').bind Task.envelope? = (Json.parse raw).bind Task.envelope? := by
      rw [Json.parse_eq_some_iff.mpr hraw, Json.parse_eq_some_iff.mpr hraw', Option.bind_some,
        Option.bind_some, Task.envelope?_of_perm hperm hextra]
    by_cases hnone : (Json.parse raw).bind Task.envelope? = none
    · exact .inr ⟨Task.decode_eq_envelopeFault_iff.mpr hnone,
        Task.decode_eq_envelopeFault_iff.mpr (hsame.trans hnone)⟩
    · obtain ⟨e, he⟩ := Option.ne_none_iff_exists'.mp hnone
      rw [Task.decode, Task.decode, hsame, he]
      exact .inl rfl

/-- A task that others wrote in their own order, with a member of their own. -/
theorem respelled_text_is_sorted :
    let words : Wording := default
    Task.decode words respelled = Task.decode words (Task.nodeBatch ["a"]).encode := by
  intro words
  have hsorted := (texts_are_sorted words _).2.2.2.2.2 respelled
    [(some "type", .text Task.nodeBatchType), (some "payload", Json.texts ["a"])]
    [(some "payload", Json.texts ["a"]), (some "sender", .nat 7),
      (some "type", .text Task.nodeBatchType)]
    [(some "sender", .nat 7)] (Json.isTextOf_render _) (Json.isTextOf_render _)
    (by simp) (List.perm_append_singleton _ [_, _])
  obtain heq | ⟨hfault, -⟩ := hsorted
  · exact heq
  · cases (Task.decode_encode words (.nodeBatch ["a"])).symm.trans hfault

end NodeInventory
