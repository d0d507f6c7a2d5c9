import NodeInventory.Api.Records
import NodeInventory.Proofs.Exchange
import NodeInventory.Proofs.Json.RoundTrip

/-!
# Kinds of failures

Those who ask for records decide by the kind of a failure what to do next. A conflict is tried
again, a record that is there already or gone already is no failure to some, and all else is. So it
matters that every failure is of the kind that the refusal of the cluster has, and a failed query if
there is no such refusal.

Each operation on records is a single request, and its failure is told from the answer alone. So the
kinds are settled once, for whatever is made of an answer in this way (`followsTaxonomy_ask`), and
every operation is a case of it (`failures_follow_the_taxonomy`).

This is so if there is a reply in time. To have waited in vain is told by a failure of no kind.
-/

namespace NodeInventory

/-- The failure is of a kind that callers tell apart, whatever contexts it is in. -/
def Failure.HasKind (f : Failure) : Prop :=
  match f.root with
  | .plain _ | .joined _ => False
  | _ => True

namespace Api

variable {α β : Type} {method : Method} {path name : String} {body : Option Json}
  {read : String → Option β} {conclude : Option (Except Fault β) → Result α} {replies : List Reply}
  {absent : Refusal → Prop}

theorem answer_eq_refused_iff {reply : Reply} {r : Refusal} :
    answer read reply = some (.error (.refused r)) ↔
      receive reply = some (.error (.refused r)) := by
  refine ⟨fun h ↦ ?_, answer_eq_error⟩
  unfold answer at h
  match hreceived : receive reply with
  | none =>
    rw [hreceived] at h
    cases h
  | some (.error f) =>
    rw [hreceived] at h
    cases h
    rfl
  | some (.ok text) =>
    rw [hreceived, Option.map_some] at h
    dsimp only at h
    split at h <;> cases h

theorem answer_eq_none_iff {reply : Reply} : answer read reply = none ↔ reply = .silence := by
  rw [answer, Option.map_eq_none_iff]
  cases reply with
  | silence => exact iff_of_true rfl rfl
  | broken => exact iff_of_false (by rintro ⟨⟩) (by rintro ⟨⟩)
  | response status body =>
    rw [receive]
    split <;> exact iff_of_false (by rintro ⟨⟩) (by rintro ⟨⟩)

namespace Exchange

/-- A request is sent and the reply to it is the refusal. -/
def Refused (e : Exchange α) (replies : List Reply) (r : Refusal) : Prop :=
  (e.run replies).requests ≠ [] ∧
    receive (replies.headD lastReply) = some (.error (.refused r))

/-- An exchange tells its failures by the taxonomy. Refusals of which `absent` holds are no
failures. -/
structure FollowsTaxonomy (e : Exchange (Result α)) (name : String) (absent : Refusal → Prop) :
    Prop where
  /-- There is no such record. -/
  missing : ∀ replies r, e.Refused replies r → ¬absent r → r.code = 404 →
    (e.run replies).value = .error (.notFound name)
  /-- There already is one. -/
  occupied : ∀ replies r, e.Refused replies r → ¬absent r → r.code = 409 →
    r.reason = "AlreadyExists" → (e.run replies).value = .error (.alreadyExists name)
  /-- It was written with a stale version. -/
  stale : ∀ replies r, e.Refused replies r → ¬absent r → r.code = 409 →
    r.reason ≠ "AlreadyExists" → (e.run replies).value = .error (.conflict name)
  absence : ∀ replies r, e.Refused replies r → absent r → ∃ a, (e.run replies).value = .ok a
  /-- Whatever else goes wrong is a failed query, if there is a reply in time. -/
  other : ∀ replies f, replies.headD lastReply ≠ .silence → (e.run replies).value = .error f →
    (∀ r, e.Refused replies r → r.code ≠ 404 ∧ r.code ≠ 409) → ∃ cause, f = .query cause
  /-- A failure for want of a reply is of no kind. -/
  late : ∀ replies, (e.run replies).requests ≠ [] → replies.headD lastReply = .silence →
    ∃ f, (e.run replies).value = .error f ∧ ¬f.HasKind

end Exchange

open Exchange

/-! ## Single requests -/

theorem run_ask_of_sent?_eq_none (h : Uri.sent? path = none) :
    (ask method path body read >>= fun a ↦ pure (conclude a)).run replies =
      ⟨conclude (some (.error .noAddress)), [], 0⟩ := by
  rw [ask, h]
  rfl

theorem value_run_ask {sent : List Char} (h : Uri.sent? path = some sent) :
    ((ask method path body read >>= fun a ↦ pure (conclude a)).run replies).value =
      conclude (answer read (replies.headD lastReply)) := by
  rw [ask, h]
  rfl

theorem requests_run_ask {sent : List Char} (h : Uri.sent? path = some sent) :
    ((ask method path body read >>= fun a ↦ pure (conclude a)).run replies).requests =
      [⟨method, String.ofList sent, body⟩] := by
  rw [ask, h]
  rfl

/-- What is made of a refusal that was received. -/
theorem value_of_refused {r : Refusal}
    (h : (ask method path body read >>= fun a ↦ pure (conclude a)).Refused replies r) :
    ((ask method path body read >>= fun a ↦ pure (conclude a)).run replies).value =
      conclude (some (.error (.refused r))) := by
  obtain ⟨hsent, hreceived⟩ := h
  cases hpath : Uri.sent? path with
  | none =>
    rw [run_ask_of_sent?_eq_none hpath] at hsent
    exact absurd rfl hsent
  | some sent => rw [value_run_ask hpath, answer_eq_refused_iff.mpr hreceived]

theorem Records.exists_failure_eq_query {f : Fault} (h : ∀ r, f = .refused r →
    r.code ≠ 404 ∧ r.code ≠ 409) : ∃ cause, Records.failure name f = .query cause := by
  cases f with
  | refused r =>
    obtain ⟨hmissing, hconflict⟩ := h r rfl
    exact ⟨_, by rw [Records.failure, if_neg hmissing, if_neg hconflict]⟩
  | unreadable | broken | noAddress => exact ⟨_, rfl⟩

/-- A single request follows the taxonomy if its faults are told as those of records are, absence
aside, and the want of a reply by a failure of no kind. -/
theorem followsTaxonomy_ask (hlate : ∃ f, conclude none = .error f ∧ ¬f.HasKind)
    (hfault : ∀ f, (∀ r, f = .refused r → ¬absent r) →
      conclude (some (.error f)) = .error (Records.failure name f))
    (habsent : ∀ r, absent r → ∃ a, conclude (some (.error (.refused r))) = .ok a)
    (hok : ∀ b, ∃ a, conclude (some (.ok b)) = .ok a) :
    (ask method path body read >>= fun a ↦ pure (conclude a)).FollowsTaxonomy name absent := by
  have hrefused {r : Refusal} (hr : ¬absent r) :
      conclude (some (.error (.refused r))) = .error (Records.failure name (.refused r)) :=
    hfault _ fun _ h ↦ Fault.refused.inj h ▸ hr
  refine ⟨fun replies r h hr hcode ↦ ?_, fun replies r h hr hcode hreason ↦ ?_,
    fun replies r h hr hcode hreason ↦ ?_, fun replies r h hr ↦ ?_,
    fun replies f htime hvalue hother ↦ ?_, fun replies hsent hsilence ↦ ?_⟩
  · rw [value_of_refused h, hrefused hr, Records.failure, if_pos hcode]
  · rw [value_of_refused h, hrefused hr, Records.failure, if_neg (by omega), if_pos hcode,
      if_pos hreason]
  · rw [value_of_refused h, hrefused hr, Records.failure, if_neg (by omega), if_pos hcode,
      if_neg hreason]
  · rw [value_of_refused h]
    exact habsent r hr
  · have hquery {fault : Fault} (hconclude : conclude (some (.error fault)) = .error f)
        (hcode : ∀ r, fault = .refused r → r.code ≠ 404 ∧ r.code ≠ 409) :
        ∃ cause, f = .query cause := by
      have hpresent (r : Refusal) (hr : fault = .refused r) : ¬absent r := fun habs ↦ by
        obtain ⟨a, ha⟩ := habsent r habs
        rw [hr, ha] at hconclude
        cases hconclude
      rw [hfault fault hpresent] at hconclude
      exact Except.error.inj hconclude ▸ Records.exists_failure_eq_query hcode
    cases hpath : Uri.sent? path with
    | none =>
      rw [run_ask_of_sent?_eq_none hpath] at hvalue
      exact hquery hvalue fun _ h ↦ by cases h
    | some sent =>
      rw [value_run_ask hpath] at hvalue
      match hanswer : answer read (replies.headD lastReply) with
      | none => exact absurd (answer_eq_none_iff.mp hanswer) htime
      | some (.error fault) =>
        rw [hanswer] at hvalue
        refine hquery hvalue fun r hr ↦ hother r ⟨?_, answer_eq_refused_iff.mp (hr ▸ hanswer)⟩
        rw [requests_run_ask hpath]
        exact List.cons_ne_nil _ _
      | some (.ok b) =>
        obtain ⟨a, ha⟩ := hok b
        rw [hanswer, ha] at hvalue
        cases hvalue
  · cases hpath : Uri.sent? path with
    | none =>
      rw [run_ask_of_sent?_eq_none hpath] at hsent
      exact absurd rfl hsent
    | some sent =>
      rw [value_run_ask hpath, answer_eq_none_iff.mpr hsilence]
      exact hlate

namespace Records

theorem followsTaxonomy_result {late : String} :
    (ask method path body read >>= fun a ↦ pure (result late name a)).FollowsTaxonomy name
      fun _ ↦ False :=
  followsTaxonomy_ask ⟨_, rfl, id⟩ (fun _ _ ↦ rfl) (fun _ h ↦ h.elim) fun b ↦ ⟨b, rfl⟩

theorem followsTaxonomy_fetch (name : String) :
    (fetch name).FollowsTaxonomy name fun r ↦ r.reason = "NotFound" := by
  have habsent {r : Refusal} : (Fault.refused r).isNotFound ↔ r.reason = "NotFound" := beq_iff_eq
  refine followsTaxonomy_ask ⟨_, rfl, id⟩ (fun f hf ↦ ?_) (fun r hr ↦ ?_) fun b ↦ ⟨some b, rfl⟩
  · have hfound : ¬f.isNotFound := by
      cases f with
      | refused r => exact fun h ↦ hf r rfl (habsent.mp h)
      | unreadable | broken | noAddress => exact Bool.false_ne_true
    exact if_neg hfound
  · exact ⟨none, if_pos (habsent.mpr hr)⟩

/-- Whatever is asked of the records and however the cluster replies, failures are told by the
taxonomy, those for want of a reply excepted. -/
theorem failures_follow_the_taxonomy (name : String) (token : Option String) (limit : Nat)
    (r : Record) (version : String) :
    (fetch name).FollowsTaxonomy name (fun r ↦ r.reason = "NotFound") ∧
    (list token limit).FollowsTaxonomy "*" (fun _ ↦ False) ∧
    (create r).FollowsTaxonomy r.name (fun _ ↦ False) ∧
    (update r version).FollowsTaxonomy r.name (fun _ ↦ False) ∧
    (delete name).FollowsTaxonomy name (fun _ ↦ False) :=
  ⟨followsTaxonomy_fetch name, followsTaxonomy_result, followsTaxonomy_result,
    followsTaxonomy_result, followsTaxonomy_result⟩

/-- The cluster refuses to create a record, since somebody else has created it first. -/
theorem late_creation_finds_record_there :
    let r : Record := .ofSpec { nodeName := "a" }
    let reply : Reply := .response 409 (Json.record [("status", .text "Failure"),
      ("reason", .text "AlreadyExists"), ("code", .nat 409)]).render
    (create r).Refused [reply] ⟨409, "AlreadyExists", ""⟩ ∧
      ((create r).run [reply]).value = .error (.alreadyExists "a") := by
  intro r reply
  have hreceived : receive reply = some (.error (.refused ⟨409, "AlreadyExists", ""⟩)) := by
    change some (Except.error (Fault.refused (.ofResponse 409 _))) = _
    rw [Refusal.ofResponse, Refusal.parse?, Json.parse_render]
    rfl
  have hsent : ((create r).run [reply]).requests ≠ [] := List.cons_ne_nil _ _
  have hfollows := (failures_follow_the_taxonomy r.name none 0 r "").2.2.1
  exact ⟨⟨hsent, hreceived⟩, hfollows.occupied _ _ ⟨hsent, hreceived⟩ not_false rfl rfl⟩

/-- Having waited in vain for a record is told by a failure of no kind. -/
theorem vain_wait_has_no_kind :
    ¬ ∀ name replies f, ((fetch name).run replies).value = .error f → f.HasKind := by
  intro h
  exact h "a" [.silence] (.context "timeout fetching NodeResourceInfo"
    (.plain "deadline has elapsed")) rfl

end Records

end Api

end NodeInventory
