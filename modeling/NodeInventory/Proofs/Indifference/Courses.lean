import NodeInventory.Proofs.Indifference.Programs
import NodeInventory.Simulation.World

/-!
# Runs under different registries

Two runs of an operation in one setting, on one schedule, under two registries that behave in any
two ways: the runs ask the same, are answered the same but by the registry, leave the same behind,
and come to the same result (`registry_has_no_say`). What a run counts and reports of failed calls
is told by its calls alone (`Accounted`).

A setting is whatever answers all other requests: the store of records, the cluster, and everybody
else who changes them meanwhile. It is a machine with states of any kind, so the two runs can be set
side by side step by step. The invariant is that both have the same program left, and that it is
indifferent to the registry.
-/

namespace NodeInventory

open Fleet

variable {σ α : Type}

/-! ## The operations -/

/-- The operations that tell the registry of what they do. -/
inductive Errand
  | reconcile (snapshot : Spec)
  | create (snapshot : Spec)
  | deleteOrphans (names : List String)
  | sweep
  | nodeBatch (names : List String)

namespace Errand

/-- What an operation has for a result. -/
def Value : Errand → Type
  | reconcile _ | create _ => Result Reconciliation
  | deleteOrphans _ | sweep | nodeBatch _ => Result Unit

/-- What an operation does. -/
def program (d : Duties) : (errand : Errand) → Program errand.Value
  | reconcile snapshot => .ofAction (Record.reconcile d.clusterId d.retry snapshot)
  | create snapshot => .ofAction (Record.create d.clusterId snapshot)
  | deleteOrphans names => Record.deleteOrphans d.clusterId d.parallelism names
  | sweep => Record.sweep d.clusterId d.recordPageSize d.parallelism
  | nodeBatch names => d.handleNodeBatch names

theorem indifferent_program (d : Duties) (errand : Errand) (seen : List Exchange) :
    (errand.program d).Indifferent seen := by
  cases errand with
  | reconcile snapshot => exact .action (Record.indifferent_reconcile _ _ _ _) fun b ↦ .done b
  | create snapshot => exact .action (Record.indifferent_create _ _ _) fun b ↦ .done b
  | deleteOrphans names => exact Record.indifferent_deleteOrphans _ _ _ _
  | sweep => exact Record.indifferent_sweep _ _ _ _
  | nodeBatch names => exact d.indifferent_handleNodeBatch _ _

end Errand

/-! ## Courses -/

/-- Whatever answers the requests of a program, as a machine. Of a call of the registry it is told,
and not asked for the answer. -/
abbrev Setting (σ : Type) : Type := σ → (r : Request) → r.Answer × σ

/-- How a registry answers the next call of a run. -/
abbrev Fleet.Manner : Type := List Exchange → Call → Result Response

/-- How far a program has come: the state of its setting, what was exchanged, and what is left to
do. -/
structure Course (σ α : Type) : Type 1 where
  state : σ
  log : List Exchange
  rest : Program α

/-- What a setting with a registry answers, and the state of the setting after it. -/
def Setting.reply (setting : Setting σ) (fleet : Manner) (log : List Exchange) (s : σ) :
    (r : Request) → r.Answer × σ
  | .callFleet call => (fleet log call, (setting s (.callFleet call)).2)
  | r => setting s r

namespace Course

/-- The beginning of a program. -/
def start (s : σ) (p : Program α) : Course σ α := ⟨s, (p.noted 0).1, (p.noted 0).2⟩

/-- The item with the given number goes on with an answer, in a new state of the setting. -/
def proceed (c : Course σ α) (i : ℕ) (turn : Turn α) (reply : turn.request.Answer × σ) :
    Course σ α :=
  ⟨reply.2, c.log ++ ⟨turn.request, reply.1⟩ :: ((turn.next reply.1).noted i).1,
    ((turn.next reply.1).noted i).2⟩

/-- A program takes a turn, if there is one to be taken. -/
def advance (setting : Setting σ) (fleet : Manner) (c : Course σ α) (i : ℕ) : Course σ α :=
  match c.rest.turn? i with
  | none => c
  | some turn => c.proceed i turn (setting.reply fleet c.log c.state turn.request)

/-- A program takes one turn after another. -/
def run (setting : Setting σ) (fleet : Manner) (schedule : List ℕ) (c : Course σ α) : Course σ α :=
  schedule.foldl (advance setting fleet) c

end Course

/-! ## What two courses have in common -/

/-- What an exchange is to somebody who hears neither the answers of the registry nor what is said
about them. -/
def Exchange.heard? : Exchange → Option (Call ⊕ Exchange)
  | ⟨.callFleet call, _⟩ => some (.inl call)
  | ⟨.count .fleetCallErrors, _⟩ | ⟨.report _, _⟩ => none
  | e => some (.inr e)

/-- A call that is to change something fails if it is not answered or the code of its answer is 400
or more, and this failure is told of it. -/
inductive Fleet.Fails : Result Response → Failure → Prop
  | unanswered (f : Failure) : Fails (.error f) (.rpc f)
  | refused {r : Response} (hcode : 400 ≤ r.code) :
    Fails (.ok r)
      (.rpc (.plain ("fleet responded with code " ++ toString r.code ++ ": " ++ r.message)))

/-- Every call that fails is followed at once by one count and one report, which has the failure and
names the node; and nothing is counted or reported otherwise. All calls are to change something. -/
inductive Accounted : List Exchange → Prop
  | nil : Accounted []
  | other {log : List Exchange} {e : Exchange} (h : Accounted log)
    (he : e.request.isLocal = true) : Accounted (log ++ [e])
  | succeeded {log : List Exchange} {call : Call} {r : Response} (h : Accounted log)
    (hchange : (Request.callFleet call).isChange = true) (hcode : r.code < 400) :
    Accounted (log ++ [⟨.callFleet call, (.ok r : Result Response)⟩])
  | failed {log : List Exchange} {call : Call} {a : Result Response} {f : Failure}
    {source : Report.Source} {subject : String} (h : Accounted log)
    (hchange : (Request.callFleet call).isChange = true) (ha : Fleet.Fails a f)
    (hnames : call.Names log subject) :
    Accounted (log ++ [⟨.callFleet call, a⟩, ⟨.count .fleetCallErrors, ()⟩,
      ⟨.report ⟨source, subject, f⟩, ()⟩])

namespace Fleet

variable {a : Result Response} {f : Failure}

theorem exists_code_lt_of_done (h : done a = .ok ()) : ∃ r, a = .ok r ∧ r.code < 400 := by
  cases a with
  | error f => cases h
  | ok r =>
    rw [done] at h
    split at h
    · cases h
    · next hcode => exact ⟨r, rfl, not_le.mp hcode⟩

theorem fails_of_done (h : done a = .error f) : Fails a f := by
  cases a with
  | error g =>
    cases h
    exact .unanswered g
  | ok r =>
    rw [done] at h
    split at h
    · next hcode =>
      cases h
      exact .refused hcode
    · cases h

end Fleet

theorem Exchange.filterMap_heard?_complaints (source : Report.Source) (subject : String)
    (a : Result Response) : (complaints source subject a).filterMap heard? = [] := by
  unfold complaints
  split <;> rfl

namespace Accounted

variable {log later : List Exchange}

theorem append (h : Accounted log) (hlater : ∀ e ∈ later, e.request.isLocal = true) :
    Accounted (log ++ later) := by
  induction later generalizing log with
  | nil => rwa [List.append_nil]
  | cons e later ih =>
    rw [List.append_cons]
    exact ih (h.other (hlater e List.mem_cons_self)) fun e' he' ↦
      hlater e' (List.mem_cons_of_mem _ he')

theorem append_call {call : Call} {subject : String} (h : Accounted log)
    (hchange : (Request.callFleet call).isChange = true) (hnames : call.Names log subject)
    (source : Report.Source) (a : Result Response) :
    Accounted (log ++ ⟨.callFleet call, a⟩ :: complaints source subject a) := by
  unfold complaints
  split
  · next ha =>
    obtain ⟨r, rfl, hcode⟩ := exists_code_lt_of_done ha
    exact .succeeded h hchange hcode
  · next f ha => exact .failed h hchange (fails_of_done ha) hnames

end Accounted

namespace Course

variable {setting : Setting σ} {fleet fleet' : Manner} {c c' : Course σ α}

theorem reply_of_isLocal {r : Request} (hr : r.isLocal = true) (log : List Exchange) (s : σ) :
    setting.reply fleet log s r = setting s r := by
  cases r with
  | callFleet => cases hr
  | _ => rfl

/-- After a call it goes on as it would have without an answer, but for the complaints. -/
theorem proceed_tell {call : Call} {next : (Request.callFleet call).Answer → Program α}
    {p : Program α} {i : ℕ} {source : Report.Source} {subject : String}
    (hnext : ∀ a, (next a).noted i = (complaints source subject a ++ (p.noted i).1, (p.noted i).2))
    (reply : (Request.callFleet call).Answer × σ) :
    c.proceed i ⟨.callFleet call, next⟩ reply = ⟨reply.2, c.log ++ ⟨.callFleet call, reply.1⟩ ::
      complaints source subject reply.1 ++ (p.noted i).1, (p.noted i).2⟩ := by
  simp only [proceed, hnext, List.append_assoc, List.cons_append]

/-- What failed calls there were is accounted for, and what is left to do is indifferent. -/
structure Orderly (c : Course σ α) : Prop where
  accounted : Accounted c.log
  indifferent : c.rest.Indifferent c.log

theorem Orderly.start (s : σ) {p : Program α} (hp : p.Indifferent []) :
    (Course.start s p).Orderly :=
  have hnoted := hp.noted 0
  ⟨Accounted.nil.append hnoted.1, hnoted.2⟩

theorem Orderly.advance (h : c.Orderly) (i : ℕ) : (c.advance setting fleet i).Orderly := by
  unfold Course.advance
  split
  · exact h
  · next turn hturn =>
    cases h.indifferent.turn hturn with
    | @ask r next hr hnext =>
      obtain ⟨hlocal, hrest⟩ := (hnext (setting.reply fleet c.log c.state r).1).noted i
      constructor
      · rw [proceed, List.append_cons]
        exact (h.accounted.other hr).append hlocal
      · rw [proceed, List.append_cons]
        exact hrest
    | @tell call next p source subject hchange hnames hnext hp =>
      obtain ⟨hlocal, hrest⟩ := hp.noted i
      rw [proceed_tell hnext]
      constructor
      · exact (h.accounted.append_call hchange hnames source _).append hlocal
      · exact hrest.mono ((List.sublist_append_left c.log _).append_right _).subset

/-- Courses which nobody can tell apart who does not hear what the registry answers. -/
structure Alike (c c' : Course σ α) : Prop where
  state : c.state = c'.state
  rest : c.rest = c'.rest
  heard : c.log.filterMap Exchange.heard? = c'.log.filterMap Exchange.heard?

theorem Alike.advance (h : c.Alike c') (hc : c.Orderly) (i : ℕ) :
    (c.advance setting fleet i).Alike (c'.advance setting fleet' i) := by
  unfold Course.advance
  rw [← h.rest]
  split
  · exact h
  · next turn hturn =>
    cases hc.indifferent.turn hturn with
    | ask hr hnext =>
      rw [reply_of_isLocal hr, reply_of_isLocal hr, ← h.state]
      exact ⟨rfl, rfl, by simp only [proceed, List.filterMap_append, h.heard]⟩
    | @tell call _ _ source subject hchange hnames hnext hp =>
      have hsilent : ∀ a : (Request.callFleet call).Answer,
          (complaints source subject a).filterMap Exchange.heard? = [] :=
        Exchange.filterMap_heard?_complaints source subject
      rw [proceed_tell hnext, proceed_tell hnext, ← h.state]
      refine ⟨rfl, rfl, ?_⟩
      simp only [List.filterMap_append, List.filterMap_cons, Exchange.heard?, hsilent, h.heard]

/-- Whatever two registries answer, courses that are alike stay alike. -/
theorem Alike.run (h : c.Alike c') (hc : c.Orderly) (hc' : c'.Orderly) (setting : Setting σ)
    (fleet fleet' : Manner) (schedule : List ℕ) :
    (c.run setting fleet schedule).Alike (c'.run setting fleet' schedule) ∧
      (c.run setting fleet schedule).Orderly ∧ (c'.run setting fleet' schedule).Orderly := by
  induction schedule generalizing c c' with
  | nil => exact ⟨h, hc, hc'⟩
  | cons i schedule ih => exact ih (h.advance hc i) (hc.advance i) (hc'.advance i)

end Course

/-- Two runs of an operation in one setting and on one schedule, under two registries that answer in
any two manners, ask the same requests and are told the same of all but the registry; they leave the
setting in the same state, and have the same left to do, so they come to the same result. In each of
them every failed call is counted once and reported once, under the name of its node, and nothing
else is. -/
theorem registry_has_no_say (d : Duties) (errand : Errand) (setting : Setting σ) (s : σ)
    (schedule : List ℕ) (fleet fleet' : Manner) :
    let c := (Course.start s (errand.program d)).run setting fleet schedule
    let c' := (Course.start s (errand.program d)).run setting fleet' schedule
    c.state = c'.state ∧ c.rest = c'.rest ∧
      c.log.filterMap Exchange.heard? = c'.log.filterMap Exchange.heard? ∧
      Accounted c.log ∧ Accounted c'.log := by
  have hstart := Course.Orderly.start s (errand.indifferent_program d [])
  obtain ⟨halike, hc, hc'⟩ := Course.Alike.run ⟨rfl, rfl, rfl⟩ hstart hstart setting fleet fleet'
    schedule
  exact ⟨halike.state, halike.rest, halike.heard, hc.accounted, hc'.accounted⟩

/-- A world in which no request fails and nobody else changes anything. -/
def Setting.calm : Setting Simulation.World := fun w r ↦ ((w.respond {} r).2, (w.respond {} r).1)

/-- A registry that answers every call with a code. -/
def Fleet.Manner.always (code : Int) : Manner := fun _ _ ↦ .ok { code, message := "full" }

/-- The node "a" is refused by the registry. That is counted and reported, and the record of the
node is created all the same. -/
theorem refusal_changes_no_record :
    let d : Duties := ⟨"c", ⟨3, 100⟩, ["cpu"], 1, 10, 10, "tasks", default⟩
    let errand : Errand := .create { nodeName := "a" }
    let start : Course Simulation.World errand.Value := .start {} (errand.program d)
    let refused := start.run .calm (.always 500) [0, 0, 0]
    let accepted := start.run .calm (.always 399) [0, 0, 0]
    refused.rest = .done (.ok .created) ∧ accepted.rest = .done (.ok .created) ∧
      refused.state.store.records.keys = ["a"] ∧ refused.state = accepted.state ∧
      refused.log.map (·.request.kind) =
        [.fetchRecord, .createRecord, .count, .callFleet, .count, .report] ∧
      refused.log.getLast? = some ⟨.report ⟨.reconciler, "a",
        .rpc (.plain "fleet responded with code 500: full")⟩, ()⟩ ∧
      accepted.log.map (·.request.kind) = [.fetchRecord, .createRecord, .count, .callFleet] ∧
      Accounted refused.log ∧ Accounted accepted.log := by
  intro d errand start refused accepted
  obtain ⟨hstate, hrest, -, hrefused, haccepted⟩ :=
    registry_has_no_say d errand .calm {} [0, 0, 0] (.always 500) (.always 399)
  have hended : refused.rest = .done (.ok .created) := rfl
  exact ⟨hended, hrest.symm.trans hended, by decide +kernel, hstate, rfl, rfl, rfl, hrefused,
    haccepted⟩

end NodeInventory
