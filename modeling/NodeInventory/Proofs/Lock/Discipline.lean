import NodeInventory.Proofs.Bound
import NodeInventory.Proofs.Lock.Solo

/-!
# What a run asks of the store

Of a run that has ended everything can be told (`Disciplined`). If the key was not set, the work was
not begun. If it was set, the key was extended as long as the work lasted, and removed in the moment
in which the work had ended. At that moment an extension may be due as well; then it is a matter of
chance whether it is made, but it is not made after the key was removed. And if the work comes to an
end, so does the run (`run_keeps_the_discipline`).

The proof says once what each request of a run leaves behind (`Stage`). A stage in which the run has
something to ask that takes no time lasts no time, so all that comes after the work happens at the
time of the last request of the work.
-/

namespace NodeInventory.Lock

open Program
open Simulation (Kernel Renewal)

variable {c : Trial}

/-! ## When the key is extended -/

theorem extension_lt_succ (since ttl k : ℕ) :
    Renewal.extension since ttl k < Renewal.extension since ttl (k + 1) := by
  rw [Renewal.extension, Renewal.extension, Nat.add_one_mul]
  omega

theorem strictMono_extension (since ttl : ℕ) : StrictMono (Renewal.extension since ttl) :=
  strictMono_nat_of_lt_succ (extension_lt_succ since ttl)

namespace Trial

/-- All extensions that were due before a time were made, and none that is due after it. -/
structure Extended (c : Trial) (time count : ℕ) : Prop where
  le : Renewal.extension c.since c.ttl count ≤ time
  ge : time ≤ Renewal.extension c.since c.ttl (count + 1)

/-- As many extensions were made as are due before the end, or one more that is due at the end. -/
def ExtendedUntil (c : Trial) (finish count : ℕ) : Prop :=
  ∃ before, (∀ k, Renewal.extension c.since c.ttl (k + 1) < finish ↔ k < before) ∧
    (count = before ∨ count = before + 1 ∧ Renewal.extension c.since c.ttl count = finish)

theorem Extended.until {finish count : ℕ} (h : c.Extended finish count) :
    c.ExtendedUntil finish count := by
  have hmono := strictMono_extension c.since c.ttl
  obtain heq | hlt := h.le.eq_or_lt
  -- the last extension was due at the end
  · cases count with
    | zero =>
      refine ⟨0, fun k ↦ iff_of_false (fun hk ↦ ?_) (Nat.not_lt_zero k), .inl rfl⟩
      rw [← heq, hmono.lt_iff_lt] at hk
      exact absurd hk (Nat.not_lt_zero _)
    | succ before =>
      refine ⟨before, fun k ↦ ?_, .inr ⟨rfl, heq⟩⟩
      rw [← heq, hmono.lt_iff_lt, Nat.add_lt_add_iff_right]
  · refine ⟨count, fun k ↦ ⟨fun hk ↦ ?_, fun hk ↦ ?_⟩, .inl rfl⟩
    · exact Nat.add_lt_add_iff_right.mp (hmono.lt_iff_lt.mp (hk.trans_le h.ge))
    · exact (hmono.monotone hk).trans_lt hlt

theorem extensions_concat (answers : List (Result Bool)) (answer : Result Bool) :
    c.extensions (answers ++ [answer]) =
      c.extensions answers ++ [c.extension answers.length answer] :=
  List.mapIdx_concat

section

variable (c)

theorem due_renewal (fired : ℕ) :
    (c.renewal fired).due = Renewal.extension c.since c.ttl (fired + 1) := rfl

theorem renewal_succ (answers : List (Result Bool)) (answer : Result Bool) :
    { c.renewal answers.length with fired := (c.renewal answers.length).fired + 1 } =
      c.renewal (answers ++ [answer]).length := by
  rw [List.length_append]
  rfl

theorem extended_start : c.Extended c.since 0 :=
  ⟨(extension_zero _ _).le, (extension_zero _ _).ge.trans (extension_le_succ _ _ _)⟩

theorem renew_stopRenewal_renewal (now fired : ℕ) :
    renew c.key now [c.renewal fired] (.stopRenewal c.key) = [] := by
  rw [renew_stopRenewal]
  simp [renewal, Kernel.stopRenewal]

end

/-- The key is extended when an extension is due, and then it is one that was made. -/
theorem Extended.extend {time : ℕ} {answers : List (Result Bool)}
    (h : c.Extended time answers.length) (hdue : (c.renewal answers.length).due ≤ time)
    (answer : Result Bool) (commands : List Timed) :
    c.Extended time (answers ++ [answer]).length ∧
      commands ++ c.extensions answers ++ [(time, ⟨(c.renewal answers.length).request, answer⟩)] =
        commands ++ c.extensions (answers ++ [answer]) := by
  rw [due_renewal] at hdue
  rw [List.length_append, List.length_singleton, extensions_concat, List.append_assoc,
    le_antisymm h.ge hdue]
  exact ⟨⟨le_rfl, extension_le_succ _ _ _⟩, rfl⟩

end Trial

/-! ## How far a run has got -/

/-- The work has ended, and up to its end the key was extended. -/
structure Trial.Worked (c : Trial) (log : List Timed) (result : Result Unit) (count : ℕ) : Prop
    where
  ended : ∃ rest, Works c.work log rest ∧ rest.Ended result
  extended : c.Extended (lastTime c.since log) count

namespace Solo

/-- How far a run has got, with all that it has asked and all commands that the store was sent. -/
inductive Stage (c : Trial) : List Timed → List Timed → Solo → Prop
  | begun : Stage c [] [] ⟨c.since, ask (.setKey c.key c.owner c.ttl) c.afterSet, []⟩
  | denied {answer : Result Bool} (hanswer : answer ≠ .ok true) :
    Stage c (stamp c.since [c.setting answer]) (stamp c.since [c.setting answer])
      ⟨c.since, c.afterSet answer, []⟩
  | skipped {answer : Result Bool} (hanswer : answer ≠ .ok true) (now : ℕ) :
    Stage c (stamp c.since [c.setting answer, c.denial answer])
      (stamp c.since [c.setting answer]) ⟨now, done .skipped, []⟩
  | granted :
    Stage c (stamp c.since [c.setting (.ok true)]) (stamp c.since [c.setting (.ok true)])
      ⟨c.since, c.afterSet (.ok true), []⟩
  | renewing :
    Stage c (stamp c.since [c.setting (.ok true), ⟨.startRenewal c.key c.ttl, ()⟩])
      (stamp c.since [c.setting (.ok true)])
      ⟨c.since, ask (.count (.jobRuns c.job)) fun _ ↦ c.work >>= c.afterWork, [c.renewal 0]⟩
  | working {log : List Timed} {rest : Program (Result Unit)} {answers : List (Result Bool)}
    {now : ℕ} (hworks : Works c.work log rest) (hquiet : Quiet c.key rest)
    (hextended : c.Extended now answers.length)
    (hended : ∀ result, rest.Ended result → now = lastTime c.since log) :
    Stage c (stamp c.since c.opening ++ log)
      (stamp c.since [c.setting (.ok true)] ++ c.extensions answers)
      ⟨now, rest >>= c.afterWork, [c.renewal answers.length]⟩
  /-- A failure of the work was reported. -/
  | reported {log : List Timed} {f : Failure} {answers : List (Result Bool)}
    (h : c.Worked log (.error f) answers.length) :
    Stage c
      (stamp c.since c.opening ++ log ++ stamp (lastTime c.since log) (c.failures (.error f)))
      (stamp c.since [c.setting (.ok true)] ++ c.extensions answers)
      ⟨lastTime c.since log, c.closing .failed, [c.renewal answers.length]⟩
  | leaving {log : List Timed} {result : Result Unit} {answers : List (Result Bool)}
    (h : c.Worked log result answers.length) :
    Stage c
      (stamp c.since c.opening ++ log ++
        stamp (lastTime c.since log) (c.failures result ++ [⟨.stopRenewal c.key, ()⟩]))
      (stamp c.since [c.setting (.ok true)] ++ c.extensions answers)
      ⟨lastTime c.since log, ask (.deleteKey c.key) (c.afterDelete (outcome result)), []⟩
  /-- The key could not be removed. -/
  | unreleased {log : List Timed} {result : Result Unit} {f : Failure}
    {answers : List (Result Bool)} (h : c.Worked log result answers.length) :
    Stage c
      (stamp c.since c.opening ++ log ++
        stamp (lastTime c.since log) (c.failures result ++ c.removal (.error f)))
      (stamp c.since [c.setting (.ok true)] ++ c.extensions answers ++
        stamp (lastTime c.since log) [⟨.deleteKey c.key, .error f⟩])
      ⟨lastTime c.since log, c.afterDelete (outcome result) (.error f), []⟩
  | gone {log : List Timed} {result released : Result Unit} {answers : List (Result Bool)}
    (h : c.Worked log result answers.length) (now : ℕ) :
    Stage c
      (stamp c.since c.opening ++ log ++
        stamp (lastTime c.since log) (c.failures result ++ (c.removal released ++
          c.failures (released.within "error releasing job lock"))))
      (stamp c.since [c.setting (.ok true)] ++ c.extensions answers ++
        stamp (lastTime c.since log) [⟨.deleteKey c.key, released⟩])
      ⟨now, done (outcome result), []⟩

end Solo

namespace Solo

variable {xs ys : List Timed} {now : ℕ} {p q : Program RunOutcome} {rs : List Renewal}
  {s t : Solo} {r : Request} {a : r.Answer} {e : Event}

/-- The work of a run asks for something, or it has ended and the run goes on without it. -/
theorem Stage.ask_working {log : List Timed} {rest : Program (Result Unit)}
    {answers : List (Result Bool)} (hworks : Works c.work log rest) (hquiet : Quiet c.key rest)
    (hextended : c.Extended now answers.length)
    (hended : ∀ result, rest.Ended result → now = lastTime c.since log)
    (hstep : (rest >>= c.afterWork).Step r a q) :
    Stage c (stamp c.since c.opening ++ log ++ [(now, ⟨r, a⟩)])
      (stamp c.since [c.setting (.ok true)] ++ c.extensions answers ++
        if isCommand c.key r then [(now, ⟨r, a⟩)] else [])
      ⟨now, q, renew c.key now [c.renewal answers.length] r⟩ := by
  obtain ⟨y, hy, rfl⟩ | ⟨result, hresult, hstep⟩ := step_bind hstep
  · obtain ⟨hr, hquiet⟩ := hquiet.step hy
    rw [isCommand_of_ne hr, if_neg Bool.false_ne_true, List.append_nil, renew_of_ne hr,
      List.append_assoc]
    refine .working ?_ hquiet hextended fun _ _ ↦ (lastTime_concat c.since log (_, _)).symm
    rw [Works, List.map_append]
    exact hworks.snoc hy
  -- the work has ended, and time has not gone on since
  · obtain rfl := hended result hresult
    have hworked : c.Worked log result answers.length := ⟨⟨rest, hworks, hresult⟩, hextended⟩
    match result with
    | .error f =>
      cases (hstep : (Program.ask _ _).Step r a q) with
      | ask =>
        change Stage c _ (_ ++ []) _
        rw [List.append_nil]
        exact .reported hworked
    | .ok () =>
      cases (hstep : (Program.ask _ _).Step r a q) with
      | ask =>
        change Stage c _ (_ ++ []) _
        rw [List.append_nil, c.renew_stopRenewal_renewal]
        exact .leaving hworked

/-- A run asks for something. -/
theorem Stage.ask (hwork : Quiet c.key c.work) (h : Stage c xs ys ⟨now, p, rs⟩)
    (hstep : p.Step r a q) :
    Stage c (xs ++ [(now, ⟨r, a⟩)])
      (ys ++ if isCommand c.key r then [(now, ⟨r, a⟩)] else [])
      ⟨now, q, renew c.key now rs r⟩ := by
  cases h with
  | begun =>
    cases hstep with
    | ask _ answer =>
      rw [isCommand_setKey, if_pos rfl]
      by_cases hanswer : answer = .ok true
      · subst hanswer
        exact .granted
      · exact .denied hanswer
  | @denied answer hanswer =>
    match answer with
    | .ok true => exact absurd rfl hanswer
    | .ok false | .error _ =>
      cases (hstep : (Program.ask _ _).Step r a q) with
      | ask =>
        change Stage c _ (_ ++ []) _
        exact .skipped hanswer _
  | skipped => cases hstep
  | granted =>
    cases (hstep : (Program.ask _ _).Step r a q) with
    | ask =>
      change Stage c _ (_ ++ []) _
      rw [renew_startRenewal]
      exact .renewing
  | renewing =>
    cases hstep with
    | ask =>
      change Stage c _ (_ ++ []) _
      exact @Stage.working c [] c.work [] c.since .nil hwork c.extended_start fun _ _ ↦ rfl
  | working hworks hquiet hextended hended => exact ask_working hworks hquiet hextended hended hstep
  | reported h =>
    cases hstep with
    | ask =>
      change Stage c _ (_ ++ []) _
      rw [List.append_nil, c.renew_stopRenewal_renewal, append_stamp_concat]
      exact .leaving h
  | leaving h =>
    cases hstep with
    | ask _ released =>
      rw [isCommand_deleteKey, if_pos rfl, append_stamp_concat, List.append_assoc (c.failures _)]
      match released with
      | .ok () => exact .gone h _
      | .error f => exact .unreleased h
  | unreleased h =>
    cases (hstep : (Program.ask _ _).Step r a q) with
    | ask =>
      change Stage c _ (_ ++ []) _
      rw [List.append_nil, append_stamp_concat, List.append_assoc (c.failures _)]
      exact .gone h _
  | gone h => cases hstep

/-- The key is extended. -/
theorem Stage.extend {before after : List Renewal} {x : Renewal}
    (h : Stage c xs ys ⟨now, p, before ++ x :: after⟩) (hdue : x.due ≤ now)
    (answer : Result Bool) :
    Stage c xs (ys ++ [(now, ⟨x.request, answer⟩)])
      ⟨now, p, before ++ { x with fired := x.fired + 1 } :: after⟩ := by
  generalize hrs : before ++ x :: after = rs at h
  have hnone : rs ≠ [] := by
    rintro rfl
    simp at hrs
  have hone : ∀ {fired}, rs = [c.renewal fired] → before = [] ∧ x = c.renewal fired ∧ after = [] := by
    rintro fired rfl
    cases before with
    | nil => simpa using hrs
    | cons => simp at hrs
  cases h with
  | begun | denied | skipped | granted | leaving | unreleased | gone => exact absurd rfl hnone
  | renewing =>
    obtain ⟨rfl, rfl, rfl⟩ := hone rfl
    rw [c.due_renewal] at hdue
    exact absurd (extension_lt_succ c.since c.ttl 0) (Nat.not_lt.mpr (extension_zero .. ▸ hdue))
  | working hworks hquiet hextended hended =>
    obtain ⟨rfl, rfl, rfl⟩ := hone rfl
    obtain ⟨hextended, hcommands⟩ := hextended.extend hdue answer (stamp c.since _)
    rw [hcommands, c.renewal_succ]
    exact .working hworks hquiet hextended hended
  | reported h =>
    obtain ⟨rfl, rfl, rfl⟩ := hone rfl
    obtain ⟨hextended, hcommands⟩ := h.extended.extend hdue answer (stamp c.since _)
    rw [hcommands, c.renewal_succ]
    exact .reported ⟨h.ended, hextended⟩

theorem isPrompt_count (counter : Counter) : IsPrompt c.key (.count counter) :=
  .inr (by simp [Request.IsNote, Request.kind])

theorem isPrompt_report (report : Report) : IsPrompt c.key (.report report) :=
  .inr (by simp [Request.IsNote, Request.kind])

/-- Time passes. -/
theorem Stage.pass {millis : ℕ} (h : Stage c xs ys ⟨now, p, rs⟩)
    (hdue : ∀ x ∈ rs, now + millis ≤ x.due)
    (hprompt : ∀ r a q, p.Step r a q → ¬IsPrompt c.key r) :
    Stage c xs ys ⟨now + millis, p, rs⟩ := by
  cases h with
  | begun => exact absurd (.inl rfl) (hprompt (.setKey _ _ _) (Except.ok true) _ (.ask _ _))
  | @denied answer hanswer =>
    match answer with
    | .ok true => exact absurd rfl hanswer
    | .ok false => exact absurd (isPrompt_count _) (hprompt (.count _) () _ (.ask _ _))
    | .error _ => exact absurd (isPrompt_report _) (hprompt (.report _) () _ (.ask _ _))
  | skipped hanswer => exact .skipped hanswer _
  | granted => exact absurd (.inl rfl) (hprompt (.startRenewal _ _) () _ (.ask _ _))
  | renewing => exact absurd (isPrompt_count _) (hprompt _ () _ (.ask _ _))
  | working hworks hquiet hextended hended =>
    refine .working hworks hquiet ⟨hextended.le.trans (Nat.le_add_right ..), ?_⟩
      fun result hresult ↦ ?_
    · exact hdue _ (List.mem_singleton_self _)
    · cases result with
      | ok =>
        exact absurd (.inl rfl) (hprompt (.stopRenewal _) () _ (hresult.step_bind (.ask _ _)))
      | error =>
        exact absurd (isPrompt_report _) (hprompt (.report _) () _ (hresult.step_bind (.ask _ _)))
  | reported => exact absurd (.inl rfl) (hprompt (.stopRenewal _) () _ (.ask _ _))
  | leaving => exact absurd (.inl rfl) (hprompt (.deleteKey _) (Except.ok ()) _ (.ask _ _))
  | unreleased => exact absurd (isPrompt_report _) (hprompt (.report _) () _ (.ask _ _))
  | gone h => exact .gone h _

theorem Stage.step (hwork : Quiet c.key c.work) (h : Stage c xs ys s)
    (hstep : Step c.key s e t) :
    Stage c (xs ++ e.asked?.toList) (ys ++ (e.command? c.key).toList) t := by
  cases hstep with
  | asked hstep =>
    have hasked := h.ask hwork hstep
    rw [Event.command?]
    split
    · next hr => rwa [if_pos hr] at hasked
    · next hr => rwa [if_neg hr] at hasked
  | extended answer hr hdue =>
    rw [Event.asked?, Option.toList_none, List.append_nil]
    obtain ⟨now, p, rs⟩ := s
    subst hr
    exact h.extend hdue answer
  | passed millis hdue hprompt =>
    rw [Event.asked?, Event.command?, Option.toList_none, List.append_nil, List.append_nil]
    exact h.pass hdue hprompt

theorem stage_of_run {events : List Event} (hwork : Quiet c.key c.work)
    (hrun : Run (Step c.key) c.start events s) :
    Stage c (asked events) (commands c.key events) s := by
  induction hrun with
  | nil =>
    rw [Trial.start, c.run_eq]
    exact .begun
  | snoc _ hstep ih =>
    rw [asked, commands, filterMap_snoc, filterMap_snoc]
    exact ih.step hwork hstep

end Solo

/-! ## Runs that have ended -/

/-- All that is asked in a run that has ended, all commands that the store is sent, and what becomes
of the run. -/
inductive Disciplined (c : Trial) : List Timed → List Timed → RunOutcome → Prop
  /-- The key was not set, and the work was not begun. -/
  | skipped {answer : Result Bool} (hanswer : answer ≠ .ok true) :
    Disciplined c (stamp c.since [c.setting answer, c.denial answer])
      (stamp c.since [c.setting answer]) .skipped
  /-- The key was set, extended until the work had ended, and removed then. -/
  | ran {log : List Timed} {rest : Program (Result Unit)} {result released : Result Unit}
    {answers : List (Result Bool)} (hworks : Works c.work log rest) (hended : rest.Ended result)
    (hextended : c.ExtendedUntil (lastTime c.since log) answers.length) :
    Disciplined c
      (stamp c.since c.opening ++ log ++
        stamp (lastTime c.since log) (c.failures result ++ (c.removal released ++
          c.failures (released.within "error releasing job lock"))))
      (stamp c.since [c.setting (.ok true)] ++ c.extensions answers ++
        stamp (lastTime c.since log) [⟨.deleteKey c.key, released⟩])
      (outcome result)

namespace Solo

theorem Stage.disciplined {became : RunOutcome} (h : Stage c xs ys s)
    (hended : s.rest.Ended became) : Disciplined c xs ys became := by
  cases h with
  | begun | renewing | reported | leaving => cases hended
  | @denied answer hanswer =>
    match answer with
    | .ok true => exact absurd rfl hanswer
    | .ok false | .error _ => cases (hended : (Program.ask _ _).Ended became)
  | granted | unreleased => cases (hended : (Program.ask _ _).Ended became)
  | skipped hanswer =>
    cases hended with
    | done => exact .skipped hanswer
  | working =>
    obtain ⟨result, -, hended⟩ := ended_bind hended
    match result with
    | .ok () | .error _ => cases (hended : (Program.ask _ _).Ended became)
  | gone h =>
    obtain ⟨rest, hworks, hresult⟩ := h.ended
    cases hended with
    | done => exact .ran hworks hresult h.extended.until

/-! ## Runs that end -/

/-- Something happens until the run has asked once more. -/
def Moves (key : String) (s t : Solo) : Prop :=
  ∃ events x, Run (Step key) s events t ∧ asked events = [x]

theorem rest_of_run {key : String} {events : List Event} (hrun : Run (Step key) s events t) :
    Run (fun p (e : Exchange) q ↦ p.Step e.request e.answer q) s.rest
      ((asked events).map (·.2)) t.rest := by
  induction hrun with
  | nil => exact .nil
  | snoc _ hstep ih =>
    rw [asked, filterMap_snoc, List.map_append]
    cases hstep with
    | asked hstep => exact ih.snoc hstep
    | extended | passed => rwa [Event.asked?, Option.toList_none, List.map_nil, List.append_nil]

theorem acc_moves {key : String} {p : Program RunOutcome} (hp : p.Terminates) (s : Solo)
    (hs : s.rest = p) : Acc (fun t s ↦ Moves key s t) s := by
  induction hp generalizing s with
  | intro p _ ih =>
    refine .intro s fun t ⟨events, x, hrun, hasked⟩ ↦ ?_
    have hstep := (rest_of_run hrun).step_of_singleton (by rw [hasked, List.map_singleton])
    exact ih t.rest ⟨_, _, hs ▸ hstep⟩ t rfl

theorem moves_of_not_ended (key : String) (s : Solo) :
    (∃ became, s.rest.Ended became) ∨ ∃ t, Moves key s t := by
  obtain hended | ⟨r, hr⟩ := s.rest.ended_or_asks
  · exact .inl hended
  · obtain ⟨a⟩ := r.nonempty_answer
    obtain ⟨q, hq⟩ := hr a
    exact .inr ⟨_, _, _, Run.nil.snoc (.asked hq), rfl⟩

/-- However the store answers, a run that has ended has asked for what it should, and the store was
sent the commands that it should be sent. If the work comes to an end so does the run. -/
theorem run_keeps_the_discipline {events : List Event} (hwork : Quiet c.key c.work)
    (hrun : Run (Step c.key) c.start events s) :
    (∀ became, s.rest.Ended became →
      Disciplined c (asked events) (commands c.key events) became) ∧
    (c.work.Terminates → Inevitable (Moves c.key) (fun t ↦ ∃ became, t.rest.Ended became) s) := by
  refine ⟨fun became ↦ (stage_of_run hwork hrun).disciplined, fun hends ↦ ?_⟩
  have hrest : s.rest.Terminates :=
    hrun.invariant (p := fun s ↦ s.rest.Terminates) (terminates_run c.owner c.job c.ttl hends)
      fun s e t hs hstep ↦ by
        cases hstep with
        | asked hstep => exact hs.step hstep
        | extended | passed => exact hs
  exact .of_acc (acc_moves hrest s rfl) (moves_of_not_ended c.key)

/-- A job that fails after 100 milliseconds, and has the lock for 60. -/
def failingTrial : Trial where
  owner := "a"
  job := "sync"
  ttl := 60
  work := Simulation.timedWork 100 (some (.plain "failed"))
  since := 0

theorem not_isPrompt_timedWork {key : String} (duration : ℕ) (failure : Option Failure)
    {f : Result Unit → Program RunOutcome} (r : Request) (a : r.Answer) (q : Program RunOutcome)
    (hstep : (Simulation.timedWork duration failure >>= f).Step r a q) : ¬IsPrompt key r := by
  cases (hstep : (Program.ask (.pause duration) _).Step r a q)
  simp [IsPrompt, Request.lockKey?, Request.IsNote, Request.kind]

/-- The key of a job that works for some time is extended three times, though the first extension
fails and the second one comes too late, and is removed when the job has failed. -/
theorem failing_run_keeps_the_discipline :
    ∃ events s, Run (Step failingTrial.key) failingTrial.start events s ∧
      s.rest.Ended .failed ∧
      commands failingTrial.key events =
        [(0, failingTrial.setting (.ok true)),
          (30, ⟨.extendKey failingTrial.key 60, .error (.plain "lost")⟩),
          (60, ⟨.extendKey failingTrial.key 60, .ok false⟩),
          (90, ⟨.extendKey failingTrial.key 60, .ok true⟩),
          (100, ⟨.deleteKey failingTrial.key, .error (.plain "lost")⟩)] ∧
      Disciplined failingTrial (asked events) (commands failingTrial.key events) .failed ∧
      Inevitable (Moves failingTrial.key) (fun t ↦ ∃ became, t.rest.Ended became)
        failingTrial.start := by
  have hwork : Quiet failingTrial.key failingTrial.work :=
    quiet_timedWork 100 (some (.plain "failed"))
  have hstart : Run (Step failingTrial.key) failingTrial.start [] failingTrial.start := .nil
  have h₀ : Run (Step failingTrial.key) failingTrial.start []
      ⟨0, .ask (.setKey failingTrial.key "a" 60) failingTrial.afterSet, []⟩ :=
    failingTrial.run_eq ▸ hstart
  have h₃ := ((h₀.snoc
    (.asked (r := .setKey failingTrial.key "a" 60) (a := Except.ok true) (.ask _ _))).snoc
    (.asked (r := .startRenewal failingTrial.key 60) (a := ()) (.ask _ _))).snoc
    (.asked (r := .count (.jobRuns "sync")) (a := ()) (.ask _ _))
  rw [renew_startRenewal] at h₃
  have hwait : ∀ (r : Request) (a : r.Answer) (q : Program RunOutcome),
      (failingTrial.work >>= failingTrial.afterWork).Step r a q → ¬IsPrompt failingTrial.key r :=
    not_isPrompt_timedWork 100 (some (.plain "failed"))
  have h₅ := (h₃.snoc (.passed 30 (List.forall_mem_singleton.mpr (by decide)) hwait)).snoc
    (@Step.extended _ _ [] [] _ (.error (.plain "lost")) rfl (by decide))
  have h₇ := (h₅.snoc (.passed 30 (List.forall_mem_singleton.mpr (by decide)) hwait)).snoc
    (@Step.extended _ _ [] [] _ (.ok false) rfl (by decide))
  have h₉ := (h₇.snoc (.passed 30 (List.forall_mem_singleton.mpr (by decide)) hwait)).snoc
    (@Step.extended _ _ [] [] _ (.ok true) rfl (by decide))
  have h₁₁ := (h₉.snoc (.passed 10 (List.forall_mem_singleton.mpr (by decide)) hwait)).snoc
    (.asked (r := .pause 100) (a := ()) (.ask _ _))
  have h₁₃ := (h₁₁.snoc
    (.asked (r := .report ⟨.scheduler, "sync", .plain "failed"⟩) (a := ()) (.ask _ _))).snoc
    (.asked (r := .stopRenewal failingTrial.key) (a := ()) (.ask _ _))
  have h₁₅ := (h₁₃.snoc (.asked (r := .deleteKey failingTrial.key)
    (a := Except.error (.plain "lost")) (.ask _ _))).snoc
    (.asked (r := .report ⟨.scheduler, "sync", .context "error releasing job lock" (.plain "lost")⟩)
      (a := ()) (.ask _ _))
  exact ⟨_, _, h₁₅, .done _, rfl, (run_keeps_the_discipline hwork h₁₅).1 _ (.done _),
    (run_keeps_the_discipline hwork hstart).2
      (terminates_timedWork 100 (some (.plain "failed")))⟩

end Solo

end NodeInventory.Lock
